import Lbcd.Interaction.Firsts
import Lbcd.LoadSteps
import Lbcd.Probes
import Lbcd.Users

namespace Lbcd

open Interaction CText

/-- The names that get_user_stats counts, one for each USER_PROCESS record. -/
def userNames (records : List Utmpx) : List CStr :=
  (records.filter Utmpx.userProcess).map fun ut => CStr.ofBuffer ut.utUser

/-- The version of uniq_add for systems without hsearch. -/
def uniqAddLinear (name : CStr) (users : List CStr) : List CStr :=
  if name∈users then users else users++[name]

def linearUsers (names : List CStr) : List CStr :=
  names.foldl (fun users name => uniqAddLinear name users) []

theorem linearUsers_eq (names : List CStr) : linearUsers names=firstsBy id names := by
  have hstep : (fun users name => uniqAddLinear name users)=addFirst (α := CStr) id := by
    funext users name
    rw [addFirst,List.map_id]
    rfl
  rw [linearUsers,hstep]
  rfl

theorem linearUsers_concat (names : List CStr) (name : CStr) :
    linearUsers (names++[name])=uniqAddLinear name (linearUsers names) := by
  rw [linearUsers,List.foldl_append]
  rfl

theorem mem_linearUsers {names : List CStr} {name : CStr} :
    name∈linearUsers names ↔ name∈names := by
  have hkeys := mem_keys_firstsBy id (l := names) (k := name)
  rwa [List.map_id,List.map_id,← linearUsers_eq] at hkeys

theorem nodup_linearUsers (names : List CStr) : (linearUsers names).Nodup := by
  have hkeys := nodup_keys_firstsBy id names
  rwa [List.map_id,← linearUsers_eq] at hkeys

theorem linearUsers_extends (names rest : List CStr) :
    linearUsers names<+:linearUsers (names++rest) := by
  rw [linearUsers_eq,linearUsers_eq]
  exact firstsBy_prefix id names rest

/-- The counts of one list of records, as the linear scan has them; an int holds both. -/
structure RightCounts (records : List Utmpx) (s : UserStats) : Prop where
  total : cInt s.total=some ((userNames records).length : ℤ)
  uniq : cInt s.uniq=some ((linearUsers (userNames records)).length : ℤ)
  distinct : s.uniq=((userNames records).toFinset.card : ℤ)
  le : s.uniq ≤ s.total

/-- Every call that reads these records returns their counts. -/
def CountsRight (records : List Utmpx) : Prop :=
  ∀ (cache : UserCache) (o : Oracle System) (r : UserStats × UserCache),
    (getUserStats cache).result o=some r →
    answered .utmpRecords records∈(getUserStats cache).trace o → RightCounts records r.1

/-- Every name that occurs again is one of the first 211 different names. -/
def RepeatsEarly (names : List CStr) : Prop :=
  ∀ name,2 ≤ names.count name → name∈(linearUsers names).take hashSize

/-- The hash table against the vector of the users found so far. -/
structure InStep (table users : List CStr) : Prop where
  sub : table⊆users
  first : users.take hashSize⊆table
  length : table.length ≤ users.length

theorem InStep.found {names rest table : List CStr} {name : CStr}
    (h : InStep table (linearUsers names)) (hearly : RepeatsEarly (names++name :: rest)) :
    name∈table ↔ name∈linearUsers names := by
  refine ⟨fun hm => h.sub hm,fun hm => ?_⟩
  have hin : name∈names := mem_linearUsers.mp hm
  have htwice : 2 ≤ (names++name :: rest).count name := by
    have hpos := List.count_pos_iff.mpr hin
    rw [List.count_append,List.count_cons_self]
    omega
  have hfirst := hearly name htwice
  obtain ⟨more,hmore⟩ := linearUsers_extends names (name :: rest)
  rw [← hmore,List.take_append,List.mem_append] at hfirst
  rcases hfirst with hfirst|hfirst
  · exact h.first hfirst
  · have hnd := nodup_linearUsers (names++name :: rest)
    rw [← hmore] at hnd
    exact absurd (List.mem_of_mem_take hfirst) (List.disjoint_of_nodup_append hnd hm)

theorem InStep.add {table users : List CStr} (h : InStep table users) (name : CStr) :
    InStep (name :: table) (users++[name]) := by
  refine ⟨fun u hu => ?_,fun u hu => ?_,?_⟩
  · rcases List.mem_cons.mp hu with rfl|hu
    · exact List.mem_append_right users (List.mem_singleton_self _)
    · exact List.mem_append_left [name] (h.sub hu)
  · rw [List.take_append,List.mem_append] at hu
    rcases hu with hu|hu
    · exact List.mem_cons_of_mem name (h.first hu)
    · rw [List.mem_singleton.mp (List.mem_of_mem_take hu)]
      exact List.mem_cons_self
  · rw [List.length_cons,List.length_append,List.length_singleton]
    have hle := h.length
    omega

theorem inStep_nil : InStep [] (linearUsers []) := ⟨fun _ h => h,fun _ h => h,le_refl 0⟩

/-- A table that is full may stay as it is. -/
theorem InStep.keep {table users : List CStr} (h : InStep table users)
    (hfull : ¬table.length < hashSize) (name : CStr) : InStep table (users++[name]) := by
  have hle := h.length
  refine ⟨fun u hu => List.mem_append_left [name] (h.sub hu),?_,?_⟩
  · rw [List.take_append_of_le_length (by omega)]
    exact h.first
  · rw [List.length_append]
    omega

def EntersOnly (c : SysCall) : Prop := ∃ count,c=.hsearchEnter count

theorem uniqAdd_inStep {names rest table : List CStr} {name : CStr}
    (h : InStep table (linearUsers names)) (hearly : RepeatsEarly (names++name :: rest)) :
    (uniqAdd name table (linearUsers names)).Meets EntersOnly fun r =>
      r.2=linearUsers (names++[name]) ∧ InStep r.1 r.2 := by
  have hfound := h.found hearly
  rw [linearUsers_concat,uniqAdd,uniqAddLinear]
  by_cases hm : name∈table
  · rw [if_pos hm,if_pos (hfound.mp hm)]
    exact ⟨rfl,h⟩
  · rw [if_neg hm,if_neg fun hu => hm (hfound.mpr hu)]
    split_ifs with hroom
    · exact ⟨rfl,h.add name⟩
    · refine ⟨⟨_,rfl⟩,fun entered => ⟨rfl,?_⟩⟩
      cases entered with
      | true => exact h.add name
      | false => exact h.keep hroom name

theorem userNames_cons (ut : Utmpx) (uts : List Utmpx) :
    userNames (ut :: uts)=if ut.userProcess then CStr.ofBuffer ut.utUser :: userNames uts
      else userNames uts := by
  unfold userNames
  rw [List.filter_cons]
  split_ifs <;> rfl

/-- The scan keeps in step with the linear one, record after record. -/
theorem scanUtmp_inStep {records : List Utmpx} {names table : List CStr}
    (h : InStep table (linearUsers names)) (hearly : RepeatsEarly (names++userNames records))
    (total onConsole : ℤ) :
    (scanUtmp records total onConsole table (linearUsers names)).Meets EntersOnly fun r =>
      r.1=total+(userNames records).length ∧
        r.2.2=linearUsers (names++userNames records) := by
  induction records generalizing names table total onConsole with
  | nil => exact ⟨by simp [userNames],by simp [userNames]⟩
  | cons ut uts ih =>
    rw [userNames_cons] at hearly ⊢
    rw [scanUtmp]
    by_cases hu : ut.userProcess
    · rw [if_pos hu] at hearly ⊢
      rw [if_pos hu]
      refine (uniqAdd_inStep h hearly).bind fun r hr => ?_
      have hassoc : names++CStr.ofBuffer ut.utUser :: userNames uts=
          (names++[CStr.ofBuffer ut.utUser])++userNames uts := by simp
      rw [hassoc] at hearly ⊢
      have hin := hr.2
      rw [hr.1] at hin
      dsimp only
      rw [hr.1]
      refine (ih hin hearly (total+1) _).mono (fun _ hc => hc) fun q hq => ⟨?_,hq.2⟩
      rw [hq.1,List.length_cons]
      push_cast
      ring
    · rw [if_neg hu] at hearly ⊢
      rw [if_neg hu]
      exact ih h hearly total onConsole

theorem scanUtmp_enters (records : List Utmpx) (total onConsole : ℤ) (table users : List CStr) :
    (scanUtmp records total onConsole table users).Meets EntersOnly fun _ => True := by
  induction records generalizing total onConsole table users with
  | nil => exact trivial
  | cons ut uts ih =>
    rw [scanUtmp]
    by_cases hu : ut.userProcess
    · rw [if_pos hu]
      have hadd : (uniqAdd (CStr.ofBuffer ut.utUser) table users).Meets EntersOnly
          fun _ => True := by
        unfold uniqAdd
        split_ifs
        · exact trivial
        · exact trivial
        · exact ⟨⟨_,rfl⟩,fun _ => trivial⟩
      exact hadd.bind fun r _ => ih (total+1) _ r.1 r.2
    · rw [if_neg hu]
      exact ih total onConsole table users

theorem cInt_natCast {n : ℕ} (h : n ≤ 2147483647) : cInt (n : ℤ)=some (n : ℤ) :=
  cInt_of_bounds (by omega) (by omega)

theorem linearUsers_length (names : List CStr) :
    (linearUsers names).length=names.toFinset.card := by
  rw [linearUsers_eq,firstsBy_length,List.map_id]

theorem linearUsers_length_le (names : List CStr) : (linearUsers names).length ≤ names.length := by
  rw [linearUsers_eq]
  exact firstsBy_length_le id names

theorem rightCounts_of_scan {records : List Utmpx} (hfit : (userNames records).length ≤ 2147483647)
    {s : UserStats} (htotal : s.total=(userNames records).length)
    (huniq : s.uniq=(linearUsers (userNames records)).length) : RightCounts records s := by
  have hle := linearUsers_length_le (userNames records)
  refine ⟨by rw [htotal]; exact cInt_natCast hfit,by rw [huniq]; exact cInt_natCast (by omega),
    by rw [huniq,linearUsers_length],by omega⟩

/-- With names that repeat early enough, whatever hsearch does with a full table. -/
theorem countsRight_of_early {records : List Utmpx} (hearly : RepeatsEarly (userNames records))
    (hfit : (userNames records).length ≤ 2147483647) : CountsRight records := by
  intro cache o r hr htr
  have hrun : (getUserStats cache).Traced fun tr r =>
      answered .utmpRecords records∈tr → RightCounts records r.1 := by
    intro sbuf
    change Prog.Traced (if _ ∧ _ then _ else _) _
    split_ifs
    · intro hm
      exact absurd hm (by simp [answered])
    · intro console tty1 records'
      by_cases hsame : records'=records
      · rw [hsame]
        refine (scanUtmp_inStep inStep_nil hearly 0 _).traced.bind fun tr q hq _ => ?_
        exact rightCounts_of_scan hfit (by rw [hq.2.1]; simp) (by rw [hq.2.2]; rfl)
      · refine (scanUtmp_enters records' 0 _ [] []).traced.bind fun tr q hq hm => ?_
        simp only [answered,List.append_nil,List.mem_cons,Event.mk.injEq] at hm
        rcases hm with ⟨h,-⟩|⟨h,-⟩|⟨h,-⟩|⟨-,h⟩|h
        · cases h
        · cases h
        · cases h
        · exact absurd (Option.some.inj (eq_of_heq h)).symm hsame
        · obtain ⟨count,hcount⟩ := hq.1 _ h
          cases hcount
  exact hrun.result o hr htr

section NoRoom

/-- A file system of which nothing is known but the records of utmp. -/
def recordsOnly (records : List Utmpx) : Moment := ⟨none,none,none,records⟩

/-- One name, with a table that takes no entry beyond those it is made for. -/
def addBounded (name : CStr) (p : List CStr × List CStr) : List CStr × List CStr :=
  if name∈p.1 then p
  else (if p.1.length < hashSize then name :: p.1 else p.1,p.2++[name])

/-- The table and the users after some names. -/
def boundedUsers (names : List CStr) : List CStr × List CStr :=
  names.foldl (fun p name => addBounded name p) ([],[])

theorem boundedUsers_concat (names : List CStr) (name : CStr) :
    boundedUsers (names++[name])=addBounded name (boundedUsers names) := by
  rw [boundedUsers,List.foldl_append]
  rfl

theorem uniqAdd_bounded (m : Moment) (name : CStr) (table users : List CStr) :
    (uniqAdd name table users).result (m.answer fun _ => false)=
      some (addBounded name (table,users)) := by
  unfold uniqAdd addBounded
  split_ifs <;> rfl

theorem scanUtmp_bounded (m : Moment) (records : List Utmpx) (names : List CStr)
    (total onConsole : ℤ) : ∃ onConsole',
    (scanUtmp records total onConsole (boundedUsers names).1 (boundedUsers names).2).result
      (m.answer fun _ => false)=
        some (total+(userNames records).length,onConsole',
          (boundedUsers (names++userNames records)).2) := by
  induction records generalizing names total onConsole with
  | nil => exact ⟨onConsole,by simp [scanUtmp,userNames]⟩
  | cons ut uts ih =>
    rw [scanUtmp,userNames_cons]
    by_cases hu : ut.userProcess
    · rw [if_pos hu,if_pos hu]
      obtain ⟨onConsole',hrun⟩ := ih (names++[CStr.ofBuffer ut.utUser]) (total+1)
        (if onConsoleRecord ut then 1 else onConsole)
      refine ⟨onConsole',?_⟩
      rw [Prog.result_bind,uniqAdd_bounded,Option.bind_some]
      rw [boundedUsers_concat] at hrun
      refine hrun.trans ?_
      simp only [List.append_assoc,List.singleton_append,List.length_cons]
      push_cast
      rw [add_assoc,add_comm 1]
    · rw [if_neg hu,if_neg hu]
      exact ih names total onConsole

/-- The table is made of the first different names. -/
theorem boundedUsers_table (names : List CStr) :
    (boundedUsers names).1.reverse=(linearUsers names).take hashSize := by
  induction names using List.reverseRecOn with
  | nil => rfl
  | append_singleton names name ih =>
    have hlen : (boundedUsers names).1.length=min hashSize (linearUsers names).length := by
      rw [← List.length_reverse,ih,List.length_take]
    have hmem : name∈(boundedUsers names).1 ↔ name∈(linearUsers names).take hashSize := by
      rw [← ih,List.mem_reverse]
    rw [boundedUsers_concat,addBounded,linearUsers_concat,uniqAddLinear]
    by_cases hfull : (boundedUsers names).1.length < hashSize
    · have htake : (linearUsers names).take hashSize=linearUsers names :=
        List.take_of_length_le (by omega)
      rw [htake] at hmem ih
      by_cases hm : name∈(boundedUsers names).1
      · rw [if_pos hm,if_pos (hmem.mp hm),ih,htake]
      · rw [if_neg hm,if_neg fun hu => hm (hmem.mpr hu),if_pos hfull,List.reverse_cons,ih,
          List.take_of_length_le]
        rw [List.length_append,List.length_singleton]
        omega
    · have hkeep : (linearUsers names++[name]).take hashSize=(linearUsers names).take hashSize :=
        List.take_append_of_le_length (by omega)
      split_ifs <;> simp only [ih,hkeep]

theorem mem_boundedUsers {names : List CStr} {name : CStr} :
    name∈(boundedUsers names).2 ↔ name∈names := by
  induction names using List.reverseRecOn with
  | nil => exact Iff.rfl
  | append_singleton names a ih =>
    have htable : a∈(boundedUsers names).1 → a∈names := by
      intro hm
      rw [← List.mem_reverse,boundedUsers_table] at hm
      exact mem_linearUsers.mp (List.mem_of_mem_take hm)
    rw [boundedUsers_concat,addBounded,List.mem_append,List.mem_singleton]
    split_ifs with hm
    · rw [ih]
      refine ⟨.inl,fun h => h.elim id ?_⟩
      rintro rfl
      exact htable hm
    · rw [List.mem_append,ih,List.mem_singleton]
    · rw [List.mem_append,ih,List.mem_singleton]

/-- A name for which there is no room is counted again each time. -/
theorem boundedUsers_count {names : List CStr} {name : CStr}
    (hlate : name∉(linearUsers names).take hashSize) :
    (boundedUsers names).2.count name=names.count name := by
  induction names using List.reverseRecOn with
  | nil => rfl
  | append_singleton names a ih =>
    have hlate' : name∉(linearUsers names).take hashSize := by
      intro hm
      exact hlate (((linearUsers_extends names [a]).take hashSize).subset hm)
    have hout : name∉(boundedUsers (names++[a])).1 := by
      rwa [← List.mem_reverse,boundedUsers_table]
    rw [boundedUsers_concat] at hout ⊢
    rw [List.count_append,← ih hlate']
    unfold addBounded at hout ⊢
    split_ifs at hout ⊢ with hm
    · have hne : a≠name := fun h => hout (h ▸ hm)
      simp [hne]
    · exact List.count_append
    · exact List.count_append

/-- Such a host with such a table has its records read and counted. -/
theorem getUserStats_bounded (records : List Utmpx) (cache : UserCache) :
    ∃ r,(getUserStats cache).result ((recordsOnly records).answer fun _ => false)=some r ∧
      answered .utmpRecords records∈
        (getUserStats cache).trace ((recordsOnly records).answer fun _ => false) ∧
      r.1.total=(userNames records).length ∧
      r.1.uniq=(boundedUsers (userNames records)).2.length := by
  obtain ⟨onConsole,hscan⟩ := scanUtmp_bounded (recordsOnly records) records [] 0 0
  rw [List.nil_append,zero_add] at hscan
  refine ⟨(⟨(userNames records).length,(boundedUsers (userNames records)).2.length,onConsole,0⟩,
    ⟨(userNames records).length,(boundedUsers (userNames records)).2.length,onConsole,0⟩),
    ?_,?_,rfl,rfl⟩
  · change (scanUtmp records 0 0 [] [] >>= fun q => (Prog.ret (_,_) : Prog System
      (UserStats × UserCache))).result ((recordsOnly records).answer fun _ => false)=_
    rw [Prog.result_bind]
    change Option.bind ((scanUtmp records 0 0 (boundedUsers []).1 (boundedUsers []).2).result _) _=_
    rw [hscan]
    rfl
  · exact List.mem_cons_of_mem _ (List.mem_cons_of_mem _ (List.mem_cons_of_mem _
      List.mem_cons_self))

/-- The table that takes no more than it is made for counts right only with names that
repeat early. -/
theorem early_of_countsRight {records : List Utmpx} (h : CountsRight records) :
    RepeatsEarly (userNames records) ∧ (userNames records).length ≤ 2147483647 := by
  obtain ⟨r,hr,htr,htotal,huniq⟩ := getUserStats_bounded records .initial
  have hright := h .initial _ r hr htr
  refine ⟨fun name htwice => ?_,?_⟩
  · by_contra hlate
    have hcard : (boundedUsers (userNames records)).2.toFinset.card=
        (boundedUsers (userNames records)).2.length := by
      have hset : (boundedUsers (userNames records)).2.toFinset=(userNames records).toFinset :=
        Finset.ext fun u => by simp only [List.mem_toFinset,mem_boundedUsers]
      have hdistinct := hright.distinct
      rw [hset]
      omega
    have hnd : (boundedUsers (userNames records)).2.Nodup :=
      Multiset.toFinset_card_eq_card_iff_nodup.mp hcard
    have hone := List.nodup_iff_count_le_one.mp hnd name
    rw [boundedUsers_count hlate] at hone
    omega
  · have hfit := hright.total
    rw [cInt,htotal] at hfit
    split_ifs at hfit with hbounds
    omega

/-- The counts of a list of records are right whatever the table does when it is full, if
and only if the names that occur again are among the first 211 and an int holds the total. -/
theorem countsRight_iff (records : List Utmpx) :
    CountsRight records ↔
      RepeatsEarly (userNames records) ∧ (userNames records).length ≤ 2147483647 :=
  ⟨early_of_countsRight,fun h => countsRight_of_early h.1 h.2⟩

/-- A name that comes twice when the table is full. -/
theorem late_repeat {names : List CStr} {name : CStr} (hnd : names.Nodup)
    (hlen : names.length=hashSize) (hnew : name∉names) : ¬RepeatsEarly (names++[name,name]) := by
  intro hearly
  have hfirst := hearly name (by rw [List.count_append]; simp)
  have hlinear : linearUsers names=names := by
    have hkept : (linearUsers names).length=names.length := by
      rw [linearUsers_length,List.toFinset_card_of_nodup hnd]
    have hsub : (linearUsers names).Sublist names := by
      rw [linearUsers_eq]
      exact firstsBy_sublist id names
    exact hsub.eq_of_length hkept
  obtain ⟨more,hmore⟩ := linearUsers_extends names [name,name]
  rw [← hmore,hlinear,List.take_append_of_le_length hlen.ge,
    List.take_of_length_le hlen.le] at hfirst
  exact hnew hfirst

/-- User names of two letters. -/
def letters (i : ℕ) : List UInt8 := [UInt8.ofNat (97+i/26),UInt8.ofNat (97+i%26)]

theorem letter_ne_zero {n : ℕ} (h : n < 26) : UInt8.ofNat (97+n)≠0 := by
  intro hz
  have hn := congrArg UInt8.toNat hz
  rw [UInt8.toNat_ofNat'] at hn
  change _=0 at hn
  omega

theorem letters_bytes {i : ℕ} (h : i < 676) : (CStr.ofBuffer (letters i)).bytes=letters i := by
  have hfirst := letter_ne_zero (n := i/26) (by omega)
  have hsecond := letter_ne_zero (n := i%26) (by omega)
  rw [CStr.ofBuffer,letters]
  dsimp only
  rw [List.takeWhile_cons_of_pos (by simpa using hfirst),
    List.takeWhile_cons_of_pos (by simpa using hsecond),List.takeWhile_nil]

theorem letters_inj {i j : ℕ} (hi : i < 676) (hj : j < 676)
    (h : CStr.ofBuffer (letters i)=CStr.ofBuffer (letters j)) : i=j := by
  have hbytes := congrArg CStr.bytes h
  rw [letters_bytes hi,letters_bytes hj,letters,letters,List.cons.injEq,List.cons.injEq] at hbytes
  have hfirst := congrArg UInt8.toNat hbytes.1
  have hsecond := congrArg UInt8.toNat hbytes.2.1
  simp only [UInt8.toNat_ofNat'] at hfirst hsecond
  omega

/-- The sessions of 212 users, the last of whom has two. -/
def crowdedUtmp : List Utmpx :=
  (List.range 211++[211,211]).map fun i => ⟨true,[],[],letters i⟩

theorem crowdedUtmp_miscounted : ¬CountsRight crowdedUtmp := by
  intro h
  let name (i : ℕ) : CStr := CStr.ofBuffer (letters i)
  have hnames : userNames crowdedUtmp=(List.range 211).map name++[name 211,name 211] := by
    unfold userNames crowdedUtmp
    have hall : ((List.range 211++[211,211]).map fun i =>
        (⟨true,[],[],letters i⟩ : Utmpx)).filter Utmpx.userProcess=
          (List.range 211++[211,211]).map fun i => ⟨true,[],[],letters i⟩ := by
      refine List.filter_eq_self.mpr fun ut hut => ?_
      obtain ⟨i,-,rfl⟩ := List.mem_map.mp hut
      rfl
    rw [hall,List.map_map,List.map_append]
    rfl
  have hnd : ((List.range 211).map name).Nodup := by
    refine List.nodup_range.map_on fun i hi j hj hij => ?_
    rw [List.mem_range] at hi hj
    exact letters_inj (by omega) (by omega) hij
  have hnew : name 211∉(List.range 211).map name := by
    intro hm
    obtain ⟨i,hi,hij⟩ := List.mem_map.mp hm
    rw [List.mem_range] at hi
    have heq := letters_inj (by omega) (by omega) hij
    omega
  have hlen : ((List.range 211).map name).length=hashSize := by
    rw [List.length_map,List.length_range]
    rfl
  have hearly := (early_of_countsRight h).1
  rw [hnames] at hearly
  exact late_repeat hnd hlen hnew hearly

end NoRoom

end Lbcd
