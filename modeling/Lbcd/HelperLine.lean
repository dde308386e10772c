import Lbcd.Interaction.Scan
import Lbcd.LoadWeight
import Lbcd.Probes

namespace Lbcd

open Interaction CText

/-- The first line of what a helper prints, without its newline. -/
def firstLine (out : List UInt8) : List UInt8 := out.takeWhile (·≠10)

/-- What fgets reads of it into a buffer of 128 bytes. -/
def lineRead (out : List UInt8) : List UInt8 :=
  (firstLine out++(out.dropWhile (·≠10)).take 1).take 127

theorem lineRead_length (out : List UInt8) : (lineRead out).length < 128 := by
  rw [lineRead,List.length_take]
  omega

/-- The answer of fgets; none at the end of the file. -/
def fgetsReply (out : List UInt8) : Option { bs : List UInt8 // bs.length < 128 } :=
  if lineRead out=[] then none else some ⟨lineRead out,lineRead_length out⟩

/-- A line of two decimal numbers that fit in 32 bits, with white space between them. -/
structure Printed (line first blanks second : List UInt8) : Prop where
  line_eq : line=first++(blanks++second)
  first_ne : first≠[]
  blanks_ne : blanks≠[]
  second_ne : second≠[]
  first_digits : first.all isdigit=true
  blanks_spaces : blanks.all isspace=true
  second_digits : second.all isdigit=true
  first_fits : digitsValue first < 4294967296
  second_fits : digitsValue second < 4294967296

/-- What the weight and the increment should be after a line. -/
def Meant (line : List UInt8) (w : LbcdService) : Prop :=
  (∃ first blanks second,Printed line first blanks second ∧
      w=⟨UInt32.ofNat (digitsValue first),UInt32.ofNat (digitsValue second)⟩) ∨
    (¬∃ first blanks second,Printed line first blanks second) ∧ w=⟨0xffffffff,0⟩

/-- sscanf reads two integers at the beginning of a text. -/
def ReadsTwo (bs : List UInt8) (v v' : ℤ) : Prop :=
  ∃ rest rest',ReadsInt bs v rest ∧ ReadsInt rest v' rest'

/-- The line is short enough for the buffer, or what is cut off does not matter; of another
line the buffer does not hold two integers, or they happen to be those of a failure. -/
def LineKept (out : List UInt8) : Prop :=
  (∃ first blanks second,Printed (firstLine out) first blanks second ∧
      ((firstLine out).length ≤ 127 ∨ digitsValue second=0 ∧
        ((first++blanks).length < 127 ∨ digitsValue first=4294967295))) ∨
    (¬∃ first blanks second,Printed (firstLine out) first blanks second) ∧
      ∀ v v',ReadsTwo (CStr.ofBuffer (lineRead out)).bytes v v' →
        v%4294967296=4294967295 ∧ v'%4294967296=0

/-- The weight and the increment that come of a buffer. -/
def ofScan : Option (UInt32 × UInt32) → LbcdService
  | none => ⟨0xffffffff,0⟩
  | some (w,i) => ⟨w,i⟩

theorem ofInt_wrapInt (v : ℤ) :
    UInt32.ofInt (wrapInt 32 v)=UInt32.ofNat (v%4294967296).toNat := by
  have hmod : wrapInt 32 v%2^32=v%4294967296 := Int.bmod_emod (x := v) (m := 2^32)
  rw [UInt32.ofInt,hmod]

theorem scanTwo_of_readsTwo {buf : List UInt8} {v v' : ℤ}
    (h : ReadsTwo (CStr.ofBuffer buf).bytes v v') :
    ofScan (scanTwo buf)=
      ⟨UInt32.ofNat (v%4294967296).toNat,UInt32.ofNat (v'%4294967296).toNat⟩ := by
  obtain ⟨rest,rest',h,h'⟩ := h
  rw [scanTwo,h.scanInt]
  dsimp only
  rw [h'.scanInt,← ofInt_wrapInt,← ofInt_wrapInt]
  rfl

theorem scanTwo_eq_none {buf : List UInt8}
    (h : ∀ v v',¬ReadsTwo (CStr.ofBuffer buf).bytes v v') : scanTwo buf=none := by
  rw [scanTwo]
  split
  · rfl
  next w rest hw =>
    split
    · rfl
    next i rest' hi =>
      exact absurd ⟨rest,rest',readsInt_of_scanInt hw,readsInt_of_scanInt hi⟩ (h w i)

theorem ofNat_eq_iff {n m : ℕ} (hn : n < 4294967296) (hm : m < 4294967296) :
    UInt32.ofNat n=UInt32.ofNat m ↔ n=m := by
  constructor
  · intro h
    have hnat := congrArg UInt32.toNat h
    rwa [UInt32.toNat_ofNat_of_lt' hn,UInt32.toNat_ofNat_of_lt' hm] at hnat
  · rintro rfl
    rfl

theorem pair_eq_iff {n m n' m' : ℕ} (hn : n < 4294967296) (hm : m < 4294967296)
    (hn' : n' < 4294967296) (hm' : m' < 4294967296) :
    (⟨UInt32.ofNat n,UInt32.ofNat m⟩ : LbcdService)=⟨UInt32.ofNat n',UInt32.ofNat m'⟩ ↔
      n=n' ∧ m=m' := by
  rw [LbcdService.mk.injEq,ofNat_eq_iff hn hn',ofNat_eq_iff hm hm']

theorem emod_word (v : ℤ) :
    (v%4294967296).toNat < 4294967296 ∧ ((v%4294967296).toNat : ℤ)=v%4294967296 := by
  have h0 := Int.emod_nonneg v (by decide : (4294967296 : ℤ)≠0)
  have hlt := Int.emod_lt_of_pos v (by decide : (0 : ℤ) < 4294967296)
  omega

/-- The result is that of a failure exactly if the buffer does not hold other numbers. -/
theorem ofScan_failure_iff (buf : List UInt8) :
    ofScan (scanTwo buf)=⟨0xffffffff,0⟩ ↔
      ∀ v v',ReadsTwo (CStr.ofBuffer buf).bytes v v' →
        v%4294967296=4294967295 ∧ v'%4294967296=0 := by
  have hpair {v v' : ℤ} (h : ReadsTwo (CStr.ofBuffer buf).bytes v v') :
      ofScan (scanTwo buf)=⟨0xffffffff,0⟩ ↔ v%4294967296=4294967295 ∧ v'%4294967296=0 := by
    have hv := emod_word v
    have hv' := emod_word v'
    rw [scanTwo_of_readsTwo h]
    have hiff := pair_eq_iff hv.1 hv'.1 (by decide : 4294967295 < 4294967296)
      (by decide : 0 < 4294967296)
    refine hiff.trans ?_
    omega
  constructor
  · intro heq v v' h
    exact (hpair h).mp heq
  · intro hall
    by_cases hex : ∃ v v',ReadsTwo (CStr.ofBuffer buf).bytes v v'
    · obtain ⟨v,v',h⟩ := hex
      exact (hpair h).mpr (hall v v' h)
    · have hnone : scanTwo buf=none := scanTwo_eq_none fun v v' h => hex ⟨v,v',h⟩
      rw [hnone]
      rfl

theorem digit_ne_zero {bs : List UInt8} (h : bs.all isdigit=true) : 0∉bs := fun h0 =>
  absurd (List.all_eq_true.mp h 0 h0) (by decide)

theorem space_ne_zero {bs : List UInt8} (h : bs.all isspace=true) : 0∉bs := fun h0 =>
  absurd (List.all_eq_true.mp h 0 h0) (by decide)

theorem ofBuffer_of_notMem {bs : List UInt8} (h : 0∉bs) : (CStr.ofBuffer bs).bytes=bs := by
  have hstr := CStr.ofBuffer_bytes ⟨bs,h⟩
  exact congrArg CStr.bytes hstr

theorem readsInt_digits {ds rest : List UInt8} (hne : ds≠[]) (hd : ds.all isdigit=true)
    (hr : Stops isdigit rest) : ReadsInt (ds++rest) (digitsValue ds) rest :=
  ⟨[],[],ds,rfl,rfl,hne,hd,hr,Or.inl ⟨Or.inl rfl,rfl⟩⟩

theorem stops_blanks {bs rest : List UInt8} (hne : bs≠[]) (hb : bs.all isspace=true) :
    Stops isdigit (bs++rest) := by
  obtain ⟨b,bs,rfl⟩ := List.exists_cons_of_ne_nil hne
  intro c hc
  rw [← Option.some.inj hc]
  by_contra hdigit
  have hspace := List.all_eq_true.mp hb b List.mem_cons_self
  rw [not_isspace_of_isdigit (Bool.not_eq_false _ ▸ hdigit)] at hspace
  exact Bool.false_ne_true hspace

/-- Two numbers in a buffer, with nothing or the newline after them. -/
theorem ofScan_two {ds bs ds' rest : List UInt8} (hd : ds≠[]) (hda : ds.all isdigit=true)
    (hb : bs≠[]) (hba : bs.all isspace=true) (hd' : ds'≠[]) (hda' : ds'.all isdigit=true)
    (hr : rest=[] ∨ rest=[10]) (hlt : digitsValue ds < 4294967296)
    (hlt' : digitsValue ds' < 4294967296) :
    ofScan (scanTwo (ds++(bs++(ds'++rest))))=
      ⟨UInt32.ofNat (digitsValue ds),UInt32.ofNat (digitsValue ds')⟩ := by
  have hzero : 0∉ds++(bs++(ds'++rest)) := by
    have h1 := digit_ne_zero hda
    have h2 := space_ne_zero hba
    have h3 := digit_ne_zero hda'
    rcases hr with rfl|rfl
    · simp [h1,h2,h3]
    · simp [h1,h2,h3]
  have hstop : Stops isdigit rest := by
    rcases hr with rfl|rfl
    · exact stops_nil _
    · intro c hc
      rw [← Option.some.inj hc]
      rfl
  have hreads : ReadsTwo (CStr.ofBuffer (ds++(bs++(ds'++rest)))).bytes (digitsValue ds)
      (digitsValue ds') := by
    rw [ofBuffer_of_notMem hzero]
    refine ⟨bs++(ds'++rest),rest,readsInt_digits hd hda (stops_blanks hb hba),?_⟩
    exact ⟨bs,[],ds',rfl,hba,hd',hda',hstop,Or.inl ⟨Or.inl rfl,rfl⟩⟩
  rw [scanTwo_of_readsTwo hreads]
  refine (pair_eq_iff (emod_word _).1 (emod_word _).1 hlt hlt').mpr ?_
  omega

theorem not_readsInt_blanks {bs rest : List UInt8} {v : ℤ} (hb : bs.all isspace=true) :
    ¬ReadsInt bs v rest := by
  rintro ⟨spaces,sign,digits,rfl,-,hne,hd,-⟩
  obtain ⟨d,ds,rfl⟩ := List.exists_cons_of_ne_nil hne
  have hspace := List.all_eq_true.mp hb d (by simp)
  rw [not_isspace_of_isdigit (List.all_eq_true.mp hd d List.mem_cons_self)] at hspace
  exact Bool.false_ne_true hspace

/-- Without a second number there is a failure. -/
theorem ofScan_one {ds bs : List UInt8} (hda : ds.all isdigit=true) (hba : bs.all isspace=true) :
    ofScan (scanTwo (ds++bs))=⟨0xffffffff,0⟩ := by
  have hzero : 0∉ds++bs := by
    simp [digit_ne_zero hda,space_ne_zero hba]
  rw [ofScan_failure_iff,ofBuffer_of_notMem hzero]
  rintro v v' ⟨rest,rest',h,h'⟩
  by_cases hd : ds=[]
  · rw [hd,List.nil_append] at h
    exact absurd h (not_readsInt_blanks hba)
  · have hstop : Stops isdigit bs := by
      by_cases hb : bs=[]
      · exact hb ▸ stops_nil _
      · exact List.append_nil bs ▸ stops_blanks hb hba
    have hscan := h.scanInt
    rw [(readsInt_digits hd hda hstop).scanInt] at hscan
    have hrest : bs=rest := congrArg Prod.snd (Option.some.inj hscan)
    exact absurd (hrest ▸ h') (not_readsInt_blanks hba)

theorem stops_digits {ds : List UInt8} (hd : ds.all isdigit=true) : Stops isspace ds := by
  intro d h
  exact not_isspace_of_isdigit (List.all_eq_true.mp hd d (List.mem_of_mem_head? h))

theorem Printed.unique {line first blanks second first' blanks' second' : List UInt8}
    (h : Printed line first blanks second) (h' : Printed line first' blanks' second') :
    first=first' ∧ blanks=blanks' ∧ second=second' := by
  have hline := h.line_eq.symm.trans h'.line_eq
  have hstop : Stops isdigit (blanks++second) := stops_blanks h.blanks_ne h.blanks_spaces
  have hfirst := takeWhile_stops h.first_digits hstop
  rw [hline,takeWhile_stops h'.first_digits (stops_blanks h'.blanks_ne h'.blanks_spaces)] at hfirst
  subst hfirst
  have hrest := List.append_cancel_left hline
  have hblanks := takeWhile_stops h.blanks_spaces (stops_digits h.second_digits)
  rw [hrest,takeWhile_stops h'.blanks_spaces (stops_digits h'.second_digits)] at hblanks
  subst hblanks
  exact ⟨rfl,rfl,List.append_cancel_left hrest⟩

/-- The end of the line, of at most one byte. -/
theorem lineRead_short {out : List UInt8} (h : (firstLine out).length ≤ 127) :
    ∃ rest,lineRead out=firstLine out++rest ∧ (rest=[] ∨ rest=[10]) := by
  have hnl : (out.dropWhile (·≠10)).take 1=[] ∨ (out.dropWhile (·≠10)).take 1=[10] := by
    cases hd : out.dropWhile (·≠10) with
    | nil => exact Or.inl rfl
    | cons b bs =>
      have hne : out.dropWhile (fun b => decide (b≠10))≠[] := by
        rw [hd]
        exact List.cons_ne_nil b bs
      have hb := List.head_dropWhile_not (fun b => decide (b≠10)) hne
      simp only [hd,List.head_cons,decide_eq_false_iff_not,not_not] at hb
      exact Or.inr (by rw [hb]; rfl)
  refine ⟨((out.dropWhile (·≠10)).take 1).take (127-(firstLine out).length),?_,?_⟩
  · rw [lineRead,List.take_append,List.take_of_length_le h]
  · rcases hnl with hnl|hnl
    · exact Or.inl (by rw [hnl,List.take_nil])
    · rw [hnl]
      cases 127-(firstLine out).length with
      | zero => exact Or.inl rfl
      | succ n => exact Or.inr (by rw [List.take_succ_cons,List.take_nil])

theorem lineRead_long {out : List UInt8} (h : 127 ≤ (firstLine out).length) :
    lineRead out=(firstLine out).take 127 := by
  rw [lineRead,List.take_append_of_le_length h]

/-- What a line of two numbers leads to. -/
theorem Printed.meant_iff {line first blanks second : List UInt8}
    (h : Printed line first blanks second) (w : LbcdService) :
    Meant line w ↔ w=⟨UInt32.ofNat (digitsValue first),UInt32.ofNat (digitsValue second)⟩ := by
  constructor
  · rintro (⟨first',blanks',second',h',hw⟩|⟨hno,-⟩)
    · obtain ⟨hf,-,hs⟩ := h.unique h'
      rw [hf,hs]
      exact hw
    · exact absurd ⟨first,blanks,second,h⟩ hno
  · intro hw
    exact Or.inl ⟨first,blanks,second,h,hw⟩

theorem Printed.kept_iff {out first blanks second : List UInt8}
    (h : Printed (firstLine out) first blanks second) :
    LineKept out ↔ (firstLine out).length ≤ 127 ∨ digitsValue second=0 ∧
      ((first++blanks).length < 127 ∨ digitsValue first=4294967295) := by
  constructor
  · rintro (⟨first',blanks',second',h',hk⟩|⟨hno,-⟩)
    · obtain ⟨hf,hb,hs⟩ := h.unique h'
      rw [hf,hb,hs]
      exact hk
    · exact absurd ⟨first,blanks,second,h⟩ hno
  · intro hk
    exact Or.inl ⟨first,blanks,second,h,hk⟩

/-- The first digits are the whole number only if that is zero. -/
theorem digitsValue_take_iff {ds : List UInt8} {k : ℕ} (h : k < ds.length) :
    digitsValue (ds.take k) ≤ digitsValue ds ∧
      (digitsValue (ds.take k)=digitsValue ds ↔ digitsValue ds=0) := by
  have hsplit := digitsValue_append (ds.take k) (ds.drop k)
  rw [List.take_append_drop] at hsplit
  have hpow : 10 ≤ 10^(ds.drop k).length := by
    have hpos : (ds.drop k).length≠0 := by
      rw [List.length_drop]
      omega
    exact Nat.le_self_pow hpos 10
  have hmul := Nat.mul_le_mul_left (digitsValue (ds.take k)) hpow
  omega

/-- A line of two numbers that does not fit in the buffer. -/
theorem Printed.long_iff {line first blanks second : List UInt8}
    (h : Printed line first blanks second) (hlong : 127 < line.length) :
    ofScan (scanTwo (line.take 127))=
        ⟨UInt32.ofNat (digitsValue first),UInt32.ofNat (digitsValue second)⟩ ↔
      digitsValue second=0 ∧ ((first++blanks).length < 127 ∨ digitsValue first=4294967295) := by
  have hlen : line.length=(first++blanks).length+second.length := by
    rw [h.line_eq,← List.append_assoc,List.length_append]
  have hall {p : UInt8 → Bool} {bs : List UInt8} (hp : bs.all p=true) (k : ℕ) :
      (bs.take k).all p=true :=
    List.all_eq_true.mpr fun b hb => List.all_eq_true.mp hp b (List.mem_of_mem_take hb)
  by_cases hshort : (first++blanks).length < 127
  · have hk : 127-(first++blanks).length < second.length := by omega
    have htake := digitsValue_take_iff hk
    have hcut : line.take 127=
        first++(blanks++(second.take (127-(first++blanks).length)++[])) := by
      rw [h.line_eq,← List.append_assoc,List.take_append,List.take_of_length_le hshort.le,
        List.append_nil,List.append_assoc]
    have hne : second.take (127-(first++blanks).length)≠[] := by
      intro hnil
      rcases List.take_eq_nil_iff.mp hnil with h0|h0
      · omega
      · exact h.second_ne h0
    have hlt := htake.1.trans_lt h.second_fits
    rw [hcut,ofScan_two h.first_ne h.first_digits h.blanks_ne h.blanks_spaces hne
        (hall h.second_digits _) (Or.inl rfl) h.first_fits hlt,
      pair_eq_iff h.first_fits hlt h.first_fits h.second_fits,htake.2]
    exact ⟨fun heq => ⟨heq.2,Or.inl hshort⟩,fun hzero => ⟨rfl,hzero.1⟩⟩
  · have hcut : line.take 127=first.take 127++blanks.take (127-first.length) := by
      rw [h.line_eq,← List.append_assoc,List.take_append_of_le_length (by omega),
        List.take_append]
    rw [hcut,ofScan_one (hall h.first_digits _) (hall h.blanks_spaces _)]
    have hiff := pair_eq_iff (by decide : 4294967295 < 4294967296)
      (by decide : 0 < 4294967296) h.first_fits h.second_fits
    refine hiff.trans ?_
    omega

/-- What comes of the line is what is meant under the condition, and only then. -/
theorem meant_ofScan_iff (out : List UInt8) :
    Meant (firstLine out) (ofScan (scanTwo (lineRead out))) ↔ LineKept out := by
  by_cases hp : ∃ first blanks second,Printed (firstLine out) first blanks second
  · obtain ⟨first,blanks,second,h⟩ := hp
    rw [h.meant_iff,h.kept_iff]
    by_cases hlong : 127 < (firstLine out).length
    · rw [lineRead_long hlong.le,h.long_iff hlong,or_iff_right (not_le.mpr hlong)]
    · obtain ⟨rest,hread,hrest⟩ := lineRead_short (not_lt.mp hlong)
      refine iff_of_true ?_ (Or.inl (not_lt.mp hlong))
      rw [hread,h.line_eq,List.append_assoc,List.append_assoc]
      exact ofScan_two h.first_ne h.first_digits h.blanks_ne h.blanks_spaces h.second_ne
        h.second_digits hrest h.first_fits h.second_fits
  · have hmeant (w : LbcdService) : Meant (firstLine out) w ↔ w=⟨0xffffffff,0⟩ :=
      ⟨fun h => h.elim (fun ⟨first,blanks,second,h,_⟩ => absurd ⟨first,blanks,second,h⟩ hp)
        fun h => h.2,fun h => Or.inr ⟨hp,h⟩⟩
    rw [hmeant,ofScan_failure_iff]
    exact ⟨fun h => Or.inr ⟨hp,h⟩,fun h => h.elim
      (fun ⟨first,blanks,second,h,_⟩ => absurd ⟨first,blanks,second,h⟩ hp) fun h => h.2⟩

/-- The output is not read: there is no stream for it, or waitpid fails. -/
def Unread (tr : List (Event System)) : Prop :=
  (∃ fd,answered (.fdopen fd) false∈tr) ∨ ∃ pid,answered (.waitpid pid) (.failed false)∈tr

/-- How the numbers come about. -/
def Heard (tr : List (Event System)) (r : Option (UInt32 × UInt32)) : Prop :=
  Unread tr ∧ r=none ∨ ¬Unread tr ∧
    ((∀ pid,answered (.waitpid pid) (.exited 0)∉tr) ∨
      ∃ fd got,answered (.fgets fd 128) got∈tr ∧ r=got.bind fun buf => scanTwo buf.val)

/-- Neither opens the stream nor waits. -/
def Other : SysCall → Prop
  | .fdopen _ => False
  | .waitpid _ => False
  | _ => True

theorem killChild_other (child : ℕ) : (killChild child).Meets Other fun _ => True := by
  refine ⟨trivial,fun ok => ?_⟩
  cases ok with
  | true => trivial
  | false => exact ⟨trivial,fun _ => trivial⟩

theorem afterWait_other (r : Fd) (child : ℕ) (st : WaitPid) :
    (afterWait r child (some st)).Meets Other fun _ => True := by
  have hkilled : (do
      killChild child
      let _ : Unit ← sys (.fclose r)
      return none : Prog System (Option (UInt32 × UInt32))).Meets Other fun _ => True :=
    (killChild_other child).bind fun _ _ => ⟨trivial,fun _ => trivial⟩
  match st with
  | .exited 0 =>
    refine ⟨trivial,fun line => ⟨trivial,fun _ => ?_⟩⟩
    cases line with
    | none => trivial
    | some buf => trivial
  | .exited (status+1) => exact ⟨trivial,fun _ => trivial⟩
  | .signaled sig => exact hkilled
  | .failed eintr => exact hkilled

/-- The daemon has got to the end of the wait loop. -/
structure Waited (child : ℕ) (st : Option WaitPid) (before : List (Event System)) : Prop where
  opened : ∀ fd,answered (.fdopen fd) false∉before
  waits : ∀ pid w,answered (.waitpid pid) w∈before → w=.failed true ∨ w=st.getD (.failed false)
  last : answered (.waitpid child) (st.getD (.failed false))∈before
  ended : ∀ eintr,st≠some (.failed eintr)

namespace Waited

variable {child : ℕ} {st : WaitPid} {before tr : List (Event System)}
  (h : Waited child (some st) before) (hother : ∀ ev∈tr,Other ev.call)
include h hother

theorem notUnread : ¬Unread (before++tr) := by
  rintro (⟨fd,hm⟩|⟨pid,hm⟩)
  · rcases List.mem_append.mp hm with hm|hm
    · exact h.opened fd hm
    · exact hother _ hm
  · rcases List.mem_append.mp hm with hm|hm
    · rcases h.waits pid _ hm with hw|hw
      · exact Bool.false_ne_true (WaitPid.failed.inj hw)
      · exact h.ended false (congrArg some hw).symm
    · exact hother _ hm

theorem notExited (hst : st≠.exited 0) (pid : ℕ) :
    answered (.waitpid pid) (.exited 0)∉before++tr := by
  intro hm
  rcases List.mem_append.mp hm with hm|hm
  · rcases h.waits pid _ hm with hw|hw
    · exact WaitPid.noConfusion hw
    · exact hst hw.symm
  · exact hother _ hm

end Waited

theorem afterWait_heard (r : Fd) {child : ℕ} {st : Option WaitPid} {before : List (Event System)}
    (h : Waited child st before) :
    (afterWait r child st).Traced fun tr pair => Heard (before++tr) pair := by
  cases st with
  | none =>
    have hunread (tr : List (Event System)) : Unread (before++tr) :=
      Or.inr ⟨child,List.mem_append_left _ h.last⟩
    intro _
    refine (Prog.traced_true (killChild child)).bind fun tr _ _ => ?_
    intro _
    exact Or.inl ⟨hunread _,rfl⟩
  | some st =>
    by_cases hst : st=.exited 0
    · subst hst
      intro line _
      have hother : ∀ ev∈[answered (.fgets r 128) line,answered (.fclose r) ()],Other ev.call := by
        simp [answered,Other]
      have hread : answered (.fgets r 128) line∈
          before++[answered (.fgets r 128) line,answered (.fclose r) ()] := by simp
      cases line with
      | none => exact Or.inr ⟨h.notUnread hother,Or.inr ⟨r,none,hread,rfl⟩⟩
      | some buf => exact Or.inr ⟨h.notUnread hother,Or.inr ⟨r,some buf,hread,rfl⟩⟩
    · refine (afterWait_other r child st).traced.mono fun tr pair ho => ?_
      exact Or.inr ⟨h.notUnread ho.1,Or.inl (h.notExited ho.1 hst)⟩

theorem answered_waitpid {pid pid' : ℕ} {w w' : WaitPid}
    (h : answered (.waitpid pid) w=answered (.waitpid pid') w') : w=w' := by
  have hreply := congrArg (fun ev : Event System => (match ev with
    | ⟨.waitpid _,r⟩ => r
    | _ => none : Option WaitPid)) h
  exact Option.some.inj hreply

theorem heard_other {tr : List (Event System)} (h : ∀ ev∈tr,Other ev.call) : Heard tr none := by
  refine Or.inr ⟨?_,Or.inl fun pid hm => h _ hm⟩
  rintro (⟨fd,hm⟩|⟨pid,hm⟩)
  · exact h _ hm
  · exact h _ hm

theorem runCmd_heard (cmd : Option CStr) : (runCmd cmd).Traced Heard := by
  rw [runCmd_eq]
  intro fds
  match fds with
  | none => exact heard_other (by simp [Other])
  | some (r,w) =>
    intro forked
    cases forked with
    | failed => exact heard_other (by simp [Other])
    | child => exact cmdChild_traced cmd r w _
    | parent child =>
      intro _ fp
      cases fp with
      | false =>
        intro _ _
        exact Or.inl ⟨Or.inl ⟨r,by simp [answered]⟩,rfl⟩
      | true =>
        intro fuel
        apply (waitChild_heard child fuel).bind
        rintro tr st ⟨hall,hlast,hended⟩
        have hwaited : Waited child st (answered .pipe (some (r,w)) ::
            answered .fork (.parent child) :: answered (.close w) () ::
            answered (.fdopen r) true :: answered .fuel fuel :: tr) := by
          refine ⟨fun fd hm => ?_,fun pid w' hm => ?_,by simp [hlast],hended⟩
          · have htr : answered (.fdopen fd) false∈tr := by simpa [answered] using hm
            rcases hall _ htr with h|h
            · simp [answered] at h
            · simp [answered] at h
          · have htr : answered (.waitpid pid) w'∈tr := by simpa [answered] using hm
            rcases hall _ htr with h|h
            · exact Or.inl (answered_waitpid h)
            · exact Or.inr (answered_waitpid h)
        exact afterWait_heard r hwaited

/-- A failure is what a line means that does not hold other numbers. -/
def NoNumbers (line : List UInt8) : Prop :=
  ∀ first blanks second,Printed line first blanks second →
    digitsValue first=4294967295 ∧ digitsValue second=0

theorem meant_failure_iff (line : List UInt8) : Meant line ⟨0xffffffff,0⟩ ↔ NoNumbers line := by
  by_cases hp : ∃ first blanks second,Printed line first blanks second
  · obtain ⟨first,blanks,second,h⟩ := hp
    have hpair := pair_eq_iff (by decide : 4294967295 < 4294967296)
      (by decide : 0 < 4294967296) h.first_fits h.second_fits
    rw [h.meant_iff]
    refine hpair.trans ⟨fun heq first' blanks' second' h' => ?_,fun hno => ?_⟩
    · obtain ⟨hf,-,hs⟩ := h.unique h'
      rw [← hf,← hs]
      exact ⟨heq.1.symm,heq.2.symm⟩
    · obtain ⟨hf,hs⟩ := hno first blanks second h
      exact ⟨hf.symm,hs.symm⟩
  · refine iff_of_true (Or.inr ⟨hp,rfl⟩) fun first blanks second h => ?_
    exact absurd ⟨first,blanks,second,h⟩ hp

theorem bind_fgetsReply (out : List UInt8) :
    ((fgetsReply out).bind fun buf => scanTwo buf.val)=scanTwo (lineRead out) := by
  rw [fgetsReply]
  split_ifs with h
  · rw [h]
    rfl
  · rfl

/-- With a helper that exits with status 0, a run of lbcd_cmd_weight ends with the weight and
the increment that its line means if and only if the line is kept, or it is not read and
does not hold other numbers than those of a failure. -/
theorem lbcdCmdWeight_line_iff (g : WeightGlobals) (slot : Slot) (timeout : ℤ)
    (portarg : Option CStr) (lb : LbcdReply) (o : Oracle System) (out : List UInt8)
    {r : LbcdReply × ℤ} (hres : (lbcdCmdWeight g slot timeout portarg lb).result o=some r)
    (hexit : ∃ pid,answered (.waitpid pid) (.exited 0)∈
      (lbcdCmdWeight g slot timeout portarg lb).trace o)
    (hout : ∀ fd got,answered (.fgets fd 128) got∈
      (lbcdCmdWeight g slot timeout portarg lb).trace o → got=fgetsReply out) :
    Meant (firstLine out) (r.1.slot slot) ↔
      Unread ((lbcdCmdWeight g slot timeout portarg lb).trace o) ∧ NoNumbers (firstLine out) ∨
        ¬Unread ((lbcdCmdWeight g slot timeout portarg lb).trace o) ∧ LineKept out := by
  have hrun : (lbcdCmdWeight g slot timeout portarg lb).Traced fun tr r =>
      ∃ pair,Heard tr pair ∧ r.1.slot slot=ofScan pair := by
    refine (runCmd_heard g.lbcdCommand).bind fun tr pair hpair => ?_
    have hsame : tr++[]=tr := List.append_nil tr
    cases pair with
    | none => exact ⟨none,hsame.symm ▸ hpair,by simp; rfl⟩
    | some pair => exact ⟨some pair,hsame.symm ▸ hpair,by simp; rfl⟩
  obtain ⟨pair,⟨hun,rfl⟩|⟨hread,hno|⟨fd,got,hgot,rfl⟩⟩,hslot⟩ := hrun.result o hres
  · rw [hslot,or_iff_left fun h => h.1 hun,and_iff_right hun]
    exact meant_failure_iff _
  · obtain ⟨pid,hpid⟩ := hexit
    exact absurd hpid (hno pid)
  · rw [hslot,or_iff_right fun h => hread h.1,and_iff_right hread,← meant_ofScan_iff,
      hout fd got hgot,bind_fgetsReply]

/-- A helper exits with status 0 and leaves this to be read. -/
def printing (line : Option { bs : List UInt8 // bs.length < 128 }) : Oracle System :=
  Oracle.const fun c =>
    match c with
    | .pipe => some (some (3,4))
    | .fork => some (.parent 100)
    | .close _ => some ()
    | .fdopen _ => some true
    | .fuel => some 1
    | .waitpid _ => some (.exited 0)
    | .fgets _ 128 => some line
    | .fclose _ => some ()
    | _ => none

theorem printing_run (line : Option { bs : List UInt8 // bs.length < 128 }) :
    (∃ r,(lbcdCmdWeight .initial 0 5 none default).result (printing line)=some r ∧
        r.1.slot 0=ofScan (line.bind fun buf => scanTwo buf.val)) ∧
      (lbcdCmdWeight .initial 0 5 none default).trace (printing line)=
        [answered .pipe (some (3,4)),answered .fork (.parent 100),answered (.close 4) (),
          answered (.fdopen 3) true,answered .fuel 1,answered (.waitpid 100) (.exited 0),
          answered (.fgets 3 128) line,answered (.fclose 3) ()] := by
  have hres : (runCmd none).result (printing line)=
      some (line.bind fun buf => scanTwo buf.val) := by
    cases line with
    | none => rfl
    | some buf => rfl
  have htrace : (runCmd none).trace (printing line)=
      [answered .pipe (some (3,4)),answered .fork (.parent 100),answered (.close 4) (),
        answered (.fdopen 3) true,answered .fuel 1,answered (.waitpid 100) (.exited 0),
        answered (.fgets 3 128) line,answered (.fclose 3) ()] := by
    cases line with
    | none => rfl
    | some buf => rfl
  change (∃ r,(runCmd none >>= _).result _=some r ∧ _) ∧ (runCmd none >>= _).trace _=_
  rw [Prog.result_bind,Prog.trace_bind,hres,htrace]
  cases line.bind fun buf => scanTwo buf.val with
  | none => exact ⟨⟨_,rfl,by simp; rfl⟩,rfl⟩
  | some pair => exact ⟨⟨_,rfl,by simp; rfl⟩,rfl⟩

/-- The numbers 100 and 5. -/
theorem lbcdCmdWeight_line_printed :
    ∃ r,(lbcdCmdWeight .initial 0 5 none default).result
        (printing (fgetsReply (CStr.lit "100 5\n").bytes))=some r ∧ r.1.slot 0=⟨100,5⟩ ∧
      (Meant (firstLine (CStr.lit "100 5\n").bytes) (r.1.slot 0) ↔
        Unread ((lbcdCmdWeight .initial 0 5 none default).trace
            (printing (fgetsReply (CStr.lit "100 5\n").bytes))) ∧
          NoNumbers (firstLine (CStr.lit "100 5\n").bytes) ∨
        ¬Unread ((lbcdCmdWeight .initial 0 5 none default).trace
            (printing (fgetsReply (CStr.lit "100 5\n").bytes))) ∧
          LineKept (CStr.lit "100 5\n").bytes) := by
  obtain ⟨⟨r,hr,hslot⟩,htrace⟩ := printing_run (fgetsReply (CStr.lit "100 5\n").bytes)
  refine ⟨r,hr,?_,lbcdCmdWeight_line_iff _ _ _ _ _ _ _ hr ⟨100,?_⟩ fun fd got hgot => ?_⟩
  · rw [hslot]
    decide +kernel
  · rw [htrace]
    simp
  · rw [htrace] at hgot
    have heq : fd=3 ∧ got=fgetsReply (CStr.lit "100 5\n").bytes := by
      simpa [answered] using hgot
    exact heq.2

/-- 2^32+1 becomes 1. -/
theorem wrapped_weight_reported :
    ∃ r,(lbcdCmdWeight .initial 0 5 none default).result
        (printing (fgetsReply (CStr.lit "4294967297 1\n").bytes))=some r ∧ r.1.slot 0=⟨1,1⟩ ∧
      ¬Meant (firstLine (CStr.lit "4294967297 1\n").bytes) (r.1.slot 0) := by
  obtain ⟨⟨r,hr,hslot⟩,-⟩ := printing_run (fgetsReply (CStr.lit "4294967297 1\n").bytes)
  have hone : r.1.slot 0=⟨1,1⟩ := by
    rw [hslot]
    decide +kernel
  refine ⟨r,hr,hone,?_⟩
  rw [hone]
  rintro (⟨first,blanks,second,h,-⟩|⟨-,h⟩)
  · have hfirst : (firstLine (CStr.lit "4294967297 1\n").bytes).takeWhile isdigit=first := by
      rw [h.line_eq,takeWhile_stops h.first_digits (stops_blanks h.blanks_ne h.blanks_spaces)]
    have hfits := hfirst ▸ h.first_fits
    exact absurd hfits (by decide +kernel)
  · exact absurd h (by decide)

end Lbcd
