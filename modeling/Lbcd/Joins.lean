import Lbcd.Pools

namespace Lbcd

open CHeap CText Pieces

/-- SIZE_MAX. -/
def sizeMax : ℕ := 2^64-1

def wrapSize (n : ℕ) : ℕ := n % 2^64

/-- Nothing is written where the buffer of dst has no room left. -/
def strlcat (size : ℕ) (dst src : CStr) : CStr :=
  let used := dst.bytes.length
  let length := src.bytes.length
  if 0 < size ∧ used < size-1 then
    let copy := if size-used ≤ length then size-used-1 else length
    ⟨dst.bytes++src.bytes.take copy,by
      rw [List.mem_append]
      rintro (hm|hm)
      · exact dst.nulFree hm
      · exact src.nulFree (List.mem_of_mem_take hm)⟩
  else dst

/-- The first loop of both joins, with its assertion; margin is what is added to the length of
each string there. -/
def joinSize (margin : ℕ) : List CStr → ℕ → Option ℕ
  | [],size => some size
  | s :: rest,size =>
    if wrapSize (s.bytes.length+margin) ≤ sizeMax-size then
      joinSize margin rest (wrapSize (size+s.bytes.length))
    else none

def joinLoop (size : ℕ) (separator : CStr) (string : CStr) (rest : List CStr) : CStr :=
  rest.foldl (fun string s => strlcat size (strlcat size string separator) s) string

/-- None where an assertion fails, or where the buffer has no bytes and strlcpy leaves it as it
is. -/
def joinStrings (margin : ℕ) (strings : List CStr) (separator : CStr) : Option CStr :=
  match strings with
  | [] => some ⟨[],List.not_mem_nil⟩
  | first :: rest => do
    let size ← joinSize margin strings 0
    let separators := wrapSize ((strings.length-1)*separator.bytes.length+1)
    if separators ≤ sizeMax-size then
      let size := wrapSize (size+separators)
      if size=0 then none
      else some (joinLoop size separator (first.strlcpy size) rest)
    else none

def vectorJoin (h : Strings) (v : StringVector) (separator : CStr) : Option (ℕ × Strings) := do
  let strings ← v.texts h
  let string ← joinStrings (separator.bytes.length+1) strings separator
  return h.alloc string

/-- What the strings are with the separator between them. -/
def joined (strings : List CStr) (separator : CStr) : List UInt8 :=
  separator.bytes.intercalate (strings.map CStr.bytes)

theorem joined_cons (first : CStr) (rest : List CStr) (separator : CStr) :
    joined (first :: rest) separator=
      first.bytes++(rest.map fun s => separator.bytes++s.bytes).flatten := by
  induction rest generalizing first with
  | nil => simp [joined]
  | cons s rest ih =>
    have hs := ih s
    rw [joined] at hs ⊢
    rw [List.map_cons,List.map_cons,List.intercalate_cons_cons]
    rw [List.map_cons] at hs
    rw [hs]
    simp

theorem strlcat_fits {size : ℕ} {dst src : CStr} (h : dst.bytes.length < size) :
    (strlcat size dst src).bytes.length < size := by
  rw [strlcat]
  by_cases hroom : 0 < size ∧ dst.bytes.length < size-1
  · rw [if_pos hroom]
    simp only [List.length_append,List.length_take]
    split_ifs <;> omega
  · rw [if_neg hroom]
    exact h

theorem strlcat_whole {size : ℕ} {dst src : CStr}
    (h : dst.bytes.length+src.bytes.length < size) :
    (strlcat size dst src).bytes=dst.bytes++src.bytes := by
  by_cases hempty : src.bytes=[]
  · rw [strlcat]
    split_ifs <;> simp [hempty]
  · have hpos : 0 < src.bytes.length := List.length_pos_iff.mpr hempty
    rw [strlcat,if_pos (by omega)]
    simp only
    rw [if_neg (by omega),List.take_length]

/-- The buffer is never overrun. -/
theorem joinLoop_fits {size : ℕ} {separator string : CStr} (rest : List CStr)
    (h : string.bytes.length < size) :
    (joinLoop size separator string rest).bytes.length < size := by
  induction rest generalizing string with
  | nil => exact h
  | cons s rest ih => exact ih (strlcat_fits (strlcat_fits h))

theorem joinLoop_whole {size : ℕ} {separator string : CStr} (rest : List CStr)
    (h : string.bytes.length+(rest.map fun s => separator.bytes++s.bytes).flatten.length < size) :
    (joinLoop size separator string rest).bytes=
      string.bytes++(rest.map fun s => separator.bytes++s.bytes).flatten := by
  induction rest generalizing string with
  | nil => exact (List.append_nil _).symm
  | cons s rest ih =>
    rw [List.map_cons,List.flatten_cons,List.length_append,List.length_append] at h
    have hsep : (strlcat size string separator).bytes=string.bytes++separator.bytes :=
      strlcat_whole (by omega)
    have hs : (strlcat size (strlcat size string separator) s).bytes=
        string.bytes++separator.bytes++s.bytes := by
      rw [strlcat_whole,hsep]
      rw [hsep,List.length_append]
      omega
    change (joinLoop size separator (strlcat size (strlcat size string separator) s) rest).bytes=_
    rw [ih,hs]
    · simp
    · rw [hs,List.length_append,List.length_append]
      omega

theorem length_joined (first : CStr) (rest : List CStr) (separator : CStr) :
    (joined (first :: rest) separator).length=
      ((first :: rest).map CStr.bytes).flatten.length+rest.length*separator.bytes.length := by
  rw [joined_cons,List.length_append,List.map_cons,List.flatten_cons,List.length_append]
  induction rest with
  | nil => simp
  | cons s rest ih =>
    rw [List.map_cons,List.flatten_cons,List.length_append,List.length_append,List.map_cons,
      List.flatten_cons,List.length_append,List.length_cons,Nat.succ_mul]
    omega

/-- The sum of the lengths, as long as it and the assertions' margin fit. -/
theorem joinSize_eq {margin : ℕ} (strings : List CStr) (size : ℕ)
    (hsize : size+(strings.map CStr.bytes).flatten.length+margin < 2^64) :
    joinSize margin strings size=some (size+(strings.map CStr.bytes).flatten.length) := by
  induction strings generalizing size with
  | nil => rfl
  | cons s rest ih =>
    rw [List.map_cons,List.flatten_cons,List.length_append] at hsize ⊢
    have hassert : wrapSize (s.bytes.length+margin) ≤ sizeMax-size := by
      unfold wrapSize sizeMax
      omega
    have hwrap : wrapSize (size+s.bytes.length)=size+s.bytes.length := Nat.mod_eq_of_lt (by omega)
    rw [joinSize,if_pos hassert,hwrap,ih _ (by omega),Nat.add_assoc]

/-- One string alone passes its assertion whatever the margin is. -/
theorem joinSize_one {margin : ℕ} {s : CStr} (hs : s.bytes.length < 2^64) :
    joinSize margin [s] 0=some s.bytes.length := by
  have hassert : wrapSize (s.bytes.length+margin) ≤ sizeMax-0 := by
    have hlt := Nat.mod_lt (s.bytes.length+margin) (show 0 < 2^64 by omega)
    unfold wrapSize sizeMax
    omega
  rw [joinSize,if_pos hassert,joinSize,Nat.zero_add]
  exact congrArg some (Nat.mod_eq_of_lt hs)

/-- The result of either join is the strings with the separator between them exactly if that fits
into SIZE_MAX bytes with its NUL. -/
theorem joinStrings_iff {margin : ℕ} (strings : List CStr) (separator : CStr)
    (hmargin : margin ≤ separator.bytes.length+1) :
    (joinStrings margin strings separator).map CStr.bytes=some (joined strings separator) ↔
      (joined strings separator).length < sizeMax := by
  rcases strings with _|⟨first,rest⟩
  · constructor
    · intro _
      change 0 < sizeMax
      decide
    · intro _
      rfl
  constructor
  · intro hj
    obtain ⟨s,hs,hbytes⟩ := Option.map_eq_some_iff.mp hj
    rw [← hbytes]
    rw [joinStrings] at hs
    obtain ⟨size,-,hs⟩ := Option.bind_eq_some_iff.mp hs
    simp only at hs
    split_ifs at hs with hassert hzero
    cases hs
    generalize size+wrapSize (((first :: rest).length-1)*separator.bytes.length+1)=total at hzero ⊢
    have hfirst : (first.strlcpy (wrapSize total)).bytes.length < wrapSize total := by
      change (first.bytes.take (wrapSize total-1)).length < wrapSize total
      rw [List.length_take]
      omega
    have hlt : (joinLoop (wrapSize total) separator (first.strlcpy (wrapSize total))
        rest).bytes.length < wrapSize total := joinLoop_fits rest hfirst
    have hwrap : wrapSize total ≤ sizeMax := by
      unfold wrapSize sizeMax
      omega
    omega
  · intro hfit
    have hlen := length_joined first rest separator
    have hsize : joinSize margin (first :: rest) 0=
        some ((first :: rest).map CStr.bytes).flatten.length := by
      cases rest with
      | nil =>
        rw [joinSize_one]
        · simp
        · unfold sizeMax at hfit
          simp at hlen
          omega
      | cons s rest =>
        rw [joinSize_eq,Nat.zero_add]
        rw [List.length_cons,Nat.succ_mul] at hlen
        unfold sizeMax at hfit
        omega
    have hcount : (first :: rest).length-1=rest.length := by simp
    have hsep : wrapSize (rest.length*separator.bytes.length+1)=
        rest.length*separator.bytes.length+1 := by
      unfold wrapSize sizeMax at *
      omega
    have htotal : wrapSize (((first :: rest).map CStr.bytes).flatten.length+
        (rest.length*separator.bytes.length+1))=(joined (first :: rest) separator).length+1 := by
      unfold wrapSize sizeMax at *
      omega
    rw [joinStrings,hsize]
    simp only [Option.bind_eq_bind,Option.bind_some,hcount,hsep,htotal]
    rw [if_pos (by unfold sizeMax at *; omega),if_neg (Nat.succ_ne_zero _),Option.map_some]
    refine congrArg some ?_
    rw [joined_cons,List.length_append] at hfit ⊢
    have hfirst : (first.strlcpy (first.bytes.length+
        (rest.map fun s => separator.bytes++s.bytes).flatten.length+1)).bytes=first.bytes := by
      change first.bytes.take _=_
      exact List.take_of_length_le (by omega)
    rw [joinLoop_whole,hfirst]
    rw [hfirst]
    omega

section

variable {frame : ℕ → Option CStr} {h : Strings} {v : StringVector} {owned : List (ℕ × CStr)}

/-- The string that a caller of vector_join gets. -/
def joinedText (h : Strings) (v : StringVector) (separator : CStr) : Option CStr :=
  vectorJoin h v separator >>= fun x => x.2.cells x.1

theorem joinedText_eq (ht : Table frame h v owned) (separator : CStr) :
    joinedText h v separator=
      joinStrings (separator.bytes.length+1) (owned.map Prod.snd) separator := by
  rw [joinedText,vectorJoin,texts_eq ht]
  simp only [Option.bind_eq_bind,Option.bind_some]
  cases joinStrings (separator.bytes.length+1) (owned.map Prod.snd) separator with
  | none => rfl
  | some string =>
    change (h.alloc string).2.cells (h.alloc string).1=_
    exact ((ht.holds.alloc string).cells _ string).mpr (Or.inr (by simp))

theorem joinedText_iff (ht : Table frame h v owned) (separator : CStr) :
    (joinedText h v separator).map CStr.bytes=some (joined (owned.map Prod.snd) separator) ↔
      (joined (owned.map Prod.snd) separator).length < sizeMax := by
  rw [joinedText_eq ht]
  exact joinStrings_iff _ separator (Nat.le_refl _)

/-- The separator as a string. -/
def oneChar (c : UInt8) (hc : c≠0) : CStr := ⟨[c],by simpa using hc.symm⟩

/-- The strings that vector_split makes of a string. -/
def splitTexts (h : Strings) (string : CStr) (c : UInt8) (v : Option StringVector) :
    Option (List CStr) :=
  vectorSplit h string c v >>= fun x => x.2.texts x.1

theorem splitTexts_eq {v : Option StringVector} (hp : Place frame h v owned) (string : CStr)
    (c : UInt8) :
    ∃ h' v' owned',vectorSplit h string c v=some (h',v') ∧ Table frame h' v' owned' ∧
      (owned'.map Prod.snd).map CStr.bytes=string.bytes.splitOn c := by
  obtain ⟨h',v',owned',hrun,ht,hpieces⟩ := splitInto_table (·=c) true string hp.reusable
  refine ⟨h',v',owned',?_,ht,?_⟩
  · rw [vectorSplit,splitCount_eq]
    exact hrun
  · rw [List.map_map]
    exact hpieces.trans (pieces_all _ _)

theorem splitTexts_joined {v : Option StringVector} (hp : Place frame h v owned)
    {c : UInt8} (hc : c≠0) {string : CStr} {l : List CStr}
    (hs : string.bytes=joined l (oneChar c hc)) :
    splitTexts h string c v=some l ↔ l≠[] ∧ ∀ s∈l,c∉s.bytes := by
  obtain ⟨h',v',owned',hrun,ht,hpieces⟩ := splitTexts_eq hp string c
  have htexts : splitTexts h string c v=some (owned'.map Prod.snd) := by
    rw [splitTexts,hrun]
    exact texts_eq ht
  have hjoined : joined l (oneChar c hc)=[c].intercalate (l.map CStr.bytes) := rfl
  rw [htexts]
  constructor
  · intro hl
    rw [Option.some.inj hl] at hpieces
    constructor
    · rintro rfl
      exact List.splitOn_ne_nil c string.bytes hpieces.symm
    · intro s hs hm
      have hpiece : s.bytes∈string.bytes.splitOn c := by
        rw [← hpieces]
        exact List.mem_map_of_mem hs
      rw [List.splitOn_eq_splitOnP] at hpiece
      simpa using noSep_of_mem_splitOnP hpiece c hm
  · rintro ⟨hne,hfree⟩
    rw [hs,hjoined,List.splitOn_intercalate c ?_ (by simpa using hne)] at hpieces
    · exact congrArg some (List.map_injective_iff.mpr (fun s t => CStr.ext) hpieces)
    · intro bytes hm
      obtain ⟨s,hs,rfl⟩ := List.mem_map.mp hm
      exact hfree s hs

theorem joinedText_split {v : Option StringVector} (hp : Place frame h v owned) {c : UInt8}
    (hc : c≠0) (string : CStr) (hfit : string.bytes.length < sizeMax) :
    (vectorSplit h string c v >>= fun x => joinedText x.1 x.2 (oneChar c hc))=some string := by
  obtain ⟨h',v',owned',hrun,ht,hpieces⟩ := splitTexts_eq hp string c
  have hjoined : joined (owned'.map Prod.snd) (oneChar c hc)=string.bytes := by
    rw [joined,hpieces]
    exact List.intercalate_splitOn c
  have hbytes := (joinedText_iff ht (oneChar c hc)).mpr (by rw [hjoined]; exact hfit)
  rw [hjoined] at hbytes
  obtain ⟨s,hs,hsb⟩ := Option.map_eq_some_iff.mp hbytes
  rw [hrun]
  change joinedText h' v' (oneChar c hc)=some string
  rw [hs,CStr.ext hsb]

end

/-- Of every vector that calls can make: joining it gives its strings with the separator between
them exactly if that fits, splitting that again gives the vector back exactly if no string has
the separator in it, and what is split into it is joined back. -/
theorem join_and_split {ι : Type} [DecidableEq ι] (h : Strings) (xs : List (ι × VectorCall))
    {pool : Pool ι} (hpool : (Pool.start h).calls xs=some pool) (i : ι) {v : StringVector}
    (hv : pool.vectors i=some v) :
    ∃ l,v.texts pool.heap=some l ∧
      (∀ separator,
        (joinedText pool.heap v separator).map CStr.bytes=some (joined l separator) ↔
          (joined l separator).length < sizeMax) ∧
      (∀ c hc,(joined l (oneChar c hc)).length < sizeMax →
        ((vectorJoin pool.heap v (oneChar c hc) >>= fun x => x.2.cells x.1 >>= fun string =>
          splitTexts x.2 string c none)=some l ↔ l≠[] ∧ ∀ s∈l,c∉s.bytes)) ∧
      ∀ c hc string,string.bytes.length < sizeMax →
        (vectorSplit pool.heap string c (some v) >>= fun x =>
          joinedText x.1 x.2 (oneChar c hc))=some string := by
  obtain ⟨own,hp,-⟩ := pool_mirrors h xs hpool
  have hplace := hp.places i
  rw [hv] at hplace
  have ht : Table _ pool.heap v (own i) := hplace
  refine ⟨(own i).map Prod.snd,texts_eq ht,joinedText_iff ht,?_,?_⟩
  · intro c hc hfit
    obtain ⟨string,hs,hbytes⟩ :=
      Option.map_eq_some_iff.mp ((joinedText_iff ht (oneChar c hc)).mpr hfit)
    obtain ⟨⟨p,h'⟩,hjoin,hcell⟩ := Option.bind_eq_some_iff.mp hs
    have hstart : Place h'.cells h' none [] := ⟨rfl,Heap.holds_self h'⟩
    rw [hjoin]
    change (h'.cells p >>= fun string => splitTexts h' string c none)=_ ↔ _
    rw [show h'.cells p=some string from hcell]
    exact splitTexts_joined hstart hc hbytes
  · intro c hc string hfit
    exact joinedText_split hplace hc string hfit

theorem join_and_split_added :
    ∃ pool v,
      (Pool.start ⟨fun _ => none,0,fun _ _ => rfl⟩).calls [((),.new),((),.add (CStr.lit "a")),
        ((),.add (CStr.lit "bc"))]=some pool ∧
      pool.vectors ()=some v ∧
      (joinedText pool.heap v (oneChar 44 (by decide))).map CStr.bytes=
        some (CStr.lit "a,bc").bytes ∧
      (vectorJoin pool.heap v (oneChar 44 (by decide)) >>= fun x => x.2.cells x.1 >>= fun string =>
        splitTexts x.2 string 44 none)=some [CStr.lit "a",CStr.lit "bc"] ∧
      (vectorSplit pool.heap (CStr.lit "x,y") 44 (some v) >>= fun x =>
        joinedText x.1 x.2 (oneChar 44 (by decide)))=some (CStr.lit "x,y") := by
  refine ⟨_,_,rfl,rfl,?_⟩
  obtain ⟨l,hl,hjoin,hback,hsplit⟩ := join_and_split ⟨fun _ => none,0,fun _ _ => rfl⟩
    [((),VectorCall.new),((),.add (CStr.lit "a")),((),.add (CStr.lit "bc"))] rfl () rfl
  have hstrings : l=[CStr.lit "a",CStr.lit "bc"] := Option.some.inj (hl.symm.trans rfl)
  subst hstrings
  exact ⟨(hjoin _).mpr (by decide),(hback 44 (by decide) (by decide)).mpr (by decide),
    hsplit 44 (by decide) (CStr.lit "x,y") (by decide)⟩

end Lbcd
