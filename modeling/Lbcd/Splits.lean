import Lbcd.Vectors

namespace Lbcd

open CHeap CText Pieces

theorem foldl_count (separator : UInt8) (text : List UInt8) (count : ℕ) :
    text.foldl (fun count c => if c=separator then count+1 else count) count=
      count+text.countP (·=separator) := by
  induction text generalizing count with
  | nil => rfl
  | cons c text ih =>
    rw [List.foldl_cons,ih]
    by_cases hc : c=separator
    · rw [if_pos hc,List.countP_cons_of_pos (by simpa using hc)]
      omega
    · rw [if_neg hc,List.countP_cons_of_neg (by simpa using hc)]

theorem splitCount_eq (string : CStr) (separator : UInt8) :
    splitCount string separator=(pieces (·=separator) true string.bytes).length := by
  rw [← parts_start,length_parts,splitCount]
  by_cases hempty : string.bytes=[]
  · rw [if_pos hempty,hempty]
    rfl
  · rw [if_neg hempty,foldl_count]
    exact Nat.add_comm _ _

/-- The count is one too high exactly where the last character is a separator. -/
def multiCountEnd (seps : List UInt8) (end' : UInt8 × ℕ) : ℕ :=
  if end'.1∈seps then end'.2-1 else end'.2

/-- Each part that is still to come is counted at the separator after it; the one that is being
read has been counted already. -/
theorem multiCountLoop_eq (seps : List UInt8) (before : UInt8) (rest acc : List UInt8) (count : ℕ)
    (hacc : acc=[] ↔ before∈seps) (hcount : 0 < count) :
    multiCountEnd seps (multiCountLoop seps before rest count)+1=
      count+(parts (·∈seps) false acc rest).length := by
  induction rest generalizing before acc count with
  | nil =>
    rw [multiCountLoop,multiCountEnd,parts_end]
    by_cases hb : before∈seps
    · rw [if_pos hb,hacc.mpr hb]
      change count-1+1=count+0
      omega
    · have hne : acc≠[] := fun hnil => hb (hacc.mp hnil)
      rw [if_neg hb,if_pos (by simpa [kept] using hne)]
      rfl
  | cons c rest ih =>
    rw [multiCountLoop]
    by_cases hc : c∈seps
    · rw [parts_sep (by simpa using hc)]
      by_cases hb : before∈seps
      · rw [if_neg (by simp [hb]),hacc.mpr hb]
        exact ih c [] count ⟨fun _ => hc,fun _ => rfl⟩ hcount
      · have hne : acc≠[] := fun hnil => hb (hacc.mp hnil)
        rw [if_pos ⟨hc,hb⟩,if_pos (by simpa [kept] using hne)]
        have hrest := ih c [] (count+1) ⟨fun _ => hc,fun _ => rfl⟩ (Nat.succ_pos _)
        rw [List.length_append,List.length_singleton]
        omega
    · rw [parts_char (by simpa using hc),if_neg (by simp [hc])]
      exact ih c (acc++[c]) count (by simp [hc]) hcount

theorem splitMultiCount_eq (string seps : CStr) :
    splitMultiCount string seps=(pieces (·∈seps.bytes) false string.bytes).length := by
  rw [← parts_start,splitMultiCount]
  rcases string.bytes with _|⟨c,rest⟩
  · rfl
  · change multiCountEnd seps.bytes (multiCountLoop seps.bytes c rest 1)=_
    by_cases hc : c∈seps.bytes
    · have hloop := multiCountLoop_eq seps.bytes c rest [] 1 (by simp [hc]) Nat.one_pos
      rw [parts_sep (by simpa using hc)]
      change _=(parts (·∈seps.bytes) false [] rest).length
      omega
    · have hloop := multiCountLoop_eq seps.bytes c rest [c] 1 (by simp [hc]) Nat.one_pos
      rw [parts_char (by simpa using hc)]
      change _=(parts (·∈seps.bytes) false [c] rest).length
      omega

section

variable {frame : ℕ → Option CStr} (isSep : UInt8 → Bool) (keepEmpty : Bool)

/-- The vector that a table is being filled for. -/
def Filling.vector (f : Filling) : StringVector := ⟨f.i,f.strings⟩

theorem copyPart_bytes {string : CStr} {done acc rest : List UInt8}
    (hs : string.bytes=done++(acc++rest)) :
    (copyPart string done.length (done.length+acc.length-done.length)).bytes=acc := by
  rw [Nat.add_sub_cancel_left]
  change (string.bytes.drop done.length).take acc.length=acc
  rw [hs,List.drop_left,List.take_left]

theorem kept_iff (done acc : List UInt8) :
    (keepEmpty=true ∨ done.length≠done.length+acc.length) ↔ kept keepEmpty acc=true := by
  cases acc with
  | nil => simp [kept]
  | cons c acc => simp [kept]

/-- What is stored at the end of a part is the part, or nothing if it is not to be kept. -/
theorem endPart_table {string : CStr} {done acc rest : List UInt8} {f : Filling}
    {owned : List (ℕ × CStr)} (hs : string.bytes=done++(acc++rest))
    (ht : Table frame f.heap f.vector owned)
    (hroom : f.i+(if kept keepEmpty acc then [acc] else []).length ≤ f.strings.length) :
    ∃ f' new,f.endPart keepEmpty string done.length (done.length+acc.length)=some f' ∧
      Table frame f'.heap f'.vector (owned++new) ∧
      new.map (·.2.bytes)=(if kept keepEmpty acc then [acc] else []) ∧
      f'.strings.length=f.strings.length := by
  rw [Filling.endPart]
  by_cases hkept : kept keepEmpty acc=true
  · rw [if_pos ((kept_iff keepEmpty done acc).mpr hkept),if_pos hkept]
    rw [if_pos hkept] at hroom
    obtain ⟨strings,hset,hlen,ht'⟩ := ht.push (show f.i < f.strings.length from hroom)
      (copyPart string done.length (done.length+acc.length-done.length))
    refine ⟨⟨_,strings,f.i+1⟩,_,?_,ht',?_,hlen⟩
    · exact congrArg (· >>= fun strings => some (Filling.mk _ strings (f.i+1))) hset
    · exact congrArg (fun x => [x]) (copyPart_bytes hs)
  · rw [if_neg (fun h => hkept ((kept_iff keepEmpty done acc).mp h)),if_neg hkept]
    refine ⟨f,[],rfl,?_,rfl,rfl⟩
    rw [List.append_nil]
    exact ht

theorem splitWalk_table {string : CStr} (rest : List UInt8) {done acc : List UInt8} {f : Filling}
    {owned : List (ℕ × CStr)} (hs : string.bytes=done++(acc++rest))
    (ht : Table frame f.heap f.vector owned)
    (hroom : f.i+(parts isSep keepEmpty acc rest).length ≤ f.strings.length) :
    ∃ f' new,splitWalk isSep keepEmpty string rest (done.length+acc.length) done.length f=some f' ∧
      Table frame f'.heap f'.vector (owned++new) ∧
      new.map (·.2.bytes)=parts isSep keepEmpty acc rest := by
  induction rest generalizing done acc f owned with
  | nil =>
    rw [parts_end] at hroom ⊢
    obtain ⟨f',new,hstore,ht',hnew,-⟩ := endPart_table keepEmpty hs ht hroom
    exact ⟨f',new,hstore,ht',hnew⟩
  | cons c rest ih =>
    rw [splitWalk]
    by_cases hc : isSep c
    · rw [parts_sep hc,List.length_append] at hroom
      obtain ⟨f1,new1,hstore,ht1,hnew1,hlen1⟩ := endPart_table keepEmpty hs ht (by omega)
      have hcount : f1.i=f.i+(if kept keepEmpty acc then [acc] else []).length := by
        have hown : owned.length=f.i := ht.count.symm
        have hown1 : f1.i=(owned++new1).length := ht1.count
        rw [← hnew1,List.length_map,hown1,List.length_append,hown]
      have hs1 : string.bytes=(done++acc++[c])++([]++rest) := by
        rw [hs]
        simp
      obtain ⟨f2,new2,hwalk,ht2,hnew2⟩ := ih hs1 ht1 (by omega)
      refine ⟨f2,new1++new2,?_,?_,?_⟩
      · rw [if_pos hc,hstore]
        simp only [List.length_append,List.length_cons,List.length_nil] at hwalk
        exact hwalk
      · rw [← List.append_assoc]
        exact ht2
      · rw [parts_sep hc,List.map_append,hnew1,hnew2]
    · rw [parts_char hc] at hroom ⊢
      have hs1 : string.bytes=done++((acc++[c])++rest) := by
        rw [hs]
        simp
      obtain ⟨f',new,hwalk,ht',hnew⟩ := ih hs1 ht hroom
      refine ⟨f',new,?_,ht',hnew⟩
      rw [if_neg hc]
      rw [List.length_append] at hwalk
      exact hwalk

variable {h : Strings}

theorem makeRoom_table {v : StringVector} (ht : Table frame h v []) (count : ℕ) :
    ∃ h' v',makeRoom h v count=some (h',v') ∧ Table frame h' v' [] ∧ count ≤ v'.allocated := by
  by_cases hlt : v.allocated < count
  · obtain ⟨h',v',hresize,ht',halloc⟩ := vectorResize_table ht count
    rw [List.take_nil] at ht'
    refine ⟨h',v',?_,ht',by omega⟩
    rw [makeRoom,if_pos hlt,hresize]
  · exact ⟨h,v,if_neg hlt,ht,by omega⟩

/-- With the right count the table is never too small. -/
theorem splitInto_table {v : Option StringVector} (string : CStr)
    (hv : v.elim (h.Holds frame []) fun v => ∃ owned,Table frame h v owned) :
    ∃ h' v' owned,
      splitInto isSep keepEmpty (pieces isSep keepEmpty string.bytes).length h string v=
        some (h',v') ∧
      Table frame h' v' owned ∧ owned.map (·.2.bytes)=pieces isSep keepEmpty string.bytes := by
  obtain ⟨h1,v1,hreuse,ht1⟩ := vectorReuse_table hv
  obtain ⟨h2,v2,hresize,ht2,halloc⟩ := makeRoom_table ht1
    (pieces isSep keepEmpty string.bytes).length
  have hzero : v2.count=0 := ht2.count
  have htable : Table frame h2 (Filling.vector ⟨h2,v2.strings,0⟩) [] :=
    ⟨rfl,rfl,Nat.zero_le _,ht2.nonempty,ht2.holds⟩
  have hlen : 0+(parts isSep keepEmpty [] string.bytes).length ≤ v2.strings.length := by
    rw [Nat.zero_add]
    exact halloc
  obtain ⟨f,owned,hwalk,htf,hnew⟩ := splitWalk_table isSep keepEmpty string.bytes
    (f := ⟨h2,v2.strings,0⟩) (List.nil_append _).symm htable hlen
  refine ⟨f.heap,f.vector,owned,?_,htf,hnew⟩
  unfold splitInto
  rw [hreuse]
  simp only [Option.bind_eq_bind,Option.bind_some,Option.pure_def]
  rw [hresize]
  exact congrArg (· >>= fun f : Filling => some (f.heap,f.vector)) hwalk

end

end Lbcd
