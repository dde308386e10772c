import Lbcd.Splits

namespace Lbcd

open CHeap CText Pieces

/-- What a caller does with one of its vectors. -/
inductive VectorCall where
  | new
  | add (string : CStr)
  | addn (string : CStr) (length : ℕ)
  | resize (size : ℕ)
  | clear
  | split (string : CStr) (separator : UInt8)
  | splitMulti (string seps : CStr)
  | splitSpace (string : CStr)
  | exec
  | free

namespace VectorCall

/-- The vector is asserted not to be null. -/
def needs (v : Option StringVector) (f : StringVector → Option (Strings × StringVector)) :
    Option (Strings × Option StringVector) :=
  v >>= fun v => (f v).map fun (h,v) => (h,some v)

/-- A new vector takes the place of none. -/
def run (h : Strings) (v : Option StringVector) :
    VectorCall → Option (Strings × Option StringVector)
  | new => if v.isNone then some ((vectorNew h).1,some (vectorNew h).2) else none
  | add string => needs v fun v => vectorAdd h v string
  | addn string length => needs v fun v => vectorAddn h v string length
  | resize size => needs v fun v => vectorResize h v size
  | clear => needs v fun v => vectorClear h v
  | split string separator => (vectorSplit h string separator v).map fun (h,v) => (h,some v)
  | splitMulti string seps => (vectorSplitMulti h string seps v).map fun (h,v) => (h,some v)
  | splitSpace string => (vectorSplitSpace h string v).map fun (h,v) => (h,some v)
  | exec => needs v fun v => (vectorExec h v).map fun (h,v,_) => (h,v)
  | free => (vectorFree h v).map fun h => (h,none)

/-- The same on a list of texts; none where a vector is missing or would be lost. -/
def onList (l : Option (List (List UInt8))) : VectorCall → Option (Option (List (List UInt8)))
  | new => if l.isNone then some (some []) else none
  | add string => l >>= fun l => some (some (l++[string.bytes]))
  | addn string length => l >>= fun l => some (some (l++[string.bytes.take length]))
  | resize size => l >>= fun l => some (some (l.take size))
  | clear => l >>= fun _ => some (some [])
  | split string separator => some (some (pieces (·=separator) true string.bytes))
  | splitMulti string seps => some (some (pieces (·∈seps.bytes) false string.bytes))
  | splitSpace string => some (some (pieces (·∈[32,9]) false string.bytes))
  | exec => l >>= fun l => some (some l)
  | free => some none

end VectorCall

/-- A caller's vectors and the heap that they are on. -/
structure Pool (ι : Type) where
  heap : Strings
  vectors : ι → Option StringVector

namespace Pool

variable {ι : Type}

def start (h : Strings) : Pool ι := ⟨h,fun _ => none⟩

/-- What the entries of a vector point to. -/
def contents (pool : Pool ι) (i : ι) : Option (List (Option (List UInt8))) :=
  (pool.vectors i).map fun v =>
    (v.strings.take v.count).map fun entry => (entry >>= pool.heap.cells).map CStr.bytes

def pointers (pool : Pool ι) (i : ι) : List ℕ :=
  (pool.vectors i).elim [] fun v => (v.strings.take v.count).filterMap id

variable [DecidableEq ι]

def call (pool : Pool ι) (x : ι × VectorCall) : Option (Pool ι) :=
  (x.2.run pool.heap (pool.vectors x.1)).map fun (h,v) =>
    ⟨h,Function.update pool.vectors x.1 v⟩

def calls (pool : Pool ι) (xs : List (ι × VectorCall)) : Option (Pool ι) := xs.foldlM call pool

end Pool

section

variable {ι : Type} [DecidableEq ι]

def callList (lists : ι → Option (List (List UInt8))) (x : ι × VectorCall) :
    Option (ι → Option (List (List UInt8))) :=
  (x.2.onList (lists x.1)).map (Function.update lists x.1)

/-- The calls on lists. -/
def callLists (xs : List (ι × VectorCall)) : Option (ι → Option (List (List UInt8))) :=
  xs.foldlM callList fun _ => none

end

/-- A vector's place is null and owns nothing, or it has a table. -/
def Place (frame : ℕ → Option CStr) (h : Strings) (v : Option StringVector)
    (owned : List (ℕ × CStr)) : Prop :=
  match v with
  | none => owned=[] ∧ h.Holds frame owned
  | some v => Table frame h v owned

def listOf (v : Option StringVector) (owned : List (ℕ × CStr)) : Option (List (List UInt8)) :=
  v.map fun _ => owned.map (·.2.bytes)

section

variable {frame frame' : ℕ → Option CStr} {h h' : Strings} {v : Option StringVector}
  {owned : List (ℕ × CStr)}

theorem Place.holds (hp : Place frame h v owned) : h.Holds frame owned := by
  cases v with
  | none => exact hp.2
  | some v => exact hp.holds

theorem Place.moved (hp : Place frame h v owned) (hh' : h'.Holds frame' owned) :
    Place frame' h' v owned := by
  cases v with
  | none => exact ⟨hp.1,hh'⟩
  | some v => exact ⟨hp.entries,hp.count,hp.room,hp.nonempty,hh'⟩

theorem Place.reusable (hp : Place frame h v owned) :
    v.elim (h.Holds frame []) fun v => ∃ owned,Table frame h v owned := by
  cases v with
  | none => exact hp.1 ▸ hp.2
  | some v => exact ⟨owned,hp⟩

/-- After a call a place holds the list. -/
def Placed (frame : ℕ → Option CStr) (after : Strings × Option StringVector)
    (l : Option (List (List UInt8))) : Prop :=
  ∃ owned,Place frame after.1 after.2 owned ∧ listOf after.2 owned=l

/-- A call does what it does on lists, and fails only where that does. -/
abbrev Agrees (frame : ℕ → Option CStr) :
    Option (Strings × Option StringVector) → Option (Option (List (List UInt8))) → Prop :=
  Option.Rel (Placed frame)

theorem needs_agrees {f : StringVector → Option (Strings × StringVector)}
    {g : List (List UInt8) → List (List UInt8)} (hp : Place frame h v owned)
    (hf : ∀ v,Table frame h v owned → ∃ h' v' owned',f v=some (h',v') ∧
      Table frame h' v' owned' ∧ owned'.map (·.2.bytes)=g (owned.map (·.2.bytes))) :
    Agrees frame (VectorCall.needs v f) (listOf v owned >>= fun l => some (some (g l))) := by
  cases v with
  | none => exact Option.Rel.none
  | some v =>
    obtain ⟨h',v',owned',hrun,ht,hg⟩ := hf v hp
    rw [show VectorCall.needs (some v) f=some (h',some v') from congrArg (Option.map _) hrun]
    exact Option.Rel.some ⟨owned',ht,congrArg some hg⟩

theorem splitInto_agrees (isSep : UInt8 → Bool) (keepEmpty : Bool) (string : CStr) {count : ℕ}
    (hp : Place frame h v owned)
    (hcount : count=(pieces isSep keepEmpty string.bytes).length) :
    Agrees frame ((splitInto isSep keepEmpty count h string v).map fun (h,v) => (h,some v))
      (some (some (pieces isSep keepEmpty string.bytes))) := by
  obtain ⟨h',v',owned',hrun,ht,hg⟩ := splitInto_table isSep keepEmpty string hp.reusable
  rw [hcount,hrun]
  exact Option.Rel.some ⟨owned',ht,congrArg some hg⟩

theorem add_agrees (hp : Place frame h v owned) (string : CStr) :
    Agrees frame (VectorCall.needs v fun v => vectorAdd h v string)
      (listOf v owned >>= fun l => some (some (l++[string.bytes]))) := by
  refine needs_agrees (g := (·++[string.bytes])) hp ?_
  intro v ht
  obtain ⟨h',v',p,hrun,ht'⟩ := vectorAdd_table ht string
  exact ⟨h',v',_,hrun,ht',List.map_append⟩

theorem run_agrees (call : VectorCall) (hp : Place frame h v owned) :
    Agrees frame (call.run h v) (call.onList (listOf v owned)) := by
  cases call with
  | new =>
    cases v with
    | none => exact Option.Rel.some ⟨[],vectorNew_table (hp.1 ▸ hp.2),rfl⟩
    | some v => exact Option.Rel.none
  | add string => exact add_agrees hp string
  | addn string length => exact add_agrees hp (copyPart string 0 length)
  | resize size =>
    refine needs_agrees (g := List.take size) hp ?_
    intro v ht
    obtain ⟨h',v',hrun,ht',-⟩ := vectorResize_table ht size
    exact ⟨h',v',_,hrun,ht',List.map_take⟩
  | clear =>
    refine needs_agrees (g := fun _ => []) hp ?_
    intro v ht
    obtain ⟨h',v',hrun,ht',-⟩ := vectorClear_table ht
    exact ⟨h',v',_,hrun,ht',rfl⟩
  | split string separator =>
    exact splitInto_agrees _ true string hp (splitCount_eq string separator)
  | splitMulti string seps =>
    exact splitInto_agrees _ false string hp (splitMultiCount_eq string seps)
  | splitSpace string =>
    exact splitInto_agrees _ false string hp (splitMultiCount_eq string spaceTab)
  | exec =>
    refine needs_agrees (g := fun l => l) hp ?_
    intro v ht
    obtain ⟨h',v',argv,hrun,ht',-⟩ := vectorExec_table ht
    refine ⟨h',v',_,?_,ht',rfl⟩
    rw [hrun]
    rfl
  | free =>
    cases v with
    | none => exact Option.Rel.some ⟨[],⟨rfl,hp.1 ▸ hp.2⟩,rfl⟩
    | some v =>
      obtain ⟨h',hrun,hh'⟩ := vectorFree_table hp
      rw [show VectorCall.free.run h (some v)=some (h',none) from congrArg (Option.map _) hrun]
      exact Option.Rel.some ⟨[],⟨rfl,hh'⟩,rfl⟩

end

section

variable {ι : Type} {frame : ℕ → Option CStr} {pool : Pool ι} {own : ι → List (ℕ × CStr)}

/-- Each vector has its own cells, and nobody else has them. -/
structure Pooled (frame : ℕ → Option CStr) (pool : Pool ι) (own : ι → List (ℕ × CStr)) :
    Prop where
  shared : pool.heap.Shared frame own
  places : ∀ i,Place (pool.heap.beside (own i)) pool.heap (pool.vectors i) (own i)

theorem pooled_start (h : Strings) : Pooled h.cells (Pool.start h : Pool ι) fun _ => [] where
  shared := Heap.shared_none h
  places i := ⟨rfl,(Heap.shared_none h).one i⟩

/-- The vectors are the lists. -/
def Mirrors (frame : ℕ → Option CStr) (pool : Pool ι) (lists : ι → Option (List (List UInt8))) :
    Prop :=
  ∃ own,Pooled frame pool own ∧ ∀ i,listOf (pool.vectors i) (own i)=lists i

theorem Mirrors.call [DecidableEq ι] (pool : Pool ι) (lists : ι → Option (List (List UInt8)))
    (x : ι × VectorCall) (hm : Mirrors frame pool lists) :
    Option.Rel (Mirrors frame) (pool.call x) (callList lists x) := by
  obtain ⟨i,c⟩ := x
  obtain ⟨own,hp,hlists⟩ := hm
  have hrun := run_agrees c (hp.places i)
  rw [hlists i] at hrun
  unfold callList Pool.call
  generalize c.run pool.heap (pool.vectors i)=after at hrun ⊢
  generalize c.onList (lists i)=l at hrun ⊢
  cases hrun with
  | none => exact Option.Rel.none
  | @some after l hafter =>
    obtain ⟨h',v'⟩ := after
    obtain ⟨owned,hplace,hlist⟩ := hafter
    have hshared := hp.shared.update i hplace.holds
    refine Option.Rel.some ⟨Function.update own i owned,⟨hshared,?_⟩,?_⟩
    · intro j
      have hone := hshared.one j
      change Place _ h' (Function.update pool.vectors i v' j) (Function.update own i owned j)
      by_cases hj : j=i
      · subst hj
        rw [Function.update_self] at hone ⊢
        rw [Function.update_self]
        exact hplace.moved hone
      · rw [Function.update_of_ne hj] at hone ⊢
        rw [Function.update_of_ne hj]
        exact (hp.places j).moved hone
    · intro j
      change listOf (Function.update pool.vectors i v' j) (Function.update own i owned j)=
        Function.update lists i l j
      by_cases hj : j=i
      · subst hj
        simpa using hlist
      · simpa [hj] using hlists j

theorem Place.pointers_eq {h : Strings} {v : Option StringVector} {owned : List (ℕ × CStr)}
    (hp : Place frame h v owned) :
    (v.elim [] fun v => (v.strings.take v.count).filterMap id)=owned.map Prod.fst := by
  cases v with
  | none => rw [hp.1]; rfl
  | some v =>
    change (v.strings.take v.count).filterMap id=_
    rw [hp.entries,List.filterMap_map]
    exact congrFun List.filterMap_eq_map owned

theorem Pooled.contents_eq (hp : Pooled frame pool own) (i : ι) :
    pool.contents i=(listOf (pool.vectors i) (own i)).map (List.map some) := by
  have hplace := hp.places i
  unfold Pool.contents
  generalize pool.vectors i=v at hplace ⊢
  cases v with
  | none => rfl
  | some v =>
    have hentries : v.strings.take v.count=(own i).map fun x => some x.1 := hplace.entries
    simp only [Option.map_some,hentries,listOf,List.map_map]
    refine congrArg some (List.map_congr_left fun x hx => ?_)
    have hcell : pool.heap.cells x.1=some x.2 :=
      (hp.shared.cells x.1 x.2).mpr (Or.inr ⟨i,hx⟩)
    change (pool.heap.cells x.1).map CStr.bytes=_
    rw [hcell]
    rfl

theorem calls_mirror [DecidableEq ι] (h : Strings) (xs : List (ι × VectorCall)) :
    Option.Rel (Mirrors h.cells) ((Pool.start h).calls xs) (callLists xs) :=
  foldlM_rel Mirrors.call xs ⟨_,pooled_start h,fun _ => rfl⟩

theorem pool_mirrors [DecidableEq ι] (h : Strings) (xs : List (ι × VectorCall))
    (hpool : (Pool.start h).calls xs=some pool) : ∃ own,Pooled h.cells pool own ∧
      ∃ lists,callLists xs=some lists ∧ ∀ i,listOf (pool.vectors i) (own i)=lists i := by
  have hcalls := calls_mirror h xs
  rw [hpool] at hcalls
  generalize callLists xs=lists at hcalls ⊢
  cases hcalls with
  | @some _ lists hm =>
    obtain ⟨own,hp,hlists⟩ := hm
    exact ⟨own,hp,lists,rfl,hlists⟩

/-- However the calls on any number of vectors are interleaved, each vector is the list of texts
that its own calls make; what else was on the heap stays, and nothing is left behind. -/
theorem vectors_are_lists [DecidableEq ι] (h : Strings) (xs : List (ι × VectorCall)) :
    ((Pool.start h).calls xs).map Pool.contents=
        (callLists xs).map (fun lists i => (lists i).map (List.map some)) ∧
      ∀ pool∈(Pool.start h).calls xs,
        (∀ p a,h.cells p=some a → pool.heap.cells p=some a) ∧
        (∀ p,pool.heap.cells p≠none ↔ h.cells p≠none ∨ ∃ i,p∈pool.pointers i) ∧
        (∀ i,(pool.pointers i).Nodup) ∧
        ∀ i j p,p∈pool.pointers i → p∈pool.pointers j → i=j := by
  have hcalls := calls_mirror h xs
  generalize (Pool.start h).calls xs=after at hcalls ⊢
  generalize callLists xs=lists at hcalls ⊢
  cases hcalls with
  | none => exact ⟨rfl,fun _ hm => by cases hm⟩
  | @some pool lists hm =>
    obtain ⟨own,hp,hlists⟩ := hm
    constructor
    · refine congrArg some (funext fun i => ?_)
      rw [hp.contents_eq,hlists]
    intro pool' hm
    cases hm
    have hptr (i : ι) : pool.pointers i=(own i).map Prod.fst := (hp.places i).pointers_eq
    refine ⟨fun p a hpa => (hp.shared.cells p a).mpr (Or.inl hpa),?_,?_,?_⟩
    · intro p
      simp only [Option.ne_none_iff_exists',hp.shared.cells,hptr,List.mem_map]
      constructor
      · rintro ⟨a,ha|⟨i,hi⟩⟩
        · exact Or.inl ⟨a,ha⟩
        · exact Or.inr ⟨i,(p,a),hi,rfl⟩
      · rintro (⟨a,ha⟩|⟨i,x,hx,rfl⟩)
        · exact ⟨a,Or.inl ha⟩
        · exact ⟨x.2,Or.inr ⟨i,hx⟩⟩
    · intro i
      rw [hptr]
      exact hp.shared.distinct i
    · intro i j p hi hj
      rw [hptr] at hi hj
      by_contra hij
      exact hp.shared.disjoint i j p hij hi hj

end

end Lbcd
