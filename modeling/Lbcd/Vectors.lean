import Lbcd.Interaction.Heap
import Lbcd.Interaction.Pieces
import Lbcd.Interaction.CText

namespace Lbcd

open CHeap CText Pieces

/-- A heap of C strings. -/
abbrev Strings := Heap CStr

/-- xstrndup of at most n characters from start on. -/
def copyPart (string : CStr) (start n : ℕ) : CStr :=
  ⟨(string.bytes.drop start).take n,fun hm =>
    string.nulFree (List.mem_of_mem_drop (List.mem_of_mem_take hm))⟩

/-- The table has allocated entries; the first count of them point to strings of the vector's
own. -/
structure StringVector where
  count : ℕ
  strings : List (Option ℕ)

namespace StringVector

def allocated (v : StringVector) : ℕ := v.strings.length

end StringVector

/-- The calls of free in a loop over entries. An entry that points nowhere is not freed by
any of the loops below. -/
def freeEntries (h : Strings) : List (Option ℕ) → Option Strings
  | [] => some h
  | none :: _ => none
  | some p :: rest => h.free p >>= fun h => freeEntries h rest

/-- An entry beyond the table is not written. -/
def setEntry (strings : List (Option ℕ)) (i : ℕ) (entry : Option ℕ) :
    Option (List (Option ℕ)) :=
  if i < strings.length then some (strings.set i entry) else none

/-- The vector's strings, in order. -/
def StringVector.texts (h : Strings) (v : StringVector) : Option (List CStr) :=
  (v.strings.take v.count).mapM (· >>= h.cells)

def vectorNew (h : Strings) : Strings × StringVector := (h,⟨0,[none]⟩)

/-- xreallocarray keeps what fits and leaves new entries as they are. -/
def reallocEntries (strings : List (Option ℕ)) (size : ℕ) : List (Option ℕ) :=
  strings.take size++List.replicate (size-strings.length) none

def vectorResize (h : Strings) (v : StringVector) (size : ℕ) : Option (Strings × StringVector) := do
  let (h,count) ← if size < v.count then do
      let h ← freeEntries h ((v.strings.take v.count).drop size)
      pure (h,size)
    else pure (h,v.count)
  let size := if size=0 then 1 else size
  return (h,⟨count,reallocEntries v.strings size⟩)

def vectorAdd (h : Strings) (v : StringVector) (string : CStr) :
    Option (Strings × StringVector) := do
  let next := v.count
  let (h,v) ← if v.count=v.allocated then vectorResize h v (v.allocated+1) else pure (h,v)
  let (p,h) := h.alloc string
  let strings ← setEntry v.strings next (some p)
  return (h,⟨v.count+1,strings⟩)

/-- At most length characters of the string are copied. -/
def vectorAddn (h : Strings) (v : StringVector) (string : CStr) (length : ℕ) :
    Option (Strings × StringVector) :=
  vectorAdd h v (copyPart string 0 length)

def vectorClear (h : Strings) (v : StringVector) : Option (Strings × StringVector) := do
  let h ← freeEntries h (v.strings.take v.count)
  return (h,⟨0,v.strings⟩)

def vectorFree (h : Strings) (v : Option StringVector) : Option Strings :=
  match v with
  | none => return h
  | some v => do
    let (h,_) ← vectorClear h v
    return h

def vectorReuse (h : Strings) (v : Option StringVector) : Option (Strings × StringVector) :=
  match v with
  | none => return vectorNew h
  | some v => vectorClear h v

def splitCount (string : CStr) (separator : UInt8) : ℕ :=
  if string.bytes=[] then 1
  else string.bytes.foldl (fun count c => if c=separator then count+1 else count) 1

/-- The loop of split_multi_count, from the character before, and what is before the end. -/
def multiCountLoop (seps : List UInt8) : UInt8 → List UInt8 → ℕ → UInt8 × ℕ
  | before,[],count => (before,count)
  | before,c :: rest,count =>
    multiCountLoop seps c rest (if c∈seps ∧ before∉seps then count+1 else count)

/-- A string that is all separators has its count go from 1 to 0. -/
def splitMultiCount (string seps : CStr) : ℕ :=
  match string.bytes with
  | [] => 0
  | c :: rest =>
    let (last,count) := multiCountLoop seps.bytes c rest 1
    if last∈seps.bytes then count-1 else count

/-- A table that is being filled, up to i. -/
structure Filling where
  heap : Strings
  strings : List (Option ℕ)
  i : ℕ

/-- xstrndup of the part from start to p, into the next entry. -/
def Filling.store (f : Filling) (string : CStr) (start p : ℕ) : Option Filling := do
  let (q,h) := f.heap.alloc (copyPart string start (p-start))
  let strings ← setEntry f.strings f.i (some q)
  return ⟨h,strings,f.i+1⟩

/-- Where empty parts are not to be kept, a part is stored only if p has moved on since its
start. -/
def Filling.endPart (keepEmpty : Bool) (f : Filling) (string : CStr) (start p : ℕ) :
    Option Filling :=
  if keepEmpty ∨ start≠p then f.store string start p else some f

/-- The loop of both splits. -/
def splitWalk (isSep : UInt8 → Bool) (keepEmpty : Bool) (string : CStr) :
    List UInt8 → ℕ → ℕ → Filling → Option Filling
  | [],p,start,f => f.endPart keepEmpty string start p
  | c :: rest,p,start,f =>
    if isSep c then do
      let f ← f.endPart keepEmpty string start p
      splitWalk isSep keepEmpty string rest (p+1) (p+1) f
    else splitWalk isSep keepEmpty string rest (p+1) start f

def makeRoom (h : Strings) (v : StringVector) (count : ℕ) : Option (Strings × StringVector) :=
  if v.allocated < count then vectorResize h v count else some (h,v)

/-- The vector is cleared, made large enough and filled. -/
def splitInto (isSep : UInt8 → Bool) (keepEmpty : Bool) (count : ℕ) (h : Strings)
    (string : CStr) (v : Option StringVector) : Option (Strings × StringVector) := do
  let (h,v) ← vectorReuse h v
  let (h,v) ← makeRoom h v count
  let f ← splitWalk isSep keepEmpty string string.bytes 0 0 ⟨h,v.strings,0⟩
  return (f.heap,⟨f.i,f.strings⟩)

def vectorSplit (h : Strings) (string : CStr) (separator : UInt8) (v : Option StringVector) :
    Option (Strings × StringVector) :=
  splitInto (·=separator) true (splitCount string separator) h string v

def vectorSplitMulti (h : Strings) (string seps : CStr) (v : Option StringVector) :
    Option (Strings × StringVector) :=
  splitInto (·∈seps.bytes) false (splitMultiCount string seps) h string v

/-- A space and a tab. -/
def spaceTab : CStr := ⟨[32,9],by decide⟩

def vectorSplitSpace (h : Strings) (string : CStr) (v : Option StringVector) :
    Option (Strings × StringVector) :=
  vectorSplitMulti h string spaceTab v

/-- The table gets a null pointer after its strings; execv is given the table. -/
def vectorExec (h : Strings) (v : StringVector) :
    Option (Strings × StringVector × List (Option ℕ)) := do
  let (h,v) ← if v.allocated=v.count then vectorResize h v (v.count+1) else pure (h,v)
  let strings ← setEntry v.strings v.count none
  return (h,⟨v.count,strings⟩,strings)

/-- A vector has these strings of its own beside a frame: its first entries point to them, and
nothing else was allocated or freed. -/
structure Table (frame : ℕ → Option CStr) (h : Strings) (v : StringVector)
    (owned : List (ℕ × CStr)) : Prop where
  entries : v.strings.take v.count=owned.map fun x => some x.1
  count : v.count=owned.length
  room : v.count ≤ v.allocated
  nonempty : 0 < v.allocated
  holds : h.Holds frame owned

theorem freeEntries_map (h : Strings) (owned : List (ℕ × CStr)) :
    freeEntries h (owned.map fun x => some x.1)=h.freeAll (owned.map Prod.fst) := by
  induction owned generalizing h with
  | nil => rfl
  | cons x owned ih => exact congrArg (h.free x.1 >>= ·) (funext ih)

theorem reallocEntries_take {strings : List (Option ℕ)} {size n : ℕ} (hn : n ≤ size)
    (hs : n ≤ strings.length) : (reallocEntries strings size).take n=strings.take n := by
  rw [reallocEntries,List.take_append_of_le_length,List.take_take,Nat.min_eq_left hn]
  rw [List.length_take]
  omega

theorem reallocEntries_length (strings : List (Option ℕ)) (size : ℕ) :
    (reallocEntries strings size).length=size := by
  rw [reallocEntries,List.length_append,List.length_take,List.length_replicate]
  omega

section

variable {frame : ℕ → Option CStr} {h : Strings} {v : StringVector}
  {owned : List (ℕ × CStr)}

theorem Table.freed (ht : Table frame h v owned) (n : ℕ) :
    ∃ h',freeEntries h ((v.strings.take v.count).drop n)=some h' ∧
      h'.Holds frame (owned.take n) := by
  have hholds := ht.holds
  rw [← List.take_append_drop n owned] at hholds
  obtain ⟨h',hfree,hh'⟩ := hholds.freeAll
  refine ⟨h',?_,hh'⟩
  rw [ht.entries,← List.map_drop,freeEntries_map]
  exact hfree

/-- A smaller size drops the last strings. -/
theorem vectorResize_table (ht : Table frame h v owned) (size : ℕ) :
    ∃ h' v',vectorResize h v size=some (h',v') ∧ Table frame h' v' (owned.take size) ∧
      v'.allocated=max size 1 := by
  have hsize : (if size=0 then 1 else size)=max size 1 := by
    split_ifs with hzero
    · rw [hzero]
      rfl
    · omega
  have hroom := ht.room
  have hcount := ht.count
  unfold StringVector.allocated at hroom
  have htable {h' : Strings} {n : ℕ} (hn : n=(owned.take size).length) (hle : n ≤ v.count)
      (hh' : h'.Holds frame (owned.take size)) :
      Table frame h' ⟨n,reallocEntries v.strings (max size 1)⟩ (owned.take size) := by
    rw [List.length_take] at hn
    refine ⟨?_,?_,?_,?_,hh'⟩
    · change (reallocEntries v.strings (max size 1)).take n=_
      rw [reallocEntries_take (by omega) (by omega),List.map_take,← ht.entries,List.take_take]
      congr 1
      omega
    · rw [List.length_take]
      exact hn
    · change n ≤ (reallocEntries v.strings (max size 1)).length
      rw [reallocEntries_length]
      omega
    · change 0 < (reallocEntries v.strings (max size 1)).length
      rw [reallocEntries_length]
      omega
  unfold vectorResize
  rw [hsize]
  by_cases hlt : size < v.count
  · obtain ⟨h',hfree,hh'⟩ := ht.freed size
    refine ⟨h',_,?_,htable (n := size) ?_ (Nat.le_of_lt hlt) hh',reallocEntries_length _ _⟩
    · rw [if_pos hlt,hfree]
      rfl
    · rw [List.length_take]
      omega
  · have hall : owned.take size=owned := List.take_of_length_le (by omega)
    have hholds : h.Holds frame (owned.take size) := by
      rw [hall]
      exact ht.holds
    refine ⟨h,_,?_,htable (n := v.count) ?_ (Nat.le_refl _) hholds,reallocEntries_length _ _⟩
    · rw [if_neg hlt]
      rfl
    · rw [hall,hcount]

/-- A new string goes into the first free entry. -/
theorem Table.push (ht : Table frame h v owned) (hroom : v.count < v.allocated)
    (string : CStr) :
    ∃ strings,setEntry v.strings v.count (some (h.alloc string).1)=some strings ∧
      strings.length=v.strings.length ∧
      Table frame (h.alloc string).2 ⟨v.count+1,strings⟩
        (owned++[((h.alloc string).1,string)]) := by
  have hlt : v.count < v.strings.length := hroom
  refine ⟨_,if_pos hlt,List.length_set,?_,?_,?_,?_,ht.holds.alloc string⟩
  · change (v.strings.set v.count _).take (v.count+1)=_
    rw [List.take_add_one,List.take_set_of_le (Nat.le_refl _),ht.entries,List.getElem?_set_self hlt,
      List.map_append]
    rfl
  · rw [List.length_append,← ht.count]
    rfl
  · change v.count+1 ≤ (v.strings.set _ _).length
    rw [List.length_set]
    exact hlt
  · change 0 < (v.strings.set _ _).length
    rw [List.length_set]
    omega

theorem vectorAdd_table (ht : Table frame h v owned) (string : CStr) :
    ∃ h' v' p,vectorAdd h v string=some (h',v') ∧ Table frame h' v' (owned++[(p,string)]) := by
  unfold vectorAdd
  by_cases hfull : v.count=v.allocated
  · obtain ⟨h1,v1,hresize,ht1,halloc⟩ := vectorResize_table ht (v.allocated+1)
    have hall : owned.take (v.allocated+1)=owned :=
      List.take_of_length_le (by rw [← ht.count]; omega)
    rw [hall] at ht1
    have hsame : v1.count=v.count := by rw [ht1.count,ht.count]
    obtain ⟨strings,hset,-,ht2⟩ := ht1.push (by rw [halloc]; omega) string
    refine ⟨_,_,_,?_,ht2⟩
    rw [if_pos hfull,hresize]
    simp only [Option.bind_eq_bind,Option.bind_some]
    rw [← hsame,hset]
    rfl
  · have hroom : v.count < v.allocated := Nat.lt_of_le_of_ne ht.room hfull
    obtain ⟨strings,hset,-,ht1⟩ := ht.push hroom string
    refine ⟨_,_,_,?_,ht1⟩
    rw [if_neg hfull]
    simp only [Option.pure_def,Option.bind_eq_bind,Option.bind_some]
    rw [hset]
    rfl

theorem vectorClear_table (ht : Table frame h v owned) :
    ∃ h' v',vectorClear h v=some (h',v') ∧ Table frame h' v' [] ∧ v'.allocated=v.allocated := by
  obtain ⟨h',hfree,hh'⟩ := ht.freed 0
  rw [List.drop_zero] at hfree
  refine ⟨h',⟨0,v.strings⟩,?_,⟨rfl,rfl,Nat.zero_le _,ht.nonempty,hh'⟩,rfl⟩
  rw [vectorClear,hfree]
  rfl

theorem vectorNew_table (hh : h.Holds frame []) :
    Table frame (vectorNew h).1 (vectorNew h).2 [] :=
  ⟨rfl,rfl,Nat.zero_le _,Nat.one_pos,hh⟩

theorem vectorFree_table (ht : Table frame h v owned) :
    ∃ h',vectorFree h (some v)=some h' ∧ h'.Holds frame [] := by
  obtain ⟨h',v',hclear,ht',-⟩ := vectorClear_table ht
  refine ⟨h',?_,ht'.holds⟩
  rw [vectorFree,hclear]
  rfl

theorem vectorReuse_table {v : Option StringVector}
    (hv : v.elim (h.Holds frame []) fun v => ∃ owned,Table frame h v owned) :
    ∃ h' v',vectorReuse h v=some (h',v') ∧ Table frame h' v' [] := by
  cases v with
  | none => exact ⟨_,_,rfl,vectorNew_table hv⟩
  | some v =>
    obtain ⟨owned,ht⟩ := hv
    obtain ⟨h',v',hclear,ht',-⟩ := vectorClear_table ht
    exact ⟨h',v',hclear,ht'⟩

/-- execv gets the strings and a null pointer after them; the vector keeps its strings. -/
theorem vectorExec_table (ht : Table frame h v owned) :
    ∃ h' v' argv,vectorExec h v=some (h',v',argv) ∧ Table frame h' v' owned ∧
      argv.take (owned.length+1)=(owned.map fun x => some x.1)++[none] := by
  have hset {h1 : Strings} {v1 : StringVector} (ht1 : Table frame h1 v1 owned)
      (hroom : v1.count < v1.allocated) :
      ∃ argv,setEntry v1.strings v1.count none=some argv ∧
        Table frame h1 ⟨v1.count,argv⟩ owned ∧
        argv.take (owned.length+1)=(owned.map fun x => some x.1)++[none] := by
    have hlt : v1.count < v1.strings.length := hroom
    have hkeep : (v1.strings.set v1.count none).take v1.count=owned.map fun x => some x.1 := by
      rw [List.take_set_of_le (Nat.le_refl _)]
      exact ht1.entries
    have hlen : (v1.strings.set v1.count none).length=v1.strings.length := List.length_set
    refine ⟨_,if_pos hlt,⟨hkeep,ht1.count,?_,?_,ht1.holds⟩,?_⟩
    · change v1.count ≤ (v1.strings.set v1.count none).length
      omega
    · change 0 < (v1.strings.set v1.count none).length
      omega
    · rw [List.take_add_one,← ht1.count,hkeep,List.getElem?_set_self hlt]
      rfl
  unfold vectorExec
  by_cases hfull : v.allocated=v.count
  · obtain ⟨h1,v1,hresize,ht1,halloc⟩ := vectorResize_table ht (v.count+1)
    rw [List.take_of_length_le (by rw [← ht.count]; omega)] at ht1
    have hsame : v1.count=v.count := by rw [ht1.count,ht.count]
    obtain ⟨argv,hentry,ht2,hargv⟩ := hset ht1 (by omega)
    refine ⟨_,_,_,?_,ht2,hargv⟩
    rw [if_pos hfull,hresize]
    simp only [Option.bind_eq_bind,Option.bind_some]
    rw [hentry]
    rfl
  · have hroom : v.count < v.allocated := Nat.lt_of_le_of_ne ht.room (Ne.symm hfull)
    obtain ⟨argv,hentry,ht1,hargv⟩ := hset ht hroom
    refine ⟨_,_,_,?_,ht1,hargv⟩
    rw [if_neg hfull]
    simp only [Option.pure_def,Option.bind_eq_bind,Option.bind_some]
    rw [hentry]
    rfl

theorem texts_eq (ht : Table frame h v owned) : v.texts h=some (owned.map Prod.snd) := by
  have hcells : ∀ x∈owned,h.cells x.1=some x.2 := fun x hx =>
    (ht.holds.cells x.1 x.2).mpr (Or.inr hx)
  rw [StringVector.texts,ht.entries,List.mapM_map]
  clear ht
  induction owned with
  | nil => rfl
  | cons x owned ih =>
    have hx : ((fun entry => entry >>= h.cells) ∘ fun x : ℕ × CStr => some x.1) x=some x.2 :=
      hcells x List.mem_cons_self
    rw [List.mapM_cons,hx,ih fun y hy => hcells y (List.mem_cons_of_mem _ hy)]
    rfl

end

end Lbcd
