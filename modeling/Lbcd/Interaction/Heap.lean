import Mathlib.Data.List.Nodup
import Mathlib.Logic.Function.Basic

namespace CHeap

/-- Two partial operations that agree step by step agree over every run. -/
theorem foldlM_rel {σ τ κ : Type} {R : σ → τ → Prop} {f : σ → κ → Option σ}
    {g : τ → κ → Option τ} (hstep : ∀ s t x,R s t → Option.Rel R (f s x) (g t x)) (xs : List κ)
    {s : σ} {t : τ} (hst : R s t) : Option.Rel R (xs.foldlM f s) (xs.foldlM g t) := by
  induction xs generalizing s t with
  | nil => exact Option.Rel.some hst
  | cons x xs ih =>
    rw [List.foldlM_cons,List.foldlM_cons]
    have hx := hstep s t x hst
    generalize f s x=s' at hx
    generalize g t x=t' at hx
    cases hx with
    | none => exact Option.Rel.none
    | some hst' => exact ih hst'

variable {α : Type}

/-- What malloc has given and free has not taken back; nothing from next on was ever given. -/
structure Heap (α : Type) where
  cells : ℕ → Option α
  next : ℕ
  fresh : ∀ p,next ≤ p → cells p=none

namespace Heap

/-- A new cell, and the heap with it. -/
def alloc (h : Heap α) (a : α) : ℕ × Heap α :=
  (h.next,⟨Function.update h.cells h.next (some a),h.next+1,by
    intro p hp
    rw [Function.update_of_ne (by omega)]
    exact h.fresh p (by omega)⟩)

/-- None where the cell is not allocated. -/
def free (h : Heap α) (p : ℕ) : Option (Heap α) :=
  if h.cells p=none then none
  else some ⟨Function.update h.cells p none,h.next,by
    intro q hq
    by_cases hqp : q=p
    · rw [hqp,Function.update_self]
    · rw [Function.update_of_ne hqp]
      exact h.fresh q hq⟩

/-- None where the cell is not allocated. -/
def write (h : Heap α) (p : ℕ) (a : α) : Option (Heap α) :=
  if hp : h.cells p=none then none
  else some ⟨Function.update h.cells p (some a),h.next,by
    intro q hq
    have hne : q≠p := fun hqp => hp (h.fresh p (hqp ▸ hq))
    rw [Function.update_of_ne hne]
    exact h.fresh q hq⟩

/-- All of these are freed, in this order. -/
def freeAll (h : Heap α) : List ℕ → Option (Heap α)
  | [] => some h
  | p :: ps => h.free p >>= fun h => h.freeAll ps

/-- The heap has these cells beside a frame, and no others. -/
structure Holds (frame : ℕ → Option α) (owned : List (ℕ × α)) (h : Heap α) : Prop where
  distinct : (owned.map Prod.fst).Nodup
  apart : ∀ x∈owned,frame x.1=none
  cells : ∀ p a,h.cells p=some a ↔ frame p=some a ∨ (p,a)∈owned

variable {frame : ℕ → Option α} {owned : List (ℕ × α)} {h : Heap α}

theorem holds_self (h : Heap α) : h.Holds h.cells [] :=
  ⟨List.nodup_nil,List.forall_mem_nil _,fun _ _ => by simp⟩

theorem Holds.next_frame (ho : h.Holds frame owned) : frame h.next=none := by
  by_contra hne
  obtain ⟨a,ha⟩ := Option.ne_none_iff_exists'.mp hne
  have hcell := (ho.cells h.next a).mpr (Or.inl ha)
  rw [h.fresh h.next (Nat.le_refl _)] at hcell
  cases hcell

theorem Holds.next_notMem (ho : h.Holds frame owned) : h.next∉owned.map Prod.fst := by
  intro hm
  obtain ⟨⟨p,a⟩,hpa,hp⟩ := List.mem_map.mp hm
  have hcell := (ho.cells p a).mpr (Or.inr hpa)
  rw [show p=h.next from hp,h.fresh h.next (Nat.le_refl _)] at hcell
  cases hcell

/-- A new cell is one of the owned ones. -/
theorem Holds.alloc (ho : h.Holds frame owned) (a : α) :
    (h.alloc a).2.Holds frame (owned++[((h.alloc a).1,a)]) where
  distinct := by
    rw [List.map_append]
    refine List.nodup_append.mpr ⟨ho.distinct,List.nodup_singleton _,fun p hp q hq => ?_⟩
    rw [List.mem_singleton.mp hq]
    exact ne_of_mem_of_not_mem hp ho.next_notMem
  apart := by
    intro x hx
    rcases List.mem_append.mp hx with hx|hx
    · exact ho.apart x hx
    · rw [List.mem_singleton.mp hx]
      exact ho.next_frame
  cells := by
    intro p b
    change Function.update h.cells h.next (some a) p=some b ↔ _
    by_cases hp : p=h.next
    · subst hp
      have hnot : (h.next,b)∉owned := fun hm =>
        ho.next_notMem (List.mem_map.mpr ⟨(h.next,b),hm,rfl⟩)
      rw [Function.update_self,ho.next_frame]
      simp [Heap.alloc,hnot,eq_comm]
    · rw [Function.update_of_ne hp,ho.cells]
      simp [Heap.alloc,hp]

/-- An owned cell can be freed, and is then not there. -/
theorem Holds.free {before after : List (ℕ × α)} {p : ℕ} {a : α}
    (ho : h.Holds frame (before++(p,a) :: after)) :
    ∃ h',h.free p=some h' ∧ h'.Holds frame (before++after) := by
  have hcell : h.cells p=some a := (ho.cells p a).mpr (Or.inr (by simp))
  have hnodup := ho.distinct
  rw [List.map_append,List.map_cons] at hnodup
  have hp : p∉(before++after).map Prod.fst := by
    rw [List.map_append]
    exact (List.nodup_middle.mp hnodup).notMem
  have hpf : frame p=none := ho.apart (p,a) (by simp)
  have hne : h.cells p≠none := by simp [hcell]
  refine ⟨_,if_neg hne,?_,?_,?_⟩
  · rw [List.map_append]
    exact (List.nodup_middle.mp hnodup).of_cons
  · intro x hx
    refine ho.apart x ?_
    rcases List.mem_append.mp hx with hx|hx
    · exact List.mem_append_left _ hx
    · exact List.mem_append_right _ (List.mem_cons_of_mem _ hx)
  · intro q b
    change Function.update h.cells p none q=some b ↔ _
    by_cases hq : q=p
    · subst hq
      have hnot : (q,b)∉before++after := fun hm => hp (List.mem_map.mpr ⟨(q,b),hm,rfl⟩)
      rw [Function.update_self,hpf]
      simp [hnot]
    · rw [Function.update_of_ne hq,ho.cells]
      simp [hq]

/-- An owned cell can be written. -/
theorem Holds.write {p : ℕ} {a : α} (ho : h.Holds frame [(p,a)]) (b : α) :
    ∃ h',h.write p b=some h' ∧ h'.Holds frame [(p,b)] := by
  have hcell : h.cells p=some a := (ho.cells p a).mpr (Or.inr (by simp))
  have hpf : frame p=none := ho.apart (p,a) (by simp)
  refine ⟨_,dif_neg (by simp [hcell]),by simp,by simpa using hpf,?_⟩
  intro q c
  change Function.update h.cells p (some b) q=some c ↔ _
  by_cases hq : q=p
  · subst hq
    simp [hpf,eq_comm]
  · rw [Function.update_of_ne hq,ho.cells]
    simp [hq]

theorem Holds.freeAll {before rest : List (ℕ × α)} (ho : h.Holds frame (before++rest)) :
    ∃ h',h.freeAll (rest.map Prod.fst)=some h' ∧ h'.Holds frame before := by
  induction rest generalizing h with
  | nil =>
    rw [List.append_nil] at ho
    exact ⟨h,rfl,ho⟩
  | cons x rest ih =>
    obtain ⟨h',hfree,ho'⟩ := ho.free
    obtain ⟨h'',hall,ho''⟩ := ih ho'
    refine ⟨h'',?_,ho''⟩
    rw [List.map_cons,Heap.freeAll,hfree]
    exact hall

/-- The heap but for these cells. -/
def beside (h : Heap α) (owned : List (ℕ × α)) (p : ℕ) : Option α :=
  if p∈owned.map Prod.fst then none else h.cells p

/-- The heap has the cells of several owners beside a frame, and no others. -/
structure Shared {ι : Type} (frame : ℕ → Option α) (own : ι → List (ℕ × α)) (h : Heap α) :
    Prop where
  distinct : ∀ i,((own i).map Prod.fst).Nodup
  disjoint : ∀ i j p,i≠j → p∈(own i).map Prod.fst → p∉(own j).map Prod.fst
  apart : ∀ i,∀ x∈own i,frame x.1=none
  cells : ∀ p a,h.cells p=some a ↔ frame p=some a ∨ ∃ i,(p,a)∈own i

section

variable {ι : Type} {own : ι → List (ℕ × α)}

theorem shared_none (h : Heap α) : h.Shared h.cells fun _ : ι => [] where
  distinct _ := List.nodup_nil
  disjoint _ _ _ _ hp := by simp at hp
  apart _ _ hx := by simp at hx
  cells p a := by simp

/-- To one owner, the cells of the others belong to the frame. -/
theorem Shared.one (hs : h.Shared frame own) (i : ι) : h.Holds (h.beside (own i)) (own i) where
  distinct := hs.distinct i
  apart x hx := if_pos (List.mem_map.mpr ⟨x,hx,rfl⟩)
  cells := by
    intro p a
    rw [beside]
    split_ifs with hp
    · obtain ⟨⟨q,b⟩,hqb,rfl⟩ := List.mem_map.mp hp
      have hcell : h.cells q=some b := (hs.cells q b).mpr (Or.inr ⟨i,hqb⟩)
      constructor
      · intro ha
        have hba : b=a := Option.some.inj (hcell.symm.trans ha)
        rw [← hba]
        exact Or.inr hqb
      · rintro (ha|ha)
        · cases ha
        · exact (hs.cells q a).mpr (Or.inr ⟨i,ha⟩)
    · have hnot : (p,a)∉own i := fun hm => hp (List.mem_map.mpr ⟨(p,a),hm,rfl⟩)
      simp [hnot]

theorem Shared.beside_other (hs : h.Shared frame own) {i j : ι} {p : ℕ} {a : α} (hij : i≠j)
    (hpa : (p,a)∈own j) : h.beside (own i) p=some a := by
  have hp : p∈(own j).map Prod.fst := List.mem_map.mpr ⟨(p,a),hpa,rfl⟩
  rw [beside,if_neg (hs.disjoint j i p hij.symm hp)]
  exact (hs.cells p a).mpr (Or.inr ⟨j,hpa⟩)

theorem Shared.beside_frame (hs : h.Shared frame own) {i : ι} {p : ℕ} {a : α}
    (hpa : frame p=some a) : h.beside (own i) p=some a := by
  have hp : p∉(own i).map Prod.fst := by
    intro hm
    obtain ⟨x,hx,rfl⟩ := List.mem_map.mp hm
    rw [hs.apart i x hx] at hpa
    cases hpa
  rw [beside,if_neg hp]
  exact (hs.cells p a).mpr (Or.inl hpa)

/-- What one owner does with its cells leaves those of the others. -/
theorem Shared.update [DecidableEq ι] (hs : h.Shared frame own) (i : ι) {h' : Heap α}
    (ho : h'.Holds (h.beside (own i)) owned) :
    h'.Shared frame (Function.update own i owned) := by
  have hnew {j : ι} {p : ℕ} (hij : i≠j) (hp : p∈owned.map Prod.fst) :
      p∉(own j).map Prod.fst := by
    intro hm
    obtain ⟨⟨q,a⟩,hqa,rfl⟩ := List.mem_map.mp hm
    obtain ⟨x,hx,hxq⟩ := List.mem_map.mp hp
    have hnone := ho.apart x hx
    rw [hxq,hs.beside_other hij hqa] at hnone
    cases hnone
  refine ⟨?_,?_,?_,?_⟩
  · intro j
    by_cases hj : j=i
    · rw [hj,Function.update_self]
      exact ho.distinct
    · rw [Function.update_of_ne hj]
      exact hs.distinct j
  · intro j k p hjk hp
    by_cases hj : j=i
    · subst hj
      rw [Function.update_self] at hp
      rw [Function.update_of_ne hjk.symm]
      exact hnew hjk hp
    · rw [Function.update_of_ne hj] at hp
      by_cases hk : k=i
      · subst hk
        rw [Function.update_self]
        exact fun hm => hnew hjk.symm hm hp
      · rw [Function.update_of_ne hk]
        exact hs.disjoint j k p hjk hp
  · intro j x hx
    by_cases hj : j=i
    · subst hj
      rw [Function.update_self] at hx
      by_contra hne
      obtain ⟨a,ha⟩ := Option.ne_none_iff_exists'.mp hne
      have hnone := ho.apart x hx
      rw [hs.beside_frame ha] at hnone
      cases hnone
    · rw [Function.update_of_ne hj] at hx
      exact hs.apart j x hx
  · intro p a
    rw [ho.cells]
    constructor
    · rintro (hp|hp)
      · rw [beside] at hp
        split_ifs at hp with hm
        rcases (hs.cells p a).mp hp with hp|⟨j,hj⟩
        · exact Or.inl hp
        · have hji : j≠i := fun hji => hm (List.mem_map.mpr ⟨(p,a),hji ▸ hj,rfl⟩)
          refine Or.inr ⟨j,?_⟩
          rw [Function.update_of_ne hji]
          exact hj
      · refine Or.inr ⟨i,?_⟩
        rw [Function.update_self]
        exact hp
    · rintro (hp|⟨j,hj⟩)
      · exact Or.inl (hs.beside_frame hp)
      · by_cases hji : j=i
        · subst hji
          rw [Function.update_self] at hj
          exact Or.inr hj
        · rw [Function.update_of_ne hji] at hj
          exact Or.inl (hs.beside_other (Ne.symm hji) hj)

theorem Shared.read (hs : h.Shared frame own) {i : ι} {p : ℕ} {a : α} (hi : (p,a)∈own i) :
    h.cells p=some a :=
  (hs.cells p a).mpr (Or.inr ⟨i,hi⟩)

/-- What is shared depends on the cells alone. -/
theorem Shared.congr (hs : h.Shared frame own) {h' : Heap α} (hcells : h'.cells=h.cells) :
    h'.Shared frame own :=
  ⟨hs.distinct,hs.disjoint,hs.apart,fun p a => by rw [hcells]; exact hs.cells p a⟩

/-- Where nobody owns anything, only the frame is there. -/
theorem Shared.cells_eq (hs : h.Shared frame own) (hown : ∀ i,own i=[]) : h.cells=frame := by
  funext p
  ext a
  rw [hs.cells]
  simp [hown]

theorem Shared.owned_ne (hs : h.Shared frame own) {i : ι} {p : ℕ}
    (hp : p∈(own i).map Prod.fst) : h.cells p≠none := by
  obtain ⟨x,hx,rfl⟩ := List.mem_map.mp hp
  simp [hs.read hx]

/-- What is owned beside a frame that is itself shared. -/
theorem Shared.nest {κ : Type} {own' : κ → List (ℕ × α)} {h' : Heap α}
    (hs : h.Shared frame own) (hs' : h'.Shared h.cells own') :
    h'.Shared frame (Sum.elim own own') where
  distinct i := by
    cases i with
    | inl i => exact hs.distinct i
    | inr i => exact hs'.distinct i
  disjoint i j p hij hp hq := by
    have hout {i : ι} {j : κ} (hi : p∈(own i).map Prod.fst) (hj : p∈(own' j).map Prod.fst) :
        False := by
      obtain ⟨x,hx,rfl⟩ := List.mem_map.mp hj
      exact hs.owned_ne hi (hs'.apart j x hx)
    cases i with
    | inl i =>
      cases j with
      | inl j => exact hs.disjoint i j p (fun h => hij (congrArg _ h)) hp hq
      | inr j => exact hout hp hq
    | inr i =>
      cases j with
      | inl j => exact hout hq hp
      | inr j => exact hs'.disjoint i j p (fun h => hij (congrArg _ h)) hp hq
  apart i x hx := by
    cases i with
    | inl i => exact hs.apart i x hx
    | inr i =>
      by_contra hne
      obtain ⟨a,ha⟩ := Option.ne_none_iff_exists'.mp hne
      have hcell := (hs.cells x.1 a).mpr (Or.inl ha)
      rw [hs'.apart i x hx] at hcell
      cases hcell
  cells p a := by
    rw [hs'.cells,hs.cells,Sum.exists,or_assoc]
    rfl

variable [DecidableEq ι]

theorem Shared.alloc (hs : h.Shared frame own) {i : ι} (hi : own i=[]) (a : α) :
    (h.alloc a).2.Shared frame (Function.update own i [((h.alloc a).1,a)]) := by
  have hone := hs.one i
  rw [hi] at hone
  exact hs.update i (hi.symm ▸ hone.alloc a)

theorem Shared.free (hs : h.Shared frame own) {i : ι} {p : ℕ} {a : α} (hi : own i=[(p,a)]) :
    ∃ h',h.free p=some h' ∧ h'.Shared frame (Function.update own i []) := by
  have hone := hs.one i
  rw [hi] at hone
  obtain ⟨h',hfree,ho⟩ := @Holds.free _ _ _ [] [] p a hone
  exact ⟨h',hfree,hs.update i (hi.symm ▸ ho)⟩

theorem Shared.write (hs : h.Shared frame own) {i : ι} {p : ℕ} {a : α} (hi : own i=[(p,a)])
    (b : α) : ∃ h',h.write p b=some h' ∧ h'.Shared frame (Function.update own i [(p,b)]) := by
  have hone := hs.one i
  rw [hi] at hone
  obtain ⟨h',hwrite,ho⟩ := hone.write b
  exact ⟨h',hwrite,hs.update i (hi.symm ▸ ho)⟩

end

end Heap
end CHeap
