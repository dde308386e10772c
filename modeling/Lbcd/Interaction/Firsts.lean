import Mathlib.Data.Finset.Card
import Mathlib.Data.List.Basic
import Mathlib.Data.List.Nodup

namespace Interaction

variable {α κ : Type} [DecidableEq κ] (key : α → κ)

/-- One more element, unless an earlier one has its key. -/
def addFirst (kept : List α) (a : α) : List α :=
  if key a∈kept.map key then kept else kept++[a]

/-- The first element with each key, in the order in which they come. -/
def firstsBy (l : List α) : List α := l.foldl (addFirst key) []

theorem firstsBy_concat (l : List α) (a : α) :
    firstsBy key (l++[a])=addFirst key (firstsBy key l) a := by
  rw [firstsBy,List.foldl_append]
  rfl

theorem prefix_addFirst (kept : List α) (a : α) : kept<+:addFirst key kept a := by
  unfold addFirst
  split_ifs
  · exact List.prefix_refl kept
  · exact List.prefix_append kept [a]

@[simp] theorem mem_keys_firstsBy {l : List α} {k : κ} :
    k∈(firstsBy key l).map key ↔ k∈l.map key := by
  induction l using List.reverseRecOn with
  | nil => rfl
  | append_singleton l a ih =>
    rw [firstsBy_concat,addFirst]
    split_ifs with h
    · rw [ih,List.map_append,List.mem_append]
      refine ⟨.inl,fun hk => hk.elim id fun hk => ?_⟩
      rw [List.map_singleton,List.mem_singleton] at hk
      subst hk
      exact ih.mp h
    · rw [List.map_append,List.mem_append,ih,List.map_append,List.mem_append]

theorem nodup_keys_firstsBy (l : List α) : ((firstsBy key l).map key).Nodup := by
  induction l using List.reverseRecOn with
  | nil => exact List.nodup_nil
  | append_singleton l a ih =>
    rw [firstsBy_concat,addFirst]
    split_ifs with h
    · exact ih
    · rw [List.map_append,List.map_singleton,← List.concat_eq_append]
      exact ih.concat h

theorem firstsBy_prefix (l m : List α) : firstsBy key l<+:firstsBy key (l++m) := by
  induction m using List.reverseRecOn with
  | nil => simp
  | append_singleton m a ih =>
    rw [← List.append_assoc,firstsBy_concat]
    exact ih.trans (prefix_addFirst key _ a)

theorem firstsBy_sublist (l : List α) : (firstsBy key l).Sublist l := by
  induction l using List.reverseRecOn with
  | nil => exact .slnil
  | append_singleton l a ih =>
    rw [firstsBy_concat,addFirst]
    split_ifs
    · exact ih.trans (List.sublist_append_left l [a])
    · exact ih.append (List.Sublist.refl [a])

theorem firstsBy_length_le (l : List α) : (firstsBy key l).length ≤ l.length :=
  (firstsBy_sublist key l).length_le

/-- A linear scan counts the keys. -/
theorem firstsBy_length (l : List α) :
    (firstsBy key l).length=(l.map key).toFinset.card := by
  have hcard := List.toFinset_card_of_nodup (nodup_keys_firstsBy key l)
  rw [List.length_map] at hcard
  rw [← hcard]
  refine congrArg Finset.card (Finset.ext fun k => ?_)
  rw [List.mem_toFinset,List.mem_toFinset,mem_keys_firstsBy]

end Interaction
