import Mathlib.Data.List.Basic
import Mathlib.Data.Nat.Basic

namespace Numerals

variable {α : Type}

/-- The value of a text of digits after a value so far, none where it is no text of digits. -/
def value (digit : α → Option ℕ) (base : ℕ) : List α → ℕ → Option ℕ
  | [],n => some n
  | c :: text,n =>
    match digit c with
    | none => none
    | some i => if i < base then value digit base text (n*base+i) else none

variable {digit : α → Option ℕ} {base : ℕ}

theorem value_cons {c : α} {text : List α} {n v : ℕ} :
    value digit base (c :: text) n=some v ↔
      ∃ i,digit c=some i ∧ i < base ∧ value digit base text (n*base+i)=some v := by
  rw [value]
  cases digit c with
  | none => simp
  | some i =>
    by_cases hi : i < base
    · simp [hi]
    · simp [hi]

/-- More digits do not make a value smaller. -/
theorem le_value (hbase : 0 < base) {text : List α} {n v : ℕ}
    (h : value digit base text n=some v) : n ≤ v := by
  induction text generalizing n with
  | nil => exact Nat.le_of_eq (Option.some.inj h)
  | cons c text ih =>
    obtain ⟨i,-,-,h⟩ := value_cons.mp h
    calc
      n ≤ n*base := Nat.le_mul_of_pos_right n hbase
      _ ≤ n*base+i := Nat.le_add_right _ _
      _ ≤ v := ih h

theorem mul_le_value (hbase : 0 < base) {c : α} {text : List α} {n v : ℕ}
    (h : value digit base (c :: text) n=some v) : n*base ≤ v := by
  obtain ⟨i,-,-,h⟩ := value_cons.mp h
  exact Nat.le_trans (Nat.le_add_right _ _) (le_value hbase h)

theorem digit_lt {text : List α} {n v : ℕ} (h : value digit base text n=some v) :
    ∀ c∈text,∃ i,digit c=some i ∧ i < base := by
  induction text generalizing n with
  | nil => simp
  | cons c text ih =>
    obtain ⟨i,hc,hi,h⟩ := value_cons.mp h
    exact List.forall_mem_cons.mpr ⟨⟨i,hc,hi⟩,ih h⟩

end Numerals
