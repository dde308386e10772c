import Mathlib.Data.List.Basic

namespace Pieces

variable {α : Type} {isSep : α → Bool} {keepEmpty : Bool}

/-- Empty parts count only where they are to be kept. -/
def kept (keepEmpty : Bool) (part : List α) : Bool := keepEmpty || !part.isEmpty

/-- The parts of a text between its separators. -/
def pieces (isSep : α → Bool) (keepEmpty : Bool) (text : List α) : List (List α) :=
  (text.splitOnP isSep).filter (kept keepEmpty)

/-- The parts that are still to come, once acc has been read since the last separator. -/
noncomputable def parts (isSep : α → Bool) (keepEmpty : Bool) (acc rest : List α) : List (List α) :=
  (rest.splitOnPPrepend isSep acc.reverse).filter (kept keepEmpty)

theorem parts_start (text : List α) : parts isSep keepEmpty [] text=pieces isSep keepEmpty text :=
  rfl

theorem parts_end (acc : List α) :
    parts isSep keepEmpty acc []=if kept keepEmpty acc then [acc] else [] := by
  rw [parts,List.splitOnPPrepend_nil,List.reverse_reverse,List.filter_cons,List.filter_nil]

theorem parts_sep {c : α} (hc : isSep c) (acc rest : List α) :
    parts isSep keepEmpty acc (c :: rest)=
      (if kept keepEmpty acc then [acc] else [])++parts isSep keepEmpty [] rest := by
  rw [parts,List.splitOnPPrepend_cons_pos hc,List.reverse_reverse,List.filter_cons]
  by_cases hacc : kept keepEmpty acc
  · rw [if_pos hacc,if_pos hacc]
    rfl
  · rw [if_neg hacc,if_neg hacc]
    rfl

theorem parts_char {c : α} (hc : ¬isSep c) (acc rest : List α) :
    parts isSep keepEmpty acc (c :: rest)=parts isSep keepEmpty (acc++[c]) rest := by
  rw [parts,List.splitOnPPrepend_cons_neg (Bool.eq_false_iff.mpr hc),parts,List.reverse_append]
  rfl

/-- With the empty ones, there is one part more than separators. -/
theorem length_parts (acc rest : List α) :
    (parts isSep true acc rest).length=rest.countP isSep+1 := by
  induction rest generalizing acc with
  | nil => rw [parts_end]; rfl
  | cons c rest ih =>
    by_cases hc : isSep c
    · rw [parts_sep hc,List.countP_cons_of_pos hc,List.length_append,ih]
      exact Nat.add_comm _ _
    · rw [parts_char hc,List.countP_cons_of_neg hc,ih]

theorem pieces_all (isSep : α → Bool) (text : List α) :
    pieces isSep true text=text.splitOnP isSep :=
  List.filter_eq_self.mpr fun _ _ => rfl

theorem noSep_of_mem_splitOnP {part text : List α} (h : part∈text.splitOnP isSep) :
    ∀ c∈part,isSep c=false := by
  have hgo : ∀ acc : List α,(∀ c∈acc,isSep c=false) →
      ∀ part∈text.splitOnPPrepend isSep acc,∀ c∈part,isSep c=false := by
    clear h
    induction text with
    | nil =>
      intro acc hacc part hpart
      rw [List.splitOnPPrepend_nil,List.mem_singleton] at hpart
      simpa [hpart] using hacc
    | cons c text ih =>
      intro acc hacc part hpart
      by_cases hc : isSep c
      · rw [List.splitOnPPrepend_cons_pos hc] at hpart
        rcases List.mem_cons.mp hpart with rfl|hpart
        · simpa using hacc
        · exact ih [] (by simp) part hpart
      · have hc' : isSep c=false := Bool.eq_false_iff.mpr hc
        rw [List.splitOnPPrepend_cons_neg hc'] at hpart
        exact ih (c :: acc) (by simpa [hc'] using hacc) part hpart
  exact hgo [] (by simp) part h

end Pieces
