import Lbcd.Interaction.CText

namespace CText

/-- A text that does not go on with a character of a kind. -/
def Stops (p : UInt8 → Bool) (rest : List UInt8) : Prop := ∀ b∈rest.head?,p b=false

theorem stops_nil (p : UInt8 → Bool) : Stops p [] := nofun

theorem stops_dropWhile (p : UInt8 → Bool) (bs : List UInt8) : Stops p (bs.dropWhile p) := by
  intro b hb
  cases hd : bs.dropWhile p with
  | nil => simp [hd] at hb
  | cons c cs =>
    have hc := List.head_dropWhile_not p (l := bs) (by simp [hd])
    simp only [hd,List.head_cons] at hc
    rw [hd,List.head?_cons,Option.mem_some_iff] at hb
    exact hb ▸ hc

theorem takeWhile_stops {p : UInt8 → Bool} {bs rest : List UInt8} (hb : bs.all p=true)
    (hr : Stops p rest) : (bs++rest).takeWhile p=bs := by
  rw [List.takeWhile_append_of_pos (List.all_eq_true.mp hb)]
  cases rest with
  | nil => simp
  | cons c cs => simp [hr c rfl]

theorem dropWhile_stops {p : UInt8 → Bool} {bs rest : List UInt8} (hb : bs.all p=true)
    (hr : Stops p rest) : (bs++rest).dropWhile p=rest := by
  rw [List.dropWhile_append_of_pos (List.all_eq_true.mp hb)]
  cases rest with
  | nil => rfl
  | cons c cs => simp [hr c rfl]

/-- A text begins, after white space, with an integer in decimal, of which all digits are read. -/
def ReadsInt (bs : List UInt8) (v : ℤ) (rest : List UInt8) : Prop :=
  ∃ spaces sign digits,bs=spaces++(sign++(digits++rest)) ∧ spaces.all isspace=true ∧
    digits≠[] ∧ digits.all isdigit=true ∧ Stops isdigit rest ∧
    ((sign=[] ∨ sign=[43]) ∧ v=digitsValue digits ∨ sign=[45] ∧ v=-digitsValue digits)

theorem not_isspace_of_isdigit {b : UInt8} (h : isdigit b=true) : isspace b=false := by
  simp only [isdigit,isspace,Bool.and_eq_true,decide_eq_true_eq] at h ⊢
  simp
  omega

/-- The digits of a text and the number they are. -/
def scanDigits (neg : Bool) (bs : List UInt8) : Option (ℤ × List UInt8) :=
  if bs.takeWhile isdigit=[] then none
  else some (if neg then -(digitsValue (bs.takeWhile isdigit) : ℤ)
    else digitsValue (bs.takeWhile isdigit),bs.dropWhile isdigit)

/-- Whether there is a minus sign, and the text after the sign. -/
def signOf : List UInt8 → Bool × List UInt8
  | 45 :: t => (true,t)
  | 43 :: t => (false,t)
  | t => (false,t)

theorem signOf_cases (bs : List UInt8) :
    (∃ t,bs=45 :: t ∧ signOf bs=(true,t)) ∨ (∃ t,bs=43 :: t ∧ signOf bs=(false,t)) ∨
      signOf bs=(false,bs) := by
  unfold signOf
  split
  next t => exact Or.inl ⟨t,rfl,rfl⟩
  next t => exact Or.inr (Or.inl ⟨t,rfl,rfl⟩)
  next => exact Or.inr (Or.inr rfl)

theorem signOf_digit {d : UInt8} (hd : isdigit d=true) (ds : List UInt8) :
    signOf (d :: ds)=(false,d :: ds) := by
  rcases signOf_cases (d :: ds) with ⟨t,ht,-⟩|⟨t,ht,-⟩|h
  · rw [(List.cons.inj ht).1] at hd
    exact absurd hd (by decide)
  · rw [(List.cons.inj ht).1] at hd
    exact absurd hd (by decide)
  · exact h

theorem scanInt_eq (bs : List UInt8) :
    scanInt bs=
      scanDigits (signOf (bs.dropWhile isspace)).1 (signOf (bs.dropWhile isspace)).2 := rfl

theorem scanDigits_some {neg : Bool} {bs rest : List UInt8} {v : ℤ} :
    scanDigits neg bs=some (v,rest) ↔ ∃ digits,bs=digits++rest ∧ digits≠[] ∧
      digits.all isdigit=true ∧ Stops isdigit rest ∧
      v=if neg then -(digitsValue digits : ℤ) else digitsValue digits := by
  rw [scanDigits]
  constructor
  · intro h
    split_ifs at h with hd hn
    · obtain ⟨rfl,rfl⟩ := Prod.mk.inj (Option.some.inj h)
      refine ⟨bs.takeWhile isdigit,List.takeWhile_append_dropWhile.symm,hd,?_,
        stops_dropWhile _ _,by rw [if_pos hn]⟩
      exact List.all_takeWhile
    · obtain ⟨rfl,rfl⟩ := Prod.mk.inj (Option.some.inj h)
      refine ⟨bs.takeWhile isdigit,List.takeWhile_append_dropWhile.symm,hd,?_,
        stops_dropWhile _ _,by rw [if_neg hn]⟩
      exact List.all_takeWhile
  · rintro ⟨digits,rfl,hne,hall,hr,rfl⟩
    rw [takeWhile_stops hall hr,dropWhile_stops hall hr,if_neg hne]

theorem readsInt_of_scanInt {bs rest : List UInt8} {v : ℤ} (h : scanInt bs=some (v,rest)) :
    ReadsInt bs v rest := by
  have hsplit : bs=bs.takeWhile isspace++bs.dropWhile isspace :=
    List.takeWhile_append_dropWhile.symm
  have hspaces : (bs.takeWhile isspace).all isspace=true := List.all_takeWhile
  rw [scanInt_eq] at h
  obtain ⟨digits,hd,hne,hall,hr,hv⟩ := scanDigits_some.mp h
  rcases signOf_cases (bs.dropWhile isspace) with ⟨t,ht,hsign⟩|⟨t,ht,hsign⟩|hsign
  · rw [hsign] at hd hv
    rw [ht,show t=digits++rest from hd] at hsplit
    exact ⟨_,[45],digits,hsplit,hspaces,hne,hall,hr,Or.inr ⟨rfl,hv⟩⟩
  · rw [hsign] at hd hv
    rw [ht,show t=digits++rest from hd] at hsplit
    exact ⟨_,[43],digits,hsplit,hspaces,hne,hall,hr,Or.inl ⟨Or.inr rfl,hv⟩⟩
  · rw [hsign] at hd hv
    rw [show bs.dropWhile isspace=digits++rest from hd] at hsplit
    exact ⟨_,[],digits,hsplit,hspaces,hne,hall,hr,Or.inl ⟨Or.inl rfl,hv⟩⟩

theorem ReadsInt.scanInt {bs rest : List UInt8} {v : ℤ} (h : ReadsInt bs v rest) :
    scanInt bs=some (v,rest) := by
  obtain ⟨spaces,sign,digits,rfl,hs,hne,hall,hr,hsign⟩ := h
  obtain ⟨d,ds,rfl⟩ := List.exists_cons_of_ne_nil hne
  have hd : isdigit d=true := List.all_eq_true.mp hall d List.mem_cons_self
  have hplain : scanDigits false (d :: ds++rest)=
      some ((digitsValue (d :: ds) : ℤ),rest) :=
    scanDigits_some.mpr ⟨d :: ds,rfl,hne,hall,hr,rfl⟩
  rw [scanInt_eq]
  rcases hsign with ⟨rfl|rfl,rfl⟩|⟨rfl,rfl⟩
  · have hstop : Stops isspace (d :: ds++rest) := by
      intro b hb
      rw [← Option.some.inj hb]
      exact not_isspace_of_isdigit hd
    rw [List.nil_append,dropWhile_stops hs hstop,List.cons_append,signOf_digit hd]
    exact hplain
  · rw [dropWhile_stops hs (by intro b hb; rw [← Option.some.inj hb]; rfl)]
    exact hplain
  · rw [dropWhile_stops hs (by intro b hb; rw [← Option.some.inj hb]; rfl)]
    exact scanDigits_some.mpr ⟨d :: ds,rfl,hne,hall,hr,rfl⟩

theorem digitsValue_append (ds ds' : List UInt8) :
    digitsValue (ds++ds')=digitsValue ds*10^ds'.length+digitsValue ds' := by
  induction ds' using List.reverseRecOn with
  | nil => simp [digitsValue]
  | append_singleton ds' d ih =>
    have hsnoc (l : List UInt8) : digitsValue (l++[d])=10*digitsValue l+(d.toNat-48) := by
      rw [digitsValue,List.foldl_append]
      rfl
    have hshift : 10*(digitsValue ds*10^ds'.length)=digitsValue ds*(10^ds'.length*10) := by
      rw [Nat.mul_left_comm,Nat.mul_comm 10]
    rw [← List.append_assoc,hsnoc,ih,hsnoc,List.length_append,List.length_singleton,Nat.pow_succ,
      Nat.mul_add,hshift,Nat.add_assoc]

end CText
