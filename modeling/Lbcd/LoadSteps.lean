import Lbcd.LoadWeight

namespace Lbcd

open Interaction CText ByteOrder

/-- The value of an int operation; none where it overflows. -/
def cInt (v : ℤ) : Option ℤ := if -2147483648 ≤ v ∧ v ≤ 2147483647 then some v else none

/-- The computation of lbcd_load_weight but for /etc/nologin, one operation after the other;
none at the first overflow or the first index that the table does not have. -/
def loadWeightSteps (e : Endian) (lb : LbcdReply) : Option ℤ := do
  let tot : ℤ := (ntohs e lb.totUsers).toNat
  let uniq : ℤ := (ntohs e lb.uniqUsers).toNat
  let l1 : ℤ := (ntohs e lb.l1).toNat
  let diff ← cInt (tot-uniq)
  let fudge ← cInt (diff*20)
  let users ← cInt (uniq*100)
  let load ← cInt (3*l1)
  let busy ← cInt (users+load)
  let weight ← cInt (busy+fudge)
  let tmpUsed := max lb.tmpFull.toNat lb.tmpdirFull.toNat
  if tmpUsed < 90 then return weight
  else if tmpUsed > 100 then return -1
  else
    let factor ← penalty.toList[tmpUsed-90]?
    cInt (weight*factor)

/-- What the weight is computed from, as host numbers. -/
structure LoadInputs where
  totUsers : ℕ
  uniqUsers : ℕ
  l1 : ℕ
  tmpFull : ℕ
  tmpdirFull : ℕ

instance : LE LoadInputs where
  le i j := i.totUsers ≤ j.totUsers ∧ i.uniqUsers ≤ j.uniqUsers ∧ i.l1 ≤ j.l1 ∧
    i.tmpFull ≤ j.tmpFull ∧ i.tmpdirFull ≤ j.tmpdirFull

def LbcdReply.loadInputs (e : Endian) (lb : LbcdReply) : LoadInputs :=
  ⟨(ntohs e lb.totUsers).toNat,(ntohs e lb.uniqUsers).toNat,(ntohs e lb.l1).toNat,
    lb.tmpFull.toNat,lb.tmpdirFull.toNat⟩

def LoadInputs.tmpUsed (i : LoadInputs) : ℕ := max i.tmpFull i.tmpdirFull

/-- The tmp-penalty of the manual, with the steps of the source's comment. -/
def documentedPenalty (tmpUsed : ℕ) : ℕ :=
  if tmpUsed < 90 then 1
  else if tmpUsed ≤ 93 then 2
  else if tmpUsed ≤ 96 then 4
  else if tmpUsed ≤ 98 then 8
  else if tmpUsed ≤ 99 then 16
  else 32

def documentedWeight (i : LoadInputs) : ℕ :=
  (80*i.uniqUsers+20*i.totUsers+3*i.l1)*documentedPenalty i.tmpUsed

theorem documentedPenalty_mono {s t : ℕ} (h : s ≤ t) :
    documentedPenalty s ≤ documentedPenalty t := by
  unfold documentedPenalty
  split_ifs <;> omega

theorem documentedPenalty_le (t : ℕ) : documentedPenalty t ≤ 32 := by
  unfold documentedPenalty
  split_ifs <;> omega

theorem LoadInputs.tmpUsed_mono {i j : LoadInputs} (h : i ≤ j) : i.tmpUsed ≤ j.tmpUsed :=
  max_le_max h.2.2.2.1 h.2.2.2.2

theorem documentedWeight_mono {i j : LoadInputs} (h : i ≤ j) :
    documentedWeight i ≤ documentedWeight j := by
  have hpenalty := documentedPenalty_mono (LoadInputs.tmpUsed_mono h)
  obtain ⟨ht,hu,hl,-,-⟩ := h
  have hbusy : 80*i.uniqUsers+20*i.totUsers+3*i.l1 ≤ 80*j.uniqUsers+20*j.totUsers+3*j.l1 := by
    omega
  exact Nat.mul_le_mul hbusy hpenalty

theorem documentedWeight_le {i : LoadInputs} (ht : i.totUsers < 65536) (hu : i.uniqUsers < 65536)
    (hl : i.l1 < 65536) : documentedWeight i ≤ 216003360 := by
  have hbusy : 80*i.uniqUsers+20*i.totUsers+3*i.l1 ≤ 6750105 := by omega
  exact Nat.mul_le_mul hbusy (documentedPenalty_le _)

/-- The table has the manual's factor wherever the function looks one up. -/
theorem penalty_documented {t : ℕ} (h90 : ¬t < 90) (h100 : t ≤ 100) :
    penalty.toList[t-90]?=some (documentedPenalty t : ℤ) := by
  have htable : ∀ i : Fin 11,
      penalty.toList[(i : ℕ)]?=some (documentedPenalty (90+i) : ℤ) := by decide
  have hi := htable ⟨t-90,by omega⟩
  rwa [show 90+(t-90)=t by omega] at hi

theorem multiplier_documented {t : ℕ} (h : t ≤ 100) : multiplier t=documentedPenalty t := by
  by_cases hlow : t < 90
  · simp [multiplier,documentedPenalty,hlow]
  · have htable := penalty_documented hlow h
    rw [List.getElem?_eq_getElem (by simp; omega)] at htable
    rw [multiplier,if_neg hlow,dif_pos h]
    exact Option.some.inj htable

theorem cInt_of_bounds {v : ℤ} (hlow : -2147483648 ≤ v) (hhigh : v ≤ 2147483647) :
    cInt v=some v := if_pos ⟨hlow,hhigh⟩

theorem loadWeightSteps_documented (e : Endian) (lb : LbcdReply)
    (h : (lb.loadInputs e).tmpUsed ≤ 100) :
    loadWeightSteps e lb=some (documentedWeight (lb.loadInputs e) : ℤ) := by
  have ht := (ntohs e lb.totUsers).toNat_lt
  have hu := (ntohs e lb.uniqUsers).toNat_lt
  have hl := (ntohs e lb.l1).toNat_lt
  have hle := documentedWeight_le (i := lb.loadInputs e) ht hu hl
  have hdoc : (documentedWeight (lb.loadInputs e) : ℤ)=
      (((ntohs e lb.uniqUsers).toNat : ℤ)*100+3*((ntohs e lb.l1).toNat : ℤ)+
        (((ntohs e lb.totUsers).toNat : ℤ)-((ntohs e lb.uniqUsers).toNat : ℤ))*20)*
        (documentedPenalty (lb.loadInputs e).tmpUsed : ℤ) := by
    simp only [documentedWeight,LbcdReply.loadInputs]
    push_cast
    ring
  have hdiff := cInt_of_bounds (v := ((ntohs e lb.totUsers).toNat : ℤ)-(ntohs e lb.uniqUsers).toNat)
    (by omega) (by omega)
  have hfudge := cInt_of_bounds
    (v := (((ntohs e lb.totUsers).toNat : ℤ)-(ntohs e lb.uniqUsers).toNat)*20)
    (by omega) (by omega)
  have husers := cInt_of_bounds (v := ((ntohs e lb.uniqUsers).toNat : ℤ)*100)
    (by omega) (by omega)
  have hload := cInt_of_bounds (v := 3*((ntohs e lb.l1).toNat : ℤ)) (by omega) (by omega)
  have hbusy := cInt_of_bounds
    (v := ((ntohs e lb.uniqUsers).toNat : ℤ)*100+3*((ntohs e lb.l1).toNat : ℤ))
    (by omega) (by omega)
  have hweight := cInt_of_bounds
    (v := ((ntohs e lb.uniqUsers).toNat : ℤ)*100+3*((ntohs e lb.l1).toNat : ℤ)+
      (((ntohs e lb.totUsers).toNat : ℤ)-(ntohs e lb.uniqUsers).toNat)*20)
    (by omega) (by omega)
  simp only [loadWeightSteps,hdiff,hfudge,husers,hload,hbusy,hweight,Option.bind_eq_bind,
    Option.bind_some]
  change (if (lb.loadInputs e).tmpUsed < 90 then _ else
    if (lb.loadInputs e).tmpUsed > 100 then _ else _)=_
  split_ifs with hlow hhigh
  · rw [hdoc,documentedPenalty,if_pos hlow]
    simp
  · omega
  · have hf := penalty_documented hlow h
    change penalty.toList[(lb.loadInputs e).tmpUsed-90]?.bind _=_
    rw [hf,Option.bind_some,← hdoc]
    exact cInt_of_bounds (by omega) (by omega)

/-- The weight as the program has it is the documented one. -/
theorem loadWeight_documented (e : Endian) (lb : LbcdReply)
    (h : (lb.loadInputs e).tmpUsed ≤ 100) :
    loadWeight e lb=(documentedWeight (lb.loadInputs e) : ℤ) := by
  have hm := multiplier_documented h
  have hw := loadWeight_eq e lb h
  simp only [LoadInputs.tmpUsed,LbcdReply.loadInputs] at hm
  rw [hw,hm]
  simp [documentedWeight,LoadInputs.tmpUsed,LbcdReply.loadInputs,busyness]

/-- What the load function does with a reply when /etc/nologin is absent. -/
structure LoadLaw (e : Endian) (lb : LbcdReply) : Prop where
  steps : loadWeightSteps e lb=some (documentedWeight (lb.loadInputs e) : ℤ)
  below : documentedWeight (lb.loadInputs e) < maxWeight.toNat
  stored : ∀ (slot : Slot) (timeout : ℤ) (portarg : Option CStr) (o : Oracle System),
    o 0 (.access .nologin)=some false → ∃ w : UInt32,
      w.toNat=documentedWeight (lb.loadInputs e) ∧
      (lbcdLoadWeight e slot timeout portarg lb).result o=
        some ((lb.setWeight slot w).setIncr slot 200,(documentedWeight (lb.loadInputs e) : ℤ))

theorem loadLaw_of_le (e : Endian) (lb : LbcdReply) (h : (lb.loadInputs e).tmpUsed ≤ 100) :
    LoadLaw e lb := by
  have hle := documentedWeight_le (i := lb.loadInputs e) (ntohs e lb.totUsers).toNat_lt
    (ntohs e lb.uniqUsers).toNat_lt (ntohs e lb.l1).toNat_lt
  have hmax : maxWeight.toNat=4294967295 := rfl
  refine ⟨loadWeightSteps_documented e lb h,by omega,fun slot timeout portarg o ho => ?_⟩
  refine ⟨UInt32.ofInt (documentedWeight (lb.loadInputs e)),?_,?_⟩
  · have hn := uint32_ofInt_toNat (v := documentedWeight (lb.loadInputs e)) (by omega) (by omega)
    exact_mod_cast hn
  · have hcall : (lbcdLoadWeight e slot timeout portarg lb).result o=
        some ((lb.setWeight slot (UInt32.ofInt (loadWeight e lb))).setIncr slot 200,
          loadWeight e lb) := by
      change (o 0 (.access .nologin)).bind _=_
      rw [ho]
      rfl
    rw [hcall,loadWeight_documented e lb h]

/-- Every step of the load function's arithmetic is exact and inside the table, the weight is
the documented one below the maximum, and a larger input never lowers it. -/
theorem lbcdLoadWeight_documented (e : Endian) (lb : LbcdReply)
    (htmp : lb.tmpFull.toNat ≤ 100) (htmpdir : lb.tmpdirFull.toNat ≤ 100) :
    LoadLaw e lb ∧ ∀ lb' : LbcdReply,lb'.tmpFull.toNat ≤ 100 → lb'.tmpdirFull.toNat ≤ 100 →
      lb.loadInputs e ≤ lb'.loadInputs e → ∃ v v' : ℤ,
        loadWeightSteps e lb=some v ∧ loadWeightSteps e lb'=some v' ∧ 0 ≤ v ∧ v ≤ v' := by
  refine ⟨loadLaw_of_le e lb (max_le htmp htmpdir),fun lb' htmp' htmpdir' hle => ?_⟩
  have hv := loadWeightSteps_documented e lb (max_le htmp htmpdir)
  have hv' := loadWeightSteps_documented e lb' (max_le htmp' htmpdir')
  have hmono := documentedWeight_mono hle
  exact ⟨_,_,hv,hv',by omega,by exact_mod_cast hmono⟩

/-- More distinct users than sessions, and one of the directories nearly full. -/
def crowdedReply : LbcdReply :=
  { (default : LbcdReply) with totUsers := 3, uniqUsers := 5, l1 := 150, tmpFull := 94 }

theorem lbcdLoadWeight_documented_crowded :
    LoadLaw .big crowdedReply ∧ ∃ v v' : ℤ,loadWeightSteps .big crowdedReply=some v ∧
      loadWeightSteps .big { crowdedReply with tmpdirFull := 100 }=some v' ∧ 0 ≤ v ∧ v ≤ v' := by
  have h := lbcdLoadWeight_documented .big crowdedReply (by decide) (by decide)
  refine ⟨h.1,h.2 { crowdedReply with tmpdirFull := 100 } (by decide) (by decide) ?_⟩
  exact ⟨le_refl _,le_refl _,le_refl _,le_refl _,by decide⟩

end Lbcd
