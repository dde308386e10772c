import Mathlib.Tactic.Ring
import Lbcd.Stores

namespace Lbcd

open Interaction CText ByteOrder

/-- The factor for the fuller of the two directories. -/
def multiplier (tmpUsed : ℕ) : ℤ :=
  if tmpUsed < 90 then 1 else if h : tmpUsed ≤ 100 then penalty[tmpUsed-90] else 0

theorem penalty_bounds : ∀ i : Fin 11,1 ≤ penalty[i] ∧ penalty[i] ≤ 32 := by decide

theorem penalty_mono : ∀ i j : Fin 11,i ≤ j → penalty[i] ≤ penalty[j] := by decide

theorem multiplier_bounds {t : ℕ} (h : t ≤ 100) : 1 ≤ multiplier t ∧ multiplier t ≤ 32 := by
  by_cases hlow : t < 90
  · rw [multiplier,if_pos hlow]
    decide
  · rw [multiplier,if_neg hlow,dif_pos h]
    exact penalty_bounds ⟨t-90,by omega⟩

theorem multiplier_mono {s t : ℕ} (hst : s ≤ t) (ht : t ≤ 100) : multiplier s ≤ multiplier t := by
  by_cases hs : s < 90
  · rw [multiplier,if_pos hs]
    exact (multiplier_bounds ht).1
  · have hs' : s ≤ 100 := by omega
    have ht' : ¬t < 90 := by omega
    rw [multiplier,if_neg hs,dif_pos hs',multiplier,if_neg ht',dif_pos ht]
    have hij : (⟨s-90,by omega⟩ : Fin 11) ≤ ⟨t-90,by omega⟩ := by
      rw [Fin.mk_le_mk]
      omega
    have hle := penalty_mono ⟨s-90,by omega⟩ ⟨t-90,by omega⟩ hij
    rw [Fin.getElem_fin,Fin.getElem_fin] at hle
    exact hle

/-- Sessions, distinct users and the one-minute load, weighed. -/
def busyness (tot uniq l1 : ℕ) : ℤ := 80*uniq+20*tot+3*l1

theorem loadWeight_eq (e : Endian) (lb : LbcdReply)
    (h : max lb.tmpFull.toNat lb.tmpdirFull.toNat ≤ 100) :
    loadWeight e lb=
      busyness (ntohs e lb.totUsers).toNat (ntohs e lb.uniqUsers).toNat (ntohs e lb.l1).toNat*
        multiplier (max lb.tmpFull.toNat lb.tmpdirFull.toNat) := by
  have hsum : ((ntohs e lb.uniqUsers).toNat : ℤ)*100+3*((ntohs e lb.l1).toNat : ℤ)+
      (((ntohs e lb.totUsers).toNat : ℤ)-((ntohs e lb.uniqUsers).toNat : ℤ))*20=
      busyness (ntohs e lb.totUsers).toNat (ntohs e lb.uniqUsers).toNat
        (ntohs e lb.l1).toNat := by
    unfold busyness
    ring
  unfold loadWeight multiplier
  simp only [hsum]
  split_ifs with hlow
  · rw [mul_one]
  · rfl

theorem busyness_bounds {tot uniq l1 : ℕ} (ht : tot < 65536) (hu : uniq < 65536) (hl : l1 < 65536) :
    0 ≤ busyness tot uniq l1 ∧ busyness tot uniq l1 ≤ 6750105 := by
  unfold busyness
  omega

/-- The load weight of every reply is a number far below the maximum. -/
theorem loadWeight_bounds (e : Endian) (lb : LbcdReply)
    (h : max lb.tmpFull.toNat lb.tmpdirFull.toNat ≤ 100) :
    0 ≤ loadWeight e lb ∧ loadWeight e lb ≤ 216003360 := by
  rw [loadWeight_eq e lb h]
  have hb := busyness_bounds (ntohs e lb.totUsers).toNat_lt (ntohs e lb.uniqUsers).toNat_lt
    (ntohs e lb.l1).toNat_lt
  have hm := multiplier_bounds h
  constructor
  · exact mul_nonneg hb.1 (by omega)
  · exact (mul_le_mul hb.2 hm.2 (by omega) (by omega)).trans (by omega)

theorem uint8_ofInt_toNat {v : ℤ} (h0 : 0 ≤ v) (hv : v < 256) :
    (UInt8.ofInt v).toNat=v.toNat := by
  rw [UInt8.ofInt,UInt8.toNat_ofNat']
  omega

theorem uint32_ofInt_toNat {v : ℤ} (h0 : 0 ≤ v) (hv : v < 4294967296) :
    ((UInt32.ofInt v).toNat : ℤ)=v := by
  rw [UInt32.ofInt]
  simp only [UInt32.toNat_ofNat']
  omega

/-- Without /etc/nologin the load function never reports the maximum. -/
theorem loadWeight_ne_max (e : Endian) (lb : LbcdReply)
    (h : max lb.tmpFull.toNat lb.tmpdirFull.toNat ≤ 100) :
    UInt32.ofInt (loadWeight e lb)≠maxWeight := by
  have hb := loadWeight_bounds e lb h
  intro he
  have hn := uint32_ofInt_toNat hb.1 (by omega)
  rw [he] at hn
  have hmax : (maxWeight.toNat : ℤ)=4294967295 := rfl
  omega

end Lbcd
