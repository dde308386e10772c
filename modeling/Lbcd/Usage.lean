import Mathlib.Tactic.Linarith
import Mathlib.Tactic.NormNum
import Lbcd.Sentinel

namespace Lbcd

open Interaction CText ByteOrder

/-- How busy a host is, as it is measured. -/
structure Usage where
  l1 : ℚ
  l5 : ℚ
  l15 : ℚ
  sessions : ℕ
  users : ℕ
  tmp : TmpDir → { v : ℤ // 0 ≤ v ∧ v ≤ 100 }
  l1_nonneg : 0 ≤ l1
  l5_nonneg : 0 ≤ l5
  l15_nonneg : 0 ≤ l15
  users_le : users ≤ sessions

namespace Usage

/-- One host is at most as busy as another in everything that is measured. -/
structure AtMost (a b : Usage) : Prop where
  l1 : a.l1 ≤ b.l1
  l5 : a.l5 ≤ b.l5
  l15 : a.l15 ≤ b.l15
  sessions : a.sessions ≤ b.sessions
  users : a.users ≤ b.users
  tmp : ∀ d,(a.tmp d).val ≤ (b.tmp d).val

instance : LE Usage := ⟨AtMost⟩

/-- Hundredths of the loads and the number of sessions fit in 16 bits. -/
structure Fits (a : Usage) : Prop where
  l1 : a.l1*100 < 65536
  l5 : a.l5*100 < 65536
  l15 : a.l15*100 < 65536
  sessions : a.sessions < 65536

theorem Fits.of_le {a b : Usage} (hb : b.Fits) (h : a ≤ b) : a.Fits := by
  have h1 := h.l1
  have h5 := h.l5
  have h15 := h.l15
  have hb1 := hb.l1
  have hb5 := hb.l5
  have hb15 := hb.l15
  exact ⟨by linarith,by linarith,by linarith,lt_of_le_of_lt h.sessions hb.sessions⟩

/-- The fuller of the two directories. -/
def tmpUsed (a : Usage) : ℕ := max (a.tmp .tmp).val.toNat (a.tmp .pTmpdir).val.toNat

theorem tmpUsed_le (a : Usage) : a.tmpUsed ≤ 100 := by
  have ht := (a.tmp .tmp).property
  have hd := (a.tmp .pTmpdir).property
  unfold tmpUsed
  omega

theorem tmpUsed_mono {a b : Usage} (h : a ≤ b) : a.tmpUsed ≤ b.tmpUsed :=
  max_le_max (Int.toNat_le_toNat (h.tmp .tmp)) (Int.toNat_le_toNat (h.tmp .pTmpdir))

/-- Only one of the loads and the sessions is not zero. -/
def only (l1 l5 l15 : ℕ) (sessions : ℕ) : Usage :=
  ⟨l1/100,l5/100,l15/100,sessions,0,fun _ => unusedDisk,by positivity,by positivity,
    by positivity,Nat.zero_le _⟩

theorem only_mono {l1 l5 l15 sessions l1' l5' l15' sessions' : ℕ} (h1 : l1 ≤ l1') (h5 : l5 ≤ l5')
    (h15 : l15 ≤ l15') (hs : sessions ≤ sessions') :
    only l1 l5 l15 sessions ≤ only l1' l5' l15' sessions' := by
  have div {m n : ℕ} (h : m ≤ n) : (m : ℚ)/100 ≤ n/100 := by
    have hq : (m : ℚ) ≤ n := Nat.cast_le.mpr h
    linarith
  exact ⟨div h1,div h5,div h15,hs,le_refl _,fun _ => le_refl _⟩

theorem only_le {l1 l5 l15 sessions : ℕ} {b : Usage} (h1 : (l1 : ℚ) ≤ b.l1*100)
    (h5 : (l5 : ℚ) ≤ b.l5*100) (h15 : (l15 : ℚ) ≤ b.l15*100) (hs : sessions ≤ b.sessions) :
    only l1 l5 l15 sessions ≤ b := by
  have div {m : ℕ} {q : ℚ} (h : (m : ℚ) ≤ q*100) : (m : ℚ)/100 ≤ q := by linarith
  exact ⟨div h1,div h5,div h15,hs,Nat.zero_le _,fun d => (b.tmp d).property.1⟩

end Usage

theorem uint16_ofInt_toNat {v : ℤ} (h0 : 0 ≤ v) (hv : v < 65536) :
    (UInt16.ofInt v).toNat=v.toNat := by
  rw [UInt16.ofInt,UInt16.toNat_ofNat']
  omega

theorem loadField_toNat {l : ℚ} (h0 : 0 ≤ l) (h : l*100 < 65536) :
    (loadField l).toNat=⌊l*100⌋.toNat := by
  have hl : 0 ≤ l*100 := by positivity
  have hfloor : ⌊l*100⌋<65536 := Int.floor_lt.mpr (by exact_mod_cast h)
  rw [loadField,truncate,if_pos hl,uint16_ofInt_toNat (Int.floor_nonneg.mpr hl) hfloor]

theorem loadField_mono {l l' : ℚ} (h0 : 0 ≤ l) (hl : l ≤ l') (h : l'*100 < 65536) :
    (loadField l).toNat ≤ (loadField l').toNat := by
  rw [loadField_toNat h0 (by linarith),loadField_toNat (h0.trans hl) h]
  exact Int.toNat_le_toNat (Int.floor_le_floor (by linarith))

/-- At the load 655.36 the field is zero again. -/
theorem loadField_wraps :
    ¬(loadField ((65535 : ℕ)/100)).toNat ≤ (loadField ((65536 : ℕ)/100)).toNat := by
  have h1 : (loadField ((65535 : ℕ)/100)).toNat=65535 := by
    rw [loadField_toNat (by positivity) (by norm_num)]
    norm_num
    rfl
  have h2 : (loadField ((65536 : ℕ)/100)).toNat=0 := by
    have hq : ((65536 : ℕ) : ℚ)/100*100=(65536 : ℤ) := by norm_num
    rw [loadField,truncate,hq,if_pos (by norm_num),Int.floor_intCast]
    rfl
  rw [h1,h2]
  decide

/-- A reply reports at most as much as another. -/
structure ReportsAtMost (e : Endian) (r r' : LbcdReply) : Prop where
  l1 : (ntohs e r.l1).toNat ≤ (ntohs e r'.l1).toNat
  l5 : (ntohs e r.l5).toNat ≤ (ntohs e r'.l5).toNat
  l15 : (ntohs e r.l15).toNat ≤ (ntohs e r'.l15).toNat
  totUsers : (ntohs e r.totUsers).toNat ≤ (ntohs e r'.totUsers).toNat
  uniqUsers : (ntohs e r.uniqUsers).toNat ≤ (ntohs e r'.uniqUsers).toNat
  weight : (ntohl e (r.slot 0).hostWeight).toNat ≤ (ntohl e (r'.slot 0).hostWeight).toNat

/-- The measurements of a host, which has neither of the files that take it out of service. -/
structure Host.Measures {e : Endian} {g : WeightGlobals} (h : Host e g) (a : Usage) : Prop where
  sentinel : h.sentinel=false
  nologin : h.nologin=false
  loads : h.loads=⟨some a.l1,some a.l5,some a.l15⟩
  total : h.users.total=a.sessions
  uniq : h.users.uniq=a.users
  tmp : h.tmp=a.tmp

/-- A version 3 reply of a host this busy. -/
def Replied (e : Endian) (g : WeightGlobals) (a : Usage) (r : LbcdReply) : Prop :=
  ∃ (h : Host e g) (lb : LbcdReply) (services : List CStr) (simple : Bool) (cache : UserCache),
    h.Measures a ∧ services.length ≤ maxServices ∧ h.reply3 lb services simple cache=some r

/-- The fields of a reply from the measurements. -/
structure Reported (e : Endian) (a : Usage) (r : LbcdReply) : Prop where
  l1 : ntohs e r.l1=loadField a.l1
  l5 : ntohs e r.l5=loadField a.l5
  l15 : ntohs e r.l15=loadField a.l15
  totUsers : ntohs e r.totUsers=UInt16.ofInt a.sessions
  uniqUsers : ntohs e r.uniqUsers=UInt16.ofInt a.users
  weight : ((ntohl e (r.slot 0).hostWeight).toNat : ℤ)=
    busyness (ntohs e r.totUsers).toNat (ntohs e r.uniqUsers).toNat (ntohs e r.l1).toNat*
      multiplier a.tmpUsed

theorem Replied.reported {e : Endian} {g : WeightGlobals} {portarg : Option CStr}
    (hg : probeOf g defaultName=some (.load,portarg)) {a : Usage} {r : LbcdReply}
    (h : Replied e g a r) : Reported e a r := by
  obtain ⟨h,lb,services,simple,cache,hm,hl,hr⟩ := h
  have hd : HasProbe g defaultName := fun hn => by
    rw [hn] at hg
    cases hg
  obtain ⟨q,hfill,hq⟩ := h.reply3_eq hd hl lb simple cache
  cases hr.symm.trans hq
  have field {α : Type} (f : LbcdReply → α) := congrArg f hfill.scalars
  have hl1 : r.l1=htons e (loadField (h.loads.l1.getD h.junkLocals.l1)) := field LbcdReply.l1
  have hl5 : r.l5=htons e (loadField (h.loads.l5.getD h.junkLocals.l5)) := field LbcdReply.l5
  have hl15 : r.l15=htons e (loadField (h.loads.l15.getD h.junkLocals.l15)) :=
    field LbcdReply.l15
  have htot : r.totUsers=htons e (UInt16.ofInt h.users.total) := field LbcdReply.totUsers
  have huniq : r.uniqUsers=htons e (UInt16.ofInt h.users.uniq) := field LbcdReply.uniqUsers
  rw [hm.loads] at hl1 hl5 hl15
  rw [hm.total] at htot
  rw [hm.uniq] at huniq
  refine ⟨by rw [hl1]; exact ntohs_htons e _,by rw [hl5]; exact ntohs_htons e _,
    by rw [hl15]; exact ntohs_htons e _,by rw [htot]; exact ntohs_htons e _,
    by rw [huniq]; exact ntohs_htons e _,?_⟩
  have hdrain (w : LbcdService) : h.drained w=w := by
    rw [Host.drained,hm.sentinel]
    rfl
  have htmp := h.measured_tmp lb services
  have hscal : SameScalars (h.measured lb services) r := hfill.scalars.symm
  have hload : loadWeight e (h.measured lb services)=loadWeight e r := loadWeight_congr e hscal
  have hfull : max r.tmpFull.toNat r.tmpdirFull.toNat=a.tmpUsed := by
    have hf : r.tmpFull=(h.measured lb services).tmpFull := field LbcdReply.tmpFull
    have hf' : r.tmpdirFull=(h.measured lb services).tmpdirFull := field LbcdReply.tmpdirFull
    rw [hf,hf',htmp.1,hm.tmp]
    rfl
  have hmax : max r.tmpFull.toNat r.tmpdirFull.toNat ≤ 100 := by
    rw [hfull]
    exact a.tmpUsed_le
  have hbounds := loadWeight_bounds e r hmax
  have hweight : (r.slot 0).hostWeight=htonl e (UInt32.ofInt (loadWeight e r)) := by
    rw [hfill.default,hdrain,h.filled_probe hg,h.stored_load,hm.nologin,hload]
    rfl
  rw [hweight,ntohl_htonl,uint32_ofInt_toNat hbounds.1 (by omega),loadWeight_eq e r hmax,hfull]

theorem busyness_mono {tot uniq l1 tot' uniq' l1' : ℕ} (ht : tot ≤ tot') (hu : uniq ≤ uniq')
    (hl : l1 ≤ l1') : busyness tot uniq l1 ≤ busyness tot' uniq' l1' := by
  unfold busyness
  omega

theorem busyness_nonneg (tot uniq l1 : ℕ) : 0 ≤ busyness tot uniq l1 := by
  unfold busyness
  omega

theorem uint16_mono {m n : ℕ} (h : m ≤ n) (hn : n < 65536) :
    (UInt16.ofInt m).toNat ≤ (UInt16.ofInt n).toNat := by
  rw [uint16_ofInt_toNat (by omega) (by omega),uint16_ofInt_toNat (by omega) (by omega)]
  exact h

/-- A busier host reports at least as much, as long as the measurements fit. -/
theorem Reported.atMost {e : Endian} {a b : Usage} {r r' : LbcdReply} (ha : Reported e a r)
    (hb : Reported e b r') (h : a ≤ b) (hf : b.Fits) : ReportsAtMost e r r' := by
  have hl1 := loadField_mono a.l1_nonneg h.l1 hf.l1
  have hl5 := loadField_mono a.l5_nonneg h.l5 hf.l5
  have hl15 := loadField_mono a.l15_nonneg h.l15 hf.l15
  have htot := uint16_mono h.sessions hf.sessions
  have huniq := uint16_mono h.users (lt_of_le_of_lt b.users_le hf.sessions)
  rw [← ha.l1,← hb.l1] at hl1
  rw [← ha.l5,← hb.l5] at hl5
  rw [← ha.l15,← hb.l15] at hl15
  rw [← ha.totUsers,← hb.totUsers] at htot
  rw [← ha.uniqUsers,← hb.uniqUsers] at huniq
  refine ⟨hl1,hl5,hl15,htot,huniq,?_⟩
  have hbusy := busyness_mono htot huniq hl1
  have hmult := multiplier_mono (Usage.tmpUsed_mono h) b.tmpUsed_le
  have hpos := (multiplier_bounds a.tmpUsed_le).1
  have hprod := mul_le_mul hbusy hmult (by omega) (busyness_nonneg _ _ _)
  rw [← ha.weight,← hb.weight] at hprod
  exact Int.ofNat_le.mp hprod

theorem Reported.users {e : Endian} {a : Usage} {r : LbcdReply} (ha : Reported e a r)
    (hf : a.Fits) : (ntohs e r.uniqUsers).toNat ≤ (ntohs e r.totUsers).toNat := by
  rw [ha.uniqUsers,ha.totUsers]
  exact uint16_mono a.users_le hf.sessions

/-- An idle host with these measurements. -/
def Host.using (e : Endian) (g : WeightGlobals) (a : Usage) : Host e g :=
  { Host.idle e g with
    loads := ⟨some a.l1,some a.l5,some a.l15⟩
    users := ⟨a.sessions,a.users,0,0⟩
    tmp := a.tmp }

theorem exists_replied (e : Endian) {g : WeightGlobals} (hd : HasProbe g defaultName)
    (a : Usage) : ∃ r,Replied e g a r := by
  obtain ⟨r,-,hr⟩ := (Host.using e g a).reply3_eq hd (show ([] : List CStr).length ≤ maxServices by
    decide) default false .initial
  exact ⟨r,_,_,_,_,_,⟨rfl,rfl,rfl,rfl,rfl,rfl⟩,by decide,hr⟩

/-- Every reply of a host reports at most as much as every reply of a busier one. -/
def OrderKept (e : Endian) (g : WeightGlobals) (a b : Usage) : Prop :=
  ∀ r r',Replied e g a r → Replied e g b r' → ReportsAtMost e r r'

/-- No reply of a host reports more users than sessions. -/
def UsersCounted (e : Endian) (g : WeightGlobals) (a : Usage) : Prop :=
  ∀ r,Replied e g a r → (ntohs e r.uniqUsers).toNat ≤ (ntohs e r.totUsers).toNat

/-- What the order of the replies says about the fields. -/
theorem OrderKept.fields {e : Endian} {g : WeightGlobals} {portarg : Option CStr}
    (hg : probeOf g defaultName=some (.load,portarg)) {a b : Usage} (h : OrderKept e g a b) :
    (loadField a.l1).toNat ≤ (loadField b.l1).toNat ∧
      (loadField a.l5).toNat ≤ (loadField b.l5).toNat ∧
      (loadField a.l15).toNat ≤ (loadField b.l15).toNat ∧
      (UInt16.ofInt a.sessions).toNat ≤ (UInt16.ofInt b.sessions).toNat := by
  have hd : HasProbe g defaultName := fun hn => by
    rw [hn] at hg
    cases hg
  obtain ⟨r,hr⟩ := exists_replied e hd a
  obtain ⟨r',hr'⟩ := exists_replied e hd b
  have hle := h r r' hr hr'
  have ha := hr.reported hg
  have hb := hr'.reported hg
  rw [← ha.l1,← hb.l1,← ha.l5,← hb.l5,← ha.l15,← hb.l15,← ha.totUsers,← hb.totUsers]
  exact ⟨hle.l1,hle.l5,hle.l15,hle.totUsers⟩

/-- Replies keep the order of all hosts up to some usage exactly when its loads and
sessions fit in their fields. -/
theorem order_kept_iff_fits (e : Endian) {g : WeightGlobals} {portarg : Option CStr}
    (hg : probeOf g defaultName=some (.load,portarg)) (b : Usage) :
    (∀ a a',a ≤ a' → a' ≤ b → OrderKept e g a a' ∧ UsersCounted e g a') ↔ b.Fits := by
  constructor
  · intro h
    have kept {l1 l5 l15 sessions l1' l5' l15' sessions' : ℕ} (hm : Usage.only l1 l5 l15 sessions≤
        Usage.only l1' l5' l15' sessions') (hb : Usage.only l1' l5' l15' sessions' ≤ b) :=
      (h _ _ hm hb).1.fields hg
    have zero {q : ℚ} (hq : 0 ≤ q) : ((0 : ℕ) : ℚ) ≤ q*100 := by
      rw [Nat.cast_zero]
      linarith
    have z1 := zero b.l1_nonneg
    have z5 := zero b.l5_nonneg
    have z15 := zero b.l15_nonneg
    have zs := Nat.zero_le b.sessions
    have up : 65535 ≤ 65536 := by decide
    have same := le_refl 0
    refine ⟨?_,?_,?_,?_⟩
    · by_contra hn
      have hb := Usage.only_le (by exact_mod_cast not_lt.mp hn) z5 z15 zs
      exact loadField_wraps (kept (Usage.only_mono up same same same) hb).1
    · by_contra hn
      have hb := Usage.only_le z1 (by exact_mod_cast not_lt.mp hn) z15 zs
      exact loadField_wraps (kept (Usage.only_mono same up same same) hb).2.1
    · by_contra hn
      have hb := Usage.only_le z1 z5 (by exact_mod_cast not_lt.mp hn) zs
      exact loadField_wraps (kept (Usage.only_mono same same up same) hb).2.2.1
    · by_contra hn
      have hb := Usage.only_le z1 z5 z15 (not_lt.mp hn)
      exact absurd (kept (Usage.only_mono same same same up) hb).2.2.2 (by decide)
  · intro hf a a' ha ha'
    have hf' := hf.of_le ha'
    exact ⟨fun r r' hr hr' => (hr.reported hg).atMost (hr'.reported hg) ha hf',
      fun r hr => (hr.reported hg).users hf'⟩

theorem order_kept_iff_fits_idle :
    ∃ g portarg,lbcdWeightInit .initial none none 5=.ok g ∧
      probeOf g defaultName=some (.load,portarg) ∧
      ((∀ a a',a ≤ a' → a' ≤ Usage.only 100 50 25 3 →
          OrderKept .little g a a' ∧ UsersCounted .little g a') ↔
        (Usage.only 100 50 25 3).Fits) :=
  ⟨_,none,rfl,rfl,order_kept_iff_fits .little rfl (Usage.only 100 50 25 3)⟩

/-- A host with the load 655.36 looks idle next to one with 655.35. -/
theorem high_load_wraps :
    ∃ g,lbcdWeightInit .initial none none 5=.ok g ∧
      ¬∀ a b,a ≤ b → OrderKept .little g a b ∧ UsersCounted .little g b := by
  refine ⟨_,rfl,fun h => ?_⟩
  have hle : Usage.only 65535 0 0 0 ≤ Usage.only 65536 0 0 0 :=
    Usage.only_mono (by decide) (le_refl 0) (le_refl 0) (le_refl 0)
  have hkept := (h _ _ hle).1
  exact loadField_wraps (hkept.fields (show probeOf _ _=some (.load,none) from rfl)).1

end Lbcd
