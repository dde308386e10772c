import Lbcd.Usage

namespace Lbcd

open Interaction CText ByteOrder

theorem truncate_mono {q r : ℚ} (h : q ≤ r) : truncate q ≤ truncate r := by
  unfold truncate
  split_ifs with hq hr hr
  · exact Int.floor_le_floor h
  · exact absurd (hq.trans h) hr
  · have hceil : ⌈q⌉ ≤ 0 := Int.ceil_le.mpr (by push_cast; linarith)
    exact hceil.trans (Int.floor_nonneg.mpr hr)
  · exact Int.ceil_le_ceil h

theorem clampPercent_mono {p q : ℤ} (h : p ≤ q) : clampPercent p ≤ clampPercent q := by
  unfold clampPercent
  dsimp only
  split_ifs <;> omega

/-- What tmp_full returns for a file system with blocks. -/
def percentOf (info : StatVfs) : { v : ℤ // 0 ≤ v ∧ v ≤ 100 } :=
  ⟨clampPercent (tmpPercent info),clampPercent_bounds _⟩

/-- More than 95% of the blocks are free, so all of them are taken as the total. -/
def Roomy (info : StatVfs) : Prop := 19*info.fBlocks < 20*info.fBavail

theorem tmpTotal_roomy {info : StatVfs} (h : Roomy info) : tmpTotal info=info.fBlocks := by
  have hq : (19*info.fBlocks : ℚ) < 20*info.fBavail := by exact_mod_cast h
  exact if_pos (by linarith)

theorem tmpTotal_not_roomy {info : StatVfs} (h : ¬Roomy info) :
    tmpTotal info=info.fBlocks*(19/20) := by
  have hq : (20*info.fBavail : ℚ) ≤ 19*info.fBlocks := by
    exact_mod_cast Nat.le_of_not_lt h
  exact if_neg (by linarith)

theorem tmpTotal_pos {info : StatVfs} (h : 0 < info.fBlocks) : 0 < tmpTotal info := by
  have hq : (0 : ℚ) < info.fBlocks := by exact_mod_cast h
  unfold tmpTotal
  split_ifs <;> linarith

/-- Measured against one total, the percentage falls as space is freed. -/
theorem tmpPercent_mono {a b : StatVfs} (ht : tmpTotal a=tmpTotal b) (hpos : 0 < tmpTotal a)
    (h : a.fBavail ≤ b.fBavail) : tmpPercent b ≤ tmpPercent a := by
  have hq : (a.fBavail : ℚ) ≤ b.fBavail := by exact_mod_cast h
  refine truncate_mono ?_
  rw [← ht]
  have hdiv : (tmpTotal a-b.fBavail)*100/tmpTotal a ≤ (tmpTotal a-a.fBavail)*100/tmpTotal a :=
    div_le_div_of_nonneg_right (by linarith) hpos.le
  linarith

/-- A file system with that much room is at most 5% full. -/
theorem tmpPercent_roomy {info : StatVfs} (h : Roomy info) (hpos : 0 < info.fBlocks) :
    tmpPercent info ≤ 5 := by
  have hq : (19*info.fBlocks : ℚ) < 20*info.fBavail := by exact_mod_cast h
  have hb : (0 : ℚ) < info.fBlocks := by exact_mod_cast hpos
  have hle : (tmpTotal info-info.fBavail)*100/tmpTotal info+1/2 ≤ 11/2 := by
    rw [tmpTotal_roomy h]
    have hdiv : ((info.fBlocks : ℚ)-info.fBavail)*100/info.fBlocks ≤ 5 := by
      rw [div_le_iff₀ hb]
      linarith
    linarith
  have hfloor : truncate (11/2)=5 := by
    rw [truncate,if_pos (by norm_num),Int.floor_eq_iff]
    norm_num
  exact (truncate_mono hle).trans hfloor.le

/-- The step over the 95% is the only one at which a file system can seem fuller with more
space, and it is then at most 5% full. -/
def Stepped (a b : StatVfs) (v : ℤ) : Prop := ¬Roomy a ∧ Roomy b ∧ v ≤ 5

theorem percentOf_freed {a b : StatVfs} (hB : a.fBlocks=b.fBlocks) (hpos : 0 < a.fBlocks)
    (h : a.fBavail ≤ b.fBavail) :
    (percentOf b).val ≤ (percentOf a).val ∨ Stepped a b (percentOf b).val := by
  have hsame (ht : tmpTotal a=tmpTotal b) : (percentOf b).val ≤ (percentOf a).val :=
    clampPercent_mono (tmpPercent_mono ht (tmpTotal_pos hpos) h)
  by_cases ha : Roomy a
  · have hb : Roomy b := by
      unfold Roomy at *
      omega
    exact .inl (hsame (by rw [tmpTotal_roomy ha,tmpTotal_roomy hb,hB]))
  · by_cases hb : Roomy b
    · have h5 := clampPercent_mono (tmpPercent_roomy hb (hB ▸ hpos))
      exact .inr ⟨ha,hb,h5⟩
    · exact .inl (hsame (by rw [tmpTotal_not_roomy ha,tmpTotal_not_roomy hb,hB]))

/-- A directory that is nearly empty does not count in the multiplier. -/
theorem multiplier_freed {u v w x : ℕ} (hu : u ≤ 100) (hw : w ≤ 100) (hv : v ≤ u ∨ v ≤ 5)
    (hx : x ≤ w ∨ x ≤ 5) : multiplier (max v x) ≤ multiplier (max u w) := by
  by_cases hle : max v x ≤ max u w
  · exact multiplier_mono hle (max_le hu hw)
  · have hlow : max v x < 90 := by omega
    rw [multiplier,if_pos hlow]
    exact (multiplier_bounds (max_le hu hw)).1

theorem tmpFull_result {path : TmpDir} {info : StatVfs} (hpos : 0 < info.fBlocks)
    {o : Oracle System} (hdir : o 0 (.chdir path)=some true)
    (hinfo : o 1 .statvfs=some (some info)) :
    (tmpFull path).result o=some (percentOf info).val := by
  change (o 0 (.chdir path)).bind _=_
  rw [hdir]
  change (o 1 .statvfs).bind _=_
  rw [hinfo]
  change Prog.result _ (if info.fBlocks=0 then _ else _)=_
  rw [if_neg (by omega)]
  rfl

/-- The byte of a reply about one of the directories. -/
def LbcdReply.tmpField (r : LbcdReply) : TmpDir → UInt8
  | .tmp => r.tmpFull
  | .pTmpdir => r.tmpdirFull

/-- What the load function multiplies by for this reply. -/
def LbcdReply.penaltyFactor (r : LbcdReply) : ℤ :=
  multiplier (max r.tmpFull.toNat r.tmpdirFull.toNat)

/-- Two hosts that differ in the free space of a file system with one or both directories. -/
def Freed {e : Endian} {g : WeightGlobals} (a b : StatVfs) (h h' : Host e g) : Prop :=
  ∀ d,(h.tmp d=percentOf a ∧ h'.tmp d=percentOf b) ∨ h'.tmp d=h.tmp d

/-- What freeing space does to the percentage, to the byte of a reply and to the factor that
the load function applies. -/
structure FreedLaw (a b : StatVfs) : Prop where
  returned : ∀ (path : TmpDir) (info : StatVfs) (o : Oracle System),info=a ∨ info=b →
    o 0 (.chdir path)=some true → o 1 .statvfs=some (some info) →
    (tmpFull path).result o=some (percentOf info).val
  percent : (percentOf b).val ≤ (percentOf a).val ∨ Stepped a b (percentOf b).val
  field : ∀ {e : Endian} {g : WeightGlobals} {d : TmpDir} {h h' : Host e g},
    h.tmp d=percentOf a → h'.tmp d=percentOf b →
    ∀ {lb services simple cache lb' services' simple' cache' r r'},
    services.length ≤ maxServices → services'.length ≤ maxServices →
    h.reply3 lb services simple cache=some r →
    h'.reply3 lb' services' simple' cache'=some r' →
    (r'.tmpField d).toNat ≤ (r.tmpField d).toNat ∨ Stepped a b (r'.tmpField d).toNat
  factor : ∀ {e : Endian} {g : WeightGlobals} {h h' : Host e g},Freed a b h h' →
    ∀ {lb services simple cache lb' services' simple' cache' r r'},
    services.length ≤ maxServices → services'.length ≤ maxServices →
    h.reply3 lb services simple cache=some r →
    h'.reply3 lb' services' simple' cache'=some r' → r'.penaltyFactor ≤ r.penaltyFactor

theorem reply3_tmpField {e : Endian} {g : WeightGlobals} (h : Host e g) {services : List CStr}
    (hl : services.length ≤ maxServices) {lb r : LbcdReply} {simple : Bool} {cache : UserCache}
    (hr : h.reply3 lb services simple cache=some r) (d : TmpDir) :
    ((r.tmpField d).toNat : ℤ)=(h.tmp d).val := by
  have hd : HasProbe g defaultName := by
    intro hn
    rw [Host.reply3,h.lbcdPackInfo_noDefault (not_not.mpr hn)] at hr
    cases hr
  obtain ⟨q,hfill,hq⟩ := h.reply3_eq hd hl lb simple cache
  cases hr.symm.trans hq
  have hv := (h.tmp d).property
  have hfield : r.tmpField d=UInt8.ofInt (h.tmp d).val := by
    cases d with
    | tmp => exact congrArg LbcdReply.tmpFull hfill.scalars
    | pTmpdir => exact congrArg LbcdReply.tmpdirFull hfill.scalars
  rw [hfield,uint8_ofInt_toNat hv.1 (by omega)]
  omega

/-- Freeing space never raises the factor of the load function; it raises the percentage only
at the step over 95%, and then to 5 at most. -/
theorem tmpFull_freed (blocks : ℕ) (hpos : 0 < blocks) (free free' : ℕ) (hle : free ≤ free') :
    FreedLaw ⟨free,blocks⟩ ⟨free',blocks⟩ := by
  have hfreed := percentOf_freed (a := ⟨free,blocks⟩) (b := ⟨free',blocks⟩) rfl hpos hle
  refine ⟨fun path info o hinfo hdir ho => tmpFull_result ?_ hdir ho,hfreed,?_,?_⟩
  · rcases hinfo with rfl|rfl <;> exact hpos
  · intro e g d h h' hb ha lb services simple cache lb' services' simple' cache' r r' hl hl' hr
      hr'
    have hv := reply3_tmpField h hl hr d
    have hv' := reply3_tmpField h' hl' hr' d
    rw [hb] at hv
    rw [ha] at hv'
    rw [hv']
    exact hfreed.imp_left fun hp => by omega
  · intro e g h h' hf lb services simple cache lb' services' simple' cache' r r' hl hl' hr hr'
    have hv := reply3_tmpField h hl hr
    have hv' := reply3_tmpField h' hl' hr'
    have hbound (d : TmpDir) : (r.tmpField d).toNat ≤ 100 := by
      have hp := (h.tmp d).property
      have hn := hv d
      omega
    have hlow (d : TmpDir) :
        (r'.tmpField d).toNat ≤ (r.tmpField d).toNat ∨ (r'.tmpField d).toNat ≤ 5 := by
      have hd := hv d
      have hd' := hv' d
      rcases hf d with ⟨hb,ha⟩|hsame
      · rw [hb] at hd
        rw [ha] at hd'
        rcases hfreed with hp|⟨-,-,hp⟩ <;> omega
      · rw [hsame] at hd'
        omega
    exact multiplier_freed (hbound .tmp) (hbound .pTmpdir) (hlow .tmp) (hlow .pTmpdir)

theorem tmpFull_freed_tenth : FreedLaw ⟨0,100⟩ ⟨10,100⟩ :=
  tmpFull_freed 100 (by decide) 0 10 (by decide)

/-- Of 100 blocks, 95 are free, then one more: the file system goes from empty to 4% full. -/
theorem last_block_freed :
    (percentOf ⟨95,100⟩).val=0 ∧ (percentOf ⟨96,100⟩).val=4 ∧
      ¬(percentOf ⟨96,100⟩).val ≤ (percentOf ⟨95,100⟩).val := by
  have hbefore : tmpPercent ⟨95,100⟩=0 := by
    rw [tmpPercent,tmpTotal_not_roomy (by unfold Roomy; decide),truncate,
      if_pos (by norm_num),Int.floor_eq_iff]
    norm_num
  have hafter : tmpPercent ⟨96,100⟩=4 := by
    rw [tmpPercent,tmpTotal_roomy (by unfold Roomy; decide),truncate,
      if_pos (by norm_num),Int.floor_eq_iff]
    norm_num
  simp only [percentOf,hbefore,hafter]
  decide

end Lbcd
