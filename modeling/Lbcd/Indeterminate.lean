import Lbcd.Client
import Lbcd.Versions

namespace Lbcd

open Interaction CText ByteOrder

/-- The slots of a reply that the load function answers. -/
def LoadSlot (g : WeightGlobals) (services : List CStr) (slot : Slot) : Prop :=
  ∃ name portarg,(defaultName :: services)[(slot : ℕ)]?=some name ∧
    probeOf g name=some (.load,portarg)

/-- The same bytes before the weights, and the same weights from the load function. -/
structure SameReply (e : Endian) (g : WeightGlobals) (services : List CStr)
    (r r' : LbcdReply) : Prop where
  fixed : r.fixedBytes e=r'.fixedBytes e
  loads : ∀ slot,LoadSlot g services slot → (r.slot slot).hostWeight=(r'.slot slot).hostWeight

/-- The compatibility code for version 2 at the end of lbcd_pack_info. -/
def convertReply (e : Endian) (protocol : UInt16) (simple : Bool) (lb : LbcdReply) : LbcdReply :=
  if simple=false ∧ protocol < 3 then lbcdProto2Convert e lb else lb

theorem convertReply_slot (e : Endian) (protocol : UInt16) (simple : Bool) (lb : LbcdReply)
    (slot : Slot) : (convertReply e protocol simple lb).slot slot=lb.slot slot := by
  unfold convertReply
  split_ifs <;> rfl

theorem convertReply_bootTime (e : Endian) (protocol : UInt16) (simple : Bool) (lb : LbcdReply) :
    (convertReply e protocol simple lb).bootTime=lb.bootTime := by
  unfold convertReply
  split_ifs <;> rfl

theorem service_ext {e : Endian} {v w : LbcdService}
    (hw : ntohl e v.hostWeight=ntohl e w.hostWeight)
    (hi : ntohl e v.hostIncr=ntohl e w.hostIncr) : v=w := by
  obtain ⟨vw,vi⟩ := v
  obtain ⟨ww,wi⟩ := w
  exact congrArg₂ LbcdService.mk (htonl_injective e hw) (htonl_injective e hi)

/-- What the adjustment for version 2 leaves alone. -/
theorem convertReply_keeps (e : Endian) (protocol : UInt16) (simple : Bool) (lb : LbcdReply) :
    (convertReply e protocol simple lb).h=lb.h ∧
      (convertReply e protocol simple lb).reserved=lb.reserved ∧
      (convertReply e protocol simple lb).pad=lb.pad ∧
      (convertReply e protocol simple lb).services=lb.services := by
  unfold convertReply
  split_ifs
  · exact ⟨rfl,rfl,rfl,rfl⟩
  · exact ⟨rfl,rfl,rfl,rfl⟩

theorem SameScalars.fixedBytes {a b : LbcdReply} (h : SameScalars a b) (e : Endian) :
    a.fixedBytes e=b.fixedBytes e := by
  rw [← h]
  rfl

theorem fixedBytes_values {e : Endian} {a b : LbcdReply} (h : a.fixedBytes e=b.fixedBytes e) :
    bodyValues e a=bodyValues e b := by
  rw [fixedBytes_eq,fixedBytes_eq] at h
  have hbody := (List.append_inj h rfl).2
  have ha := unpackReply_body e a []
  rw [hbody,unpackReply_body e b []] at ha
  exact (Except.ok.inj ha).symm

theorem fixedBytes_of_values {e : Endian} {a b : LbcdReply} (hh : a.h=b.h)
    (hr : a.reserved=b.reserved) (hp : a.pad=b.pad) (hv : bodyValues e a=bodyValues e b) :
    a.fixedBytes e=b.fixedBytes e := by
  simp only [bodyValues,List.cons.injEq,UInt32.toNat_inj,UInt16.toNat_inj,UInt8.toNat_inj,
    and_true] at hv
  obtain ⟨hb,hc,hm,h1,h5,h15,ht,hu,ho,hf,hd,hs⟩ := hv
  rw [fixedBytes_eq,fixedBytes_eq,bodyBytes,bodyBytes,hh,hr,hp,hb,hc,hm,h1,h5,h15,ht,hu,ho,hf,hd,
    hs]

/-- The fixed part shows the fields that a failed measurement can leave unset. -/
theorem fixedBytes_fields {e : Endian} {a b : LbcdReply} (h : a.fixedBytes e=b.fixedBytes e) :
    ntohl e a.bootTime=ntohl e b.bootTime ∧ ntohs e a.l1=ntohs e b.l1 ∧
      ntohs e a.l5=ntohs e b.l5 ∧ ntohs e a.l15=ntohs e b.l15 := by
  have hlist := fixedBytes_values h
  simp only [bodyValues,List.cons.injEq,UInt32.toNat_inj,UInt16.toNat_inj] at hlist
  obtain ⟨hb,-,-,h1,h5,h15,-⟩ := hlist
  exact ⟨hb,h1,h5,h15⟩

theorem loadField_zero : loadField 0=0 := by
  simp [loadField,truncate]
  rfl

theorem loadField_one : loadField 1=100 := by
  simp [loadField,truncate]
  rfl

namespace Host

variable {e : Endian} {g : WeightGlobals} (h : Host e g)

/-- The same host, with other contents of the variables of lbcd_pack_info. -/
def withLocals (locals : PackLocals) : Host e g := { h with junkLocals := locals }

/-- Whatever the reply buffer and the variables of lbcd_pack_info hold at first, it
makes the same reply of the same outcomes. -/
def Repeatable (header : LbcdHeader) (protocol : UInt16) (services : List CStr) (simple : Bool)
    (cache : UserCache) : Prop :=
  ∀ (a b : LbcdReply) (l m : PackLocals) (r r' : LbcdReply × UserCache),
    (lbcdPackInfo e g { a with h := header } protocol services simple cache).result
      (h.withLocals l).oracle=some r →
    (lbcdPackInfo e g { b with h := header } protocol services simple cache).result
      (h.withLocals m).oracle=some r' →
    SameReply e g services r.1 r'.1

/-- Everything that reaches the reply has been assigned. -/
def Settled (protocol : UInt16) (services : List CStr) (simple : Bool) : Prop :=
  HasProbe g defaultName → h.boottime≠none ∧
    if simple=false ∧ protocol < 3 then
      (h.sentinel=true ∨ ∀ f portarg,probeOf g defaultName=some (f,portarg) → Assigned f portarg) ∧
        (h.loads.l1=none → h.nologin=false →
          ∀ slot,LoadSlot g services slot → (slot : ℕ)=0 ∧ h.sentinel=true)
    else h.loads.l1≠none ∧ h.loads.l5≠none ∧ h.loads.l15≠none

theorem packInfo_withLocals (hd : HasProbe g defaultName) {services : List CStr}
    (hl : services.length ≤ maxServices) (l : PackLocals) (lb : LbcdReply) (protocol : UInt16)
    (simple : Bool) (cache : UserCache) :
    ∃ q,(h.withLocals l).Filled lb services q ∧
      (lbcdPackInfo e g lb protocol services simple cache).result (h.withLocals l).oracle=
        some (convertReply e protocol simple q,cache) :=
  (h.withLocals l).lbcdPackInfo_host hd (fun name _ => hasProbe_all hd name) hl lb protocol simple
    cache

/-- The default weight, before its slot is converted to network order. -/
theorem Filled.default_weight {h : Host e g} {lb q : LbcdReply} {services : List CStr}
    (hq : h.Filled lb services q) {f : WeightFunc} {portarg : Option CStr}
    (hp : probeOf g defaultName=some (f,portarg)) :
    ntohl e (q.slot 0).hostWeight=if h.sentinel then maxWeight
      else (h.stored f portarg (h.measured lb services)).weight.getD (lb.slot 0).hostWeight := by
  rw [hq.default,h.filled_probe hp,drained]
  split_ifs
  · exact ntohl_htonl e _
  · exact ntohl_htonl e _

/-- A weight of the load function, as the reply has it. -/
theorem Filled.load_weight {h : Host e g} {lb q : LbcdReply} {services : List CStr}
    (hq : h.Filled lb services q) {slot : Slot} (hs : LoadSlot g services slot) :
    ntohl e (q.slot slot).hostWeight=if slot=0 ∧ h.sentinel=true then maxWeight
      else UInt32.ofInt (if h.nologin then -1 else loadWeight e (h.measured lb services)) := by
  obtain ⟨name,portarg,hname,hp⟩ := hs
  obtain ⟨i,hi⟩ := slot
  cases i with
  | zero =>
    cases hname
    have hdef := hq.default_weight hp
    rw [h.stored_load,Option.getD_some] at hdef
    simpa using hdef
  | succ k =>
    have hne : (⟨k+1,hi⟩ : Slot)≠0 := by
      intro he
      exact absurd (congrArg Fin.val he) (Nat.succ_ne_zero k)
    rw [if_neg (fun hc => hne hc.1),hq.requested k name hname hi,h.filled_probe hp]
    exact ntohl_htonl e _

theorem Filled.bootTime {h : Host e g} {lb q : LbcdReply} {services : List CStr}
    (hq : h.Filled lb services q) :
    ntohl e q.bootTime=UInt32.ofInt (h.boottime.getD h.junkLocals.bt) := by
  have hs := congrArg LbcdReply.bootTime hq.scalars
  change q.bootTime=_ at hs
  rw [hs]
  exact ntohl_htonl e _

theorem Filled.loads {h : Host e g} {lb q : LbcdReply} {services : List CStr}
    (hq : h.Filled lb services q) :
    ntohs e q.l1=loadField (h.loads.l1.getD h.junkLocals.l1) ∧
      ntohs e q.l5=loadField (h.loads.l5.getD h.junkLocals.l5) ∧
      ntohs e q.l15=loadField (h.loads.l15.getD h.junkLocals.l15) := by
  have h1 := congrArg LbcdReply.l1 hq.scalars
  have h5 := congrArg LbcdReply.l5 hq.scalars
  have h15 := congrArg LbcdReply.l15 hq.scalars
  change q.l1=_ at h1
  change q.l5=_ at h5
  change q.l15=_ at h15
  rw [h1,h5,h15]
  exact ⟨ntohs_htons e _,ntohs_htons e _,ntohs_htons e _⟩

theorem Filled.zeros {h : Host e g} {lb q : LbcdReply} {services : List CStr}
    (hq : h.Filled lb services q) :
    q.reserved=0 ∧ q.pad=0 ∧ q.services=UInt8.ofNat services.length := by
  have hr := congrArg LbcdReply.reserved hq.scalars
  have hp := congrArg LbcdReply.pad hq.scalars
  have hs := congrArg LbcdReply.services hq.scalars
  exact ⟨hr,hp,hs⟩

/-- The fixed part of a reply, by the state of the host. -/
theorem Filled.values {h : Host e g} {lb q : LbcdReply} {services : List CStr}
    (hq : h.Filled lb services q) :
    bodyValues e q=[(UInt32.ofInt (h.boottime.getD h.junkLocals.bt)).toNat,
      (UInt32.ofInt h.time).toNat,(UInt32.ofInt h.users.userMtime).toNat,
      (loadField (h.loads.l1.getD h.junkLocals.l1)).toNat,
      (loadField (h.loads.l5.getD h.junkLocals.l5)).toNat,
      (loadField (h.loads.l15.getD h.junkLocals.l15)).toNat,
      (UInt16.ofInt h.users.total).toNat,(UInt16.ofInt h.users.uniq).toNat,
      (UInt8.ofInt h.users.onConsole).toNat,(UInt8.ofInt (h.tmp .tmp).val).toNat,
      (UInt8.ofInt (h.tmp .pTmpdir).val).toNat,(UInt8.ofNat services.length).toNat] := by
  have hsame : bodyValues e q=bodyValues e (h.measured lb services) := by
    rw [← hq.scalars]
    rfl
  rw [hsame]
  simp only [bodyValues,measured,ntohl_htonl,ntohs_htons]

/-- After the adjustment for version 2. -/
theorem Filled.adjusted {h : Host e g} {lb q : LbcdReply} {services : List CStr}
    (hq : h.Filled lb services q) :
    bodyValues e (lbcdProto2Convert e q)=[(UInt32.ofInt (h.boottime.getD h.junkLocals.bt)).toNat,
      (UInt32.ofInt h.time).toNat,(UInt32.ofInt h.users.userMtime).toNat,
      (saturate16 (ntohl e (q.slot 0).hostWeight)).toNat,
      (saturate16 (ntohl e (q.slot 0).hostWeight)).toNat,
      (saturate16 (ntohl e (q.slot 0).hostWeight)).toNat,0,0,
      (UInt8.ofInt h.users.onConsole).toNat,(UInt8.ofInt (h.tmp .tmp).val).toNat,
      (UInt8.ofInt (h.tmp .pTmpdir).val).toNat,(UInt8.ofNat services.length).toNat] := by
  have hvalues := hq.values
  have hzero : ntohs e 0=0 := by cases e <;> rfl
  simp only [bodyValues,List.cons.injEq] at hvalues
  obtain ⟨hb,hc,hm,-,-,-,-,-,ho,ht,hd,hs,-⟩ := hvalues
  simp only [bodyValues,lbcdProto2Convert,ntohs_htons,hzero,hb,hc,hm,ho,ht,hd,hs]
  rfl

theorem Filled.default_incr {h : Host e g} {lb q : LbcdReply} {services : List CStr}
    (hq : h.Filled lb services q) {f : WeightFunc} {portarg : Option CStr}
    (hp : probeOf g defaultName=some (f,portarg)) :
    ntohl e (q.slot 0).hostIncr=
      (h.stored f portarg (h.measured lb services)).incr.getD g.defaultIncrement := by
  rw [hq.default,h.filled_probe hp,drained]
  split_ifs
  · exact ntohl_htonl e _
  · exact ntohl_htonl e _

theorem stored_incr (f : WeightFunc) (portarg : Option CStr) (a b : LbcdReply) :
    (h.stored f portarg a).incr=(h.stored f portarg b).incr := by
  by_cases hf : f=.load
  · subst hf
    rfl
  · rw [h.stored_lb portarg a b hf]

/-- Where the loads are known, so is all of the reply before the weights. -/
theorem measured_withLocals (hbt : h.boottime≠none)
    (hload : h.loads.l1≠none ∧ h.loads.l5≠none ∧ h.loads.l15≠none) (l m : PackLocals)
    (a b : LbcdReply) (hab : a.h=b.h) (services : List CStr) :
    SameScalars ((h.withLocals l).measured a services) ((h.withLocals m).measured b services) := by
  have hbt' := getD_junk (a := l.bt) (b := m.bt) (Or.inr hbt)
  have hl1 := getD_junk (a := l.l1) (b := m.l1) (Or.inr hload.1)
  have hl5 := getD_junk (a := l.l5) (b := m.l5) (Or.inr hload.2.1)
  have hl15 := getD_junk (a := l.l15) (b := m.l15) (Or.inr hload.2.2)
  simp only [SameScalars,measured,withLocals,hab,hbt',hl1,hl5,hl15]

/-- After the conversion to version 2 the loads are replaced by the default weight. -/
theorem convert_withLocals (hbt : h.boottime≠none) {l m : PackLocals} {a b q q' : LbcdReply}
    {services : List CStr} (hab : a.h=b.h) (hq : (h.withLocals l).Filled a services q)
    (hq' : (h.withLocals m).Filled b services q')
    (hdef : (q.slot 0).hostWeight=(q'.slot 0).hostWeight) :
    SameScalars (lbcdProto2Convert e q) (lbcdProto2Convert e q') := by
  have hbt' := getD_junk (a := l.bt) (b := m.bt) (Or.inr hbt)
  have h1 := hq.scalars.symm
  have h2 := hq'.scalars.symm
  unfold SameScalars at h1 h2
  simp only [SameScalars,lbcdProto2Convert,hdef]
  rw [← h1,← h2]
  simp only [measured,withLocals,hab,hbt']

theorem loadWeight_measured (lb : LbcdReply) (services : List CStr) :
    loadWeight e (h.measured lb services)=
      busyness (UInt16.ofInt h.users.total).toNat (UInt16.ofInt h.users.uniq).toNat
          (loadField (h.loads.l1.getD h.junkLocals.l1)).toNat*
        multiplier (max (h.tmp .tmp).val.toNat (h.tmp .pTmpdir).val.toNat) := by
  obtain ⟨htmp,hle⟩ := h.measured_tmp lb services
  rw [loadWeight_eq e _ hle,htmp]
  simp only [measured,ntohs_htons]

theorem loadWeight_withLocals (hl1 : h.loads.l1≠none) (l m : PackLocals) (a b : LbcdReply)
    (services : List CStr) :
    loadWeight e ((h.withLocals l).measured a services)=
      loadWeight e ((h.withLocals m).measured b services) := by
  have hl1' := getD_junk (a := l.l1) (b := m.l1) (Or.inr hl1)
  rw [loadWeight_measured,loadWeight_measured]
  simp only [withLocals,hl1']

theorem loadWeight_junk (hl1 : h.loads.l1=none) (l : PackLocals) (lb : LbcdReply)
    (services : List CStr) :
    loadWeight e ((h.withLocals l).measured lb services)=
      busyness (UInt16.ofInt h.users.total).toNat (UInt16.ofInt h.users.uniq).toNat
          (loadField l.l1).toNat*
        multiplier (max (h.tmp .tmp).val.toNat (h.tmp .pTmpdir).val.toNat) := by
  rw [loadWeight_measured]
  simp only [withLocals,hl1,Option.getD_none]

/-- With different contents for the one-minute load the load function's weights differ. -/
theorem loadWeight_junk_ne (hl1 : h.loads.l1=none) (a b : LbcdReply) (services : List CStr) :
    UInt32.ofInt (loadWeight e ((h.withLocals ⟨0,0,0,0⟩).measured a services))≠
      UInt32.ofInt (loadWeight e ((h.withLocals ⟨0,1,0,0⟩).measured b services)) := by
  have hzero := h.loadWeight_junk hl1 ⟨0,0,0,0⟩ a services
  have hone := h.loadWeight_junk hl1 ⟨0,1,0,0⟩ b services
  have hb0 := loadWeight_bounds e _ ((h.withLocals ⟨0,0,0,0⟩).measured_tmp a services).2
  have hb1 := loadWeight_bounds e _ ((h.withLocals ⟨0,1,0,0⟩).measured_tmp b services).2
  obtain ⟨htmp,hle⟩ := h.measured_tmp a services
  rw [htmp] at hle
  have hm := multiplier_bounds hle
  intro he
  have hn0 := uint32_ofInt_toNat hb0.1 (by omega)
  have hn1 := uint32_ofInt_toNat hb1.1 (by omega)
  rw [he,hn1,hone,hzero,loadField_zero,loadField_one] at hn0
  have hsplit : busyness (UInt16.ofInt h.users.total).toNat (UInt16.ofInt h.users.uniq).toNat
        (100 : UInt16).toNat=
      busyness (UInt16.ofInt h.users.total).toNat (UInt16.ofInt h.users.uniq).toNat
        (0 : UInt16).toNat+300 := by
    have h100 : ((100 : UInt16).toNat : ℤ)=100 := rfl
    have h0 : ((0 : UInt16).toNat : ℤ)=0 := rfl
    unfold busyness
    omega
  rw [hsplit,add_mul] at hn0
  omega

/-- Two replies to a request have the same fixed part and the same load weights, whatever
the reply buffer and the variables of lbcd_pack_info hold at first. -/
def RepliesAlike (header : LbcdHeader) (protocol : UInt16) (services : List CStr)
    (simple : Bool) : Prop :=
  ∀ (a b : LbcdReply) (l m : PackLocals),
    ∃ q q',(h.withLocals l).Filled { a with h := header } services q ∧
      (h.withLocals m).Filled { b with h := header } services q' ∧
      SameReply e g services (convertReply e protocol simple q)
        (convertReply e protocol simple q')

variable {h}

/-- The load function's weights agree where each one-minute load they use is known. -/
theorem Settled.loads {protocol : UInt16} {services : List CStr} {simple : Bool}
    (hs : h.Settled protocol services simple) (hd : HasProbe g defaultName) {l m : PackLocals}
    {a b q q' : LbcdReply} (hq : (h.withLocals l).Filled a services q)
    (hq' : (h.withLocals m).Filled b services q') {slot : Slot} (hslot : LoadSlot g services slot) :
    (q.slot slot).hostWeight=(q'.slot slot).hostWeight := by
  obtain ⟨-,hcond⟩ := hs hd
  apply htonl_injective e
  change ntohl e _=ntohl e _
  rw [hq.load_weight hslot,hq'.load_weight hslot]
  change (if slot=0 ∧ h.sentinel=true then _ else UInt32.ofInt (if h.nologin then _ else _))=
    if slot=0 ∧ h.sentinel=true then _ else UInt32.ofInt (if h.nologin then _ else _)
  by_cases hsent : slot=0 ∧ h.sentinel=true
  · rw [if_pos hsent,if_pos hsent]
  rw [if_neg hsent,if_neg hsent]
  by_cases hno : h.nologin=true
  · rw [if_pos hno,if_pos hno]
  rw [if_neg hno,if_neg hno]
  have hl1 : h.loads.l1≠none := by
    intro hnone
    split_ifs at hcond
    · have hdefault := hcond.2 hnone (Bool.not_eq_true _ ▸ hno) slot hslot
      exact hsent ⟨Fin.ext hdefault.1,hdefault.2⟩
    · exact hcond.1 hnone
  rw [h.loadWeight_withLocals hl1 l m a b services]

/-- The default weight agrees where its function stores one, or the sentinel file replaces it. -/
theorem Settled.default {protocol : UInt16} {services : List CStr} {simple : Bool}
    (hs : h.Settled protocol services simple) (hd : HasProbe g defaultName)
    (ha : h.sentinel=true ∨ ∀ f portarg,probeOf g defaultName=some (f,portarg) →
      Assigned f portarg) {l m : PackLocals} {a b q q' : LbcdReply}
    (hq : (h.withLocals l).Filled a services q) (hq' : (h.withLocals m).Filled b services q') :
    (q.slot 0).hostWeight=(q'.slot 0).hostWeight := by
  obtain ⟨p,hp⟩ := Option.ne_none_iff_exists'.mp hd
  obtain ⟨f,portarg⟩ := p
  by_cases hf : f=.load
  · rw [hf] at hp
    exact hs.loads hd hq hq' ⟨defaultName,portarg,rfl,hp⟩
  apply htonl_injective e
  change ntohl e _=ntohl e _
  rw [hq.default_weight hp,hq'.default_weight hp]
  change (if h.sentinel then _ else _)=if h.sentinel then _ else _
  by_cases hsent : h.sentinel=true
  · rw [if_pos hsent,if_pos hsent]
  rw [if_neg hsent,if_neg hsent,
    (h.withLocals l).stored_lb portarg _ ((h.withLocals m).measured b services) hf]
  have hassigned := ha.resolve_left hsent f portarg hp
  apply getD_junk
  right
  intro hnone
  exact ((h.withLocals l).stored_assigned f portarg _).mp hnone hassigned

/-- The replies agree where everything that reaches them has been assigned. -/
theorem Settled.sameReply {protocol : UInt16} {services : List CStr} {simple : Bool}
    (hs : h.Settled protocol services simple) (hd : HasProbe g defaultName) {l m : PackLocals}
    {a b q q' : LbcdReply} (hab : a.h=b.h) (hq : (h.withLocals l).Filled a services q)
    (hq' : (h.withLocals m).Filled b services q') :
    SameReply e g services (convertReply e protocol simple q)
      (convertReply e protocol simple q') := by
  constructor
  · unfold convertReply
    obtain ⟨hbt,hcond⟩ := hs hd
    by_cases hc : simple=false ∧ protocol < 3
    · rw [if_pos hc,if_pos hc]
      apply SameScalars.fixedBytes
      rw [if_pos hc] at hcond
      exact h.convert_withLocals hbt hab hq hq' (hs.default hd hcond.1 hq hq')
    · rw [if_neg hc,if_neg hc]
      rw [if_neg hc] at hcond
      apply SameScalars.fixedBytes
      exact (hq.scalars.trans (h.measured_withLocals hbt hcond l m a b hab services)).trans
        hq'.scalars.symm
  · intro slot hslot
    rw [convertReply_slot,convertReply_slot]
    exact hs.loads hd hq hq' hslot

section

variable {header : LbcdHeader} {protocol : UInt16} {services : List CStr} {simple : Bool}
  {cache : UserCache}

theorem Repeatable.replies (hr : h.Repeatable header protocol services simple cache)
    (hl : services.length ≤ maxServices) (hd : HasProbe g defaultName) :
    h.RepliesAlike header protocol services simple := by
  intro a b l m
  obtain ⟨q,hq,hres⟩ := h.packInfo_withLocals hd hl l { a with h := header } protocol simple cache
  obtain ⟨q',hq',hres'⟩ := h.packInfo_withLocals hd hl m { b with h := header } protocol simple
    cache
  exact ⟨q,q',hq,hq',hr a b l m _ _ hres hres'⟩

theorem RepliesAlike.boottime (hr : h.RepliesAlike header protocol services simple) :
    h.boottime≠none := by
  intro hnone
  obtain ⟨q,q',hq,hq',hsame⟩ := hr default default ⟨0,0,0,0⟩ ⟨1,0,0,0⟩
  have hb := (fixedBytes_fields hsame.fixed).1
  rw [convertReply_bootTime,convertReply_bootTime,hq.bootTime,hq'.bootTime] at hb
  simp only [withLocals,hnone,Option.getD_none] at hb
  exact absurd hb (by decide)

theorem RepliesAlike.loads (hr : h.RepliesAlike header protocol services simple)
    (hc : ¬(simple=false ∧ protocol < 3)) :
    h.loads.l1≠none ∧ h.loads.l5≠none ∧ h.loads.l15≠none := by
  obtain ⟨q,q',hq,hq',hsame⟩ := hr default default ⟨0,0,0,0⟩ ⟨0,1,1,1⟩
  have hf := fixedBytes_fields hsame.fixed
  simp only [convertReply,if_neg hc] at hf
  obtain ⟨-,h1,h5,h15⟩ := hf
  have hne : loadField 0≠loadField 1 := by
    rw [loadField_zero,loadField_one]
    decide
  refine ⟨?_,?_,?_⟩
  · intro hnone
    rw [hq.loads.1,hq'.loads.1] at h1
    simp only [withLocals,hnone,Option.getD_none] at h1
    exact hne h1
  · intro hnone
    rw [hq.loads.2.1,hq'.loads.2.1] at h5
    simp only [withLocals,hnone,Option.getD_none] at h5
    exact hne h5
  · intro hnone
    rw [hq.loads.2.2,hq'.loads.2.2] at h15
    simp only [withLocals,hnone,Option.getD_none] at h15
    exact hne h15

theorem RepliesAlike.loadSlots (hr : h.RepliesAlike header protocol services simple)
    (hl1 : h.loads.l1=none) (hno : h.nologin=false) {slot : Slot}
    (hslot : LoadSlot g services slot) : slot=0 ∧ h.sentinel=true := by
  by_contra hsent
  obtain ⟨q,q',hq,hq',hsame⟩ := hr default default ⟨0,0,0,0⟩ ⟨0,1,0,0⟩
  have hw := hsame.loads slot hslot
  rw [convertReply_slot,convertReply_slot] at hw
  have hn := congrArg (ntohl e) hw
  rw [hq.load_weight hslot,hq'.load_weight hslot] at hn
  simp only [withLocals,hno,if_neg hsent,Bool.false_eq_true,if_false] at hn
  exact h.loadWeight_junk_ne hl1 _ _ services hn

/-- Where the default weight is not stored, the converted loads show the reply buffer. -/
theorem RepliesAlike.assigned (hr : h.RepliesAlike header protocol services simple)
    (hc : simple=false ∧ protocol < 3) {f : WeightFunc} {portarg : Option CStr}
    (hp : probeOf g defaultName=some (f,portarg)) (hsent : h.sentinel≠true) :
    Assigned f portarg := by
  by_contra hna
  let one : LbcdReply := (default : LbcdReply).setWeight 0 1
  obtain ⟨q,q',hq,hq',hsame⟩ := hr default one ⟨0,0,0,0⟩ ⟨0,0,0,0⟩
  have hl1 := (fixedBytes_fields hsame.fixed).2.1
  have hfield (r : LbcdReply) : ntohs e (convertReply e protocol simple r).l1=
      saturate16 (ntohl e (r.slot 0).hostWeight) := by
    rw [convertReply,if_pos hc]
    exact ntohs_htons e _
  have hnone := fun lb => ((h.withLocals ⟨0,0,0,0⟩).stored_assigned f portarg lb).mpr hna
  have hs0 : (h.withLocals ⟨0,0,0,0⟩).sentinel≠true := hsent
  rw [hfield,hfield,hq.default_weight hp,hq'.default_weight hp,hnone,hnone,if_neg hs0,
    if_neg hs0] at hl1
  change saturate16 0=saturate16 1 at hl1
  exact absurd hl1 (by decide)

theorem RepliesAlike.settled (hr : h.RepliesAlike header protocol services simple) :
    h.Settled protocol services simple := by
  intro hd
  refine ⟨hr.boottime,?_⟩
  split_ifs with hc
  · constructor
    · by_cases hsent : h.sentinel=true
      · exact Or.inl hsent
      · exact Or.inr fun f portarg hp => hr.assigned hc hp hsent
    · intro hl1 hno slot hslot
      obtain ⟨hzero,hsent⟩ := hr.loadSlots hl1 hno hslot
      exact ⟨congrArg Fin.val hzero,hsent⟩
  · exact hr.loads hc

end

end Host

/-- The reply's fixed part and load weights depend on nothing but the request, the
configuration and the outcomes of the measurements exactly if all that goes into them has
been assigned. -/
theorem packInfo_repeatable_iff {e : Endian} {g : WeightGlobals} (h : Host e g)
    (header : LbcdHeader) (protocol : UInt16) (services : List CStr)
    (hl : services.length ≤ maxServices) (simple : Bool) (cache : UserCache) :
    h.Repeatable header protocol services simple cache ↔ h.Settled protocol services simple := by
  constructor
  · intro hr hd
    exact (hr.replies hl hd).settled hd
  · intro hs a b l m r r' hres hres'
    by_cases hd : HasProbe g defaultName
    · obtain ⟨q,hq,he⟩ := h.packInfo_withLocals hd hl l { a with h := header } protocol simple cache
      obtain ⟨q',hq',he'⟩ := h.packInfo_withLocals hd hl m { b with h := header } protocol simple
        cache
      rw [he] at hres
      rw [he'] at hres'
      cases hres
      cases hres'
      exact hs.sameReply (a := { a with h := header }) (b := { b with h := header }) hd rfl hq hq'
    · rw [(h.withLocals l).lbcdPackInfo_noDefault hd] at hres
      cases hres

theorem packInfo_repeatable_iff_idle :
    ∃ g,lbcdWeightInit .initial none none 5=.ok g ∧ HasProbe g defaultName ∧
      ((Host.idle .little g).Repeatable default 3 [] false .initial ↔
        (Host.idle .little g).Settled 3 [] false) :=
  ⟨_,rfl,Option.some_ne_none _,
    packInfo_repeatable_iff (Host.idle .little _) default 3 [] (by decide) false .initial⟩

/-- Where /proc/loadavg cannot be read, the load fields and the load weight show what was in
memory before. -/
theorem loadavg_unreadable :
    ∃ g,lbcdWeightInit .initial none none 5=.ok g ∧
      ¬({ Host.idle .little g with loads := ⟨none,none,none⟩ } : Host .little g).Repeatable
        ⟨htons .little 3,0,htons .little 1,htons .little 1⟩ 3 [] false .initial := by
  apply Exists.intro
  refine ⟨rfl,?_⟩
  intro hr
  have hloads := (hr.replies (by decide) (Option.some_ne_none _)).loads (by decide)
  exact hloads.1 rfl

end Lbcd
