import Lbcd.TestMode

namespace Lbcd

open Interaction CText ByteOrder Pack

/-- Both replies are sent, and they differ as documented. -/
def Version2Replies {e : Endian} {g : WeightGlobals} (h h' : Host e g) (config : LbcdConfig)
    (cache cache' : UserCache) (addr : SockAddr) (id op : UInt16) (fd : Fd) : Prop :=
  ∃ r2 r3,
    h.sent config cache ⟨addr,2,id,op,[]⟩ fd=[(r2.bytes e).take 44] ∧
    h'.sent config cache' ⟨addr,3,id,op,[]⟩ fd=[(r3.bytes e).take 44] ∧
    Version2 e config.simple r2 r3

theorem service_bytes {e : Endian} {v w : LbcdService} (h : v.bytes e=w.bytes e) : v=w := by
  have hpair (x : LbcdService) : unpack [.long,.long] (x.bytes e)=
      some [(ntohl e x.hostWeight).toNat,(ntohl e x.hostIncr).toNat] := by
    rw [LbcdService.bytes,store32_eq,store32_eq,unpack_long,
      ← List.append_nil (be32 (ntohl e x.hostIncr)),unpack_long,unpack_nil]
    rfl
  have hv := hpair v
  rw [h,hpair w] at hv
  simp only [Option.some.injEq,List.cons.injEq,UInt32.toNat_inj,and_true] at hv
  exact service_ext hv.1.symm hv.2.symm

/-- A packet without requested names shows the fixed part and the default pair. -/
theorem plainPacket_inj {e : Endian} {r s : LbcdReply}
    (h : [(r.bytes e).take 44]=[(s.bytes e).take 44]) :
    r.fixedBytes e=s.fixedBytes e ∧ r.slot 0=s.slot 0 := by
  have hplain (r : LbcdReply) : (r.bytes e).take 44=r.fixedBytes e++(r.slot 0).bytes e :=
    bytes_default e r
  rw [hplain,hplain] at h
  have hlength : (r.fixedBytes e).length=(s.fixedBytes e).length := by
    rw [LbcdReply.fixedBytes_length,LbcdReply.fixedBytes_length]
  obtain ⟨hf,hs⟩ := List.append_inj (List.singleton_inj.mp h) hlength
  exact ⟨hf,service_bytes hs⟩

/-- What version 2 and version 3 clients both see of the boot time and, with -S, of the
loads. -/
theorem Version2.shared {e : Endian} {simple : Bool} {r2 r3 : LbcdReply}
    (h : Version2 e simple r2 r3) : r2.bootTime=r3.bootTime ∧
      (simple=true → r2.l1=r3.l1 ∧ r2.l5=r3.l5 ∧ r2.l15=r3.l15) := by
  cases simple with
  | true =>
    have hb := congrArg LbcdReply.bootTime (h.plain rfl)
    have h1 := congrArg LbcdReply.l1 (h.plain rfl)
    have h5 := congrArg LbcdReply.l5 (h.plain rfl)
    have h15 := congrArg LbcdReply.l15 (h.plain rfl)
    exact ⟨hb,fun _ => ⟨h1,h5,h15⟩⟩
  | false =>
    have hb := congrArg LbcdReply.bootTime (h.custom rfl)
    exact ⟨hb,fun hc => by cases hc⟩

namespace Host

variable {e : Endian} {g : WeightGlobals}

/-- Two requests that meet the host in one state get replies that differ as documented,
whatever each of them finds in the memory that was never stored to. -/
def Version2Law (h : Host e g) (config : LbcdConfig) : Prop :=
  HasProbe g defaultName → ∀ (a b : LbcdReply) (l m : PackLocals) cache cache' addr id op fd,
    Version2Replies (h.withJunk a l) (h.withJunk b m) config cache cache' addr id op fd

/-- The fields that both replies share have been assigned. -/
structure Comparable (h : Host e g) (simple : Bool) : Prop where
  boottime : h.boottime≠none
  weight : h.sentinel=true ∨ ∀ f portarg,probeOf g defaultName=some (f,portarg) →
    Assigned f portarg ∧ (f=.load → h.loads.l1≠none ∨ h.nologin=true)
  loads : simple=true → h.loads.l1≠none ∧ h.loads.l5≠none ∧ h.loads.l15≠none

section

variable {h : Host e g} {l m : PackLocals} {lb lb' q q' : LbcdReply}
  (hq : (h.withLocals l).Filled lb [] q) (hq' : (h.withLocals m).Filled lb' [] q')

include hq hq'

/-- The adjustment for version 2 makes the documented difference. -/
theorem Filled.version2 {addr : SockAddr} {id op : UInt16} (simple : Bool)
    (hh : lb.h=replyHead e ⟨addr,2,id,op,[]⟩) (hh' : lb'.h=replyHead e ⟨addr,3,id,op,[]⟩)
    (hslot : q.slot 0=q'.slot 0) (hbt : h.boottime.getD l.bt=h.boottime.getD m.bt)
    (hloads : simple=true → h.loads.l1.getD l.l1=h.loads.l1.getD m.l1 ∧
      h.loads.l5.getD l.l5=h.loads.l5.getD m.l5 ∧ h.loads.l15.getD l.l15=h.loads.l15.getD m.l15) :
    Version2 e simple (convertReply e 2 simple q) q' := by
  have hv2 : ntohs e q.h.version=2 := by
    rw [hq.header,hh]
    exact ntohs_htons e 2
  have hv3 : ntohs e q'.h.version=3 := by
    rw [hq'.header,hh']
    exact ntohs_htons e 3
  have hhead : { q.h with version := q'.h.version }=q'.h := by
    rw [hq.header,hq'.header,hh,hh']
    rfl
  have hs := hq.scalars.symm
  have hs' := hq'.scalars.symm
  unfold SameScalars at hs hs'
  cases simple with
  | true =>
    obtain ⟨h1,h5,h15⟩ := hloads rfl
    refine ⟨hv2,hv3,hhead,hslot,fun _ => ?_,fun hc => (by cases hc),fun hc => (by cases hc),
      fun hc => (by cases hc)⟩
    change { q with h := q'.h,weights := q'.weights }=q'
    rw [← hs,← hs']
    simp only [measured,Host.withLocals,hbt,h1,h5,h15]
  | false =>
    refine ⟨hv2,hv3,hhead,hslot,fun hc => (by cases hc),fun _ => ?_,fun _ => ⟨rfl,rfl⟩,
      fun _ => ⟨?_,rfl,rfl⟩⟩
    · change { q with
        h := q'.h
        l1 := q'.l1
        l5 := q'.l5
        l15 := q'.l15
        totUsers := q'.totUsers
        uniqUsers := q'.uniqUsers
        weights := q'.weights }=q'
      rw [← hs,← hs']
      simp only [measured,Host.withLocals,hbt]
    · change (ntohs e (htons e (saturate16 (ntohl e (q.slot 0).hostWeight)))).toNat=_
      rw [ntohs_htons,saturate16_toNat,hslot]

end

section

variable (h : Host e g) (hd : HasProbe g defaultName) (config : LbcdConfig)

include hd

/-- The packet of a request without names. -/
theorem sent_default (cache : UserCache) (addr : SockAddr) (protocol id op : UInt16) (fd : Fd)
    (a : LbcdReply) (l : PackLocals) :
    ∃ q,(h.withLocals l).Filled { a with h := replyHead e ⟨addr,protocol,id,op,[]⟩ } [] q ∧
      (h.withJunk a l).sent config cache ⟨addr,protocol,id,op,[]⟩ fd=
        [((convertReply e protocol config.simple q).bytes e).take 44] := by
  have hfit : ([] : List CStr).length ≤ maxServices := Nat.zero_le _
  obtain ⟨q,hq,hsent⟩ := (h.withJunk a l).sent_filled hd hfit config cache addr protocol id op fd
  refine ⟨q,hq.withLocals,?_⟩
  rw [hsent]
  rfl

variable {h config}

/-- What the law says about the two replies before the adjustment. -/
theorem Version2Law.filled (hlaw : h.Version2Law config) (a b : LbcdReply) (l m : PackLocals) :
    ∃ q q',
      (h.withLocals l).Filled { a with h := replyHead e ⟨[],2,0,0,[]⟩ } [] q ∧
      (h.withLocals m).Filled { b with h := replyHead e ⟨[],3,0,0,[]⟩ } [] q' ∧
      q.slot 0=q'.slot 0 ∧ ntohl e q.bootTime=ntohl e q'.bootTime ∧
      (config.simple=true → ntohs e q.l1=ntohs e q'.l1 ∧ ntohs e q.l5=ntohs e q'.l5 ∧
        ntohs e q.l15=ntohs e q'.l15) := by
  obtain ⟨q,hq,hsent⟩ := h.sent_default hd config .initial [] 2 0 0 0 a l
  obtain ⟨q',hq',hsent'⟩ := h.sent_default hd config .initial [] 3 0 0 0 b m
  obtain ⟨r2,r3,h2,h3,hv⟩ := hlaw hd a b l m .initial .initial [] 0 0 0
  obtain ⟨hf2,hs2⟩ := plainPacket_inj (h2.symm.trans hsent)
  obtain ⟨hf3,hs3⟩ := plainPacket_inj (h3.symm.trans hsent')
  obtain ⟨hb2,hl2⟩ := fixedBytes_fields hf2
  obtain ⟨hb3,hl3⟩ := fixedBytes_fields hf3
  rw [convertReply_slot] at hs2 hs3
  rw [convertReply_bootTime] at hb2 hb3
  refine ⟨q,q',hq,hq',hs2.symm.trans (hv.default.trans hs3),?_,fun hsimple => ?_⟩
  · rw [← hb2,← hb3,hv.shared.1]
  · obtain ⟨h1,h5,h15⟩ := hv.shared.2 hsimple
    have hplain (protocol : UInt16) (r : LbcdReply) :
        convertReply e protocol config.simple r=r :=
      if_neg fun hc => by rw [hsimple] at hc; cases hc.1
    rw [hplain] at hl2 hl3
    rw [← hl2.1,← hl2.2.1,← hl2.2.2,← hl3.1,← hl3.2.1,← hl3.2.2,h1,h5,h15]
    exact ⟨rfl,rfl,rfl⟩

theorem Version2Law.boottime (hlaw : h.Version2Law config) : h.boottime≠none := by
  intro hnone
  obtain ⟨q,q',hq,hq',-,hb,-⟩ := hlaw.filled hd default default ⟨0,0,0,0⟩ ⟨1,0,0,0⟩
  rw [hq.bootTime,hq'.bootTime] at hb
  simp only [Host.withLocals,hnone,Option.getD_none] at hb
  exact absurd hb (by decide)

theorem Version2Law.loads (hlaw : h.Version2Law config) (hsimple : config.simple=true) :
    h.loads.l1≠none ∧ h.loads.l5≠none ∧ h.loads.l15≠none := by
  obtain ⟨q,q',hq,hq',-,-,hl⟩ := hlaw.filled hd default default ⟨0,0,0,0⟩ ⟨0,1,1,1⟩
  obtain ⟨h1,h5,h15⟩ := hl hsimple
  rw [hq.loads.1,hq'.loads.1] at h1
  rw [hq.loads.2.1,hq'.loads.2.1] at h5
  rw [hq.loads.2.2,hq'.loads.2.2] at h15
  have hne : loadField 0≠loadField 1 := by
    rw [loadField_zero,loadField_one]
    decide
  refine ⟨fun hnone => hne ?_,fun hnone => hne ?_,fun hnone => hne ?_⟩
  · simpa only [Host.withLocals,hnone,Option.getD_none] using h1
  · simpa only [Host.withLocals,hnone,Option.getD_none] using h5
  · simpa only [Host.withLocals,hnone,Option.getD_none] using h15

/-- Two contents of the reply buffer, or of the one-minute load, give two default weights. -/
theorem Version2Law.weight (hlaw : h.Version2Law config) (hsent : h.sentinel≠true)
    {f : WeightFunc} {portarg : Option CStr} (hp : probeOf g defaultName=some (f,portarg)) :
    Assigned f portarg ∧ (f=.load → h.loads.l1≠none ∨ h.nologin=true) := by
  constructor
  · by_contra hna
    let one : LbcdReply := (default : LbcdReply).setWeight 0 1
    obtain ⟨q,q',hq,hq',hslot,-⟩ := hlaw.filled hd default one ⟨0,0,0,0⟩ ⟨0,0,0,0⟩
    have hnone := fun lb => ((h.withLocals ⟨0,0,0,0⟩).stored_assigned f portarg lb).mpr hna
    have hs0 : (h.withLocals ⟨0,0,0,0⟩).sentinel≠true := hsent
    have hw := hq.default_weight hp
    have hw' := hq'.default_weight hp
    rw [hnone,if_neg hs0] at hw hw'
    rw [hslot,hw'] at hw
    change (1 : UInt32)=0 at hw
    exact absurd hw (by decide)
  · intro hf
    subst hf
    by_contra hunknown
    obtain ⟨hl1,hno⟩ := not_or.mp hunknown
    obtain ⟨q,q',hq,hq',hslot,-⟩ := hlaw.filled hd default default ⟨0,0,0,0⟩ ⟨0,1,0,0⟩
    have hload : LoadSlot g [] 0 := ⟨defaultName,portarg,rfl,hp⟩
    have hw := hq.load_weight hload
    rw [hslot,hq'.load_weight hload] at hw
    simp only [Host.withLocals,true_and,if_neg hsent,Bool.eq_false_of_not_eq_true hno,
      Bool.false_eq_true,if_false] at hw
    exact h.loadWeight_junk_ne (not_not.mp hl1) _ _ [] hw.symm

end

theorem Version2Law.comparable {h : Host e g} {config : LbcdConfig}
    (hlaw : h.Version2Law config) (hd : HasProbe g defaultName) : h.Comparable config.simple := by
  refine ⟨hlaw.boottime hd,?_,hlaw.loads hd⟩
  by_cases hsent : h.sentinel=true
  · exact Or.inl hsent
  · exact Or.inr fun f portarg hp => hlaw.weight hd hsent hp

theorem Comparable.reportable {h : Host e g} {simple : Bool} (hc : h.Comparable simple) :
    h.Reportable 2 false := by
  have hassigned := hc.weight.imp_right fun hw f portarg hp => (hw f portarg hp).1
  refine ⟨fun hd => ⟨hc.boottime,?_⟩,hassigned,fun hs => by cases hs⟩
  rw [if_pos ⟨rfl,by decide⟩]
  refine ⟨hassigned,fun hl1 hno slot hslot => ?_⟩
  obtain ⟨name,portarg,hname,hp⟩ := hslot
  have hzero : (slot : ℕ)=0 := Nat.lt_one_iff.mp (List.getElem?_eq_some_iff.mp hname).1
  rw [hzero] at hname
  cases hname
  refine ⟨hzero,hc.weight.resolve_right fun hw => ?_⟩
  rcases (hw .load portarg hp).2 rfl with hknown|hin
  · exact hknown hl1
  · rw [hno] at hin
    cases hin

theorem Comparable.law {h : Host e g} {config : LbcdConfig}
    (hc : HasProbe g defaultName → h.Comparable config.simple) : h.Version2Law config := by
  intro hd a b l m cache cache' addr id op fd
  have hc := hc hd
  obtain ⟨q,hq,hsent⟩ := h.sent_default hd config cache addr 2 id op fd a l
  obtain ⟨q',hq',hsent'⟩ := h.sent_default hd config cache' addr 3 id op fd b m
  have hplain : convertReply e 3 config.simple q'=q' := if_neg fun hlt => absurd hlt.2 (by decide)
  rw [hplain] at hsent'
  refine ⟨_,q',hsent,hsent',hq.version2 hq' config.simple rfl rfl ?_ ?_ fun hs => ?_⟩
  · exact hc.reportable.slot hd hq hq'
  · exact getD_junk (Or.inr hc.boottime)
  · obtain ⟨h1,h5,h15⟩ := hc.loads hs
    exact ⟨getD_junk (Or.inr h1),getD_junk (Or.inr h5),getD_junk (Or.inr h15)⟩

/-- Two requests that also find the same in memory. -/
theorem version2_sameMemory (h : Host e g) (hd : HasProbe g defaultName) (config : LbcdConfig)
    (cache cache' : UserCache) (addr : SockAddr) (id op : UInt16) (fd : Fd) :
    Version2Replies h h config cache cache' addr id op fd := by
  obtain ⟨q,hq,hsent⟩ := h.sent_default hd config cache addr 2 id op fd h.junkReply h.junkLocals
  obtain ⟨q',hq',hsent'⟩ := h.sent_default hd config cache' addr 3 id op fd h.junkReply
    h.junkLocals
  have hplain : convertReply e 3 config.simple q'=q' := if_neg fun hlt => absurd hlt.2 (by decide)
  rw [hplain] at hsent'
  obtain ⟨p,hp⟩ := Option.ne_none_iff_exists'.mp hd
  obtain ⟨f,portarg⟩ := p
  refine ⟨_,q',hsent,hsent',hq.version2 hq' config.simple rfl rfl ?_ rfl fun _ => ⟨rfl,rfl,rfl⟩⟩
  rw [hq.default,hq'.default,filled_probe _ hp,filled_probe _ hp]
  apply congrArg (fun s : Stored => LbcdService.net e (drained _ ⟨s.weight.getD _,s.incr.getD _⟩))
  exact stored_congr _ f portarg rfl

end Host

/-- The replies in version 2 and in version 3 differ as documented, whatever was in memory
before, exactly if all that they share has been assigned; they always do where memory was
the same. Version 2 clients order hosts by their default weights up to saturation. -/
theorem version2_reply_iff {e : Endian} {g : WeightGlobals} (h : Host e g) (config : LbcdConfig) :
    (h.Version2Law config ↔ (HasProbe g defaultName → h.Comparable config.simple)) ∧
    (∀ cache cache' addr id op fd,HasProbe g defaultName →
      Version2Replies h h config cache cache' addr id op fd) ∧
    (¬HasProbe g defaultName → ∀ cache addr protocol id op fd,
      h.sent config cache ⟨addr,protocol,id,op,[]⟩ fd=[]) ∧
    ∀ r2 r3 s2 s3,Version2 e false r2 r3 → Version2 e false s2 s3 →
      ((ntohs e r2.l1).toNat ≤ (ntohs e s2.l1).toNat ↔
        weightOf e r3 0 ≤ weightOf e s3 0 ∨ 65535 ≤ weightOf e s3 0) := by
  refine ⟨⟨fun hlaw hd => hlaw.comparable hd,Host.Comparable.law⟩,
    fun cache cache' addr id op fd hd => h.version2_sameMemory hd config cache cache' addr id op fd,
    fun hd cache addr protocol id op fd => ?_,fun r2 r3 s2 s3 hr hs => ?_⟩
  · rw [h.sent_eq (by decide),h.lbcdPackInfo_noDefault hd]
    rfl
  · rw [(hr.loads rfl).1,(hs.loads rfl).1]
    unfold weightOf
    omega

theorem version2_reply_iff_load :
    ∃ g,lbcdWeightInit .initial none none 5=.ok g ∧ HasProbe g defaultName ∧
      (Host.idle .little g).Version2Law ⟨[],false,4330,none,[],false,false⟩ := by
  refine ⟨_,rfl,by exact Option.some_ne_none _,(version2_reply_iff _ _).1.mpr fun _ => ?_⟩
  refine ⟨by decide,Or.inr fun f portarg hp => ?_,fun hs => by cases hs⟩
  cases hp
  exact ⟨fun hf => (by cases hf),fun _ => Or.inl (by decide)⟩

/-- Where /proc/loadavg cannot be read, the two replies may hold different default weights. -/
theorem version2_unreadable :
    ∃ g,lbcdWeightInit .initial none none 5=.ok g ∧
      ¬({ Host.idle .little g with loads := ⟨none,none,none⟩ } : Host .little g).Version2Law
        ⟨[],false,4330,none,[],false,false⟩ := by
  apply Exists.intro
  refine ⟨rfl,fun hlaw => ?_⟩
  have hw := hlaw.weight (by exact Option.some_ne_none _) (by decide) rfl
  rcases hw.2 rfl with hl|hn
  · exact hl rfl
  · cases hn

end Lbcd
