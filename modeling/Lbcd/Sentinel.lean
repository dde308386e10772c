import Lbcd.Host
import Lbcd.LoadWeight

namespace Lbcd

open Interaction CText ByteOrder

/-- A weight function call that stores a weight: tcp without a port it accepts does not. -/
def Assigned (f : WeightFunc) (portarg : Option CStr) : Prop :=
  f=.tcp → ∃ arg,portarg=some arg ∧ (arg.bytes.all isdigit=true → 1 ≤ wrapInt 16 arg.atoi)

theorem storeProbe_assigned (probe : Prog System ℤ) :
    (storeProbe probe).Traced fun _ s => s.weight≠none := by
  apply (Prog.traced_true probe).bind
  intro tr v _ h
  cases h

theorem stores_assigned (e : Endian) (g : WeightGlobals) (f : WeightFunc) (timeout : ℤ)
    (portarg : Option CStr) (lb : LbcdReply) :
    (stores e g f timeout portarg lb).Traced fun _ s =>
      (s.weight=none ↔ ¬Assigned f portarg) := by
  have always {p : Prog System Stored} (hf : f≠.tcp)
      (hp : p.Traced fun _ s => s.weight≠none) :
      p.Traced fun _ s => (s.weight=none ↔ ¬Assigned f portarg) :=
    hp.mono fun _ s hs => ⟨fun h => absurd h hs,fun h => absurd (fun ht => absurd ht hf) h⟩
  cases f with
  | load => exact always (by decide) fun nologin h => by cases h
  | cmd =>
    refine always (by decide) ((Prog.traced_true (runCmd g.lbcdCommand)).bind fun tr r _ => ?_)
    cases r with
    | none =>
      intro h
      cases h
    | some p =>
      intro h
      cases h
  | rr => exact always (by decide) fun h => by cases h
  | unknown => exact always (by decide) fun h => by cases h
  | ftp => exact always (by decide) (storeProbe_assigned _)
  | http => exact always (by decide) (storeProbe_assigned _)
  | imap => exact always (by decide) (storeProbe_assigned _)
  | nntp => exact always (by decide) (storeProbe_assigned _)
  | ntp => exact always (by decide) (storeProbe_assigned _)
  | pop => exact always (by decide) (storeProbe_assigned _)
  | smtp => exact always (by decide) (storeProbe_assigned _)
  | tcp =>
    by_cases h : ∀ arg,portarg=some arg → arg.bytes.all isdigit=true ∧ wrapInt 16 arg.atoi < 1
    · rw [stores_tcp_unassigned e g timeout lb h]
      refine ⟨fun _ ha => ?_,fun _ => rfl⟩
      obtain ⟨arg,harg,hport⟩ := ha rfl
      obtain ⟨hall,hlt⟩ := h arg harg
      exact absurd hlt (not_lt.mpr (hport hall))
    · push Not at h
      obtain ⟨arg,rfl,hport⟩ := h
      have ha : Assigned .tcp (some arg) := fun _ => ⟨arg,rfl,hport⟩
      obtain ⟨service,port,hstores⟩ := stores_tcp_assigned e g timeout lb hport
      rw [hstores]
      refine (storeProbe_assigned _).mono fun _ s hs => ?_
      exact ⟨fun hn => absurd hn hs,fun hn => absurd ha hn⟩

theorem stores_lb (e : Endian) (g : WeightGlobals) {f : WeightFunc} (timeout : ℤ)
    (portarg : Option CStr) (a b : LbcdReply) (hf : f≠.load) :
    stores e g f timeout portarg a=stores e g f timeout portarg b := by
  cases f with
  | load => exact absurd rfl hf
  | _ => rfl

theorem htonl_maxWeight (e : Endian) : htonl e maxWeight=maxWeight := by
  cases e <;> decide

namespace Host

variable {e : Endian} {g : WeightGlobals} (h : Host e g)

/-- The default service is unavailable already without the sentinel file. -/
def Down (f : WeightFunc) (portarg : Option CStr) : Prop :=
  match f with
  | .load => h.nologin=true
  | .rr => g.defaultWeight=maxWeight
  | .unknown => True
  | f => (h.stored f portarg default).weight=some maxWeight

theorem stored_assigned (f : WeightFunc) (portarg : Option CStr) (lb : LbcdReply) :
    (h.stored f portarg lb).weight=none ↔ ¬Assigned f portarg :=
  (stores_assigned e g f g.lbcdTimeout portarg lb).result _
    (Option.some_get (h.returns f portarg lb)).symm

theorem stored_lb {f : WeightFunc} (portarg : Option CStr) (a b : LbcdReply) (hf : f≠.load) :
    h.stored f portarg a=h.stored f portarg b := by
  unfold stored
  congr 1
  rw [stores_lb e g g.lbcdTimeout portarg a b hf]

theorem stored_load (portarg : Option CStr) (lb : LbcdReply) :
    (h.stored .load portarg lb).weight=
      some (UInt32.ofInt (if h.nologin then -1 else loadWeight e lb)) := rfl

theorem measured_tmp (lb : LbcdReply) (services : List CStr) :
    max (h.measured lb services).tmpFull.toNat (h.measured lb services).tmpdirFull.toNat=
        max (h.tmp .tmp).val.toNat (h.tmp .pTmpdir).val.toNat ∧
      max (h.measured lb services).tmpFull.toNat
        (h.measured lb services).tmpdirFull.toNat ≤ 100 := by
  have cast (v : { v : ℤ // 0 ≤ v ∧ v ≤ 100 }) : (UInt8.ofInt v.val).toNat=v.val.toNat := by
    have hv := v.property
    exact uint8_ofInt_toNat hv.1 (by omega)
  have ht := (h.tmp .tmp).property
  have hd := (h.tmp .pTmpdir).property
  have hm : max (h.measured lb services).tmpFull.toNat (h.measured lb services).tmpdirFull.toNat=
      max (h.tmp .tmp).val.toNat (h.tmp .pTmpdir).val.toNat :=
    congrArg₂ max (cast (h.tmp .tmp)) (cast (h.tmp .pTmpdir))
  refine ⟨hm,?_⟩
  rw [hm]
  omega

/-- Whether the default function stores the maximum is decided by the state of the host. -/
theorem stored_max_iff (f : WeightFunc) (portarg : Option CStr) (lb : LbcdReply)
    (services : List CStr) :
    (h.stored f portarg (h.measured lb services)).weight=some maxWeight ↔ h.Down f portarg := by
  by_cases hl : f=.load
  · subst hl
    rw [stored_load]
    change _ ↔ h.nologin=true
    cases hn : h.nologin with
    | true => exact ⟨fun _ => rfl,fun _ => rfl⟩
    | false =>
      refine ⟨fun hs => ?_,fun hs => by cases hs⟩
      exact absurd (Option.some.inj hs) (loadWeight_ne_max e _ (h.measured_tmp lb services).2)
  · rw [h.stored_lb portarg _ default hl]
    cases f with
    | load => exact absurd rfl hl
    | rr => exact ⟨fun hs => Option.some.inj hs,fun hs => congrArg some hs⟩
    | unknown => exact ⟨fun _ => trivial,fun _ => rfl⟩
    | _ => exact Iff.rfl

def withSentinel (b : Bool) : Host e g := { h with sentinel := b }

/-- The version 3 reply that lbcd_pack_info leaves in a buffer. -/
def reply3 (lb : LbcdReply) (services : List CStr) (simple : Bool) (cache : UserCache) :
    Option LbcdReply :=
  ((lbcdPackInfo e g lb 3 services simple cache).result h.oracle).map Prod.fst

/-- Every slot of the default service is the slot 0, at the maximum where the sentinel
file exists, and the file does not change any other slot. -/
structure DefaultLaw (lb : LbcdReply) (services : List CStr) (simple : Bool)
    (cache : UserCache) : Prop where
  same : ∀ r,h.reply3 lb services simple cache=some r → ∀ k (hk : k+1 < maxServices+1),
    services[k]?=some defaultName → r.slot ⟨k+1,hk⟩=r.slot 0
  drained : h.sentinel=true → ∀ r,h.reply3 lb services simple cache=some r →
    (r.slot 0).hostWeight=maxWeight ∧ ∀ k (hk : k+1 < maxServices+1),
      services[k]?=some defaultName → (r.slot ⟨k+1,hk⟩).hostWeight=maxWeight
  others : ∀ r r',h.reply3 lb services simple cache=some r →
    (h.withSentinel false).reply3 lb services simple cache=some r' →
    ∀ k (hk : k+1 < maxServices+1) name,services[k]?=some name → name≠defaultName →
      r.slot ⟨k+1,hk⟩=r'.slot ⟨k+1,hk⟩

/-- If the default service is requested by name, its function stores a weight, and with the
sentinel file the service is down anyway. -/
def DefaultsAgree (services : List CStr) : Prop :=
  defaultName∈services → ∀ f portarg,probeOf g defaultName=some (f,portarg) →
    Assigned f portarg ∧ (h.sentinel=true → h.Down f portarg)

theorem hasProbe_named (g : WeightGlobals) {service : CStr} (hs : service≠defaultName) :
    HasProbe g service := by
  obtain ⟨st,hm,hst,hb,-⟩ := serviceToFunc_named g hs
  obtain ⟨f,hf⟩ := Option.ne_none_iff_exists'.mp (serviceTable_function hm hb)
  intro hn
  simp only [probeOf,hst,hf,Option.map_some] at hn
  cases hn

theorem hasProbe_all {g : WeightGlobals} (hd : HasProbe g defaultName) (name : CStr) :
    HasProbe g name := by
  by_cases hn : name=defaultName
  · rw [hn]
    exact hd
  · exact hasProbe_named g hn

theorem reply3_eq {services : List CStr} (hd : HasProbe g defaultName)
    (hl : services.length ≤ maxServices) (lb : LbcdReply) (simple : Bool) (cache : UserCache) :
    ∃ r,h.Filled lb services r ∧ h.reply3 lb services simple cache=some r := by
  obtain ⟨r,hr,hres⟩ := h.lbcdPackInfo_host hd (fun name _ => hasProbe_all hd name) hl lb 3
    simple cache
  have h3 : ¬(simple=false ∧ (3 : UInt16) < 3) := fun hlt => absurd hlt.2 (by decide)
  rw [if_neg h3] at hres
  exact ⟨r,hr,by rw [reply3,hres]; rfl⟩

theorem filled_probe {f : WeightFunc} {portarg : Option CStr} {service : CStr}
    (hp : probeOf g service=some (f,portarg)) (lb : LbcdReply) (old : LbcdService) :
    h.filled lb service old=⟨(h.stored f portarg lb).weight.getD old.hostWeight,
      (h.stored f portarg lb).incr.getD g.defaultIncrement⟩ := by
  simp only [filled,hp]

theorem defaultLaw_of_agree {services : List CStr} (hl : services.length ≤ maxServices)
    (hagree : h.DefaultsAgree services) (lb : LbcdReply) (simple : Bool) (cache : UserCache) :
    h.DefaultLaw lb services simple cache := by
  by_cases hd : HasProbe g defaultName
  · obtain ⟨p,hp⟩ := Option.ne_none_iff_exists'.mp hd
    obtain ⟨f,portarg⟩ := p
    obtain ⟨r,hfill,hr⟩ := h.reply3_eq hd hl lb simple cache
    obtain ⟨r',hfill',hr'⟩ := (h.withSentinel false).reply3_eq hd hl lb simple cache
    have zero : h.sentinel=true → (r.slot 0).hostWeight=maxWeight := by
      intro hs
      rw [hfill.default,drained,if_pos hs]
      exact htonl_maxWeight e
    have same : ∀ k (hk : k+1 < maxServices+1),services[k]?=some defaultName →
        r.slot ⟨k+1,hk⟩=r.slot 0 := by
      intro k hk hname
      obtain ⟨hassigned,hdown⟩ := hagree (List.mem_of_getElem? hname) f portarg hp
      obtain ⟨w,hw⟩ := Option.ne_none_iff_exists'.mp fun hn =>
        (h.stored_assigned f portarg (h.measured lb services)).mp hn hassigned
      rw [hfill.requested k defaultName hname hk,hfill.default,h.filled_probe hp,
        h.filled_probe hp,hw,drained]
      split_ifs with hs
      · have hmax := (h.stored_max_iff f portarg lb services).mpr (hdown hs)
        rw [hw] at hmax
        cases hmax
        rfl
      · rfl
    refine ⟨fun r₁ h₁ k hk hname => ?_,fun hs r₁ h₁ => ?_,fun r₁ r₂ h₁ h₂ k hk name hname hne => ?_⟩
    · cases hr.symm.trans h₁
      exact same k hk hname
    · cases hr.symm.trans h₁
      exact ⟨zero hs,fun k hk hname => by rw [same k hk hname,zero hs]⟩
    · cases hr.symm.trans h₁
      cases hr'.symm.trans h₂
      rw [hfill.requested k name hname hk,hfill'.requested k name hname hk]
      rfl
  · have hnone : h.reply3 lb services simple cache=none := by
      rw [reply3,h.lbcdPackInfo_noDefault hd]
      rfl
    refine ⟨fun r hr => ?_,fun _ r hr => ?_,fun r r' hr => ?_⟩
    all_goals
      rw [hnone] at hr
      cases hr

theorem agree_of_defaultLaw {services : List CStr} (hl : services.length ≤ maxServices)
    (hlaw : ∀ lb simple cache,h.DefaultLaw lb services simple cache) :
    h.DefaultsAgree services := by
  intro hmem f portarg hp
  have hd : HasProbe g defaultName := by
    intro hn
    rw [hn] at hp
    cases hp
  obtain ⟨k,hk⟩ := List.mem_iff_getElem?.mp hmem
  have hlt : k+1 < maxServices+1 := by
    obtain ⟨hlen,-⟩ := List.getElem?_eq_some_iff.mp hk
    omega
  let slot : Slot := ⟨k+1,hlt⟩
  let lb : LbcdReply := (default : LbcdReply).setWeight slot 1
  obtain ⟨r,hfill,hr⟩ := h.reply3_eq hd hl lb false ⟨0,0,0,0⟩
  have hsame := (hlaw lb false ⟨0,0,0,0⟩).same r hr k hlt hk
  rw [hfill.requested k defaultName hk hlt,hfill.default,h.filled_probe hp,h.filled_probe hp]
    at hsame
  have hweights := htonl_injective e (congrArg LbcdService.hostWeight hsame)
  have hone : (lb.slot slot).hostWeight=1 := by
    rw [LbcdReply.slot_setWeight_self]
  have hzero : (lb.slot 0).hostWeight=0 := by
    have hne : ¬slot=0 := fun he => absurd (congrArg Fin.val he) (Nat.succ_ne_zero k)
    change (((default : LbcdReply).setSlot slot _).slot 0).hostWeight=0
    rw [LbcdReply.slot_setSlot,if_neg hne]
    rfl
  have hassigned : Assigned f portarg := by
    by_contra hn
    have hw := (h.stored_assigned f portarg (h.measured lb services)).mpr hn
    rw [hw] at hweights
    change (lb.slot slot).hostWeight=_ at hweights
    rw [hone,drained] at hweights
    split_ifs at hweights
    · cases hweights
    · change 1=(lb.slot 0).hostWeight at hweights
      rw [hzero] at hweights
      cases hweights
  refine ⟨hassigned,fun hs => ?_⟩
  obtain ⟨w,hw⟩ := Option.ne_none_iff_exists'.mp fun hn =>
    (h.stored_assigned f portarg (h.measured lb services)).mp hn hassigned
  rw [hw,drained,if_pos hs] at hweights
  rw [← h.stored_max_iff f portarg lb services,hw]
  exact congrArg some hweights

end Host

/-- The slots of a reply that report the default service agree with slot 0 exactly when
the sentinel file or an unassigned weight does not come between them. -/
theorem default_slots_iff {e : Endian} {g : WeightGlobals} (h : Host e g) {services : List CStr}
    (hl : services.length ≤ maxServices) :
    (∀ lb simple cache,h.DefaultLaw lb services simple cache) ↔ h.DefaultsAgree services :=
  ⟨h.agree_of_defaultLaw hl,h.defaultLaw_of_agree hl⟩

theorem default_slots_iff_idle :
    ∃ g,lbcdWeightInit .initial none none 5=.ok g ∧
      ((∀ lb simple cache,(Host.idle .little g).DefaultLaw lb [defaultName] simple cache) ↔
        (Host.idle .little g).DefaultsAgree [defaultName]) :=
  ⟨_,rfl,default_slots_iff _ (by decide)⟩

/-- With the sentinel file the default service is drained in slot 0 only. -/
theorem sentinel_default_by_name :
    ∃ g,lbcdWeightInit .initial none none 5=.ok g ∧
      ¬∀ lb simple cache,((Host.idle .little g).withSentinel true).DefaultLaw lb [defaultName]
        simple cache := by
  refine ⟨_,rfl,fun hlaw => ?_⟩
  have hagree := Host.agree_of_defaultLaw _ (by decide) hlaw
  have hdown := (hagree List.mem_cons_self .load none rfl).2 rfl
  cases hdown

end Lbcd
