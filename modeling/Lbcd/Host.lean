import Lbcd.Daemon
import Lbcd.Stores

namespace Lbcd

open Interaction CText ByteOrder

/-- A service that lbcd_setweight can handle without running into a null pointer. -/
def HasProbe (g : WeightGlobals) (service : CStr) : Prop := probeOf g service≠none

/-- System calls of a probe, with the existence of /etc/nologin fixed. -/
def withNologin (nologin : Bool) (o : Oracle System) : Oracle System := fun n c =>
  match c with
  | .access .nologin => some nologin
  | c => o n c

/-- The state of the host while one request is served: each measurement has one result,
each probe meets the same outcomes of its system calls whenever it is run, and comes to
an end. The junk is what automatic variables hold before they are assigned. -/
structure Host (e : Endian) (g : WeightGlobals) where
  sentinel : Bool
  nologin : Bool
  boottime : Option ℤ
  time : ℤ
  loads : Loads
  users : UserStats
  tmp : TmpDir → { v : ℤ // 0 ≤ v ∧ v ≤ 100 }
  probes : WeightFunc → Option CStr → Oracle System
  junkReply : LbcdReply
  junkLocals : PackLocals
  returns : ∀ f portarg lb,
    ((stores e g f g.lbcdTimeout portarg lb).result
      (withNologin nologin (probes f portarg))).isSome

/-- Both words of a pair in network order. -/
def LbcdService.net (e : Endian) (w : LbcdService) : LbcdService :=
  ⟨htonl e w.hostWeight,htonl e w.hostIncr⟩

theorem hostToNetwork_eq (e : Endian) (lb : LbcdReply) (slot : Slot) :
    hostToNetwork e lb slot=Prog.ret (lb.setSlot slot ((lb.slot slot).net e)) :=
  dif_pos slot.isLt

/-- The default pair as the sentinel file leaves it, in network order. -/
theorem hostToNetwork_drain (e : Endian) (sentinel : Bool) (lb : LbcdReply) (w : LbcdService) :
    hostToNetwork e (if sentinel then (lb.setSlot 0 w).setWeight 0 (UInt32.ofInt (-1))
      else lb.setSlot 0 w) 0=
        Prog.ret (lb.setSlot 0
          (LbcdService.net e (if sentinel then { w with hostWeight := maxWeight } else w))) := by
  have hnet (m : LbcdReply) : hostToNetwork e m 0=Prog.ret (m.setSlot 0 ((m.slot 0).net e)) :=
    hostToNetwork_eq e m 0
  rw [hnet]
  cases sentinel with
  | false =>
    simp only [Bool.false_eq_true,if_false,LbcdReply.setSlot_setSlot,LbcdReply.slot_setSlot_self]
  | true =>
    simp only [if_true,LbcdReply.setWeight,LbcdReply.setSlot_setSlot,LbcdReply.slot_setSlot_self]
    rfl

namespace Host

variable {e : Endian} {g : WeightGlobals} (h : Host e g)

/-- What the host answers to the calls of the server. -/
def answer : (c : ServerCall) → Option c.Reply
  | .sys (.access .sentinel) => some h.sentinel
  | .sys .time => some h.time
  | .sys .stackReply => some h.junkReply
  | .sys .stackLocals => some h.junkLocals
  | .sys (.message _) => some ()
  | .sys _ => none
  | .kernelGetboottime => some h.boottime
  | .kernelGetload => some h.loads
  | .getUserStats cache => some (h.users,cache)
  | .tmpFull path => some (h.tmp path).val
  | .weight f slot timeout portarg lb =>
    (weightFunction e g f slot timeout portarg lb).result
      (withNologin h.nologin (h.probes f portarg))

def oracle : Oracle Server := Oracle.const h.answer

/-- What the weight function of a service stores on this host. -/
def stored (f : WeightFunc) (portarg : Option CStr) (lb : LbcdReply) : Stored :=
  ((stores e g f g.lbcdTimeout portarg lb).result
    (withNologin h.nologin (h.probes f portarg))).get (h.returns f portarg lb)

/-- A pair after lbcd_setweight, from what it held before. -/
def filled (lb : LbcdReply) (service : CStr) (old : LbcdService) : LbcdService :=
  match probeOf g service with
  | none => old
  | some (f,portarg) =>
    let s := h.stored f portarg lb
    ⟨s.weight.getD old.hostWeight,s.incr.getD g.defaultIncrement⟩

theorem filled_congr {a b : LbcdReply} (hs : SameScalars a b) (service : CStr)
    (old : LbcdService) : h.filled a service old=h.filled b service old := by
  unfold filled
  cases hp : probeOf g service with
  | none => rfl
  | some p =>
    have hst : h.stored p.1 p.2 a=h.stored p.1 p.2 b := by
      simp only [stored,stores_congr g p.1 g.lbcdTimeout p.2 (loadWeight_congr e hs)]
    simp only [hst]

theorem lbcdSetweight_host {service : CStr} (hp : HasProbe g service) (lb : LbcdReply)
    (slot : Slot) :
    (lbcdSetweight g lb slot service).result h.oracle=
      some (lb.setSlot slot (h.filled lb service (lb.slot slot))) := by
  obtain ⟨p,hp⟩ := Option.ne_none_iff_exists'.mp hp
  obtain ⟨f,portarg⟩ := p
  have hrun := congrArg (Prog.result (withNologin h.nologin (h.probes f portarg)))
    (weightFunction_stores e g f slot g.lbcdTimeout portarg
      (lb.setIncr slot g.defaultIncrement))
  rw [Prog.result_bind,Prog.result_bind,LbcdReply.setIncr,stores_setSlot] at hrun
  have hst := Option.some_get (h.returns f portarg lb)
  rw [lbcdSetweight_of_probe hp]
  change ((weightFunction e g f slot g.lbcdTimeout portarg
      (lb.setIncr slot g.defaultIncrement)).result
        (withNologin h.nologin (h.probes f portarg))).bind (fun r => some r.1)=_
  rw [LbcdReply.setIncr]
  refine hrun.trans ?_
  rw [← hst]
  change some (Stored.into (h.stored f portarg lb) (lb.setIncr slot g.defaultIncrement) slot)=_
  rw [Stored.into_incr]
  simp only [filled,hp]

/-- The loop over the requested services fills in their slots in order and no others. -/
theorem setRequested_host {names : List CStr} (hp : ∀ name∈names,HasProbe g name) {i : ℕ}
    (hi : i+names.length ≤ maxServices+1) (lb : LbcdReply) :
    ∃ lb',(setRequested e g i names lb).result h.oracle=some lb' ∧ SameScalars lb' lb ∧
      (∀ j : Slot,(j : ℕ) < i ∨ i+names.length ≤ j → lb'.slot j=lb.slot j) ∧
      ∀ k name,names[k]?=some name → ∀ hk : i+k < maxServices+1,
        lb'.slot ⟨i+k,hk⟩=(h.filled lb name (lb.slot ⟨i+k,hk⟩)).net e := by
  induction names generalizing i lb with
  | nil => exact ⟨lb,rfl,rfl,fun _ _ => rfl,fun k name hk => by cases hk⟩
  | cons name names ih =>
    have hlt : i < maxServices+1 := by
      rw [List.length_cons] at hi
      omega
    let slot : Slot := ⟨i,hlt⟩
    let w := (h.filled lb name (lb.slot slot)).net e
    have hfirst := h.lbcdSetweight_host (hp name List.mem_cons_self) lb slot
    change (lbcdSetweight g lb i name).result h.oracle=_ at hfirst
    have hnet := hostToNetwork_eq e (lb.setSlot slot (h.filled lb name (lb.slot slot))) slot
    rw [LbcdReply.slot_setSlot_self,LbcdReply.setSlot_setSlot] at hnet
    change hostToNetwork e _ i=_ at hnet
    obtain ⟨lb',hr,hsame,hout,hin⟩ := ih (fun n hn => hp n (List.mem_cons_of_mem _ hn))
      (by rw [List.length_cons] at hi; omega) (lb.setSlot slot w) (i := i+1)
    refine ⟨lb',?_,hsame.trans (sameScalars_setSlot lb slot w),fun j hj => ?_,?_⟩
    · rw [setRequested,Prog.result_bind,hfirst]
      change Prog.result (h.oracle.drop _) (hostToNetwork e _ i >>= _)=_
      rw [hnet]
      exact hr
    · rw [List.length_cons] at hj
      rw [hout j (by omega),LbcdReply.slot_setSlot,if_neg]
      intro he
      have hij : i=j := congrArg Fin.val he
      omega
    · intro k name' hk hlt'
      cases k with
      | zero =>
        cases hk
        rw [hout ⟨i+0,hlt'⟩ (Or.inl (Nat.lt_succ_self i))]
        exact LbcdReply.slot_setSlot_self lb slot w
      | succ k =>
        have hkk : i+1+k < maxServices+1 := by omega
        have hidx : (⟨i+(k+1),hlt'⟩ : Slot)=⟨i+1+k,hkk⟩ := Fin.ext (by dsimp only; omega)
        rw [hidx,hin k name' hk hkk,h.filled_congr (sameScalars_setSlot lb slot w),
          LbcdReply.slot_setSlot,if_neg]
        intro he
        have hij : i=i+1+k := congrArg Fin.val he
        omega

/-- A pair of the default service, as the sentinel file leaves it. -/
def drained (w : LbcdService) : LbcdService :=
  if h.sentinel then { w with hostWeight := maxWeight } else w

/-- The fields before the weights, as they are packed. -/
def measured (lb : LbcdReply) (services : List CStr) : LbcdReply :=
  { lb with
    bootTime := htonl e (UInt32.ofInt (h.boottime.getD h.junkLocals.bt))
    currentTime := htonl e (UInt32.ofInt h.time)
    l1 := htons e (loadField (h.loads.l1.getD h.junkLocals.l1))
    l5 := htons e (loadField (h.loads.l5.getD h.junkLocals.l5))
    l15 := htons e (loadField (h.loads.l15.getD h.junkLocals.l15))
    totUsers := htons e (UInt16.ofInt h.users.total)
    uniqUsers := htons e (UInt16.ofInt h.users.uniq)
    onConsole := UInt8.ofInt h.users.onConsole
    userMtime := htonl e (UInt32.ofInt h.users.userMtime)
    reserved := 0
    tmpFull := UInt8.ofInt (h.tmp .tmp).val
    tmpdirFull := UInt8.ofInt (h.tmp .pTmpdir).val
    pad := 0
    services := UInt8.ofNat services.length }

/-- The reply to a request for some services, before any conversion to version 2. -/
structure Filled (lb : LbcdReply) (services : List CStr) (r : LbcdReply) : Prop where
  scalars : SameScalars r (h.measured lb services)
  default : r.slot 0=
    (h.drained (h.filled (h.measured lb services) defaultName (lb.slot 0))).net e
  requested : ∀ k name,services[k]?=some name → ∀ hk : k+1 < maxServices+1,
    r.slot ⟨k+1,hk⟩=(h.filled (h.measured lb services) name (lb.slot ⟨k+1,hk⟩)).net e
  unused : ∀ j : Slot,services.length < j → r.slot j=lb.slot j

theorem lbcdSetLoad_host {services : List CStr} (hd : HasProbe g defaultName)
    (hp : ∀ name∈services,HasProbe g name) (hl : services.length ≤ maxServices)
    (lb m : LbcdReply) (hm : { m with pad := 0,services := UInt8.ofNat services.length }=
      h.measured lb services) :
    ∃ r,(lbcdSetLoad e g m services).result h.oracle=some r ∧ h.Filled lb services r := by
  let m' : LbcdReply := { m with pad := 0,services := UInt8.ofNat services.length }
  have hslot (j : Slot) : m'.slot j=lb.slot j := by
    rw [show m'=h.measured lb services from hm]
    rfl
  let w := (h.drained (h.filled m' defaultName (lb.slot 0))).net e
  have hfirst := h.lbcdSetweight_host hd m' 0
  rw [hslot] at hfirst
  change (lbcdSetweight g m' 0 defaultName).result h.oracle=_ at hfirst
  obtain ⟨r,hr,hsame,hout,hin⟩ := h.setRequested_host hp
    (by omega : 1+services.length ≤ maxServices+1) (m'.setSlot 0 w)
  refine ⟨r,?_,?_⟩
  · rw [lbcdSetLoad,Prog.result_bind,hfirst,Option.bind_some,ssys_bind,Prog.result_call]
    change Prog.result _ (hostToNetwork e (if h.sentinel then (m'.setSlot 0 _).setWeight 0
      (UInt32.ofInt (-1)) else m'.setSlot 0 _) 0 >>= fun lb => setRequested e g 1 services lb)=_
    rw [hostToNetwork_drain]
    exact hr
  · have hmm : m'=h.measured lb services := hm
    have hmeasured : SameScalars r (h.measured lb services) := by
      rw [← hmm]
      exact hsame.trans (sameScalars_setSlot m' 0 w)
    have hfill (name : CStr) (old : LbcdService) :
        h.filled (m'.setSlot 0 w) name old=h.filled (h.measured lb services) name old := by
      rw [← hmm]
      exact h.filled_congr (sameScalars_setSlot m' 0 w) name old
    have hrest (j : Slot) (hj : (j : ℕ)≠0) : (m'.setSlot 0 w).slot j=lb.slot j := by
      rw [LbcdReply.slot_setSlot,if_neg,hslot]
      intro he
      exact hj (congrArg Fin.val he).symm
    refine ⟨hmeasured,?_,fun k name hk hlt => ?_,fun j hj => ?_⟩
    · rw [hout 0 (Or.inl Nat.one_pos),LbcdReply.slot_setSlot_self]
      simp only [w,hmm]
    · have hlt' : 1+k < maxServices+1 := by omega
      have hidx : (⟨k+1,hlt⟩ : Slot)=⟨1+k,hlt'⟩ := Fin.ext (Nat.add_comm k 1)
      rw [hidx,hin k name hk hlt',hfill,hrest _ (by dsimp only; omega)]
    · rw [hout j (Or.inr (by omega)),hrest j (by omega)]

/-- A host that answers every call gets as far as the weights. -/
theorem lbcdPackInfo_result (lb : LbcdReply) (protocol : UInt16) (services : List CStr)
    (simple : Bool) (cache : UserCache) :
    (lbcdPackInfo e g lb protocol services simple cache).result h.oracle=
      (packServices e g protocol services simple cache
        { h.measured lb services with pad := lb.pad,services := lb.services }).result h.oracle :=
  rfl

/-- What lbcd_pack_info returns on a host that answers every call. -/
theorem lbcdPackInfo_host {services : List CStr} (hd : HasProbe g defaultName)
    (hp : ∀ name∈services,HasProbe g name) (hl : services.length ≤ maxServices) (lb : LbcdReply)
    (protocol : UInt16) (simple : Bool) (cache : UserCache) :
    ∃ r,h.Filled lb services r ∧
      (lbcdPackInfo e g lb protocol services simple cache).result h.oracle=
        some (if simple=false ∧ protocol < 3 then lbcdProto2Convert e r else r,cache) := by
  obtain ⟨r,hr,hfill⟩ := h.lbcdSetLoad_host hd hp hl lb
    { h.measured lb services with pad := lb.pad,services := lb.services } rfl
  refine ⟨r,hfill,?_⟩
  rw [h.lbcdPackInfo_result,packServices,Prog.result_bind,hr,Option.bind_some]
  split_ifs <;> rfl

/-- Without a default service no reply is ever built. -/
theorem lbcdPackInfo_noDefault (hd : ¬HasProbe g defaultName) (services : List CStr)
    (lb : LbcdReply) (protocol : UInt16) (simple : Bool) (cache : UserCache) :
    (lbcdPackInfo e g lb protocol services simple cache).result h.oracle=none := by
  have hload (m : LbcdReply) : (lbcdSetLoad e g m services).result h.oracle=none := by
    have hset := lbcdSetweight_of_none (not_not.mp hd)
      { m with pad := 0,services := UInt8.ofNat services.length } 0
    change lbcdSetweight g _ 0 defaultName=_ ∨ lbcdSetweight g _ 0 defaultName=_ at hset
    rw [lbcdSetLoad,Prog.result_bind]
    rcases hset with hset|hset
    · rw [hset]
      rfl
    · rw [hset]
      rfl
  rw [h.lbcdPackInfo_result,packServices,Prog.result_bind,hload]
  rfl

end Host

/-- Nothing answers and nobody is logged in. -/
def failing : Oracle System := Oracle.const fun c =>
  match c with
  | .fuel => some 0
  | .access _ => some false
  | .getaddrinfo _ _ _ => some none
  | .getservbyname _ => some none
  | .getservbyport _ => some none
  | .endservent => some ()
  | .inetAddr _ => some none
  | .gethostbyname _ => some none
  | .pipe => some none
  | _ => none

theorem tcpConnect_failing (nologin : Bool) (host : CStr) (protocol : Option CStr) (port : ℤ) :
    (tcpConnect host protocol port).result (withNologin nologin failing)=some none := by
  cases protocol with
  | none =>
    change Prog.result _ (if (none : Option (List AddrInfo))=none ∧ port≠0 then _ else _)=_
    split_ifs <;> rfl
  | some name =>
    change Prog.result _ (if (none : Option (List AddrInfo))=none ∧ port≠0 then _ else _)=_
    split_ifs <;> rfl

theorem stores_failing (e : Endian) (g : WeightGlobals) (nologin : Bool) (f : WeightFunc)
    (portarg : Option CStr) (lb : LbcdReply) :
    ((stores e g f g.lbcdTimeout portarg lb).result (withNologin nologin failing)).isSome := by
  have tcp (host service : Option CStr) (port : ℤ) (token : Option CStr) (timeout : ℤ) :
      ((storeProbe (probeTcp host service port token timeout)).result
        (withNologin nologin failing)).isSome := by
    rw [storeProbe,Prog.result_bind,probeTcp,Prog.result_bind,tcpConnect_failing]
    rfl
  cases f with
  | load => cases nologin <;> rfl
  | cmd => rfl
  | rr => rfl
  | unknown => rfl
  | ftp => exact tcp _ _ _ _ _
  | http =>
    rw [stores,storeProbe,Prog.result_bind,probeHttp]
    dsimp only
    rw [Prog.result_bind,tcpConnect_failing]
    rfl
  | imap =>
    rw [stores,storeProbe,Prog.result_bind,probeImap,Prog.result_bind,tcpConnect_failing]
    rfl
  | nntp => exact tcp _ _ _ _ _
  | ntp => rfl
  | pop => exact tcp _ _ _ _ _
  | smtp => exact tcp _ _ _ _ _
  | tcp =>
    rcases stores_tcp e g g.lbcdTimeout portarg lb with h|⟨service,port,h⟩
    · rw [h]
      rfl
    · rw [h]
      exact tcp _ _ _ _ _

def unusedDisk : { v : ℤ // 0 ≤ v ∧ v ≤ 100 } := ⟨0,by decide⟩

/-- A host where nobody is logged in and no service answers. -/
def Host.idle (e : Endian) (g : WeightGlobals) : Host e g where
  sentinel := false
  nologin := false
  boottime := some 0
  time := 0
  loads := ⟨some 0,some 0,some 0⟩
  users := ⟨0,0,0,0⟩
  tmp := fun _ => unusedDisk
  probes := fun _ _ => failing
  junkReply := default
  junkLocals := ⟨0,0,0,0⟩
  returns := stores_failing e g false

end Lbcd
