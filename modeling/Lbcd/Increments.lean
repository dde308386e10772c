import Lbcd.Client
import Lbcd.Serving
import Lbcd.Uneventful
import Lbcd.WeightInit

namespace Lbcd

open Interaction CText ByteOrder Pack

/-- The weight functions of the modules. -/
def WeightFunc.IsModule : WeightFunc → Prop
  | .ftp => True
  | .http => True
  | .imap => True
  | .nntp => True
  | .ntp => True
  | .pop => True
  | .smtp => True
  | .tcp => True
  | _ => False

/-- The weight function of the pair with this number. -/
def Answered (g : WeightGlobals) (names : List CStr) (i : ℕ) (f : WeightFunc) : Prop :=
  ∃ name portarg,(defaultName :: names)[i]?=some name ∧ probeOf g name=some (f,portarg)

/-- The weight of a pair, which the sentinel file forces to the maximum for the default. -/
def forced (sentinel : Bool) (i : ℕ) (w : UInt32) : UInt32 :=
  if sentinel=true ∧ i=0 then maxWeight else w

/-- The pairs of rr hold 1 and 1, and those of the modules the increment 1. -/
structure UnitPairs (g : WeightGlobals) (names : List CStr) (sentinel : Bool)
    (packet : List UInt8) : Prop where
  rr : ∀ i,Answered g names i .rr → pairOf packet i=some [(forced sentinel i 1).toNat,1]
  modules : ∀ i f,f.IsModule → Answered g names i f → ∃ w,pairOf packet i=some [w,1]

theorem storeProbe_incr (probe : Prog System ℤ) :
    (storeProbe probe).Traced fun _ s => s.incr=none := by
  apply (Prog.traced_true probe).bind
  intro tr v _
  rfl

/-- A module leaves the increment alone. -/
theorem stores_incr (e : Endian) (g : WeightGlobals) {f : WeightFunc} (hf : f.IsModule)
    (timeout : ℤ) (portarg : Option CStr) (lb : LbcdReply) :
    (stores e g f timeout portarg lb).Traced fun _ s => s.incr=none := by
  cases f with
  | load => exact hf.elim
  | cmd => exact hf.elim
  | rr => exact hf.elim
  | unknown => exact hf.elim
  | tcp =>
    rcases stores_tcp e g timeout portarg lb with h|⟨service,port,h⟩
    · rw [h]
      rfl
    · rw [h]
      exact storeProbe_incr _
  | _ => exact storeProbe_incr _

/-- Every call so far was the server's, with a reply it can get. -/
def Recorded (e : Endian) (g : WeightGlobals) (config : LbcdConfig) (h : List (Event Server)) :
    Prop :=
  ∀ ev∈h,Serving g config ev.call ∧ ∃ r,ev.reply=some r ∧ Possible e g ev.call r

/-- Every reply so far is one that the server can get. -/
def Answerable (e : Endian) (g : WeightGlobals) (h : List (Event Server)) : Prop :=
  ∀ ev∈h,∃ r,ev.reply=some r ∧ Possible e g ev.call r

section

variable {e : Endian} {g : WeightGlobals} {config : LbcdConfig} {h : List (Event Server)}

theorem Recorded.answerable (hrec : Recorded e g config h) : Answerable e g h :=
  fun ev hev => (hrec ev hev).2

theorem recorded_run {c : ServerCall} {k : c.Reply → Prog Server Unit}
    (hr : Run (records e g) [] (handleRequests e g config) h (.call c k)) :
    Recorded e g config h := by
  have hkeep : ∀ h c r h',Recorded e g config h → Serving g config c →
      (records e g).step h c r h' → Recorded e g config h' := by
    intro h c r h' hrec hc hstep
    obtain ⟨hp,rfl⟩ := hstep
    exact List.forall_mem_append.mpr ⟨hrec,List.forall_mem_singleton.mpr ⟨hc,r,rfl,hp⟩⟩
  have hsafe : (handleRequests e g config).Safe (records e g)
      (fun h _ => Recorded e g config h) (fun h _ => Recorded e g config h ∧ True) [] :=
    (handleRequests_serving e g config).safe (fun _ _ hrec _ => hrec) hkeep
      (List.forall_mem_nil _)
  exact (hsafe.run hr).1

/-- A weight function call that was answered has run. -/
theorem Answerable.weight (ha : Answerable e g h) {f : WeightFunc} {slot : Slot}
    {portarg : Option CStr} {lb : LbcdReply} {r : LbcdReply × ℤ}
    (hm : (⟨.weight f slot g.lbcdTimeout portarg lb,some r⟩ : Event Server)∈h) :
    ∃ o,(weightFunction e g f slot g.lbcdTimeout portarg lb).result o=some r := by
  obtain ⟨r',hr',ho⟩ := ha _ hm
  cases hr'
  exact ho

theorem weighed_rr (ha : Answerable e g h) {name : CStr} {slot : Slot} {w : LbcdService}
    {portarg : Option CStr} (hp : probeOf g name=some (.rr,portarg))
    (hw : Weighed g h name slot w) : w=⟨g.defaultWeight,g.defaultIncrement⟩ := by
  obtain ⟨f,portarg',lb,r,hp',hm,rfl⟩ := hw
  cases hp.symm.trans hp'
  obtain ⟨o,ho⟩ := ha.weight hm
  cases ho
  rw [LbcdReply.slot_setIncr_self,LbcdReply.slot_setWeight_self]

theorem weighed_module (hrec : Recorded e g config h) {name : CStr} {slot : Slot}
    {w : LbcdService} {f : WeightFunc} {portarg : Option CStr} (hf : f.IsModule)
    (hp : probeOf g name=some (f,portarg)) (hw : Weighed g h name slot w) :
    w.hostIncr=g.defaultIncrement := by
  obtain ⟨f',portarg',lb,r,hp',hm,rfl⟩ := hw
  cases hp.symm.trans hp'
  obtain ⟨⟨-,hincr,-⟩,-⟩ := hrec _ hm
  obtain ⟨o,ho⟩ := hrec.answerable.weight hm
  have hrun := congrArg (Prog.result o) (weightFunction_stores e g f slot g.lbcdTimeout portarg lb)
  rw [Prog.result_bind,Prog.result_bind,ho] at hrun
  obtain ⟨s,hs,hinto⟩ := Option.bind_eq_some_iff.mp hrun.symm
  have hnone := (stores_incr e g hf g.lbcdTimeout portarg lb).result o hs
  have hr : r.1=s.into lb slot := (Option.some.inj hinto).symm
  rw [hr,Stored.into,LbcdReply.slot_setSlot_self,hnone]
  exact hincr

end

/-- A pair of a packet is what the reply's slot was in host order. -/
theorem pairOf_net {e : Endian} {lb : LbcdReply} {n i : ℕ} {w : LbcdService} (hn : i ≤ n)
    (hi : i < maxServices+1) (hw : lb.slot ⟨i,hi⟩=w.net e) :
    pairOf ((lb.bytes e).take (44+8*n)) i=some [w.hostWeight.toNat,w.hostIncr.toNat] := by
  have hpair := pairOf_take e lb (i := ⟨i,hi⟩) hn
  rw [hw,LbcdService.net,ntohl_htonl,ntohl_htonl] at hpair
  exact hpair

/-- The slots of a reply are those that the weight functions left, in network order. -/
theorem Slots.answered {e : Endian} {g : WeightGlobals} {names : List CStr}
    {tr : List (Event Server)} {lb : LbcdReply} (hs : Slots e g names tr lb) :
    ∃ sentinel,(⟨.sys (.access .sentinel),some sentinel⟩ : Event Server)∈tr ∧
      ∀ (slot : Slot) name,(defaultName :: names)[(slot : ℕ)]?=some name →
        ∃ w,Weighed g tr name slot w ∧
          lb.slot slot=LbcdService.net e ⟨forced sentinel slot w.hostWeight,w.hostIncr⟩ := by
  obtain ⟨w,sentinel,hw,hm,hslot⟩ := hs.default
  refine ⟨sentinel,hm,fun slot name hname => ?_⟩
  obtain ⟨i,hi⟩ := slot
  cases i with
  | zero =>
    cases hname
    refine ⟨w,hw,hslot.trans ?_⟩
    cases sentinel with
    | true => rfl
    | false => rfl
  | succ k =>
    obtain ⟨w,hw,hslot⟩ := hs.requested k name hname hi
    have hforced : forced sentinel (k+1) w.hostWeight=w.hostWeight :=
      if_neg fun h => absurd h.2 (Nat.succ_ne_zero k)
    refine ⟨w,hw,?_⟩
    rw [hforced]
    exact hslot

/-- The pairs of a reply are those that the weight functions left. -/
theorem served_pairs {e : Endian} {g : WeightGlobals} {request : Request}
    {tr : List (Event Server)} {packet : List UInt8} (hs : Served e g request tr packet) :
    ∃ sentinel,(⟨.sys (.access .sentinel),some sentinel⟩ : Event Server)∈tr ∧
      ∀ i name,(defaultName :: request.services)[i]?=some name → ∃ slot w,
        Weighed g tr name slot w ∧
          pairOf packet i=some [(forced sentinel i w.hostWeight).toNat,w.hostIncr.toNat] := by
  obtain ⟨lb,rfl,hpacked⟩ := hs.reply
  obtain ⟨sentinel,hm,hslots⟩ := hpacked.slots.answered
  refine ⟨sentinel,hm,fun i name hname => ?_⟩
  obtain ⟨hlt,-⟩ := List.getElem?_eq_some_iff.mp hname
  rw [List.length_cons] at hlt
  have hcount := hs.count
  have hi : i < maxServices+1 := by omega
  obtain ⟨w,hw,hslot⟩ := hslots ⟨i,hi⟩ name hname
  exact ⟨⟨i,hi⟩,w,hw,pairOf_net (by omega) hi hslot⟩

/-- What is said of the reply to the last datagram, by its request and the events since. -/
def InReply (services : List CStr) (h : List (Event Server))
    (holds : Request → List (Event Server) → Prop) : Prop :=
  ∃ before fd d mid,h=before++(⟨.sys (.recvfrom fd),some (some d)⟩ : Event Server) :: mid ∧
    (∀ ev∈mid,Quiet ev.call) ∧
    ∀ request,reactionTo services (some d)=.serve request → holds request mid

/-- The pairs of rr and of the modules are as documented in every reply of every run. -/
def UnitReplies (e : Endian) (g : WeightGlobals) (config : LbcdConfig) : Prop :=
  ∀ h fd packet addr k,
    Run (records e g) [] (handleRequests e g config) h (.call (.sys (.sendto fd packet addr)) k) →
    InReply config.services h fun request mid =>
      ∃ sentinel,(⟨.sys (.access .sentinel),some sentinel⟩ : Event Server)∈mid ∧
        UnitPairs g request.services sentinel packet

/-- A service that rr or a module answers. -/
def UnitService (g : WeightGlobals) (name : CStr) : Prop :=
  ∃ f portarg,probeOf g name=some (f,portarg) ∧ (f=.rr ∨ f.IsModule)

section

variable {e : Endian} {g : WeightGlobals} {config : LbcdConfig} {h : List (Event Server)}

/-- Every reply holds what the weight functions left, which is the defaults for rr and the
default increment for a module. -/
theorem reply_pairs {fd : Fd} {packet : List UInt8} {addr : SockAddr}
    {k : Option ℕ → Prog Server Unit}
    (hr : Run (records e g) [] (handleRequests e g config) h
      (.call (.sys (.sendto fd packet addr)) k)) :
    InReply config.services h fun request mid =>
      ∃ sentinel,(⟨.sys (.access .sentinel),some sentinel⟩ : Event Server)∈mid ∧
        (∀ i,Answered g request.services i .rr → pairOf packet i=
          some [(forced sentinel i g.defaultWeight).toNat,g.defaultIncrement.toNat]) ∧
        ∀ i f,f.IsModule → Answered g request.services i f →
          ∃ w,pairOf packet i=some [w,g.defaultIncrement.toNat] := by
  have hrec := recorded_run hr
  have hreply : Replying e g config.services h fd packet addr :=
    ((handleRequests_safe e g config).run hr).1
  obtain ⟨before,d,mid,rfl,hquiet,-,hanswers,-⟩ := hreply
  refine ⟨before,fd,d,mid,rfl,hquiet,fun request hserve => ?_⟩
  change reaction config.services (d.payload.take 2048) d.source=_ at hserve
  rw [hserve] at hanswers
  obtain ⟨sentinel,hm,hpairs⟩ := served_pairs hanswers.1
  have hmid : mid⊆before++(⟨.sys (.recvfrom fd),some (some d)⟩ : Event Server) :: mid :=
    fun ev hev => List.mem_append_right before (List.mem_cons_of_mem _ hev)
  refine ⟨sentinel,hm,fun i ha => ?_,fun i f hf ha => ?_⟩
  · obtain ⟨name,portarg,hname,hp⟩ := ha
    obtain ⟨slot,w,hw,hpair⟩ := hpairs i name hname
    rw [hpair,weighed_rr hrec.answerable hp (hw.mono hmid)]
  · obtain ⟨name,portarg,hname,hp⟩ := ha
    obtain ⟨slot,w,hw,hpair⟩ := hpairs i name hname
    rw [weighed_module hrec hf hp (hw.mono hmid)] at hpair
    exact ⟨_,hpair⟩

theorem InReply.mono {services : List CStr} {p q : Request → List (Event Server) → Prop}
    (hi : InReply services h p)
    (himp : ∀ d request mid,reactionTo services (some d)=.serve request → p request mid →
      q request mid) : InReply services h q := by
  obtain ⟨before,fd,d,mid,hh,hquiet,hp⟩ := hi
  exact ⟨before,fd,d,mid,hh,hquiet,fun request hr => himp d request mid hr (hp request hr)⟩

/-- With both defaults at one the documentation is right. -/
theorem unitReplies_ones (hw : g.defaultWeight=1) (hi : g.defaultIncrement=1) :
    UnitReplies e g config := by
  intro h fd packet addr k hr
  apply (reply_pairs hr).mono
  intro d request mid _ hpairs
  rw [hw,hi] at hpairs
  obtain ⟨sentinel,hm,hrr,hmod⟩ := hpairs
  exact ⟨sentinel,hm,hrr,hmod⟩

theorem nameField_length (raw : List UInt8) (i : ℕ) :
    (nameField raw i).bytes.length ≤ nameSize := by
  have hpre := (List.takeWhile_prefix (l := (raw.drop (headerSize+i*nameSize)).take nameSize)
    (p := (·≠0))).length_le
  exact hpre.trans (List.length_take_le _ _)

/-- A served name fits its field, and is one of those given to the daemon, or the default. -/
theorem served_name {services : List CStr} {d : Datagram} {request : Request}
    (hr : reactionTo services (some d)=.serve request) {name : CStr}
    (hm : name∈request.services) :
    name.bytes.length ≤ nameSize ∧ (name=defaultName ∨ name∈services) := by
  obtain ⟨hreq,hallowed⟩ := reaction_serve hr
  refine ⟨?_,(hallowed name hm).imp id fun h => h.1⟩
  rw [hreq] at hm
  change name∈requestedNames (d.payload.take 2048) at hm
  rw [requestedNames] at hm
  split_ifs at hm
  · obtain ⟨i,-,rfl⟩ := List.mem_map.mp hm
    exact nameField_length _ i
  · cases hm

/-- Nothing is said of replies in which neither rr nor a module answers. -/
theorem unitReplies_none (hd : ¬UnitService g defaultName)
    (hn : ∀ name∈config.services,name.bytes.length ≤ nameSize → ¬UnitService g name) :
    UnitReplies e g config := by
  intro h fd packet addr k hr
  apply (reply_pairs hr).mono
  intro d request mid hserve hpairs
  obtain ⟨sentinel,hm,-⟩ := hpairs
  have hnone : ∀ name∈defaultName :: request.services,¬UnitService g name := by
    intro name hname
    rcases List.mem_cons.mp hname with rfl|hname
    · exact hd
    · obtain ⟨hlen,hin⟩ := served_name hserve hname
      rcases hin with rfl|hin
      · exact hd
      · exact hn name hin hlen
  refine ⟨sentinel,hm,⟨fun i ha => ?_,fun i f hf ha => ?_⟩⟩
  · obtain ⟨name,portarg,hname,hp⟩ := ha
    exact absurd ⟨.rr,portarg,hp,Or.inl rfl⟩ (hnone name (List.mem_of_getElem? hname))
  · obtain ⟨name,portarg,hname,hp⟩ := ha
    exact absurd ⟨f,portarg,hp,Or.inr hf⟩ (hnone name (List.mem_of_getElem? hname))

end

/-- Replies where one datagram is all that ever comes in. -/
def Delivers (d : Datagram) : (c : SysCall) → c.Reply → Prop
  | .recvfrom _,r => r=some d
  | _,_ => True

def oneDatagram (d : Datagram) : World System Unit := ⟨fun _ c r _ => Delivers d c r⟩

theorem oneDatagram_uneventful (d : Datagram) : Uneventful (oneDatagram d) where
  calm := by
    intro s c r hc
    cases c with
    | recvfrom fd => exact hc.elim
    | _ => trivial
  unread := by
    intro s n c r hr
    cases c with
    | recvfrom fd => cases hr
    | _ => trivial
  failed := by
    intro s n c r hr
    cases c with
    | recvfrom fd => cases hr
    | _ => trivial
  missing := fun _ _ => trivial
  unwritten := fun _ _ => trivial

/-- The datagrams among the events of a run. -/
def Received (d : Datagram) : (c : ServerCall) → c.Reply → Prop
  | .sys (.recvfrom _),r => r=some d
  | _,_ => True

theorem oneDatagram_step (d : Datagram) {e : Endian} {g : WeightGlobals} {s s' : Unit}
    {c : ServerCall} {r : c.Reply} (h : (served (oneDatagram d) e g).step s c r s') :
    Possible e g c r ∧ Received d c r := by
  refine ⟨h.answered,?_⟩
  cases c with
  | sys c =>
    cases c with
    | recvfrom fd =>
      cases h with
      | step hs rest =>
        cases rest
        exact hs
    | _ => trivial
  | _ => trivial

section

variable (e : Endian) {g : WeightGlobals} (config : LbcdConfig) {name : CStr}

/-- A daemon that is asked for one service sends the reply. -/
theorem one_reply (hd : HasProbe g defaultName) (hp : HasProbe g name)
    (ha : Allowed config.services name) (hl : name.bytes.length ≤ nameSize) :
    ∃ h fd packet addr k,
      Run (records e g) [] (handleRequests e g config) h (.call (.sys (.sendto fd packet addr)) k) ∧
        ∀ holds,InReply config.services h holds →
          ∃ request mid,request.services=[name] ∧ holds request mid := by
  let d : Datagram := ⟨queryPacket 3 [name],[]⟩
  let request : Request := ⟨[],3,0,1,[name]⟩
  have hpack : Packable 3 [name] :=
    Or.inr ⟨rfl,Nat.le_add_left 1 4,List.forall_mem_singleton.mpr hl⟩
  have htake : d.payload.take 2048=queryPacket 3 [name] :=
    List.take_of_length_le (by rw [queryPacket_length,List.length_singleton]; omega)
  have hserve : reactionTo config.services (some d)=.serve request := by
    change reaction config.services (d.payload.take 2048) []=_
    rw [htake,queryPacket_reaction hpack,if_pos (List.forall_mem_singleton.mpr ha)]
    rfl
  have hw := oneDatagram_uneventful d
  have hcount : request.services.length ≤ maxServices := Nat.le_add_left 1 4
  have hsends : ∃ packet,Visits (served (oneDatagram d) e g) ()
      (handleLbRequest e g config .initial request listenFdsStart) ()
      (ssys (.sendto listenFdsStart packet [])) :=
    hw.handleLbRequest_sends config .initial listenFdsStart hd
      (List.forall_mem_singleton.mpr hp) hcount ()
  obtain ⟨packet,hvisits⟩ := hsends
  have hrecv : (served (oneDatagram d) e g).step () (.sys (.recvfrom listenFdsStart)) (some d) () :=
    .step rfl (.refl () _)
  obtain ⟨k,hk,-⟩ := hw.handleRequests_visits hserve hrecv hvisits
  obtain ⟨tr,hr,hseen⟩ := hk.recorded (fun s c r s' => oneDatagram_step d) []
  refine ⟨tr,listenFdsStart,packet,[],k,hr,fun holds hi => ?_⟩
  obtain ⟨before,fd,d',mid,hh,-,hholds⟩ := hi
  have hlast : (⟨.sys (.recvfrom fd),some (some d')⟩ : Event Server)∈tr := by
    rw [hh]
    exact List.mem_append_right before List.mem_cons_self
  obtain ⟨r,hr,hd'⟩ := hseen _ hlast
  cases hr
  cases hd'
  exact ⟨request,mid,rfl,hholds request hserve⟩

/-- With other defaults than one a service of the kind gets a reply that is not documented. -/
theorem unitReplies_refuted (hi : g.defaultIncrement≠1) (hd : HasProbe g defaultName)
    (hu : UnitService g name) (ha : Allowed config.services name)
    (hl : name.bytes.length ≤ nameSize) : ¬UnitReplies e g config := by
  intro hall
  obtain ⟨f,portarg,hp,hf⟩ := hu
  obtain ⟨h,fd,packet,addr,k,hr,hlast⟩ :=
    one_reply e config hd (Option.ne_none_iff_exists'.mpr ⟨_,hp⟩) ha hl
  have hanswered : ∀ services : List CStr,services=[name] → Answered g services 1 f := by
    intro services hs
    rw [hs]
    exact ⟨name,portarg,rfl,hp⟩
  have hleft : ∃ w,pairOf packet 1=some [w,g.defaultIncrement.toNat] := by
    obtain ⟨request,mid,hs,sentinel,-,hrr,hmod⟩ := hlast _ (reply_pairs hr)
    rcases hf with rfl|hf
    · exact ⟨_,hrr 1 (hanswered _ hs)⟩
    · exact hmod 1 f hf (hanswered _ hs)
  have hone : ∃ w,pairOf packet 1=some [w,1] := by
    obtain ⟨request,mid,hs,sentinel,-,hunit⟩ := hlast _ (hall h fd packet addr k hr)
    rcases hf with rfl|hf
    · exact ⟨_,hunit.rr 1 (hanswered _ hs)⟩
    · exact hunit.modules 1 f hf (hanswered _ hs)
  obtain ⟨w,hw⟩ := hleft
  obtain ⟨w',hw'⟩ := hone
  have hpair := Option.some.inj (hw.symm.trans hw')
  have hincr : g.defaultIncrement.toNat=1 := (List.cons.inj (List.cons.inj hpair).2).1
  exact hi (UInt32.toNat_inj.mp hincr)

end

/-- The helper is not what rr or a module is asked for by. -/
theorem UnitService.allowed {g : WeightGlobals} {services : List CStr} {name : CStr}
    (hu : UnitService g name) (hm : name∈services) : Allowed services name := by
  obtain ⟨f,portarg,hp,hf⟩ := hu
  have hcmd : name.cutAt colon≠CStr.lit "cmd" := by
    intro hc
    have hentry : serviceToFunc g (some name)=.ok (some ⟨CStr.lit "cmd",some .cmd⟩) :=
      serviceToFunc_entry g (by decide) (by decide) hc.symm
    rw [probeOf,hentry] at hp
    cases hp
    exact hf.elim (by decide) id
  refine Or.inr ⟨hm,fun hc => hcmd ?_,fun hc => hcmd ?_⟩
  · rw [hc]
    decide
  · obtain ⟨rest,hrest⟩ := hc
    apply CStr.ext
    change name.bytes.takeWhile (·≠colon)=_
    rw [← hrest]
    rfl

/-- Without weights on the command line the helper decides what the defaults are. -/
theorem lbcdWeightInit_defaults {cmd service : Option CStr} {timeout : ℤ} {g : WeightGlobals}
    (hw : isWeights service≠0) (hg : lbcdWeightInit .initial cmd service timeout=.ok g) :
    (cmd=none ∧ g.defaultWeight=1 ∧ g.defaultIncrement=1) ∨
      (cmd≠none ∧ g.defaultIncrement=0 ∧ probeOf g defaultName=some (.cmd,none)) := by
  unfold lbcdWeightInit at hg
  rw [if_neg hw] at hg
  cases cmd with
  | none =>
    left
    let ones : WeightGlobals := ⟨none,service,1,1,none,timeout⟩
    have hbind : (serviceToFunc ones (some (service.getD (CStr.lit "load"))) >>= fun entry =>
        Except.ok { ones with lbcdDefaultFunctab := entry })=.ok g := hg
    cases hs : serviceToFunc ones (some (service.getD (CStr.lit "load"))) with
    | error d =>
      rw [hs] at hbind
      cases hbind
    | ok entry =>
      rw [hs] at hbind
      cases hbind
      exact ⟨rfl,rfl,rfl⟩
  | some c =>
    right
    cases hg
    exact ⟨Option.some_ne_none c,rfl,rfl⟩

/-- Without a helper the documentation is right, and with one only where neither rr nor a
module can be asked for. -/
theorem unitReplies_iff {cmd service : Option CStr} {timeout : ℤ} {g : WeightGlobals}
    (hw : isWeights service≠0) (hg : lbcdWeightInit .initial cmd service timeout=.ok g)
    (e : Endian) (config : LbcdConfig) :
    UnitReplies e g config ↔ cmd=none ∨
      ∀ name∈config.services,name.bytes.length ≤ nameSize → ¬UnitService g name := by
  rcases lbcdWeightInit_defaults hw hg with ⟨hc,hdw,hdi⟩|⟨hc,hdi,hd⟩
  · exact ⟨fun _ => Or.inl hc,fun _ => unitReplies_ones hdw hdi⟩
  · have hdefault : ¬UnitService g defaultName := by
      intro hu
      obtain ⟨f,portarg,hp,hf⟩ := hu
      cases hd.symm.trans hp
      exact hf.elim (by decide) id
    have hincr : g.defaultIncrement≠1 := by
      rw [hdi]
      decide
    have hprobe : HasProbe g defaultName := Option.ne_none_iff_exists'.mpr ⟨_,hd⟩
    constructor
    · intro hall
      refine Or.inr fun name hm hl hu => ?_
      exact unitReplies_refuted e config hincr hprobe hu (hu.allowed hm) hl hall
    · intro h
      rcases h with h|h
      · exact absurd h hc
      · exact unitReplies_none hdefault h

/-- Round robin by default, with http as a further service. -/
theorem unitReplies_robin :
    ∃ g,lbcdWeightInit .initial none (some (CStr.lit "rr")) 5=.ok g ∧
      UnitService g (CStr.lit "rr") ∧ UnitService g (CStr.lit "http") ∧
      UnitReplies .little g
        ⟨[],false,4330,none,[CStr.lit "http",CStr.lit "rr"],false,false⟩ := by
  have hw : isWeights (some (CStr.lit "rr"))≠0 := by decide
  have hall (g : WeightGlobals)
      (hg : lbcdWeightInit .initial none (some (CStr.lit "rr")) 5=.ok g) :=
    (unitReplies_iff hw hg .little
      ⟨[],false,4330,none,[CStr.lit "http",CStr.lit "rr"],false,false⟩).mpr (Or.inl rfl)
  exact ⟨_,rfl,⟨.rr,none,by decide,Or.inl rfl⟩,⟨.http,none,by decide,Or.inr trivial⟩,hall _ rfl⟩

def robinConfig : LbcdConfig := ⟨[],false,4330,none,[CStr.lit "rr"],false,false⟩

/-- With a helper and round robin, rr is answered with 0 and 0. -/
theorem helper_and_robin :
    ∃ g,isWeights (some (CStr.lit "rr"))≠0 ∧
      lbcdWeightInit .initial (some (CStr.lit "/usr/bin/helper")) (some (CStr.lit "rr")) 5=.ok g ∧
      ¬UnitReplies .little g robinConfig := by
  have hrefuted (g : WeightGlobals) (hi : g.defaultIncrement=0) (hd : HasProbe g defaultName)
      (hp : probeOf g (CStr.lit "rr")=some (.rr,none)) : ¬UnitReplies .little g robinConfig := by
    have hu : UnitService g (CStr.lit "rr") := ⟨.rr,none,hp,Or.inl rfl⟩
    have hincr : g.defaultIncrement≠1 := by
      rw [hi]
      decide
    exact unitReplies_refuted .little robinConfig hincr hd hu (hu.allowed List.mem_cons_self)
      (by decide)
  exact ⟨_,by decide,rfl,hrefuted _ rfl (Option.some_ne_none _) (by decide)⟩

end Lbcd
