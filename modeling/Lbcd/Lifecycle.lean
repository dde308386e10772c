import Mathlib.Data.List.Nodup
import Lbcd.Serving

namespace Lbcd

open Interaction CText ByteOrder

/-- The daemon's sockets as its calls leave them, and the paths that it has called unlink
for; source is the socket of the last receive. -/
structure DaemonState where
  bound : List Fd
  closed : List Fd
  source : Option Fd
  ready : Bool
  exiting : Bool
  unlinked : List CStr

namespace DaemonState

def initial : DaemonState := ⟨[],[],none,false,false,[]⟩

def after (s : DaemonState) : (c : ServerCall) → c.Reply → DaemonState
  | .sys .sdListenFds,(status : ℤ) =>
    { s with bound := s.bound++(List.range status.toNat).map (listenFdsStart+·) }
  | .sys (.networkBindAll _),some fds => { s with bound := s.bound++fds }
  | .sys (.networkBind _ _ _),some fd => { s with bound := s.bound++[fd] }
  | .sys (.message .ready),_ => { s with ready := true }
  | .sys .exitSignaled,exiting => { s with exiting := exiting }
  | .sys (.recvfrom fd),_ => { s with source := some fd }
  | .sys (.unlink path),_ => { s with unlinked := s.unlinked++[path] }
  | .sys (.close fd),_ => { s with closed := s.closed++[fd] }
  | _,_ => s

/-- What the system does for its part: a new descriptor is new, network_bind_all fails
rather than return none, and a wait gives one of the descriptors. -/
def Gives (s : DaemonState) : (c : ServerCall) → c.Reply → Prop
  | .sys (.networkBindAll _),some fds => fds≠[] ∧ (s.bound++fds).Nodup
  | .sys (.networkBind _ _ _),some fd => fd∉s.bound
  | .sys (.networkWaitAny fds),.ready fd => fd∈fds
  | _,_ => True

/-- The daemon listens: its sockets are bound and not closed. -/
structure Open (s : DaemonState) : Prop where
  ready : s.ready=true
  staying : s.exiting=false
  bound : s.bound≠[]
  distinct : s.bound.Nodup
  closed : s.closed=[]
  unlinked : s.unlinked=[]

/-- A call in its place. Replies go out on the socket that the request came in on. -/
def InPlace (config : LbcdConfig) (s : DaemonState) : ServerCall → Prop
  | .sys (.sigaction _ _) => s.bound=[]
  | .sys .sdListenFds => s.bound=[] ∧ s.ready=false
  | .sys (.networkBindAll port) => s.bound=[] ∧ s.ready=false ∧ port=config.port
  | .sys (.networkBind _ addr port) =>
    addr∈config.bindaddrs ∧ s.ready=false ∧ port=config.port
  | .sys (.createPid path) => config.pidFile=some path ∧ s.bound≠[] ∧ s.ready=false
  | .sys .sdNotify => s.ready=true ∧ s.source=none
  | .sys .raiseStop => s.ready=true ∧ s.source=none
  | .sys .exitSignaled => s.Open
  | .sys (.networkWaitAny fds) => s.Open ∧ fds=s.bound
  | .sys (.recvfrom fd) => s.Open ∧ fd∈s.bound
  | .sys (.sendto fd _ _) => s.Open ∧ fd∈s.bound ∧ s.source=some fd
  | .sys (.unlink path) =>
    s.exiting=true ∧ config.pidFile=some path ∧ s.unlinked=[] ∧ s.closed=[]
  | .sys (.close fd) =>
    s.exiting=true ∧ s.unlinked=config.pidFile.toList ∧ s.closed++[fd]<+:s.bound ∧ fd∉s.closed
  | .weight _ _ _ _ _ => s.Open ∧ s.source≠none
  | _ => True

/-- The end of a run: every socket is closed once, and unlink was called once for the PID
file's path, if there is one. -/
structure Ended (config : LbcdConfig) (s : DaemonState) : Prop where
  exiting : s.exiting=true
  closed : s.closed=s.bound
  distinct : s.closed.Nodup
  unlinked : s.unlinked=config.pidFile.toList

end DaemonState

open DaemonState

def daemonLife : World Server DaemonState := ⟨fun s c r t => s.Gives c r ∧ t=s.after c r⟩

/-- Programs whose calls are in their place. -/
abbrev Orderly {α : Type} (config : LbcdConfig) (p : Prog Server α)
    (post : DaemonState → α → Prop) (s : DaemonState) : Prop :=
  p.Safe daemonLife (InPlace config) post s

section

variable {α : Type} {config : LbcdConfig} {s : DaemonState}

/-- Calls that change nothing and may stand anywhere. -/
def Idle : SysCall → Prop
  | .fuel => True
  | .outOfFuel => True
  | .die _ => True
  | .fault _ => True
  | .message .ready => False
  | .message _ => True
  | .inetPton6 _ => True
  | .closeExec _ => True
  | .writePid => True
  | .stackReply => True
  | .stackLocals => True
  | .time => True
  | .access _ => True
  | _ => False

theorem orderly_idle {c : SysCall} (hc : Idle c) {k : c.Reply → Prog Server α}
    {post : DaemonState → α → Prop} (h : ∀ r,Orderly config (k r) post s) :
    Orderly config (Prog.call (I := Server) (.sys c) k) post s := by
  have hplace : InPlace config s (.sys c) := by
    cases c with
    | _ => first | exact hc.elim | trivial
  have hsame : ∀ r : c.Reply,s.after (.sys c) r=s := by
    intro r
    cases c with
    | message m =>
      cases m with
      | ready => exact hc.elim
      | _ => rfl
    | _ => first | rfl | exact hc.elim
  refine ⟨hplace,fun r t hs => ?_⟩
  obtain ⟨-,rfl⟩ := hs
  rw [hsame r]
  exact h r

theorem setHandler_orderly (hs : s.bound=[]) (sig : Signal) (act : Disposition) :
    Orderly config (setHandler sig act) (fun t _ => t=s) s := by
  refine ⟨hs,fun set t hstep => ?_⟩
  obtain ⟨-,rfl⟩ := hstep
  cases set with
  | true => rfl
  | false => exact orderly_idle (c := .message .cannotSetHandler) trivial fun _ => rfl

/-- The loop over the addresses binds one socket for each. -/
theorem bindEach_orderly {addrs : List CStr} (ha : ∀ addr∈addrs,addr∈config.bindaddrs)
    (hr : s.ready=false) (hn : s.bound.Nodup) :
    Orderly config (bindEach config addrs) (fun t fds =>
      t={ s with bound := s.bound++fds } ∧ t.bound.Nodup ∧ fds.length=addrs.length) s := by
  induction addrs generalizing s with
  | nil => exact ⟨by rw [List.append_nil],hn,rfl⟩
  | cons addr addrs ih =>
    obtain ⟨haddr,hrest⟩ := List.forall_mem_cons.mp ha
    refine orderly_idle (c := .inetPton6 addr) trivial fun v6 => ?_
    refine ⟨⟨haddr,hr,rfl⟩,fun fd t hstep => ?_⟩
    obtain ⟨hfresh,rfl⟩ := hstep
    cases fd with
    | none => exact orderly_idle (c := .die (.bindAddress addr)) trivial fun r => r.elim
    | some fd =>
      have hn' : (s.bound++[fd]).Nodup := by
        refine List.nodup_append.mpr ⟨hn,List.nodup_singleton fd,fun a ha b hb => ?_⟩
        rw [List.mem_singleton.mp hb]
        exact ne_of_mem_of_not_mem ha hfresh
      refine orderly_idle (c := .closeExec fd) trivial fun marked => ?_
      cases marked with
      | false => exact orderly_idle (c := .die .closeExec) trivial fun r => r.elim
      | true =>
        apply (ih (s := { s with bound := s.bound++[fd] }) hrest hr hn').bind
        intro t fds ht
        obtain ⟨rfl,hn'',hl⟩ := ht
        refine ⟨?_,hn'',congrArg (·+1) hl⟩
        exact congrArg (fun fds => { s with bound := fds }) (List.append_assoc s.bound [fd] fds)

/-- The sockets are bound, or the daemon dies. -/
theorem bindSockets_orderly (hs : s.bound=[]) (hr : s.ready=false) :
    Orderly config (bindSockets config) (fun t fds =>
      t={ s with bound := fds } ∧ fds≠[] ∧ fds.Nodup) s := by
  refine ⟨⟨hs,hr⟩,fun (status : ℤ) t hstep => ?_⟩
  obtain ⟨-,rfl⟩ := hstep
  let s' : DaemonState := { s with
    bound := s.bound++(List.range status.toNat).map (listenFdsStart+·) }
  change Orderly config (if status < 0 then _ else if 0 < status then _ else _) _ s'
  have hpassed : s'={ s with bound := (List.range status.toNat).map (listenFdsStart+·) } := by
    change DaemonState.mk _ _ _ _ _ _=_
    rw [hs,List.nil_append]
  split_ifs with hneg hpos
  · exact orderly_idle (c := .die .listenFds) trivial fun r => r.elim
  · refine ⟨hpassed,?_,?_⟩
    · intro hnil
      have hlen := congrArg List.length hnil
      rw [List.length_map,List.length_range] at hlen
      change status.toNat=0 at hlen
      omega
    · exact List.nodup_range.map fun a b h => Nat.add_left_cancel h
  · have hzero : status.toNat=0 := by omega
    have hsame : s'=s := by
      rw [hpassed,hzero]
      rw [List.range_zero,List.map_nil,← hs]
    rw [hsame]
    cases haddrs : config.bindaddrs with
    | nil =>
      refine ⟨⟨hs,hr,rfl⟩,fun fds t hstep => ?_⟩
      obtain ⟨hgives,rfl⟩ := hstep
      cases fds with
      | none => exact orderly_idle (c := .die .createSocket) trivial fun r => r.elim
      | some fds =>
        obtain ⟨hne,hn⟩ := hgives
        rw [hs] at hn
        refine ⟨?_,hne,hn⟩
        change DaemonState.mk _ _ _ _ _ _=_
        rw [hs,List.nil_append]
    | cons addr addrs =>
      have hall : ∀ a∈addr :: addrs,a∈config.bindaddrs := fun a ha => haddrs ▸ ha
      apply (bindEach_orderly hall hr (hs ▸ List.nodup_nil)).mono
      intro t fds ht
      obtain ⟨rfl,hn,hl⟩ := ht
      rw [hs] at hn ⊢
      refine ⟨rfl,?_,hn⟩
      intro hnil
      rw [hnil] at hl
      cases hl

theorem createPidFile_orderly (hb : s.bound≠[]) (hr : s.ready=false) :
    Orderly config (createPidFile config) (fun t _ => t=s) s := by
  unfold createPidFile
  cases hp : config.pidFile with
  | none => rfl
  | some path =>
    refine ⟨⟨hp,hb,hr⟩,fun created t hstep => ?_⟩
    obtain ⟨-,rfl⟩ := hstep
    cases created with
    | true => exact orderly_idle (c := .writePid) trivial fun _ => rfl
    | false => exact orderly_idle (c := .message (.cannotCreatePid path)) trivial fun _ => rfl

theorem notifySystemd_orderly (hr : s.ready=true) (hs : s.source=none) :
    Orderly config notifySystemd (fun t _ => t=s) s := by
  refine ⟨⟨hr,hs⟩,fun (status : ℤ) t hstep => ?_⟩
  obtain ⟨-,rfl⟩ := hstep
  change Orderly config (if status < 0 then _ else _) _ _
  split_ifs
  · exact orderly_idle (c := .message .cannotNotifySystemd) trivial fun _ => rfl
  · rfl

theorem notifyUpstart_orderly (hr : s.ready=true) (hs : s.source=none) :
    Orderly config (notifyUpstart config) (fun t _ => t=s) s := by
  unfold notifyUpstart
  split_ifs
  · refine ⟨⟨hr,hs⟩,fun raised t hstep => ?_⟩
    obtain ⟨-,rfl⟩ := hstep
    cases raised with
    | true => rfl
    | false => exact orderly_idle (c := .message .cannotNotifyUpstart) trivial fun _ => rfl
  · rfl

/-- The daemon is open once it has started. -/
theorem startUp_orderly :
    Orderly config (startUp config) (fun t fds =>
      t.Open ∧ t.bound=fds) DaemonState.initial := by
  have hnone : initial.bound=[] := rfl
  apply (setHandler_orderly hnone .hup .ign).bind
  rintro t _ rfl
  apply (setHandler_orderly hnone .int .handler).bind
  rintro t _ rfl
  apply (setHandler_orderly hnone .term .handler).bind
  rintro t _ rfl
  apply (bindSockets_orderly hnone rfl).bind
  intro t fds hb
  obtain ⟨rfl,hne,hn⟩ := hb
  apply (createPidFile_orderly hne rfl).bind
  rintro t _ rfl
  refine ⟨trivial,fun _ t hstep => ?_⟩
  obtain ⟨-,rfl⟩ := hstep
  apply (notifySystemd_orderly rfl rfl).bind
  rintro t _ rfl
  apply (notifyUpstart_orderly rfl rfl).bind
  rintro t _ rfl
  exact ⟨⟨rfl,rfl,hne,hn,rfl,rfl⟩,rfl⟩

end

/-- What the server does with a datagram from a socket. -/
def OnSocket (fd : Fd) (c : ServerCall) : Prop :=
  Building c ∨ c=.sys .stackReply ∨ (∃ m,c=.sys (.message m)) ∨
    ∃ packet addr,c=.sys (.sendto fd packet addr)

section

variable (e : Endian) (g : WeightGlobals) (config : LbcdConfig)

/-- A packet that is sent, and a line in the log where it was not. -/
theorem sendto_onSocket {α : Type} (fd : Fd) (packet : List UInt8) (addr : SockAddr) (n : ℕ)
    (a : α) :
    (ssys (.sendto fd packet addr) >>= fun sent : Option ℕ =>
      if sent≠some n then message .cannotSend >>= fun _ => Prog.ret a
      else Prog.ret a).Meets (OnSocket fd) fun _ => True := by
  refine ⟨Or.inr (Or.inr (Or.inr ⟨packet,addr,rfl⟩)),fun sent => ?_⟩
  dsimp only [Prog.bind]
  split_ifs
  · exact ⟨Or.inr (Or.inr (Or.inl ⟨_,rfl⟩)),fun _ => trivial⟩
  · trivial

theorem react_onSocket (cache : UserCache) (fd : Fd) (r : Reaction)
    (hl : (servedNames r).length ≤ maxServices) :
    (react e g config cache fd r).Meets (OnSocket fd) fun _ => True := by
  cases r with
  | silent => trivial
  | error request status => exact sendto_onSocket fd _ request.addr 8 cache
  | serve request =>
    have hsend : (sendReply e g config cache request fd).Meets (OnSocket fd) fun _ => True := by
      rw [sendReply_eq e g config cache hl]
      refine ⟨Or.inr (Or.inl rfl),fun reply => ?_⟩
      have hpack (lb : LbcdReply) : (lbcdPackInfo e g lb request.protocol request.services
          config.simple cache).Meets (OnSocket fd) fun _ => True :=
        (lbcdPackInfo_packing e g lb request.protocol hl config.simple cache).mono
          (fun _ hc => Or.inl hc.building) fun _ _ => trivial
      apply (hpack _).bind
      intro p _
      exact sendto_onSocket fd _ request.addr _ _
    change (handleLbRequest e g config cache request fd).Meets _ _
    rw [handleLbRequest]
    split_ifs
    · exact ⟨Or.inr (Or.inr (Or.inl ⟨_,rfl⟩)),fun _ => hsend⟩
    · exact hsend

theorem serveOne_onSocket (cache : UserCache) (fd : Fd) :
    ∃ k,serveOne e g config cache fd=Prog.call (I := Server) (.sys (.recvfrom fd)) k ∧
      ∀ got,(k got).Meets (OnSocket fd) fun _ => True := by
  obtain ⟨log,hlog⟩ := serveOne_eq e g config cache fd
  refine ⟨_,hlog,fun got => ?_⟩
  obtain ⟨-,hl⟩ := servedNames_allowed config.services got
  have hmessages : (logAll (log got)).Meets (OnSocket fd) fun _ => True := by
    induction log got with
    | nil => trivial
    | cons m ms ih => exact ⟨Or.inr (Or.inr (Or.inl ⟨m,rfl⟩)),fun _ => ih⟩
  exact hmessages.bind fun _ _ =>
    react_onSocket e g config cache fd (reactionTo config.services got) hl

end

/-- What is done with a datagram is in its place and leaves the daemon open. -/
theorem onSocket_inPlace (config : LbcdConfig) {s : DaemonState} (ho : s.Open) {fd : Fd}
    (hfd : fd∈s.bound) (hs : s.source=some fd) {c : ServerCall} (hc : OnSocket fd c) :
    InPlace config s c ∧ ∀ r,s.after c r=s := by
  have hready : { s with ready := true }=s := by
    rw [← ho.ready]
  rcases hc with hc|rfl|⟨m,rfl⟩|⟨packet,addr,rfl⟩
  · cases c with
    | sys c =>
      cases c with
      | _ => first | exact hc.elim | exact ⟨trivial,fun _ => rfl⟩
    | weight f slot timeout portarg lb =>
      refine ⟨⟨ho,?_⟩,fun _ => rfl⟩
      rw [hs]
      exact Option.some_ne_none fd
    | _ => exact ⟨trivial,fun _ => rfl⟩
  · exact ⟨trivial,fun _ => rfl⟩
  · cases m with
    | ready => exact ⟨trivial,fun _ => hready⟩
    | _ => exact ⟨trivial,fun _ => rfl⟩
  · exact ⟨⟨ho,hfd,hs⟩,fun _ => rfl⟩

section

variable (e : Endian) (g : WeightGlobals) {config : LbcdConfig} {s : DaemonState}

/-- A datagram is answered on the socket that it came in on. -/
theorem serveOne_orderly (ho : s.Open) {fd : Fd} (hfd : fd∈s.bound) (cache : UserCache) :
    Orderly config (serveOne e g config cache fd)
      (fun t _ => t={ s with source := some fd }) s := by
  obtain ⟨k,hk,hcalls⟩ := serveOne_onSocket e g config cache fd
  rw [hk]
  refine ⟨⟨ho,hfd⟩,fun got t hstep => ?_⟩
  obtain ⟨-,rfl⟩ := hstep
  have ho' : DaemonState.Open { s with source := some fd } :=
    ⟨ho.ready,ho.staying,ho.bound,ho.distinct,ho.closed,ho.unlinked⟩
  have hplace : ∀ t c,t={ s with source := some fd } → OnSocket fd c → InPlace config t c := by
    rintro t c rfl hc
    exact (onSocket_inPlace config ho' hfd rfl hc).1
  have hkeep : ∀ t c r t',t={ s with source := some fd } → OnSocket fd c →
      daemonLife.step t c r t' → t'={ s with source := some fd } := by
    rintro t c r t' rfl hc ⟨-,rfl⟩
    exact (onSocket_inPlace config ho' hfd rfl hc).2 r
  exact ((hcalls got).safe hplace hkeep rfl).mono fun _ _ h => h.1

/-- The main loop ends when an exit is signaled, with everything still open. -/
theorem serveLoop_orderly (ho : s.Open) (fuel : ℕ) (cache : UserCache) :
    Orderly config (serveLoop e g config s.bound fuel cache)
      (fun t _ => ∃ source,t={ s with source := source, exiting := true }) s := by
  induction fuel generalizing s cache with
  | zero => exact orderly_idle (c := .outOfFuel) trivial fun r => r.elim
  | succ fuel ih =>
    refine ⟨ho,fun exiting t hstep => ?_⟩
    obtain ⟨-,rfl⟩ := hstep
    cases exiting with
    | true => exact orderly_idle (c := .message .exiting) trivial fun _ => ⟨s.source,rfl⟩
    | false =>
      have hsame : s.after (.sys .exitSignaled) false=s := by
        change { s with exiting := false }=s
        rw [← ho.staying]
      rw [hsame]
      refine ⟨⟨ho,rfl⟩,fun any t hstep => ?_⟩
      obtain ⟨hgives,ht⟩ := hstep
      rw [show t=s from ht]
      cases any with
      | interrupted => exact ih ho cache
      | failed => exact orderly_idle (c := .die .waitConnections) trivial fun r => r.elim
      | ready fd =>
        apply (serveOne_orderly e g ho hgives cache).bind
        rintro t cache' rfl
        have ho' : DaemonState.Open { s with source := some fd } :=
          ⟨ho.ready,ho.staying,ho.bound,ho.distinct,ho.closed,ho.unlinked⟩
        exact ih ho' cache'

/-- The PID file's path is unlinked as it was given, whether or not the file was created. -/
theorem removePidFile_orderly (he : s.exiting=true) (hc : s.closed=[]) (hu : s.unlinked=[]) :
    Orderly config (removePidFile config)
      (fun t _ => t={ s with unlinked := config.pidFile.toList }) s := by
  unfold removePidFile
  cases hp : config.pidFile with
  | none =>
    change s={ s with unlinked := [] }
    rw [← hu]
  | some path =>
    refine ⟨⟨he,hp,hu,hc⟩,fun _ t hstep => ?_⟩
    obtain ⟨-,rfl⟩ := hstep
    exact congrArg (fun paths => { s with unlinked := paths++[path] }) hu

theorem closeAll_orderly (he : s.exiting=true) (hu : s.unlinked=config.pidFile.toList)
    (hn : s.bound.Nodup) {fds : List Fd} (hb : s.closed++fds=s.bound) :
    Orderly config (closeAll fds) (fun t _ => t={ s with closed := s.bound }) s := by
  induction fds generalizing s with
  | nil =>
    have hc : s.closed=s.bound := by rwa [List.append_nil] at hb
    exact congrArg (fun fds => { s with closed := fds }) hc
  | cons fd fds ih =>
    have hb' : s.closed++[fd]++fds=s.bound := by
      rw [List.append_assoc]
      exact hb
    have hfresh : fd∉s.closed := by
      rw [← hb] at hn
      intro hm
      exact (List.nodup_append.mp hn).2.2 fd hm fd List.mem_cons_self rfl
    refine ⟨⟨he,hu,⟨fds,hb'⟩,hfresh⟩,fun _ t hstep => ?_⟩
    obtain ⟨-,rfl⟩ := hstep
    exact ih (s := { s with closed := s.closed++[fd] }) he hu hn hb'

end

/-- What the daemon does over its life: it is ready once its sockets are bound and it has
tried to write its PID file, receives and answers on these sockets only, on each as long as
no exit is signaled, and on its way out calls unlink for the PID file's path and closes every
socket once. -/
structure DaemonLife (e : Endian) (g : WeightGlobals) (config : LbcdConfig) : Prop where
  called : ∀ s c k,Run daemonLife .initial (handleRequests e g config) s (.call c k) →
    InPlace config s c
  returned : ∀ s,Run daemonLife .initial (handleRequests e g config) s (.ret ()) →
    s.Ended config

theorem handleRequests_orderly (e : Endian) (g : WeightGlobals) (config : LbcdConfig) :
    Orderly config (handleRequests e g config) (fun t _ => t.Ended config) .initial := by
  rw [handleRequests]
  apply startUp_orderly.bind
  intro t fds ht
  obtain ⟨ho,rfl⟩ := ht
  refine orderly_idle (c := .fuel) trivial fun fuel => ?_
  apply (serveLoop_orderly e g ho fuel .initial).bind
  intro u _ hu
  obtain ⟨source,rfl⟩ := hu
  let leaving : DaemonState := { t with source := source, exiting := true }
  apply (removePidFile_orderly (s := leaving) rfl ho.closed ho.unlinked).bind
  rintro u _ rfl
  have hb : t.closed++t.bound=t.bound := by
    rw [ho.closed,List.nil_append]
  apply (closeAll_orderly (s := { leaving with unlinked := config.pidFile.toList }) rfl rfl
    ho.distinct hb).mono
  rintro u _ rfl
  exact ⟨rfl,rfl,ho.distinct,rfl⟩

theorem daemon_life (e : Endian) (g : WeightGlobals) (config : LbcdConfig) :
    DaemonLife e g config where
  called _ _ _ hr := ((handleRequests_orderly e g config).run hr).1
  returned _ hr := (handleRequests_orderly e g config).run hr

end Lbcd
