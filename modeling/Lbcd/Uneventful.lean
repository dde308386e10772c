import Lbcd.Interaction.Layers
import Lbcd.Replies

namespace Lbcd

open Interaction CText ByteOrder

/-- Calls of the server's own code that leave the host as it is. -/
def Calm : SysCall → Prop
  | .sigaction _ _ => True
  | .sdListenFds => True
  | .message _ => True
  | .sdNotify => True
  | .raiseStop => True
  | .fuel => True
  | .exitSignaled => True
  | .networkWaitAny _ => True
  | .stackReply => True
  | .stackLocals => True
  | .time => True
  | .access _ => True
  | .sendto _ _ _ => True
  | _ => False

/-- No file can be read. -/
def unmeasured : Oracle System := Oracle.const fun c =>
  match c with
  | .fopen _ => some false
  | .message _ => some ()
  | .stat _ => some none
  | .utmpRecords => some []
  | _ => none

/-- A world where calls that fail, and those that are no one's concern, change nothing. -/
structure Uneventful {S : Type} (w : World System S) : Prop where
  calm : ∀ s c r,Calm c → w.step s c r s
  unread : ∀ s n c r,unmeasured n c=some r → w.step s c r s
  failed : ∀ s n c r,withNologin false failing n c=some r → w.step s c r s
  missing : ∀ s path,w.step s (.chdir path) false s
  unwritten : ∀ s path,w.step s (.createPid path) false s

/-- The system's surroundings as the server's own code sees them. -/
abbrev served {S : Type} (w : World System S) (e : Endian) (g : WeightGlobals) : World Server S :=
  w.over (implement e g)

namespace Uneventful

variable {S : Type} {w : World System S} (hw : Uneventful w) {e : Endian} {g : WeightGlobals}

include hw

theorem sys (s : S) {c : SysCall} (hc : Calm c) (r : c.Reply) :
    (served w e g).step s (.sys c) r s := by
  cases c with
  | message m => exact .refl s _
  | _ => exact .step (hw.calm s _ r hc) (.refl s _)

theorem boottime (s : S) : (served w e g).step s .kernelGetboottime none s :=
  Run.of_result (o := unmeasured) (hw.unread s) rfl

theorem load (s : S) : (served w e g).step s .kernelGetload ⟨none,none,none⟩ s :=
  Run.of_result (o := unmeasured) (hw.unread s) rfl

theorem users (s : S) (cache : UserCache) :
    (served w e g).step s (.getUserStats cache) (⟨0,0,0,0⟩,⟨0,0,0,0⟩) s :=
  Run.of_result (o := unmeasured) (hw.unread s) rfl

theorem tmpFull (s : S) (path : TmpDir) :
    (served w e g).step s (.tmpFull path) 0 s :=
  .step (hw.missing s path) (.refl s _)

/-- A weight function may find that nothing answers. -/
theorem weight (s : S) (f : WeightFunc) (slot : Slot) (portarg : Option CStr) (lb : LbcdReply) :
    ∃ r,(served w e g).step s (.weight f slot g.lbcdTimeout portarg lb) r s := by
  obtain ⟨stored,hst⟩ := Option.isSome_iff_exists.mp (stores_failing e g false f portarg lb)
  have hfound := weightFunction_stores e g f slot g.lbcdTimeout portarg lb
  have hrun := congrArg (Prog.result (withNologin false failing)) hfound
  rw [Prog.result_bind,Prog.result_bind,hst] at hrun
  obtain ⟨r,hr,-⟩ := Option.bind_eq_some_iff.mp hrun
  exact ⟨r,Run.of_result (hw.failed s) hr⟩

theorem logAll_run (log : List Message) (s : S) :
    Run (served w e g) s (logAll log) s (.ret ()) := by
  induction log with
  | nil => exact .refl s _
  | cons m ms ih => exact .step (hw.sys s (c := .message m) trivial ()) ih

theorem lbcdSetweight_ends {name : CStr} (hp : HasProbe g name) (lb : LbcdReply) (slot : Slot) :
    Ends (served w e g) (lbcdSetweight g lb slot name) := by
  obtain ⟨p,hp⟩ := Option.ne_none_iff_exists'.mp hp
  intro s
  rw [lbcdSetweight_of_probe hp]
  obtain ⟨r,hr⟩ := hw.weight s p.1 slot p.2 (lb.setIncr slot g.defaultIncrement)
  exact ⟨r.1,.step hr (.refl s _)⟩

theorem setRequested_ends {names : List CStr} (hp : ∀ name∈names,HasProbe g name) {i : ℕ}
    (hi : i+names.length ≤ maxServices+1) (lb : LbcdReply) :
    Ends (served w e g) (setRequested e g i names lb) := by
  induction names generalizing i lb with
  | nil => exact ends_ret _ lb
  | cons name names ih =>
    rw [List.length_cons] at hi
    have hlt : i < maxServices+1 := by omega
    apply (hw.lbcdSetweight_ends (hp name List.mem_cons_self) lb ⟨i,hlt⟩).bind
    intro lb
    have hnet := hostToNetwork_eq e lb ⟨i,hlt⟩
    change hostToNetwork e lb i=_ at hnet
    rw [hnet]
    exact ih (fun n hn => hp n (List.mem_cons_of_mem name hn)) (by omega) _

theorem lbcdSetLoad_visits {names : List CStr} (hp : ∀ name∈names,HasProbe g name)
    (hl : names.length ≤ maxServices) (s : S) (lb : LbcdReply) :
    Visits (served w e g) s (lbcdSetLoad e g lb names) s
      (lbcdSetweight g { lb with pad := 0,services := UInt8.ofNat names.length } 0
        defaultName) := by
  apply Visits.here
  intro b
  apply Ends.step fun s => hw.sys s (c := .access .sentinel) trivial false
  exact hw.setRequested_ends hp (by omega) (b.setSlot 0 ((b.slot 0).net e))

/-- Packing a reply comes to the default weight wherever tmp_full went. -/
theorem lbcdPackInfo_visits {names : List CStr} (hp : ∀ name∈names,HasProbe g name)
    (hl : names.length ≤ maxServices) {s t u : S} {v v' : ℤ}
    (htmp : (served w e g).step s (.tmpFull .tmp) v t)
    (hptmp : (served w e g).step t (.tmpFull .pTmpdir) v' u) (lb : LbcdReply)
    (protocol : UInt16) (simple : Bool) (cache : UserCache) :
    ∃ lb',Visits (served w e g) s (lbcdPackInfo e g lb protocol names simple cache) u
      (lbcdSetweight g lb' 0 defaultName) := by
  rw [lbcdPackInfo_eq]
  apply Exists.intro
  apply Visits.step (hw.sys s (c := .stackLocals) trivial ⟨0,0,0,0⟩)
  apply Visits.step (hw.boottime s)
  apply Visits.step (hw.sys s (c := .time) trivial 0)
  apply Visits.step (hw.load s)
  apply Visits.step (hw.users s cache)
  apply Visits.step htmp
  apply Visits.step hptmp
  apply (hw.lbcdSetLoad_visits hp hl u _).bind
  intro lb
  by_cases h : simple=false ∧ protocol < 3
  · rw [if_pos h]
    exact ends_ret _ _
  · rw [if_neg h]
    exact ends_ret _ _

/-- A reply that is not sent is logged. -/
theorem transmit_ends (request : Request) (fd : Fd) (p : LbcdReply × UserCache) :
    Ends (served w e g) (transmit e request fd p) := by
  let packet := (p.1.bytes e).take (44+8*request.services.length)
  apply Ends.step fun s => hw.sys s (c := .sendto fd packet request.addr) trivial none
  apply Ends.step fun s => hw.sys s (c := .message .cannotSend) trivial ()
  exact ends_ret _ p.2

/-- A run up to a point of the reply's making is one of handle_lb_request. -/
theorem handleLbRequest_of_sendReply {β : Type} {q : Prog Server β} {config : LbcdConfig}
    {cache : UserCache} {request : Request} {fd : Fd} {s t : S}
    (h : Visits (served w e g) s (sendReply e g config cache request fd) t q) :
    Visits (served w e g) s (handleLbRequest e g config cache request fd) t q := by
  rw [handleLbRequest]
  split_ifs
  · exact h.step (hw.sys s (c := .message (.requestFrom request.protocol)) trivial ())
  · exact h

theorem handleLbRequest_visits (config : LbcdConfig) (cache : UserCache) {request : Request}
    (fd : Fd) (hp : ∀ name∈request.services,HasProbe g name)
    (hl : request.services.length ≤ maxServices) {s t u : S} {v v' : ℤ}
    (htmp : (served w e g).step s (.tmpFull .tmp) v t)
    (hptmp : (served w e g).step t (.tmpFull .pTmpdir) v' u) :
    ∃ lb,Visits (served w e g) s (handleLbRequest e g config cache request fd) u
      (lbcdSetweight g lb 0 defaultName) := by
  obtain ⟨lb,hpack⟩ := hw.lbcdPackInfo_visits hp hl htmp hptmp
    { (default : LbcdReply) with h := replyHead e request } request.protocol config.simple cache
  refine ⟨lb,hw.handleLbRequest_of_sendReply ?_⟩
  rw [sendReply_eq e g config cache hl]
  apply Visits.step (hw.sys s (c := .stackReply) trivial default)
  exact hpack.bind fun p => hw.transmit_ends request fd p

/-- With a default service the reply is sent. -/
theorem handleLbRequest_sends (config : LbcdConfig) (cache : UserCache) {request : Request}
    (fd : Fd) (hd : HasProbe g defaultName) (hp : ∀ name∈request.services,HasProbe g name)
    (hl : request.services.length ≤ maxServices) (s : S) :
    ∃ packet,Visits (served w e g) s (handleLbRequest e g config cache request fd) s
      (ssys (.sendto fd packet request.addr)) := by
  obtain ⟨lb,hpack⟩ := hw.lbcdPackInfo_visits hp hl (hw.tmpFull s .tmp) (hw.tmpFull s .pTmpdir)
    { (default : LbcdReply) with h := replyHead e request } request.protocol config.simple cache
  obtain ⟨p,hrun⟩ := hpack.run (hw.lbcdSetweight_ends hd lb 0)
  refine ⟨(p.1.bytes e).take (44+8*request.services.length),
    hw.handleLbRequest_of_sendReply ?_⟩
  rw [sendReply_eq e g config cache hl]
  apply Visits.step (hw.sys s (c := .stackReply) trivial default)
  apply Visits.after (hrun.bind _)
  apply Visits.here
  intro sent
  split_ifs
  · exact Ends.step (fun s => hw.sys s (c := .message .cannotSend) trivial ()) (ends_ret _ _)
  · exact ends_ret _ _

/-- A request that comes in is handled. -/
theorem serveOne_visits {β : Type} {q : Prog Server β} {config : LbcdConfig} {cache : UserCache}
    {request : Request} {fd : Fd} {d : Datagram} {s t : S}
    (hd : reactionTo config.services (some d)=.serve request)
    (hr : (served w e g).step s (.sys (.recvfrom fd)) (some d) s)
    (h : Visits (served w e g) s (handleLbRequest e g config cache request fd) t q) :
    Visits (served w e g) s (serveOne e g config cache fd) t q := by
  obtain ⟨log,hlog⟩ := serveOne_eq e g config cache fd
  rw [hlog]
  apply Visits.step hr
  dsimp only [Prog.bind]
  rw [hd]
  exact h.after ((hw.logAll_run _ s).bind _)

/-- No PID file can be written before the loop, and one socket is passed. -/
def started : Oracle Server := Oracle.const fun c =>
  match c with
  | .sys (.sigaction _ _) => some true
  | .sys .sdListenFds => some 1
  | .sys (.createPid _) => some false
  | .sys (.message _) => some ()
  | .sys .sdNotify => some 0
  | .sys .raiseStop => some true
  | _ => none

theorem startUp_run (config : LbcdConfig) (s : S) :
    Run (served w e g) s (startUp config) s (.ret [listenFdsStart]) := by
  have hresult : (startUp config).result started=some [listenFdsStart] := by
    obtain ⟨bindaddrs,log,port,pidFile,services,simple,upstart⟩ := config
    cases pidFile with
    | none => cases upstart <;> rfl
    | some path => cases upstart <;> rfl
  refine Run.of_result ?_ hresult
  intro n c r hc
  cases c with
  | sys c =>
    cases c with
    | sigaction sig act => exact hw.sys s (c := .sigaction sig act) trivial r
    | sdListenFds => exact hw.sys s (c := .sdListenFds) trivial r
    | createPid path =>
      cases hc
      exact .step (hw.unwritten s path) (.refl s _)
    | message m => exact hw.sys s (c := .message m) trivial r
    | sdNotify => exact hw.sys s (c := .sdNotify) trivial r
    | raiseStop => exact hw.sys s (c := .raiseStop) trivial r
    | _ => cases hc
  | _ => cases hc

/-- A daemon that handles one request and is told to stop. -/
theorem handleRequests_visits {β : Type} {q : Prog Server β} {config : LbcdConfig}
    {request : Request} {d : Datagram} {s t : S}
    (hd : reactionTo config.services (some d)=.serve request)
    (hr : (served w e g).step s (.sys (.recvfrom listenFdsStart)) (some d) s)
    (h : Visits (served w e g) s (handleLbRequest e g config .initial request listenFdsStart) t q) :
    ∃ k,Run (served w e g) s (handleRequests e g config) t (q >>= k) ∧
      ∀ b,Run (served w e g) t (k b) t
        (removePidFile config >>= fun _ => closeAll [listenFdsStart]) := by
  have hloop : Visits (served w e g) s (serveLoop e g config [listenFdsStart] 2 .initial) t q := by
    apply Visits.step (hw.sys s (c := .exitSignaled) trivial false)
    apply Visits.step (hw.sys s (c := .networkWaitAny [listenFdsStart]) trivial
      (.ready listenFdsStart))
    apply (hw.serveOne_visits hd hr h).bind
    intro cache
    apply Ends.step fun s => hw.sys s (c := .exitSignaled) trivial true
    apply Ends.step fun s => hw.sys s (c := .message .exiting) trivial ()
    exact ends_ret _ ()
  obtain ⟨k,hk,hret⟩ := hloop
  refine ⟨fun b => k b >>= fun _ => removePidFile config >>= fun _ =>
    closeAll [listenFdsStart],?_,fun b => ?_⟩
  · rw [handleRequests]
    apply Run.seq (hw.startUp_run config s)
    apply Run.step (hw.sys s (c := .fuel) trivial (2 : ℕ))
    have hbind := hk.bind fun _ =>
      removePidFile config >>= fun _ => closeAll [listenFdsStart]
    rw [bind_assoc] at hbind
    exact hbind
  · obtain ⟨a,ha⟩ := hret b t
    exact ha.seq (.refl t _)

end Uneventful
end Lbcd
