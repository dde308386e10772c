import Lbcd.Answers

namespace Lbcd

open Interaction CText ByteOrder

/-- System calls of the server's own code while it reacts to a datagram. -/
def HandleCall : SysCall → Prop
  | .message _ => True
  | .stackReply => True
  | .sendto _ _ _ => True
  | _ => False

/-- System calls of the server's own code for a request. -/
def ServeCall : SysCall → Prop
  | .exitSignaled => True
  | .networkWaitAny _ => True
  | .outOfFuel => True
  | .recvfrom _ => True
  | .sendto _ _ _ => True
  | .stackReply => True
  | .stackLocals => True
  | .time => True
  | .access .sentinel => True
  | .fault .nullEntry => True
  | .fault .nullFunction => True
  | _ => False

/-- System calls of the main loop's own code. -/
def LoopCall : SysCall → Prop
  | .exitSignaled => True
  | .networkWaitAny _ => True
  | .outOfFuel => True
  | .recvfrom _ => True
  | .message _ => True
  | .die d => d≠.unknownService
  | _ => False

/-- Everything the server does with a datagram, where it asks for some names. -/
def Handling (g : WeightGlobals) (names : List CStr) (c : ServerCall) : Prop :=
  Packing g names c ∨ ∃ c',c=.sys c' ∧ HandleCall c'

/-- Everything the server does. A weight function is that of an allowed service, and finds
the default increment in its slot. -/
def Serving (g : WeightGlobals) (config : LbcdConfig) : ServerCall → Prop
  | .sys c => StartCall config c ∨ ServeCall c
  | .weight f slot timeout portarg lb =>
    timeout=g.lbcdTimeout ∧ (lb.slot slot).hostIncr=g.defaultIncrement ∧
      ∃ name,Allowed config.services name ∧ probeOf g name=some (f,portarg)
  | _ => True

theorem Starting.serving {g : WeightGlobals} {config : LbcdConfig} {c : ServerCall}
    (h : Starting config c) : Serving g config c := by
  cases c with
  | sys c => exact Or.inl h
  | _ => exact h.elim

theorem Packing.serving {g : WeightGlobals} {config : LbcdConfig} {names : List CStr}
    (hn : ∀ name∈names,Allowed config.services name) {c : ServerCall} (h : Packing g names c) :
    Serving g config c := by
  cases c with
  | sys c =>
    right
    cases c with
    | stackLocals => trivial
    | time => trivial
    | access f =>
      cases f with
      | sentinel => trivial
      | nologin => exact False.elim h
    | fault f =>
      cases f with
      | nullEntry => trivial
      | nullFunction => trivial
      | _ => exact False.elim h
    | _ => exact False.elim h
  | weight f slot timeout portarg lb =>
    obtain ⟨ht,hi,name,hm,hp⟩ := h
    refine ⟨ht,hi,name,?_,hp⟩
    rcases List.mem_cons.mp hm with rfl|hm
    · exact Or.inl rfl
    · exact hn name hm
  | _ => trivial

theorem Handling.serving {g : WeightGlobals} {config : LbcdConfig} {names : List CStr}
    (hn : ∀ name∈names,Allowed config.services name) {c : ServerCall} (h : Handling g names c) :
    Serving g config c := by
  rcases h with h|⟨c',rfl,h⟩
  · exact h.serving hn
  · cases c' with
    | message m => exact Or.inl trivial
    | stackReply => exact Or.inr trivial
    | sendto fd packet addr => exact Or.inr trivial
    | _ => exact h.elim

section

variable (e : Endian) (g : WeightGlobals) (config : LbcdConfig)

theorem sys_handling {names : List CStr} {c : SysCall} (h : HandleCall c) :
    Handling g names (.sys c) := Or.inr ⟨c,rfl,h⟩

/-- A packet that is sent, and a line in the log where it was not. -/
theorem sendto_handling {α : Type} (names : List CStr) (fd : Fd) (packet : List UInt8)
    (addr : SockAddr) (n : ℕ) (a : α) {post : α → Prop} (hp : post a) :
    (ssys (.sendto fd packet addr) >>= fun sent : Option ℕ =>
      if sent≠some n then message .cannotSend >>= fun _ => Prog.ret a
      else Prog.ret a).Meets (Handling g names) post := by
  refine ⟨sys_handling g trivial,fun sent => ?_⟩
  dsimp only [Prog.bind]
  split_ifs
  · exact ⟨sys_handling g trivial,fun _ => hp⟩
  · exact hp

theorem logAll_handling (names : List CStr) (log : List Message) :
    (logAll log).Meets (Handling g names) fun _ => True := by
  induction log with
  | nil => trivial
  | cons m ms ih => exact ⟨sys_handling g trivial,fun _ => ih⟩

theorem handleLbRequest_handling (cache : UserCache) {request : Request} (fd : Fd)
    (hl : request.services.length ≤ maxServices) :
    (handleLbRequest e g config cache request fd).Meets (Handling g request.services)
      fun _ => HasProbe g defaultName := by
  have hsend : (sendReply e g config cache request fd).Meets (Handling g request.services)
      fun _ => HasProbe g defaultName := by
    rw [sendReply_eq e g config cache hl]
    refine ⟨sys_handling g trivial,fun reply => ?_⟩
    have hpack (lb : LbcdReply) : (lbcdPackInfo e g lb request.protocol request.services
        config.simple cache).Meets (Handling g request.services) fun _ => HasProbe g defaultName :=
      (lbcdPackInfo_packing e g lb request.protocol hl config.simple cache).mono
        (fun _ hc => Or.inl hc) fun _ h => h
    apply (hpack _).bind
    intro p hd
    exact sendto_handling g _ fd _ request.addr _ _ hd
  rw [handleLbRequest]
  split_ifs
  · exact ⟨sys_handling g trivial,fun _ => hsend⟩
  · exact hsend

/-- The names that a reaction asks for are allowed and fit. -/
theorem servedNames_allowed (services : List CStr) (got : Option Datagram) :
    (∀ name∈servedNames (reactionTo services got),Allowed services name) ∧
      (servedNames (reactionTo services got)).length ≤ maxServices := by
  have hnil : (∀ name∈([] : List CStr),Allowed services name) ∧
      ([] : List CStr).length ≤ maxServices :=
    ⟨List.forall_mem_nil _,Nat.zero_le _⟩
  cases hr : reactionTo services got with
  | silent => exact hnil
  | error request status => exact hnil
  | serve request =>
    refine ⟨?_,served_count hr⟩
    cases got with
    | none => cases hr
    | some d => exact (reaction_serve hr).2

theorem react_handling (cache : UserCache) (fd : Fd) (r : Reaction)
    (hl : (servedNames r).length ≤ maxServices) :
    (react e g config cache fd r).Meets (Handling g (servedNames r))
      fun _ => ∀ request,r=.serve request → HasProbe g defaultName := by
  cases r with
  | silent =>
    intro request h
    cases h
  | error request status =>
    exact sendto_handling g _ fd _ request.addr 8 cache fun _ h => by cases h
  | serve request =>
    exact (handleLbRequest_handling e g config cache fd hl).mono (fun _ hc => hc)
      fun _ hd _ _ => hd

theorem starting_serving {α : Type} {p : Prog Server α}
    (h : p.Meets (Starting config) fun _ => True) :
    p.Meets (Serving g config) fun _ => True :=
  h.mono (fun _ hc => hc.serving) fun _ h => h

section

variable {e g config} {ok : ServerCall → Prop} (hloop : ∀ c,LoopCall c → ok (.sys c))
  (hreact : ∀ names c,(∀ name∈names,Allowed config.services name) → Handling g names c → ok c)

include hloop hreact

/-- A turn meets whatever recvfrom and the reactions to allowed names do. -/
theorem serveOne_meets (cache : UserCache) (fd : Fd) :
    (serveOne e g config cache fd).Meets ok fun _ => True := by
  obtain ⟨log,hlog⟩ := serveOne_eq e g config cache fd
  rw [hlog]
  refine ⟨hloop _ trivial,fun got => ?_⟩
  obtain ⟨hn,hl⟩ := servedNames_allowed config.services got
  have hall := (logAll_handling g (servedNames (reactionTo config.services got)) (log got)).bind
    fun _ _ => react_handling e g config cache fd (reactionTo config.services got) hl
  exact hall.mono (fun c hc => hreact _ c hn hc) fun _ _ => trivial

theorem serveLoop_meets (fds : List Fd) (fuel : ℕ) (cache : UserCache) :
    (serveLoop e g config fds fuel cache).Meets ok fun _ => True := by
  induction fuel generalizing cache with
  | zero => exact ⟨hloop _ trivial,fun r => r.elim⟩
  | succ fuel ih =>
    refine ⟨hloop _ trivial,fun exiting => ?_⟩
    cases exiting with
    | true => exact ⟨hloop _ trivial,fun _ => trivial⟩
    | false =>
      refine ⟨hloop _ trivial,fun any => ?_⟩
      cases any with
      | interrupted => exact ih cache
      | failed => exact ⟨hloop _ Die.noConfusion,fun r => r.elim⟩
      | ready fd => exact (serveOne_meets hloop hreact cache fd).bind fun cache _ => ih cache

end

theorem LoopCall.serving {c : SysCall} (h : LoopCall c) : Serving g config (.sys c) := by
  cases c with
  | exitSignaled => exact Or.inr trivial
  | networkWaitAny fds => exact Or.inr trivial
  | outOfFuel => exact Or.inr trivial
  | recvfrom fd => exact Or.inr trivial
  | message m => exact Or.inl trivial
  | die d => exact Or.inl h
  | _ => exact h.elim

theorem serveLoop_serving (fds : List Fd) (fuel : ℕ) (cache : UserCache) :
    (serveLoop e g config fds fuel cache).Meets (Serving g config) fun _ => True :=
  serveLoop_meets (fun _ hc => hc.serving g config) (fun _ _ hn hc => hc.serving hn) fds fuel cache

/-- All that the daemon does, in any run. -/
theorem handleRequests_serving :
    (handleRequests e g config).Meets (Serving g config) fun _ => True := by
  rw [handleRequests]
  apply (starting_serving g config (startUp_starting config)).bind
  intro fds _
  refine ⟨Or.inl trivial,fun fuel => ?_⟩
  apply (serveLoop_serving e g config fds fuel .initial).bind
  intro _ _
  apply (starting_serving g config (removePidFile_starting config)).bind
  intro _ _
  exact starting_serving g config (closeAll_starting config fds)

end

end Lbcd
