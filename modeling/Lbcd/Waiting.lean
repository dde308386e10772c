import Mathlib.Data.Finset.Insert
import Lbcd.Interaction.Layers
import Lbcd.Lifecycle

namespace Lbcd

open Interaction CText ByteOrder

/-- FD_SETSIZE: a set of descriptors has room for those below it. -/
def fdSetsize : ℕ := 1024

inductive SelectResult where
  | failed (eintr : Bool)
  | ready (readfds : Finset Fd)

/-- Calls of network_wait_any, and the system calls of the rest of the program. An overrun is
FD_SET of a descriptor that the set has no room for; errno is read where no call has set it. -/
inductive WaitCall where
  | sys (c : SysCall)
  | overrun (fd : Fd)
  | select (nfds : ℤ) (readfds : Finset Fd)
  | errno

@[reducible] def WaitCall.Reply : WaitCall → Type
  | sys c => c.Reply
  | overrun _ => Empty
  | select _ _ => SelectResult
  | errno => Bool

abbrev Waiting : Interface := ⟨WaitCall,WaitCall.Reply⟩

def wcall (c : WaitCall) : Prog Waiting c.Reply := Prog.call (I := Waiting) c Prog.ret

/-- The loop that fills the set and finds the largest descriptor. -/
def fdSets : List Fd → Finset Fd → ℤ → Prog Waiting (Finset Fd × ℤ)
  | [],readfds,maxfd => return (readfds,maxfd)
  | fd :: fds,readfds,maxfd =>
    if fd < fdSetsize then
      fdSets fds (insert fd readfds) (if (fd : ℤ) > maxfd then (fd : ℤ) else maxfd)
    else Prog.call (I := Waiting) (.overrun fd) Empty.elim

/-- The loop that looks for a descriptor in the set. -/
def firstReady (fds : List Fd) (readfds : Finset Fd) : Prog Waiting WaitAny :=
  match fds.find? (·∈readfds) with
  | some fd => return .ready fd
  | none => do
    let eintr : Bool ← wcall .errno
    return if eintr then .interrupted else .failed

def networkWaitAny (fds : List Fd) : Prog Waiting WaitAny := do
  let (readfds,maxfd) ← fdSets fds ∅ (-1)
  let status : SelectResult ← wcall (.select (maxfd+1) readfds)
  match status with
  | .failed eintr => return if eintr then .interrupted else .failed
  | .ready readfds => firstReady fds readfds

/-- The server's calls in system calls, with network_wait_any replaced by its code. -/
def linkWait (e : Endian) (g : WeightGlobals) : (c : ServerCall) → Prog Waiting c.Reply
  | .sys (.networkWaitAny fds) => networkWaitAny fds
  | .sys c => wcall (.sys c)
  | c => (implement e g c).expand fun c => wcall (.sys c)

/-- The listening sockets, the datagrams in the buffer of each, those that were there at the
last select, and all that were received so far. -/
structure Inbox where
  bound : List Fd
  queue : Fd → List Datagram
  polled : Fd → List Datagram
  taken : List (Fd × Datagram)

namespace Inbox

/-- Any number of datagrams may come in on any socket. -/
structure Grows (s t : Inbox) : Prop where
  bound : t.bound=s.bound
  taken : t.taken=s.taken
  queue : ∀ fd,s.queue fd<+:t.queue fd

structure Arrives (s t : Inbox) : Prop extends Grows s t where
  polled : t.polled=s.polled

/-- A select returns what can be received from without a wait, and waits until there is such;
a receive takes the first datagram, or fails. -/
def After (s : Inbox) : (c : WaitCall) → c.Reply → Inbox → Prop
  | .select nfds readfds,.ready found,t =>
    (∃ fd,fd∈found) ∧ (∀ fd,fd∈found ↔ fd∈readfds ∧ (fd : ℤ) < nfds ∧ s.queue fd≠[]) ∧
      t={ s with polled := s.queue }
  | .sys (.recvfrom fd),some d,t =>
    ∃ rest,s.queue fd=d :: rest ∧
      t={ s with queue := Function.update s.queue fd rest, taken := s.taken++[(fd,d)] }
  | .sys .sdListenFds,(status : ℤ),t =>
    t={ s with bound := s.bound++(List.range status.toNat).map (listenFdsStart+·) }
  | .sys (.networkBindAll _),some fds,t => t={ s with bound := s.bound++fds }
  | .sys (.networkBind _ _ _),some fd,t => t={ s with bound := s.bound++[fd] }
  | _,_,t => t=s

def Step (s : Inbox) (c : WaitCall) (r : c.Reply) (t : Inbox) : Prop :=
  ∃ u,s.Arrives u ∧ u.After c r t

/-- A receive is from a socket with a datagram to be received, which had one at the last select
and is the first that did. Every listening socket is selected on. -/
def Ordered (s : Inbox) : WaitCall → Prop
  | .overrun fd => fd∈s.bound ∧ fdSetsize ≤ fd
  | .select nfds readfds =>
    (∀ fd,fd∈readfds ↔ fd∈s.bound) ∧ ∀ fd∈s.bound,(fd : ℤ) < nfds
  | .errno => False
  | .sys (.networkWaitAny _) => False
  | .sys (.recvfrom fd) => s.queue fd≠[] ∧ s.polled fd≠[] ∧
    ∃ earlier later,s.bound=earlier++fd :: later ∧ ∀ fd'∈earlier,s.polled fd'=[]
  | _ => True

/-- Nothing but an arrival lets a call return. -/
def Blocked (s : Inbox) : WaitCall → Prop
  | .select nfds readfds => ∀ fd∈readfds,(fd : ℤ) < nfds → s.queue fd=[]
  | .sys (.recvfrom fd) => s.queue fd=[]
  | _ => False

end Inbox

open Inbox

def arriving : World Waiting Inbox := ⟨Inbox.Step⟩

/-- Calls that have nothing to do with the listening sockets. -/
def Elsewhere : SysCall → Prop
  | .sdListenFds => False
  | .networkBindAll _ => False
  | .networkBind _ _ _ => False
  | .networkWaitAny _ => False
  | .recvfrom _ => False
  | _ => True

namespace Inbox

theorem Arrives.refl (s : Inbox) : s.Arrives s := ⟨⟨rfl,rfl,fun _ => List.prefix_refl _⟩,rfl⟩

theorem Grows.trans {s t u : Inbox} (h : s.Grows t) (h' : t.Grows u) : s.Grows u where
  bound := h'.bound.trans h.bound
  taken := h'.taken.trans h.taken
  queue fd := (h.queue fd).trans (h'.queue fd)

theorem Arrives.trans {s t u : Inbox} (h : s.Arrives t) (h' : t.Arrives u) : s.Arrives u :=
  ⟨h.toGrows.trans h'.toGrows,h'.polled.trans h.polled⟩

theorem Arrives.ne_nil {s t : Inbox} (h : s.Arrives t) {fd : Fd} (hs : s.queue fd≠[]) :
    t.queue fd≠[] := by
  intro ht
  have hq := h.queue fd
  rw [ht,List.prefix_nil] at hq
  exact hs hq

theorem elsewhere_after {c : SysCall} (hc : Elsewhere c) {r : c.Reply} {s t : Inbox}
    (h : s.After (.sys c) r t) : t=s := by
  cases c with
  | _ => first | exact h | exact hc.elim

theorem elsewhere_ordered {c : SysCall} (hc : Elsewhere c) (s : Inbox) : s.Ordered (.sys c) := by
  cases c with
  | _ => first | exact hc.elim | trivial

end Inbox

/-- Programs whose calls are in order. -/
abbrev Attends {α : Type} (p : Prog Waiting α) (post : Inbox → α → Prop) (s : Inbox) : Prop :=
  p.Safe arriving Ordered post s

theorem wcall_attends {c : SysCall} (hc : Elsewhere c) (s : Inbox) :
    Attends (wcall (.sys c)) (fun t _ => s.Arrives t) s := by
  refine ⟨elsewhere_ordered hc s,fun r t hstep => ?_⟩
  obtain ⟨u,hu,ht⟩ := hstep
  rw [elsewhere_after hc ht]
  exact hu

/-- The loop sets every descriptor and bounds them all, or comes to one without room. -/
theorem fdSets_attends {s : Inbox} (fds : List Fd) (readfds : Finset Fd) (maxfd : ℤ)
    (hfds : ∀ fd∈fds,fd∈s.bound) (hmax : ∀ fd∈readfds,(fd : ℤ) ≤ maxfd) :
    Attends (fdSets fds readfds maxfd) (fun t r => t=s ∧
      (∀ fd,fd∈r.1 ↔ fd∈readfds ∨ fd∈fds) ∧ ∀ fd∈r.1,(fd : ℤ) ≤ r.2) s := by
  induction fds generalizing readfds maxfd with
  | nil => exact ⟨rfl,fun fd => by simp,hmax⟩
  | cons fd fds ih =>
    obtain ⟨hfd,hrest⟩ := List.forall_mem_cons.mp hfds
    rw [fdSets]
    by_cases hsize : fd < fdSetsize
    · rw [if_pos hsize]
      have hmax' : ∀ fd'∈insert fd readfds,
          (fd' : ℤ) ≤ if (fd : ℤ) > maxfd then (fd : ℤ) else maxfd := by
        intro fd' hm
        rcases Finset.mem_insert.mp hm with rfl|hm
        · split_ifs <;> omega
        · have hle := hmax fd' hm
          split_ifs <;> omega
      apply (ih _ _ hrest hmax').mono
      intro t r hr
      obtain ⟨rfl,hmem,hle⟩ := hr
      refine ⟨rfl,fun fd' => ?_,hle⟩
      rw [hmem,Finset.mem_insert,List.mem_cons]
      tauto
    · rw [if_neg hsize]
      exact ⟨⟨hfd,Nat.le_of_not_lt hsize⟩,fun r => r.elim⟩

/-- After a wait: the first listening socket that has something to be received, and what there
was before has been looked at. -/
structure Inbox.Waited (s t : Inbox) (any : WaitAny) : Prop extends Grows s t where
  ordered : ∀ fd,any=.ready fd → t.Ordered (.sys (.recvfrom fd))
  polled : ∀ fd,any=.ready fd → ∀ fd',s.queue fd'<+:t.polled fd'

theorem networkWaitAny_attends (s : Inbox) :
    Attends (networkWaitAny s.bound) s.Waited s := by
  apply (fdSets_attends s.bound ∅ (-1) (fun _ h => h) (by simp)).bind
  intro t r hr
  obtain ⟨rfl,hmem,hle⟩ := hr
  have hall : ∀ fd,fd∈r.1 ↔ fd∈t.bound := fun fd => by simp [hmem]
  have hbound : ∀ fd∈t.bound,(fd : ℤ) < r.2+1 := fun fd hfd => by
    have hfd' := hle fd ((hall fd).mpr hfd)
    omega
  refine ⟨⟨hall,hbound⟩,fun status u hstep => ?_⟩
  obtain ⟨v,hv,hafter⟩ := hstep
  cases status with
  | failed eintr =>
    rw [show u=v from hafter]
    have hnot (fd : Fd) : (if eintr then WaitAny.interrupted else WaitAny.failed)≠.ready fd := by
      cases eintr <;> exact WaitAny.noConfusion
    exact ⟨hv.toGrows,fun fd h => absurd h (hnot fd),fun fd h => absurd h (hnot fd)⟩
  | ready found =>
    obtain ⟨⟨fd0,hfd0⟩,hfound,rfl⟩ := hafter
    have hready : ∀ fd∈t.bound,fd∈found ↔ v.queue fd≠[] := by
      intro fd hfd
      rw [hfound]
      exact ⟨fun h => h.2.2,fun h => ⟨(hall fd).mpr hfd,hbound fd hfd,h⟩⟩
    cases hfind : t.bound.find? (·∈found) with
    | none =>
      have hnone := List.find?_eq_none.mp hfind fd0 ((hall fd0).mp ((hfound fd0).mp hfd0).1)
      exact absurd hfd0 (by simpa using hnone)
    | some fd =>
      change Attends (firstReady t.bound found) _ _
      rw [firstReady,hfind]
      refine ⟨⟨hv.bound,hv.taken,hv.queue⟩,fun fd' hfd' => ?_,fun _ _ => hv.queue⟩
      cases hfd'
      obtain ⟨hin,earlier,later,hsplit,hearlier⟩ := List.find?_eq_some_iff_append.mp hfind
      have hmem : fd∈t.bound := by simp [hsplit]
      have hqueue : v.queue fd≠[] := (hready fd hmem).mp (by simpa using hin)
      refine ⟨hqueue,hqueue,earlier,later,?_,fun fd' hfd' => ?_⟩
      · rw [← hsplit]
        exact hv.bound
      · have hnot : fd'∉found := by simpa using hearlier fd' hfd'
        have hin' : fd'∈t.bound := by simp [hsplit,hfd']
        by_contra hne
        exact hnot ((hready fd' hin').mpr hne)

/-- What the server's own calls may do with the listening sockets. -/
def InTurn (s : Inbox) : ServerCall → Prop
  | .sys (.networkWaitAny fds) => fds=s.bound
  | .sys (.recvfrom fd) => s.Ordered (.sys (.recvfrom fd))
  | _ => True

def Away : ServerCall → Prop
  | .sys c => Elsewhere c
  | _ => True

section

variable (e : Endian) (g : WeightGlobals)

theorem footprint_elsewhere {c : ServerCall} (hc : Away c) {c' : SysCall}
    (h : Footprint g c c') : Elsewhere c' := by
  cases c with
  | sys c =>
    cases h
    exact hc
  | weight f slot timeout portarg lb =>
    cases f with
    | load =>
      cases h
      trivial
    | _ =>
      cases c' with
      | _ => first | exact h.elim | trivial
  | _ =>
    cases c' with
    | _ => first | exact h.elim | trivial

theorem linkWait_sys {c : SysCall} (hc : ∀ fds,c≠.networkWaitAny fds) :
    linkWait e g (.sys c)=wcall (.sys c) := by
  cases c with
  | networkWaitAny fds => exact absurd rfl (hc fds)
  | _ => rfl

theorem Elsewhere.not_wait {c : SysCall} (hc : Elsewhere c) (fds : List Fd) :
    c≠.networkWaitAny fds := by
  rintro rfl
  exact hc

theorem linkWait_away {c : ServerCall} (hc : Away c) (s : Inbox) :
    Attends (linkWait e g c) (fun t _ => s.Arrives t) s := by
  have hmeasure : Attends ((implement e g c).expand fun c => wcall (.sys c))
      (fun t _ => s.Arrives t ∧ True) s := by
    refine (implement_calls e g c).expand (fun c' t ht hc' => ?_) (Arrives.refl s)
    exact (wcall_attends (footprint_elsewhere g hc hc') t).mono fun u _ hu => ht.trans hu
  cases c with
  | sys c =>
    have hc' : Elsewhere c := hc
    rw [linkWait_sys e g hc'.not_wait]
    exact wcall_attends hc' s
  | _ => exact hmeasure.mono fun t _ h => h.1

theorem linkWait_attends {s : Inbox} {c : ServerCall} (hc : InTurn s c) :
    Attends (linkWait e g c) (fun _ _ => True) s := by
  have haway (h : Away c) := (linkWait_away e g h s).mono fun _ _ _ => trivial
  cases c with
  | sys c =>
    cases c with
    | networkWaitAny fds =>
      cases hc
      exact (networkWaitAny_attends s).mono fun _ _ _ => trivial
    | recvfrom fd => exact ⟨hc,fun _ _ _ => trivial⟩
    | sdListenFds => exact ⟨trivial,fun _ _ _ => trivial⟩
    | networkBindAll port => exact ⟨trivial,fun _ _ _ => trivial⟩
    | networkBind v6 addr port => exact ⟨trivial,fun _ _ _ => trivial⟩
    | _ => exact haway trivial
  | _ => exact haway trivial

/-- The server over the code of network_wait_any. -/
def attended : World Server Inbox := arriving.over (linkWait e g)

/-- Programs whose calls are in turn, and made where something holds. -/
abbrev Patient {α : Type} (inv : Inbox → Prop) (p : Prog Server α) (post : Inbox → α → Prop)
    (s : Inbox) : Prop :=
  p.Safe (attended e g) (fun t c => inv t ∧ InTurn t c) post s

variable {e g}

theorem away_step {c : ServerCall} (hc : Away c) {s t : Inbox} {r : c.Reply}
    (h : (attended e g).step s c r t) : s.Arrives t :=
  (linkWait_away e g hc s).run h

theorem away_inTurn {c : ServerCall} (hc : Away c) (s : Inbox) : InTurn s c := by
  cases c with
  | sys c =>
    cases c with
    | networkWaitAny fds => exact hc.elim
    | recvfrom fd => exact hc.elim
    | _ => trivial
  | _ => trivial

variable {inv : Inbox → Prop}

/-- What has nothing to do with the listening sockets leaves them as they are. -/
theorem away_patient (hkeep : ∀ s t,inv s → s.Grows t → inv t) {α : Type} {p : Prog Server α}
    {post : α → Prop} (h : p.Meets Away post) {s : Inbox} (hs : inv s) :
    Patient e g inv p (fun t _ => s.Arrives t ∧ inv t) s := by
  have hsafe : Patient e g inv p (fun t a => s.Arrives t ∧ post a) s :=
    h.safe (fun t _ ht hc => ⟨hkeep s t hs ht.toGrows,away_inTurn hc t⟩)
      (fun _ _ _ _ ht hc hstep => ht.trans (away_step hc hstep)) (.refl s)
  exact hsafe.mono fun t a ht => ⟨ht.1,hkeep s t hs ht.1.toGrows⟩

theorem sys_step {c : SysCall} (hc : ∀ fds,c≠.networkWaitAny fds) {s t : Inbox} {r : c.Reply}
    (h : (attended e g).step s (.sys c) r t) : Inbox.Step s (.sys c) r t := by
  have hcall : Run arriving s (wcall (.sys c)) t (.ret r) := linkWait_sys e g hc ▸ h
  cases hcall with
  | step hs rest =>
    cases rest
    exact hs

theorem wait_step {s t : Inbox} {any : WaitAny}
    (h : (attended e g).step s (.sys (.networkWaitAny s.bound)) any t) : s.Waited t any :=
  (networkWaitAny_attends s).run h

variable {config : LbcdConfig}

/-- A datagram is received, and others come in while it is answered. -/
theorem serveOne_patient (hkeep : ∀ s t,inv s → s.Grows t → inv t) {s : Inbox} {fd : Fd}
    (hs : inv s) (hfd : s.Ordered (.sys (.recvfrom fd)))
    (hturn : ∀ got t,Inbox.Step s (.sys (.recvfrom fd)) got t → inv t) (cache : UserCache) :
    Patient e g inv (serveOne e g config cache fd) (fun t _ => inv t) s := by
  obtain ⟨k,hk,hcalls⟩ := serveOne_onSocket e g config cache fd
  rw [hk]
  refine ⟨⟨hs,hfd⟩,fun got t hstep => ?_⟩
  have ht := hturn got t (sys_step (fun _ => SysCall.noConfusion) hstep)
  have haway : (k got).Meets Away fun _ => True := by
    apply (hcalls got).mono
    · intro c hc
      rcases hc with hc|rfl|⟨m,rfl⟩|⟨packet,addr,rfl⟩
      · cases c with
        | sys c =>
          cases c with
          | _ => first | exact hc.elim | trivial
        | _ => trivial
      · trivial
      · trivial
      · trivial
    · exact fun _ h => h
  exact (away_patient hkeep haway ht).mono fun _ _ h => h.2

/-- The main loop keeps what a turn keeps. -/
theorem serveLoop_patient {fds : List Fd} (hkeep : ∀ s t,inv s → s.Grows t → inv t)
    (hfds : ∀ s,inv s → s.bound=fds)
    (hturn : ∀ s t u fd got,inv s → s.Waited t (.ready fd) →
      Inbox.Step t (.sys (.recvfrom fd)) got u → inv u)
    (fuel : ℕ) (cache : UserCache) {s : Inbox} (hs : inv s) :
    Patient e g inv (serveLoop e g config fds fuel cache) (fun t _ => inv t) s := by
  induction fuel generalizing s cache with
  | zero => exact ⟨⟨hs,trivial⟩,fun r => r.elim⟩
  | succ fuel ih =>
    refine ⟨⟨hs,trivial⟩,fun exiting t hstep => ?_⟩
    have ht := hkeep s t hs (away_step (c := .sys .exitSignaled) trivial hstep).toGrows
    cases exiting with
    | true =>
      refine ⟨⟨ht,trivial⟩,fun _ u hstep => ?_⟩
      exact hkeep t u ht (away_step (c := .sys (.message .exiting)) trivial hstep).toGrows
    | false =>
      have hb := hfds t ht
      refine ⟨⟨ht,hb.symm⟩,fun any u hstep => ?_⟩
      rw [← hb] at hstep
      have hwait := wait_step hstep
      have hu := hkeep t u ht hwait.toGrows
      cases any with
      | interrupted => exact ih cache hu
      | failed => exact ⟨⟨hu,trivial⟩,fun r => r.elim⟩
      | ready fd =>
        apply (serveOne_patient hkeep hu (hwait.ordered fd rfl)
          (fun got v hv => hturn t u v fd got ht hwait hv) cache).bind
        intro v cache' hv
        exact ih cache' hv

end

theorem recv_bound {s t : Inbox} {fd : Fd} {got : Option Datagram}
    (h : Inbox.Step s (.sys (.recvfrom fd)) got t) : t.bound=s.bound := by
  obtain ⟨u,hu,ht⟩ := h
  cases got with
  | none => exact (congrArg bound ht).trans hu.bound
  | some d =>
    obtain ⟨rest,-,rfl⟩ := ht
    exact hu.bound

section

variable (e : Endian) (g : WeightGlobals) (config : LbcdConfig)

/-- What is safe wherever the server is. -/
abbrev Turns {α : Type} (p : Prog Server α) (post : Inbox → α → Prop) (s : Inbox) : Prop :=
  p.Safe (attended e g) InTurn post s

theorem away_turns {α : Type} {p : Prog Server α} {post : α → Prop} (h : p.Meets Away post)
    (s : Inbox) : Turns e g p (fun t a => t.bound=s.bound ∧ post a) s := by
  have hsafe : Turns e g p (fun t a => s.Arrives t ∧ post a) s :=
    h.safe (fun t _ _ hc => away_inTurn hc t)
      (fun _ _ _ _ ht hc hstep => ht.trans (away_step hc hstep)) (.refl s)
  exact hsafe.mono fun t a ht => ⟨ht.1.bound,ht.2⟩

theorem bindEach_turns (addrs : List CStr) (s : Inbox) :
    Turns e g (bindEach config addrs) (fun t fds => t.bound=s.bound++fds) s := by
  induction addrs generalizing s with
  | nil => exact (List.append_nil s.bound).symm
  | cons addr addrs ih =>
    refine ⟨trivial,fun v6 t hstep => ?_⟩
    have ht := (away_step (c := .sys (.inetPton6 addr)) trivial hstep).bound
    refine ⟨trivial,fun fd u hstep => ?_⟩
    obtain ⟨v,hv,hu⟩ := sys_step (fun _ => SysCall.noConfusion) hstep
    cases fd with
    | none => exact ⟨trivial,fun r => r.elim⟩
    | some fd =>
      have hbu : u.bound=s.bound++[fd] := by
        rw [show u=_ from hu]
        change v.bound++[fd]=_
        rw [hv.bound,ht]
      refine ⟨trivial,fun marked w hstep => ?_⟩
      have hw := (away_step (c := .sys (.closeExec fd)) trivial hstep).bound
      cases marked with
      | false => exact ⟨trivial,fun r => r.elim⟩
      | true =>
        apply (ih w).bind
        intro x fds hx
        change x.bound=s.bound++fd :: fds
        rw [hx,hw,hbu,List.append_assoc,List.singleton_append]

theorem bindSockets_turns {s : Inbox} (hs : s.bound=[]) :
    Turns e g (bindSockets config) (fun t fds => t.bound=fds) s := by
  refine ⟨trivial,fun (status : ℤ) t hstep => ?_⟩
  obtain ⟨u,hu,ht⟩ := sys_step (fun _ => SysCall.noConfusion) hstep
  have hpassed : t.bound=(List.range status.toNat).map (listenFdsStart+·) := by
    rw [show t=_ from ht]
    change u.bound++_=_
    rw [hu.bound,hs,List.nil_append]
  change Turns e g (if status < 0 then _ else if 0 < status then _ else _) _ t
  split_ifs with hneg hpos
  · exact ⟨trivial,fun r => r.elim⟩
  · exact hpassed
  · have hnone : t.bound=[] := by
      rw [hpassed,show status.toNat=0 by omega]
      rfl
    cases haddrs : config.bindaddrs with
    | nil =>
      refine ⟨trivial,fun fds v hstep => ?_⟩
      obtain ⟨w,hw,hv⟩ := sys_step (fun _ => SysCall.noConfusion) hstep
      cases fds with
      | none => exact ⟨trivial,fun r => r.elim⟩
      | some fds =>
        rw [show v=_ from hv]
        change w.bound++fds=fds
        rw [hw.bound,hnone,List.nil_append]
    | cons addr addrs =>
      apply (bindEach_turns e g config (addr :: addrs) t).mono
      intro v fds hv
      rw [hv,hnone,List.nil_append]

theorem setHandler_away (sig : Signal) (act : Disposition) :
    (setHandler sig act).Meets Away fun _ => True := by
  refine ⟨trivial,fun set => ?_⟩
  cases set with
  | true => trivial
  | false => exact ⟨trivial,fun _ => trivial⟩

/-- What comes between the sockets and the main loop. -/
theorem announce_away (fds : List Fd) :
    (createPidFile config >>= fun _ => message .ready >>= fun _ => notifySystemd >>= fun _ =>
      notifyUpstart config >>= fun _ => Prog.ret fds).Meets Away (·=fds) := by
  have hpid : (createPidFile config).Meets Away fun _ => True := by
    rw [createPidFile]
    cases config.pidFile with
    | none => trivial
    | some path =>
      refine ⟨trivial,fun created => ?_⟩
      cases created with
      | true => exact ⟨trivial,fun _ => trivial⟩
      | false => exact ⟨trivial,fun _ => trivial⟩
  apply hpid.bind
  intro _ _
  refine ⟨trivial,fun _ => ⟨trivial,fun (status : ℤ) => ?_⟩⟩
  have hupstart : (notifyUpstart config).Meets Away fun _ => True := by
    rw [notifyUpstart]
    split_ifs
    · refine ⟨trivial,fun raised => ?_⟩
      cases raised with
      | true => trivial
      | false => exact ⟨trivial,fun _ => trivial⟩
    · trivial
  have hstatus : (if status < 0 then message .cannotNotifySystemd else return ()).Meets Away
      fun _ => True := by
    split_ifs
    · exact ⟨trivial,fun _ => trivial⟩
    · trivial
  exact hstatus.bind fun _ _ => hupstart.bind fun _ _ => rfl

theorem leave_away (fds : List Fd) :
    (removePidFile config >>= fun _ => closeAll fds).Meets Away fun _ => True := by
  have hclose : (closeAll fds).Meets Away fun _ => True := by
    induction fds with
    | nil => trivial
    | cons fd fds ih => exact ⟨trivial,fun _ => ih⟩
  have hpid : (removePidFile config).Meets Away fun _ => True := by
    rw [removePidFile]
    cases config.pidFile with
    | none => trivial
    | some path => exact ⟨trivial,fun _ => trivial⟩
  exact hpid.bind fun _ _ => hclose

theorem startUp_turns {s : Inbox} (hs : s.bound=[]) :
    Turns e g (startUp config) (fun t fds => t.bound=fds) s := by
  apply (away_turns e g (setHandler_away .hup .ign) s).bind
  intro t1 _ h1
  apply (away_turns e g (setHandler_away .int .handler) t1).bind
  intro t2 _ h2
  apply (away_turns e g (setHandler_away .term .handler) t2).bind
  intro t3 _ h3
  have hnone : t3.bound=[] := h3.1.trans (h2.1.trans (h1.1.trans hs))
  apply (bindSockets_turns e g config hnone).bind
  intro t4 fds h4
  apply (away_turns e g (announce_away config fds) t4).mono
  intro t5 fds' h5
  exact h5.1.trans (h4.trans h5.2.symm)

theorem handleRequests_turns {s : Inbox} (hs : s.bound=[]) :
    Turns e g (handleRequests e g config) (fun _ _ => True) s := by
  rw [handleRequests]
  apply (startUp_turns e g config hs).bind
  intro t fds ht
  refine ⟨trivial,fun fuel u hstep => ?_⟩
  have hu := (away_step (c := .sys .fuel) trivial hstep).bound.trans ht
  have hloop : Patient e g (fun s => s.bound=fds) (serveLoop e g config fds fuel .initial)
      (fun t _ => t.bound=fds) u :=
    serveLoop_patient (fun _ _ h hg => hg.bound.trans h) (fun _ h => h)
      (fun _ _ _ _ _ h hw hr => (recv_bound hr).trans (hw.bound.trans h)) fuel .initial hu
  apply (hloop.imp fun _ _ h => h.2).bind
  intro v _ _
  exact (away_turns e g (leave_away config fds) v).mono fun _ _ _ => trivial

end

/-- The daemon with the code of network_wait_any. Every call is in order, and where the daemon
waits for a datagram there is none on any of its sockets. -/
structure WaitLaw (e : Endian) (g : WeightGlobals) (config : LbcdConfig) : Prop where
  called : ∀ queue polled taken s c k,
    Run arriving ⟨[],queue,polled,taken⟩ ((handleRequests e g config).expand (linkWait e g)) s
      (.call c k) → s.Ordered c
  blocked : ∀ queue polled taken s c k,
    Run arriving ⟨[],queue,polled,taken⟩ ((handleRequests e g config).expand (linkWait e g)) s
      (.call c k) → s.Blocked c → ∀ fd∈s.bound,s.queue fd=[]

theorem blocked_empty {s : Inbox} {c : WaitCall} (hc : s.Ordered c) (hb : s.Blocked c) :
    ∀ fd∈s.bound,s.queue fd=[] := by
  intro fd hfd
  cases c with
  | select nfds readfds => exact hb fd ((hc.1 fd).mpr hfd) (hc.2 fd hfd)
  | sys c =>
    cases c with
    | recvfrom fd' => exact absurd hb hc.1
    | _ => exact hb.elim
  | _ => exact hb.elim

theorem wait_law (e : Endian) (g : WeightGlobals) (config : LbcdConfig) : WaitLaw e g config := by
  have hcalled : ∀ queue polled taken s c k,
      Run arriving ⟨[],queue,polled,taken⟩ ((handleRequests e g config).expand (linkWait e g)) s
        (.call c k) → s.Ordered c := by
    intro queue polled taken s c k hr
    have hsafe := (handleRequests_turns e g config (s := ⟨[],queue,polled,taken⟩) rfl).expand
      fun _ _ hc => linkWait_attends e g hc
    exact (hsafe.run hr).1
  exact ⟨hcalled,fun queue polled taken s c k hr =>
    blocked_empty (hcalled queue polled taken s c k hr)⟩

/-- What was received from a socket. -/
def ofSocket (fd : Fd) (taken : List (Fd × Datagram)) : List Datagram :=
  (taken.filter (·.1=fd)).map (·.2)

/-- The turn of a datagram behind others on its socket: it has been received after all of these,
or it still waits, and then nothing has been received but some of these and datagrams of
sockets that are earlier in the list. -/
def Inbox.KeepsTurn (s t : Inbox) (fd : Fd) (before : List Datagram) (d : Datagram) : Prop :=
  ∃ new,t.taken=s.taken++new ∧
    (before++[d]<+:ofSocket fd new ∨
      (∃ left more,before=ofSocket fd new++left ∧ t.queue fd=left++d :: more) ∧
        ∀ x∈new,x.1∈s.bound.takeWhile (·≠fd) ∨ x.1=fd)

theorem ofSocket_append (fd : Fd) (l r : List (Fd × Datagram)) :
    ofSocket fd (l++r)=ofSocket fd l++ofSocket fd r := by
  rw [ofSocket,List.filter_append,List.map_append]
  rfl

theorem prefix_turn {left more queue : List Datagram} {d : Datagram}
    (h : left++d :: more<+:queue) : ∃ more',queue=left++d :: more' := by
  obtain ⟨rest,rfl⟩ := h
  exact ⟨more++rest,by rw [List.append_assoc,List.cons_append]⟩

theorem Inbox.KeepsTurn.grows {s t u : Inbox} {fd : Fd} {before : List Datagram} {d : Datagram}
    (h : s.KeepsTurn t fd before d) (hg : t.Grows u) : s.KeepsTurn u fd before d := by
  obtain ⟨new,htaken,hnew⟩ := h
  refine ⟨new,hg.taken.trans htaken,hnew.imp_right fun hwait => ?_⟩
  obtain ⟨⟨left,more,hbefore,hqueue⟩,hall⟩ := hwait
  obtain ⟨more',hmore⟩ := prefix_turn (hqueue ▸ hg.queue fd)
  exact ⟨⟨left,more',hbefore,hmore⟩,hall⟩

/-- One receive after a wait. -/
theorem Inbox.KeepsTurn.receive {s t u v : Inbox} {fd fd' : Fd} {before : List Datagram}
    {d : Datagram} {got : Option Datagram} (h : s.KeepsTurn t fd before d) (hb : t.bound=s.bound)
    (hw : t.Waited u (.ready fd')) (hr : Inbox.Step u (.sys (.recvfrom fd')) got v) :
    s.KeepsTurn v fd before d := by
  obtain ⟨w,hw',hafter⟩ := hr
  have hgrows := hw.toGrows.trans hw'.toGrows
  cases got with
  | none =>
    rw [show v=w from hafter]
    exact h.grows hgrows
  | some d' =>
    obtain ⟨rest,hfirst,rfl⟩ := hafter
    obtain ⟨new,htaken,hnew⟩ := h
    have htaken' : w.taken++[(fd',d')]=s.taken++(new++[(fd',d')]) := by
      rw [hgrows.taken,htaken,List.append_assoc]
    refine ⟨new++[(fd',d')],htaken',?_⟩
    rw [ofSocket_append]
    rcases hnew with hdone|⟨⟨left,more,hbefore,hqueue⟩,hall⟩
    · exact Or.inl (hdone.trans (List.prefix_append _ _))
    obtain ⟨more',hmore⟩ := prefix_turn (hqueue ▸ hgrows.queue fd)
    by_cases hfd : fd'=fd
    · subst hfd
      have hone : ofSocket fd' [(fd',d')]=[d'] := by simp [ofSocket]
      have hall' : ∀ x∈new++[(fd',d')],x.1∈s.bound.takeWhile (·≠fd') ∨ x.1=fd' := by
        intro x hx
        rcases List.mem_append.mp hx with hx|hx
        · exact hall x hx
        · rw [List.mem_singleton.mp hx]
          exact Or.inr rfl
      rw [hfirst] at hmore
      rw [hone]
      rcases left with _|⟨l,left⟩
      · obtain ⟨rfl,-⟩ := List.cons.inj hmore
        left
        rw [hbefore,List.append_nil]
      · obtain ⟨rfl,hrest⟩ := List.cons.inj hmore
        refine Or.inr ⟨⟨left,more',?_,?_⟩,hall'⟩
        · rw [hbefore,List.append_assoc,List.singleton_append]
        · change Function.update w.queue fd' rest fd'=_
          rw [Function.update_self]
          exact hrest
    · have hnone : ofSocket fd [(fd',d')]=[] := by simp [ofSocket,hfd]
      obtain ⟨-,-,earlier,later,hsplit,hearlier⟩ := hw.ordered fd' rfl
      -- the datagram was there at the select
      have hnot : fd∉earlier := by
        intro hm
        have hpolled := hw.polled fd' rfl fd
        rw [hqueue,hearlier fd hm,List.prefix_nil] at hpolled
        simp at hpolled
      have hahead : fd'∈s.bound.takeWhile (·≠fd) := by
        rw [← hb,← hw.bound,hsplit,List.takeWhile_append_of_pos]
        · simp [hfd]
        · intro x hx
          have hne : x≠fd := fun he => hnot (he ▸ hx)
          simpa using hne
      rw [hnone,List.append_nil]
      refine Or.inr ⟨⟨left,more',hbefore,?_⟩,fun x hx => ?_⟩
      · change Function.update w.queue fd' rest fd=_
        rw [Function.update_of_ne (Ne.symm hfd)]
        exact hmore
      · rcases List.mem_append.mp hx with hx|hx
        · exact hall x hx
        · rw [List.mem_singleton.mp hx]
          exact Or.inl hahead

/-- In any run of the main loop, whatever else comes in, a datagram is received after those
before it on its socket, and until then nothing is received from a later socket. -/
structure TurnLaw (e : Endian) (g : WeightGlobals) (config : LbcdConfig) : Prop where
  turns : ∀ fuel cache s t q fd before d after,s.queue fd=before++d :: after →
    Run (attended e g) s (serveLoop e g config s.bound fuel cache) t q →
      s.KeepsTurn t fd before d

theorem turn_law (e : Endian) (g : WeightGlobals) (config : LbcdConfig) : TurnLaw e g config where
  turns := by
    intro fuel cache s t q fd before d after hqueue hr
    have hstart : s.bound=s.bound ∧ s.KeepsTurn s fd before d :=
      ⟨rfl,[],(List.append_nil _).symm,
        Or.inr ⟨⟨before,after,rfl,hqueue⟩,List.forall_mem_nil _⟩⟩
    let inv : Inbox → Prop := fun t => t.bound=s.bound ∧ s.KeepsTurn t fd before d
    have hloop : Patient e g inv (serveLoop e g config s.bound fuel cache) (fun t _ => inv t) s :=
      serveLoop_patient
        (fun _ _ h hg => ⟨hg.bound.trans h.1,h.2.grows hg⟩) (fun _ h => h.1)
        (fun _ _ _ _ _ h hw hr => ⟨(recv_bound hr).trans (hw.bound.trans h.1),
          h.2.receive h.1 hw hr⟩) fuel cache hstart
    cases q with
    | ret a => exact (hloop.run hr).2
    | call c k => exact (hloop.run hr).1.1.2

end Lbcd
