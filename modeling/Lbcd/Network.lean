import Mathlib.Data.Set.Basic
import Lbcd.Interaction.World
import Lbcd.Daemon

namespace Lbcd

open Interaction CText

/-- An address in the form that inet_aton or inet_pton stores. -/
inductive InAddr where
  | v4 (addr : UInt32)
  | v6 (addr : List UInt8)
  deriving DecidableEq

inductive AddrFamily where
  | inet
  | inet6
  | other
  deriving DecidableEq

/-- A local address that getaddrinfo reports, with the text that
network_sockaddr_sprint makes of it. -/
structure LocalAddr where
  family : AddrFamily
  name : CStr
  deriving DecidableEq

inductive SockOpt where
  | reuseaddr
  | v6only
  | freebind
  deriving DecidableEq

/-- What the functions below log. -/
inductive NetWarning where
  | notReusable
  | notV6only
  | notFreeBinding
  | cannotCreate (v6 : Bool) (addr : CStr) (port : UInt16)
  | invalidAddress (v6 : Bool) (addr : CStr)
  | cannotBind (addr : CStr) (port : UInt16)
  | getaddrinfoFailed (port : UInt16)
  deriving DecidableEq

/-- A failed socket() may mean that the address family is not supported. -/
inductive SocketResult where
  | failed (unsupported : Bool)
  | opened (fd : Fd)
  deriving DecidableEq

/-- Calls of network.c and fdflag.c, and those of the rest of the program. -/
inductive NetCall where
  | sys (c : SysCall)
  | warn (w : NetWarning)
  | socket (v6 : Bool)
  | setsockopt (fd : Fd) (opt : SockOpt)
  | inetAton (addr : CStr)
  | inetPton6 (addr : CStr)
  | bind (fd : Fd) (addr : InAddr) (port : UInt16)
  | close (fd : Fd)
  | getaddrinfo (port : UInt16)
  | getfd (fd : Fd)
  | setfd (fd : Fd) (mode : UInt32)
  deriving DecidableEq

@[reducible] def NetCall.Reply : NetCall → Type
  | sys c => c.Reply
  | warn _ => Unit
  | socket _ => SocketResult
  | setsockopt _ _ => Bool
  | inetAton _ => Option UInt32
  | inetPton6 _ => Option (List UInt8)
  | bind _ _ _ => Bool
  | close _ => Unit
  | getaddrinfo _ => Option (List LocalAddr)
  | getfd _ => Option UInt32
  | setfd _ _ => Bool

abbrev Network : Interface := ⟨NetCall,NetCall.Reply⟩

def ncall (c : NetCall) : Prog Network c.Reply := Prog.call (I := Network) c Prog.ret

def setOption (fd : Fd) (opt : SockOpt) (w : NetWarning) : Prog Network Unit := do
  let set : Bool ← ncall (.setsockopt fd opt)
  if set then return () else ncall (.warn w)

def networkSetReuseaddr (fd : Fd) : Prog Network Unit := setOption fd .reuseaddr .notReusable

def networkSetV6only (fd : Fd) : Prog Network Unit := setOption fd .v6only .notV6only

def networkSetFreebind (fd : Fd) : Prog Network Unit := setOption fd .freebind .notFreeBinding

/-- The names any and all stand for the wildcard address. -/
def wildcard (any address : CStr) : CStr :=
  if address=CStr.lit "any" ∨ address=CStr.lit "all" then any else address

/-- The end of both binds: the address as text and as it was converted. -/
def bindTo (fd : Fd) (v6 : Bool) (address : CStr) (port : UInt16) (addr : Option InAddr) :
    Prog Network (Option Fd) :=
  match addr with
  | none => do
    let _ : Unit ← ncall (.warn (.invalidAddress v6 address))
    return none
  | some addr => do
    let bound : Bool ← ncall (.bind fd addr port)
    if bound then return some fd
    else
      let _ : Unit ← ncall (.warn (.cannotBind address port))
      let _ : Unit ← ncall (.close fd)
      return none

def networkBindIpv4 (address : CStr) (port : UInt16) : Prog Network (Option Fd) := do
  let opened : SocketResult ← ncall (.socket false)
  match opened with
  | .failed _ =>
    let _ : Unit ← ncall (.warn (.cannotCreate false address port))
    return none
  | .opened fd =>
    networkSetReuseaddr fd
    let address := wildcard (CStr.lit "0.0.0.0") address
    let addr : Option UInt32 ← ncall (.inetAton address)
    bindTo fd false address port (addr.map .v4)

def networkBindIpv6 (address : CStr) (port : UInt16) : Prog Network (Option Fd) := do
  let opened : SocketResult ← ncall (.socket true)
  match opened with
  | .failed unsupported =>
    if unsupported then return none
    else
      let _ : Unit ← ncall (.warn (.cannotCreate true address port))
      return none
  | .opened fd =>
    networkSetReuseaddr fd
    networkSetV6only fd
    let address := wildcard (CStr.lit "::") address
    if address≠CStr.lit "::" then networkSetFreebind fd
    let addr : Option (List UInt8) ← ncall (.inetPton6 address)
    bindTo fd true address port (addr.map .v6)

/-- The bind for one address that getaddrinfo reports. -/
def bindLocal (port : UInt16) (addr : LocalAddr) : Prog Network (Option Fd) :=
  match addr.family with
  | .inet => networkBindIpv4 addr.name port
  | .inet6 => networkBindIpv6 addr.name port
  | .other => return none

/-- The loop over the addresses. -/
def bindLocals (port : UInt16) : List LocalAddr → Prog Network (List Fd)
  | [] => return []
  | addr :: addrs => do
    let fd ← bindLocal port addr
    let fds ← bindLocals port addrs
    return fd.toList++fds

def networkBindAll (port : UInt16) : Prog Network (Option (List Fd)) := do
  let addrs : Option (List LocalAddr) ← ncall (.getaddrinfo port)
  match addrs with
  | none =>
    let _ : Unit ← ncall (.warn (.getaddrinfoFailed port))
    return none
  | some addrs =>
    let fds ← bindLocals port addrs
    return if fds.length > 0 then some fds else none

def fdCloexec : UInt32 := 1

def fdflagCloseExec (fd : Fd) (flag : Bool) : Prog Network Bool := do
  let oflag : Option UInt32 ← ncall (.getfd fd)
  match oflag with
  | none => return false
  | some oflag =>
    let mode := if flag then oflag ||| fdCloexec else oflag &&& ~~~fdCloexec
    ncall (.setfd fd mode)

/-- The system calls of the program that are functions of network.c and fdflag.c. -/
def network : (c : SysCall) → Prog Network c.Reply
  | .networkBindAll port => networkBindAll port
  | .networkBind v6 addr port =>
    if v6 then networkBindIpv6 addr port else networkBindIpv4 addr port
  | .closeExec fd => fdflagCloseExec fd true
  | c => ncall (.sys c)

/-- The server down to the sockets. -/
def overNetwork (e : ByteOrder.Endian) (g : WeightGlobals) (c : ServerCall) :
    Prog Network c.Reply :=
  (implement e g c).expand network

/-- Open descriptors, and those of them that are closed on exec. -/
structure Descriptors where
  opened : Set Fd
  marked : Set Fd

/-- A new descriptor is not marked. -/
def Descriptors.add (s : Descriptors) (fd : Fd) : Descriptors :=
  ⟨insert fd s.opened,s.marked \ {fd}⟩

def Descriptors.remove (s : Descriptors) (fd : Fd) : Descriptors :=
  ⟨s.opened \ {fd},s.marked \ {fd}⟩

/-- The listening sockets that systemd passes. -/
def listenFds (passed : ℤ) : Set Fd :=
  {fd | listenFdsStart ≤ fd ∧ fd < listenFdsStart+passed.toNat}

/-- What the calls of bind_sockets do to the descriptors. sd_listen_fds marks what it
reports, a descriptor from socket() is new and not marked, and no other call but fcntl
with F_SETFD changes the mark of an open descriptor. -/
inductive BindStep (passed : ℤ) : Descriptors → (c : NetCall) → c.Reply → Descriptors → Prop where
  | sdListenFds (s : Descriptors) :
      BindStep passed s (.sys .sdListenFds) passed
        ⟨s.opened ∪ listenFds passed,s.marked ∪ listenFds passed⟩
  | isIpv6 (s : Descriptors) (addr : CStr) (r : Bool) :
      BindStep passed s (.sys (.inetPton6 addr)) r s
  | warn (s : Descriptors) (w : NetWarning) : BindStep passed s (.warn w) () s
  | noSocket (s : Descriptors) (v6 unsupported : Bool) :
      BindStep passed s (.socket v6) (.failed unsupported) s
  | socket (s : Descriptors) (v6 : Bool) (fd : Fd) (h : fd∉s.opened) :
      BindStep passed s (.socket v6) (.opened fd) (s.add fd)
  | setsockopt (s : Descriptors) (fd : Fd) (opt : SockOpt) (r : Bool) :
      BindStep passed s (.setsockopt fd opt) r s
  | inetAton (s : Descriptors) (addr : CStr) (r : Option UInt32) :
      BindStep passed s (.inetAton addr) r s
  | inetPton6 (s : Descriptors) (addr : CStr) (r : Option (List UInt8)) :
      BindStep passed s (.inetPton6 addr) r s
  | bind (s : Descriptors) (fd : Fd) (addr : InAddr) (port : UInt16) (r : Bool) :
      BindStep passed s (.bind fd addr port) r s
  | close (s : Descriptors) (fd : Fd) :
      BindStep passed s (.close fd) () (s.remove fd)
  | getaddrinfo (s : Descriptors) (port : UInt16) (r : Option (List LocalAddr)) :
      BindStep passed s (.getaddrinfo port) r s
  | getfd (s : Descriptors) (fd : Fd) (r : Option UInt32) : BindStep passed s (.getfd fd) r s
  | noSetfd (s : Descriptors) (fd : Fd) (mode : UInt32) :
      BindStep passed s (.setfd fd mode) false s
  | setfd (s : Descriptors) (fd : Fd) (mode : UInt32) :
      BindStep passed s (.setfd fd mode) true
        { s with marked := if mode &&& fdCloexec=0 then s.marked \ {fd} else insert fd s.marked }

/-- A system where systemd passes so many sockets. -/
def binding (passed : ℤ) : World Network Descriptors := ⟨BindStep passed⟩

/-- Open descriptors stay open, and keep their marks. -/
structure Descriptors.Keeps (s t : Descriptors) : Prop where
  opened : ∀ fd∈s.opened,fd∈t.opened
  marked : ∀ fd∈s.opened,fd∈t.marked ↔ fd∈s.marked

theorem Descriptors.Keeps.refl (s : Descriptors) : s.Keeps s :=
  ⟨fun _ h => h,fun _ _ => Iff.rfl⟩

theorem Descriptors.Keeps.trans {s t u : Descriptors} (h : s.Keeps t) (h' : t.Keeps u) :
    s.Keeps u where
  opened fd hfd := h'.opened fd (h.opened fd hfd)
  marked fd hfd := (h'.marked fd (h.opened fd hfd)).trans (h.marked fd hfd)

theorem Descriptors.keeps_add {s : Descriptors} {fd : Fd} (h : fd∉s.opened) :
    s.Keeps (s.add fd) := by
  have hne {fd' : Fd} (h' : fd'∈s.opened) : fd'≠fd := ne_of_mem_of_not_mem h' h
  constructor
  · intro fd' h'
    exact Set.mem_insert_of_mem fd h'
  · intro fd' h'
    exact ⟨fun hm => hm.1,fun hm => ⟨hm,hne h'⟩⟩

theorem Descriptors.keeps_add_remove {s : Descriptors} {fd : Fd} (h : fd∉s.opened) :
    s.Keeps ((s.add fd).remove fd) := by
  have hne {fd' : Fd} (h' : fd'∈s.opened) : fd'≠fd := ne_of_mem_of_not_mem h' h
  constructor
  · intro fd' h'
    exact ⟨Set.mem_insert_of_mem fd h',hne h'⟩
  · intro fd' h'
    exact ⟨fun hm => hm.1.1,fun hm => ⟨⟨hm,hne h'⟩,hne h'⟩⟩

/-- Whatever the calls reply, a program of these functions that returns does so as promised. -/
abbrev Returns {α : Type} (passed : ℤ) (p : Prog Network α) (s : Descriptors)
    (post : Descriptors → α → Prop) : Prop :=
  p.Safe (binding passed) (fun _ _ => True) post s

/-- A bind opens one new descriptor, which is not marked, or none. -/
structure Binds (s t : Descriptors) (fd : Option Fd) : Prop where
  keeps : s.Keeps t
  opened : ∀ fd'∈fd,fd'∈t.opened
  unmarked : ∀ fd'∈fd,fd'∉t.marked
  fresh : ∀ fd'∈fd,fd'∉s.opened

theorem binds_none {s t : Descriptors} (h : s.Keeps t) : Binds s t none where
  keeps := h
  opened fd' he := by cases he
  unmarked fd' he := by cases he
  fresh fd' he := by cases he

/-- A new descriptor can be marked without any effect on those that were open before. -/
theorem Binds.mark {s t : Descriptors} {fd : Fd} (h : Binds s t (some fd)) :
    s.Keeps { t with marked := insert fd t.marked } where
  opened := h.keeps.opened
  marked fd' h' := by
    have hne : fd'≠fd := by
      intro he
      exact h.fresh fd rfl (he ▸ h')
    rw [← h.keeps.marked fd' h']
    exact ⟨fun hm => hm.resolve_left hne,Or.inr⟩

theorem binds_some {s : Descriptors} {fd : Fd} (h : fd∉s.opened) :
    Binds s (s.add fd) (some fd) where
  keeps := Descriptors.keeps_add h
  opened fd' he := by
    cases he
    exact Set.mem_insert fd s.opened
  unmarked fd' he := by
    cases he
    exact fun hm => hm.2 rfl
  fresh fd' he := by
    cases he
    exact h

section

variable {passed : ℤ} {s : Descriptors}

theorem setOption_returns (fd : Fd) (opt : SockOpt) (w : NetWarning) :
    Returns passed (setOption fd opt w) s fun t _ => t=s := by
  refine ⟨trivial,?_⟩
  intro r t hs
  cases hs
  cases r with
  | true => rfl
  | false =>
    refine ⟨trivial,?_⟩
    intro r t hs
    cases hs
    rfl

theorem bindTo_returns {fd : Fd} (h : fd∉s.opened) (v6 : Bool) (address : CStr) (port : UInt16)
    (addr : Option InAddr) :
    Returns passed (bindTo fd v6 address port addr) (s.add fd) fun t r => Binds s t r := by
  cases addr with
  | none =>
    refine ⟨trivial,?_⟩
    intro r t hs
    cases hs
    exact binds_none (Descriptors.keeps_add h)
  | some addr =>
    refine ⟨trivial,?_⟩
    intro bound t hs
    cases hs
    cases bound with
    | true => exact binds_some h
    | false =>
      refine ⟨trivial,?_⟩
      intro r t hs
      cases hs
      refine ⟨trivial,?_⟩
      intro r t hs
      cases hs
      exact binds_none (Descriptors.keeps_add_remove h)

theorem networkBindIpv4_returns (address : CStr) (port : UInt16) :
    Returns passed (networkBindIpv4 address port) s fun t r => Binds s t r := by
  refine ⟨trivial,?_⟩
  intro opened t hs
  cases hs with
  | noSocket v6 unsupported =>
    refine ⟨trivial,?_⟩
    intro r t hs
    cases hs
    exact binds_none (.refl s)
  | socket v6 fd hfd =>
    apply Prog.Safe.bind (setOption_returns fd _ _)
    intro t r ht
    rw [ht]
    refine ⟨trivial,?_⟩
    intro addr t hs
    cases hs
    exact bindTo_returns hfd _ _ _ _

theorem networkBindIpv6_returns (address : CStr) (port : UInt16) :
    Returns passed (networkBindIpv6 address port) s fun t r => Binds s t r := by
  refine ⟨trivial,?_⟩
  intro opened t hs
  cases hs with
  | noSocket v6 unsupported =>
    cases unsupported with
    | true => exact binds_none (.refl s)
    | false =>
      refine ⟨trivial,?_⟩
      intro r t hs
      cases hs
      exact binds_none (.refl s)
  | socket v6 fd hfd =>
    apply Prog.Safe.bind (setOption_returns fd _ _)
    intro t r ht
    rw [ht]
    apply Prog.Safe.bind (setOption_returns fd _ _)
    intro t r ht
    rw [ht]
    have hconvert : Returns passed (do
        let addr : Option (List UInt8) ← ncall (.inetPton6 (wildcard (CStr.lit "::") address))
        bindTo fd true (wildcard (CStr.lit "::") address) port (addr.map .v6)) (s.add fd)
        fun t r => Binds s t r := by
      refine ⟨trivial,?_⟩
      intro addr t hs
      cases hs
      exact bindTo_returns hfd _ _ _ _
    dsimp only
    split_ifs
    · apply Prog.Safe.bind (setOption_returns fd _ _)
      intro t r ht
      rw [ht]
      exact hconvert
    · exact hconvert

theorem bindLocal_returns (port : UInt16) (addr : LocalAddr) :
    Returns passed (bindLocal port addr) s fun t r => Binds s t r := by
  unfold bindLocal
  cases addr.family with
  | inet => exact networkBindIpv4_returns _ _
  | inet6 => exact networkBindIpv6_returns _ _
  | other => exact binds_none (.refl s)

/-- None of the sockets that the loop binds is marked. -/
theorem bindLocals_returns (port : UInt16) (addrs : List LocalAddr) :
    Returns passed (bindLocals port addrs) s fun t fds =>
      s.Keeps t ∧ ∀ fd∈fds,fd∈t.opened ∧ fd∉t.marked := by
  induction addrs generalizing s with
  | nil => exact ⟨.refl s,fun fd h => by cases h⟩
  | cons addr addrs ih =>
    apply Prog.Safe.bind (bindLocal_returns port addr)
    intro t fd hb
    apply Prog.Safe.bind ih
    intro u fds hrest
    obtain ⟨hk,hfds⟩ := hrest
    refine ⟨hb.keeps.trans hk,List.forall_mem_append.mpr ⟨?_,hfds⟩⟩
    intro fd' hfd'
    have hmem : fd'∈fd := Option.mem_toList.mp hfd'
    have hopen := hb.opened fd' hmem
    exact ⟨hk.opened fd' hopen,fun hm => hb.unmarked fd' hmem ((hk.marked fd' hopen).mp hm)⟩

theorem networkBindAll_returns (port : UInt16) :
    Returns passed (networkBindAll port) s fun t r =>
      ∀ fds,r=some fds → fds≠[] ∧ ∀ fd∈fds,fd∉t.marked := by
  refine ⟨trivial,?_⟩
  intro addrs t hs
  cases hs
  cases addrs with
  | none =>
    refine ⟨trivial,?_⟩
    intro r t hs fds he
    cases he
  | some addrs =>
    apply Prog.Safe.bind (bindLocals_returns port addrs)
    intro t fds hb fds' he
    split_ifs at he with hlen
    cases he
    exact ⟨List.ne_nil_of_length_pos hlen,fun fd hfd => (hb.2 fd hfd).2⟩

theorem cloexec_set (oflag : UInt32) : (oflag ||| fdCloexec) &&& fdCloexec≠0 := by
  intro h
  have hbit := congrArg (fun mode => mode.toBitVec.getLsbD 0) h
  simp [fdCloexec] at hbit

theorem fdflagCloseExec_returns (fd : Fd) :
    Returns passed (fdflagCloseExec fd true) s fun t r =>
      r=true → t={ s with marked := insert fd s.marked } := by
  refine ⟨trivial,?_⟩
  intro oflag t hs
  cases hs
  cases oflag with
  | none => exact fun he => by cases he
  | some oflag =>
    refine ⟨trivial,?_⟩
    intro r t hs
    cases hs with
    | noSetfd fd mode => exact fun he => by cases he
    | setfd fd mode =>
      intro he
      rw [if_pos rfl,if_neg (cloexec_set oflag)]

variable (e : ByteOrder.Endian) (g : WeightGlobals) (config : LbcdConfig)

theorem overNetwork_sys {c : SysCall} (h : ∀ m,c≠.message m) :
    overNetwork e g (.sys c)=network c := by
  cases c with
  | message m => exact absurd rfl (h m)
  | _ => exact bind_pure _

theorem networkBind_over (v6 : Bool) (addr : CStr) (port : UInt16) :
    Returns passed (overNetwork e g (.sys (.networkBind v6 addr port))) s
      fun t r => Binds s t r := by
  rw [overNetwork_sys e g (by intro m hm; cases hm)]
  change Returns passed (if v6 then _ else _) s _
  split_ifs
  · exact networkBindIpv6_returns addr port
  · exact networkBindIpv4_returns addr port

theorem networkBindAll_over (port : UInt16) :
    Returns passed (overNetwork e g (.sys (.networkBindAll port))) s fun t r =>
      ∀ fds,r=some fds → fds≠[] ∧ ∀ fd∈fds,fd∉t.marked := by
  rw [overNetwork_sys e g (by intro m hm; cases hm)]
  exact networkBindAll_returns port

theorem closeExec_over (fd : Fd) :
    Returns passed (overNetwork e g (.sys (.closeExec fd))) s fun t r =>
      r=true → t={ s with marked := insert fd s.marked } := by
  rw [overNetwork_sys e g (by intro m hm; cases hm)]
  exact fdflagCloseExec_returns fd

/-- Nothing is promised of a program that has died. -/
theorem die_over {α : Type} (d : Die) (post : Descriptors → α → Prop) :
    Returns passed ((die d : Prog Server α).expand (overNetwork e g)) s post :=
  ⟨trivial,fun r _ _ => r.elim⟩

/-- Every socket that is bound to a configured address is marked. -/
theorem bindEach_returns (addrs : List CStr) :
    Returns passed ((bindEach config addrs).expand (overNetwork e g)) s fun t fds =>
      s.Keeps t ∧ ∀ fd∈fds,fd∈t.opened ∧ fd∈t.marked := by
  induction addrs generalizing s with
  | nil => exact ⟨.refl s,fun fd h => by cases h⟩
  | cons addr addrs ih =>
    refine ⟨trivial,?_⟩
    intro v6 t hs
    cases hs
    apply (networkBind_over e g v6 addr config.port).bind
    intro t fd hb
    cases fd with
    | none => exact die_over e g (.bindAddress addr) _
    | some fd =>
      have hopen : fd∈t.opened := hb.opened fd rfl
      apply (closeExec_over e g fd).bind
      intro u marked hu
      cases marked with
      | false => exact die_over e g .closeExec _
      | true =>
        have hu := hu rfl
        have hkeep : s.Keeps u := by
          rw [hu]
          exact hb.mark
        have hfd : fd∈u.opened ∧ fd∈u.marked := by
          rw [hu]
          exact ⟨hopen,Set.mem_insert fd t.marked⟩
        change Prog.Safe _ _ _ (Prog.expand (I := Server) (overNetwork e g)
          (bindEach config addrs >>= _)) _
        rw [Prog.expand_bind]
        apply Prog.Safe.bind ih
        intro v fds hrest
        obtain ⟨hk,hfds⟩ := hrest
        refine ⟨hkeep.trans hk,List.forall_mem_cons.mpr ⟨?_,hfds⟩⟩
        exact ⟨hk.opened fd hfd.1,(hk.marked fd hfd.1).mpr hfd.2⟩

theorem bindSockets_returns :
    Returns passed ((bindSockets config).expand (overNetwork e g)) s fun t fds =>
      (∀ fd∈fds,fd∈t.marked) ↔ passed≠0 ∨ config.bindaddrs≠[] := by
  refine ⟨trivial,?_⟩
  intro status t hs
  cases hs
  change Prog.Safe _ _ _ (Prog.expand (I := Server) (overNetwork e g)
    (if passed < 0 then _ else _)) _
  by_cases hneg : passed < 0
  · rw [if_pos hneg]
    exact die_over e g .listenFds _
  rw [if_neg hneg]
  by_cases hpos : 0 < passed
  · rw [if_pos hpos]
    refine ⟨fun _ => Or.inl hpos.ne',?_⟩
    intro _ fd hfd
    obtain ⟨i,hi,he⟩ := List.mem_map.mp hfd
    have hlt := List.mem_range.mp hi
    right
    rw [← he]
    exact ⟨Nat.le_add_right _ _,Nat.add_lt_add_left hlt _⟩
  rw [if_neg hpos]
  have hzero : passed=0 := le_antisymm (not_lt.mp hpos) (not_lt.mp hneg)
  cases haddrs : config.bindaddrs with
  | nil =>
    apply (networkBindAll_over e g config.port).bind
    intro t fds hfds
    cases fds with
    | none => exact die_over e g .createSocket _
    | some fds =>
      obtain ⟨hne,hun⟩ := hfds fds rfl
      obtain ⟨fd,hfd⟩ := List.exists_mem_of_ne_nil fds hne
      refine ⟨?_,?_⟩
      · intro hmarked
        exact absurd (hmarked fd hfd) (hun fd hfd)
      · intro hc
        rcases hc with hc|hc
        · exact absurd hzero hc
        · exact absurd rfl hc
  | cons addr addrs =>
    apply (bindEach_returns e g config (addr :: addrs)).mono
    intro t fds hr
    exact ⟨fun _ => Or.inr (List.cons_ne_nil _ _),fun _ fd hfd => (hr.2 fd hfd).2⟩

end

/-- The listening sockets are all marked exactly if systemd passed them or addresses are
configured to bind to. -/
theorem bindSockets_marked_iff (e : ByteOrder.Endian) (g : WeightGlobals) (config : LbcdConfig)
    (passed : ℤ) (s t : Descriptors) (fds : List Fd)
    (hr : Run (binding passed) s ((bindSockets config).expand (overNetwork e g)) t (.ret fds)) :
    (∀ fd∈fds,fd∈t.marked) ↔ passed≠0 ∨ config.bindaddrs≠[] :=
  (bindSockets_returns e g config).run hr

/-- The configuration of a command line without options, for port 4330. -/
def bareConfig : LbcdConfig := ⟨[],false,4330,none,[],false,false⟩

theorem bareConfig_binds (e : ByteOrder.Endian) (g : WeightGlobals) :
    ∃ t,Run (binding 0) ⟨∅,∅⟩ ((bindSockets bareConfig).expand (overNetwork e g)) t
      (.ret [3]) := by
  have hfree : 3∉(∅ : Set Fd) ∪ listenFds 0 := by
    simp [listenFds]
  apply Exists.intro
  apply Run.step (BindStep.sdListenFds _)
  apply Run.step (BindStep.getaddrinfo _ _ (some [⟨.inet,CStr.lit "0.0.0.0"⟩]))
  apply Run.step (BindStep.socket _ _ 3 hfree)
  apply Run.step (BindStep.setsockopt _ _ _ true)
  apply Run.step (BindStep.inetAton _ _ (some 0))
  apply Run.step (BindStep.bind _ _ _ _ true)
  exact Run.refl _ _

theorem bindSockets_marked_iff_bare :
    ∃ t,Run (binding 0) ⟨∅,∅⟩ ((bindSockets bareConfig).expand (overNetwork .little .initial)) t
        (.ret [3]) ∧
      ((∀ fd∈[3],fd∈t.marked) ↔ (0 : ℤ)≠0 ∨ bareConfig.bindaddrs≠[]) := by
  obtain ⟨t,hr⟩ := bareConfig_binds .little .initial
  exact ⟨t,hr,bindSockets_marked_iff .little .initial bareConfig 0 ⟨∅,∅⟩ t [3] hr⟩

/-- Started without options, the daemon has a listening socket that its helper inherits. -/
theorem bare_socket_unmarked :
    ¬∀ (config : LbcdConfig) (passed : ℤ) (s t : Descriptors) (fds : List Fd),
      Run (binding passed) s ((bindSockets config).expand (overNetwork .little .initial)) t
        (.ret fds) → ∀ fd∈fds,fd∈t.marked := by
  intro h
  obtain ⟨t,hr⟩ := bareConfig_binds .little .initial
  have hiff := (bindSockets_returns .little .initial bareConfig).run hr
  rcases hiff.mp (h bareConfig 0 ⟨∅,∅⟩ t [3] hr) with hc|hc
  · exact hc rfl
  · exact hc rfl

end Lbcd
