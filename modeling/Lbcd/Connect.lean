import Lbcd.Interaction.Search
import Lbcd.Network
import Lbcd.Descriptors

namespace Lbcd

open Interaction CText ByteOrder

/-- Values of errno, by name where a function here sets or looks for them. -/
inductive Errno where
  | eintr
  | eagain
  | epipe
  | einprogress
  | einval
  | eafnosupport
  | etimedout
  | other (code : ℕ)
  deriving DecidableEq

/-- An address of a remote service, as getaddrinfo reports it. -/
structure Remote where
  family : AddrFamily
  socktype : ℤ
  protocol : ℤ
  addr : SockAddr
  deriving DecidableEq

/-- What select says of one descriptor. -/
inductive Selected where
  | failed (errno : Errno)
  | timedOut
  | ready
  deriving DecidableEq

/-- Calls of the functions of network.c that connect, read and write, and of xwrite.c, and
those of the rest of the program. -/
inductive ConnectCall where
  | sys (c : SysCall)
  | socket (family : AddrFamily) (socktype protocol : ℤ)
  | inetAton (addr : CStr)
  | inetPton6 (addr : CStr)
  | bindSource (fd : Fd) (addr : InAddr)
  | connect (fd : Fd) (addr : SockAddr)
  | selectWrite (fd : Fd) (timeout : ℤ)
  | sockError (fd : Fd)
  | getfl (fd : Fd)
  | setfl (fd : Fd) (mode : UInt32)
  | close (fd : Fd)
  | getaddrinfo (host : CStr) (port : UInt16)
  | selectRead (fd : Fd) (timeout : ℤ)
  | read (fd : Fd) (n : ℕ)
  | write (fd : Fd) (bytes : List UInt8)
  | pwrite (fd : Fd) (bytes : List UInt8) (offset : ℕ)
  | writev (fd : Fd) (iov : List (List UInt8))
  | calloc (n : ℕ)
  | time
  deriving DecidableEq

/-- SO_ERROR is none where it reads 0. No more is read than is asked for, or written than is
offered. -/
@[reducible] def ConnectCall.Reply : ConnectCall → Type
  | sys c => c.Reply
  | socket _ _ _ => Except Errno Fd
  | inetAton _ => Option UInt32
  | inetPton6 _ => Option (List UInt8)
  | bindSource _ _ => Except Errno Unit
  | connect _ _ => Except Errno Unit
  | selectWrite _ _ => Selected
  | sockError _ => Except Errno (Option Errno)
  | getfl _ => Option UInt32
  | setfl _ _ => Bool
  | close _ => Unit
  | getaddrinfo _ _ => Except Errno (List Remote)
  | selectRead _ _ => Selected
  | read _ n => Except Errno { bytes : List UInt8 // bytes.length ≤ n }
  | write _ bytes => Except Errno { n : ℕ // n ≤ bytes.length }
  | pwrite _ bytes _ => Except Errno { n : ℕ // n ≤ bytes.length }
  | writev _ iov => Except Errno { n : ℕ // n ≤ iov.flatten.length }
  | calloc _ => Bool
  | time => ℤ

abbrev Connecting : Interface := ⟨ConnectCall,ConnectCall.Reply⟩

def ccall (c : ConnectCall) : Prog Connecting c.Reply := Prog.call (I := Connecting) c Prog.ret

/-- No source, or one of the names that stand for any. -/
def anySource (source : CStr) : Prop := source=CStr.lit "all" ∨ source=CStr.lit "any"

instance (source : CStr) : Decidable (anySource source) := inferInstanceAs (Decidable (_ ∨ _))

/-- The conversion of the source address and the bind to it. -/
def bindToSource (fd : Fd) (addr : Option InAddr) : Prog Connecting (Except Errno Unit) :=
  match addr with
  | none => return .error .einval
  | some addr => ccall (.bindSource fd addr)

def networkSource (fd : Fd) (family : AddrFamily) (source : Option CStr) :
    Prog Connecting (Except Errno Unit) := do
  match source with
  | none => return .ok ()
  | some source =>
    if anySource source then return .ok ()
    else
      match family with
      | .inet =>
        let addr : Option UInt32 ← ccall (.inetAton source)
        bindToSource fd (addr.map .v4)
      | .inet6 =>
        let addr : Option (List UInt8) ← ccall (.inetPton6 source)
        bindToSource fd (addr.map .v6)
      | .other => return .error .eafnosupport

def oNonblock : UInt32 := 0x800

def fdflagNonblocking (fd : Fd) (flag : Bool) : Prog Connecting Bool := do
  let mode : Option UInt32 ← ccall (.getfl fd)
  match mode with
  | none => return false
  | some mode => ccall (.setfl fd (if flag then mode ||| oNonblock else mode &&& ~~~oNonblock))

theorem nonblock_set (mode : UInt32) : (mode ||| oNonblock) &&& oNonblock≠0 := by
  intro h
  have hbit := congrArg (fun mode => mode.toBitVec.getLsbD 11) h
  simp [oNonblock] at hbit

theorem nonblock_cleared (mode : UInt32) : (mode &&& ~~~oNonblock) &&& oNonblock=0 := by
  rw [UInt32.and_assoc,UInt32.not_and_self,UInt32.and_zero]

/-- The mode that is set has the flag as asked for. -/
theorem nonblock_mode (mode : UInt32) (flag : Bool) :
    decide ((if flag then mode ||| oNonblock else mode &&& ~~~oNonblock) &&& oNonblock≠0)=
      flag := by
  cases flag with
  | true => exact decide_eq_true (nonblock_set mode)
  | false => exact decide_eq_false fun h => h (nonblock_cleared mode)

/-- The wait starts again, with all of the timeout, where a signal interrupts it. -/
def connectSelect (fd : Fd) (timeout : ℤ) : ℕ → Prog Connecting Selected
  | 0 => do
    let never : Empty ← ccall (.sys .outOfFuel)
    never.elim
  | fuel+1 => do
    let status : Selected ← ccall (.selectWrite fd timeout)
    if status=.failed .eintr then connectSelect fd timeout fuel else return status

def connectWait (fd : Fd) (timeout : ℤ) : Prog Connecting (Except Errno Unit) := do
  let fuel : ℕ ← ccall (.sys .fuel)
  let status ← connectSelect fd timeout fuel
  match status with
  | .failed errno => return .error errno
  | .timedOut => return .error .etimedout
  | .ready =>
    let err : Except Errno (Option Errno) ← ccall (.sockError fd)
    match err with
    | .error errno => return .error errno
    | .ok (some errno) => return .error errno
    | .ok none => return .ok ()

/-- A connect that is still in progress is waited for. -/
def inProgress (fd : Fd) (timeout : ℤ) (status : Except Errno Unit) :
    Prog Connecting (Except Errno Unit) :=
  if status=.error .einprogress then connectWait fd timeout else return status

/-- The part of the loop of network_connect that connects. -/
def startConnect (fd : Fd) (addr : SockAddr) (timeout : ℤ) :
    Prog Connecting (Except Errno Unit) := do
  if timeout=0 then ccall (.connect fd addr)
  else
    let _ ← fdflagNonblocking fd true
    let status : Except Errno Unit ← ccall (.connect fd addr)
    let status ← inProgress fd timeout status
    let _ ← fdflagNonblocking fd false
    return status

def closeIf (fd : Option Fd) : Prog Connecting Unit :=
  match fd with
  | none => return ()
  | some fd => ccall (.close fd)

/-- The loop over the addresses, from the socket that is left over from the address before
and errno. A failure says which socket is left over at the end. -/
def connectLoop (source : Option CStr) (timeout : ℤ) :
    Option Fd → Errno → List Remote → Prog Connecting (Except (Option Fd × Errno) Fd)
  | fd,errno,[] => return .error (fd,errno)
  | fd,_,ai :: rest => do
    closeIf fd
    let opened : Except Errno Fd ← ccall (.socket ai.family ai.socktype ai.protocol)
    match opened with
    | .error errno => connectLoop source timeout none errno rest
    | .ok fd =>
      let bound ← networkSource fd ai.family source
      match bound with
      | .error errno => connectLoop source timeout (some fd) errno rest
      | .ok _ =>
        let status ← startConnect fd ai.addr timeout
        match status with
        | .error errno => connectLoop source timeout (some fd) errno rest
        | .ok _ => return .ok fd

/-- Close a socket that failed, and keep errno. -/
def closeFailed (left : Option Fd × Errno) : Prog Connecting (Except Errno Fd) := do
  closeIf left.1
  return .error left.2

/-- errno is what it was before the call. -/
def networkConnect (ai : List Remote) (source : Option CStr) (timeout : ℤ) (errno : Errno) :
    Prog Connecting (Except Errno Fd) :=
  (connectLoop source timeout none errno ai).recover closeFailed

def networkConnectHost (host : CStr) (port : UInt16) (source : Option CStr) (timeout : ℤ)
    (errno : Errno) : Prog Connecting (Except Errno Fd) := do
  let ai : Except Errno (List Remote) ← ccall (.getaddrinfo host port)
  match ai with
  | .error errno => return .error errno
  | .ok ai => networkConnect ai source timeout errno

def networkClientCreate (domain : AddrFamily) (type : ℤ) (source : Option CStr) :
    Prog Connecting (Except Errno Fd) := do
  let opened : Except Errno Fd ← ccall (.socket domain type 0)
  match opened with
  | .error errno => return .error errno
  | .ok fd =>
    let bound ← networkSource fd domain source
    match bound with
    | .error errno => closeFailed (some fd,errno)
    | .ok _ => return .ok fd

/-- Bind and connect a new socket. -/
def dial (fd : Fd) (source : Option CStr) (timeout : ℤ) (ai : Remote) :
    Prog Connecting (Except Errno Unit) := do
  let bound ← networkSource fd ai.family source
  match bound with
  | .error errno => return .error errno
  | .ok _ => startConnect fd ai.addr timeout

/-- One address on its own: a socket that does not connect is closed at once. -/
def attempt (source : Option CStr) (timeout : ℤ) (ai : Remote) :
    Prog Connecting (Except Errno Fd) := do
  let opened : Except Errno Fd ← ccall (.socket ai.family ai.socktype ai.protocol)
  match opened with
  | .error errno => return .error errno
  | .ok fd =>
    let status ← dial fd source timeout ai
    match status with
    | .error errno => closeFailed (some fd,errno)
    | .ok _ => return .ok fd

/-- The loop leaves the close of a socket to its next round, or to what follows it. -/
theorem connectLoop_eq (source : Option CStr) (timeout : ℤ) (ais : List Remote) (fd : Option Fd)
    (errno : Errno) :
    (connectLoop source timeout fd errno ais).recover closeFailed=
      closeIf fd >>= fun _ => Prog.firstOk (attempt source timeout) errno ais := by
  induction ais generalizing fd errno with
  | nil => rfl
  | cons ai rest ih =>
    unfold Prog.recover
    rw [connectLoop,bind_assoc]
    refine congrArg (closeIf fd >>= ·) (funext fun _ => ?_)
    refine congrArg (Prog.call _) (funext fun opened => ?_)
    cases opened with
    | error errno => exact ih none errno
    | ok fd =>
      change (networkSource fd ai.family source >>= _) >>= _=
        ((networkSource fd ai.family source >>= _) >>= _) >>= _
      simp only [bind_assoc]
      refine congrArg (networkSource fd ai.family source >>= ·) (funext fun bound => ?_)
      cases bound with
      | error errno => exact ih (some fd) errno
      | ok _ =>
        dsimp only
        simp only [bind_assoc]
        refine congrArg (startConnect fd ai.addr timeout >>= ·) (funext fun status => ?_)
        cases status with
        | error errno => exact ih (some fd) errno
        | ok _ => rfl

/-- The addresses are tried one after the other. -/
theorem networkConnect_eq (ai : List Remote) (source : Option CStr) (timeout : ℤ)
    (errno : Errno) :
    networkConnect ai source timeout errno=Prog.firstOk (attempt source timeout) errno ai :=
  connectLoop_eq source timeout ai none errno

/-- What a socket is asked for, one for each address. -/
def asked : ConnectCall → Option (AddrFamily × ℤ × ℤ)
  | .socket family socktype protocol => some (family,socktype,protocol)
  | _ => none

def dialed : ConnectCall → Option (Fd × SockAddr)
  | .connect fd addr => some (fd,addr)
  | _ => none

def Remote.socket (ai : Remote) : AddrFamily × ℤ × ℤ := (ai.family,ai.socktype,ai.protocol)

/-- Calls that neither make a socket nor connect one. -/
def Aside (c : ConnectCall) : Prop := asked c=none ∧ dialed c=none

theorem bindToSource_aside (fd : Fd) (addr : Option InAddr) :
    (bindToSource fd addr).Meets Aside fun _ => True := by
  cases addr with
  | none => trivial
  | some addr => exact ⟨⟨rfl,rfl⟩,fun _ => trivial⟩

theorem networkSource_aside (fd : Fd) (family : AddrFamily) (source : Option CStr) :
    (networkSource fd family source).Meets Aside fun _ => True := by
  cases source with
  | none => trivial
  | some source =>
    change Prog.Meets _ _ (if anySource source then _ else _)
    split_ifs
    · trivial
    · cases family with
      | inet => exact ⟨⟨rfl,rfl⟩,fun _ => bindToSource_aside fd _⟩
      | inet6 => exact ⟨⟨rfl,rfl⟩,fun _ => bindToSource_aside fd _⟩
      | other => trivial

theorem fdflagNonblocking_aside (fd : Fd) (flag : Bool) :
    (fdflagNonblocking fd flag).Meets Aside fun _ => True := by
  refine ⟨⟨rfl,rfl⟩,fun mode => ?_⟩
  cases mode with
  | none => trivial
  | some mode => exact ⟨⟨rfl,rfl⟩,fun _ => trivial⟩

theorem connectSelect_aside (fd : Fd) (timeout : ℤ) (fuel : ℕ) :
    (connectSelect fd timeout fuel).Meets Aside fun _ => True := by
  induction fuel with
  | zero => exact ⟨⟨rfl,rfl⟩,fun r => r.elim⟩
  | succ fuel ih =>
    refine ⟨⟨rfl,rfl⟩,fun status => ?_⟩
    change Prog.Meets _ _ (if status=.failed .eintr then _ else _)
    split_ifs
    · exact ih
    · trivial

theorem connectWait_aside (fd : Fd) (timeout : ℤ) :
    (connectWait fd timeout).Meets Aside fun _ => True := by
  refine ⟨⟨rfl,rfl⟩,fun fuel => ?_⟩
  apply (connectSelect_aside fd timeout fuel).bind
  intro status _
  cases status with
  | failed errno => trivial
  | timedOut => trivial
  | ready =>
    refine ⟨⟨rfl,rfl⟩,fun err => ?_⟩
    rcases err with errno|_|errno
    · trivial
    · trivial
    · trivial

theorem inProgress_aside (fd : Fd) (timeout : ℤ) (status : Except Errno Unit) :
    (inProgress fd timeout status).Meets Aside fun _ => True := by
  unfold inProgress
  split_ifs
  · exact connectWait_aside fd timeout
  · trivial

section

variable {κ : Type} {kind : ConnectCall → Option κ} (hk : ∀ c,Aside c → kind c=none)

include hk

theorem emits_aside {α : Type} {p : Prog Connecting α} (h : p.Meets Aside fun _ => True) :
    p.Emits kind [] :=
  (h.mono hk fun _ _ => trivial).emits

/-- However the wait for it goes, there is one connect. -/
theorem startConnect_emits (fd : Fd) (addr : SockAddr) (timeout : ℤ) :
    (startConnect fd addr timeout).Emits kind (kind (.connect fd addr)).toList := by
  rw [startConnect]
  split_ifs
  · exact ⟨[],(List.append_nil _).symm,fun _ => rfl⟩
  · apply (emits_aside hk (fdflagNonblocking_aside fd true)).bind
    intro _
    refine ⟨[],(List.append_nil _).symm,fun status => ?_⟩
    exact emits_aside hk ((inProgress_aside fd timeout status).bind fun _ _ =>
      (fdflagNonblocking_aside fd false).bind fun _ _ => trivial)

end

/-- The only connect is of this socket to this address. -/
def DialsOnly (fd : Fd) (addr : SockAddr) (tr : List (Event Connecting)) : Prop :=
  tr.filterMap (fun ev => dialed ev.call)=[(fd,addr)]

theorem dial_traced (fd : Fd) (source : Option CStr) (timeout : ℤ) (ai : Remote) :
    (dial fd source timeout ai).Traced fun tr r =>
      tr.filterMap (fun ev => asked ev.call)=[] ∧
        Concluded True (fun _ => DialsOnly fd ai.addr tr) r := by
  have hsource := networkSource_aside fd ai.family source
  have hstart := (startConnect_emits (fun _ hc => hc.1) fd ai.addr timeout).traced.and
    (startConnect_emits (fun _ hc => hc.2) fd ai.addr timeout).traced
  apply ((emits_aside (fun _ hc => hc.1) hsource).traced.and
    (emits_aside (fun _ hc => hc.2) hsource).traced).bind
  intro tr bound htr
  obtain ⟨hasked,hdialed⟩ := htr
  cases bound with
  | error errno =>
    refine ⟨?_,trivial⟩
    rw [List.append_nil]
    exact hasked
  | ok _ =>
    apply hstart.mono
    intro tr' r htr'
    refine ⟨?_,?_⟩
    · rw [List.filterMap_append,hasked,htr'.1]
      rfl
    · cases r with
      | error errno => trivial
      | ok _ =>
        change List.filterMap _ _=_
        rw [List.filterMap_append,hdialed,htr'.2]
        rfl

/-- An address takes one socket; the one that connects is connected to the address. -/
theorem attempt_traced (source : Option CStr) (timeout : ℤ) (ai : Remote) :
    (attempt source timeout ai).Traced fun tr r =>
      tr.filterMap (fun ev => asked ev.call)=[ai.socket] ∧
        Concluded True (fun fd => DialsOnly fd ai.addr tr) r := by
  intro opened
  cases opened with
  | error errno => exact ⟨rfl,trivial⟩
  | ok fd =>
    apply (dial_traced fd source timeout ai).bind
    intro tr r htr
    obtain ⟨hasked,hdialed⟩ := htr
    cases r with
    | error errno =>
      intro closed
      refine ⟨?_,trivial⟩
      change ai.socket :: List.filterMap _ (tr++_)=_
      rw [List.filterMap_append,hasked]
      rfl
    | ok _ =>
      refine ⟨?_,?_⟩
      · change ai.socket :: List.filterMap _ (tr++[])=_
        rw [List.append_nil,hasked]
      · change List.filterMap _ (_ :: (tr++[]))=_
        rw [List.append_nil]
        exact hdialed

/-- What network_connect does with a list of addresses. It is the same as trying each of them
on its own and closing the socket of a failure at once; on every run that returns, one socket
is asked for for each address in turn, for all of them where it fails, and otherwise up to the
one that the socket it returns was last connected to. -/
structure InOrder (source : Option CStr) (timeout : ℤ) (errno : Errno) (ai : List Remote) :
    Prop where
  plain : networkConnect ai source timeout errno=Prog.firstOk (attempt source timeout) errno ai
  traced : (networkConnect ai source timeout errno).Traced fun tr =>
    Concluded (tr.filterMap (fun ev => asked ev.call)=ai.map Remote.socket) fun fd =>
      Prog.InTurn asked Remote.socket ai (fun x => DialsOnly fd x.addr) tr

theorem networkConnect_inOrder (source : Option CStr) (timeout : ℤ) (errno : Errno)
    (ai : List Remote) : InOrder source timeout errno ai where
  plain := networkConnect_eq ai source timeout errno
  traced := by
    rw [networkConnect_eq]
    exact Prog.firstOk_traced (fun x _ => attempt_traced source timeout x) errno

end Lbcd
