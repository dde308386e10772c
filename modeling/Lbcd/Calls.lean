import Mathlib.Data.Rat.Init
import Lbcd.Interaction.Logic
import Lbcd.Protocol

namespace Lbcd

open Interaction CText

/-- An open descriptor; a failed open is none where C returns -1. -/
abbrev Fd := ℕ

/-- A socket address, by its bytes. -/
abbrev SockAddr := List UInt8

/-- The weight functions that service_table points to. -/
inductive WeightFunc where
  | load
  | cmd
  | rr
  | unknown
  | ftp
  | http
  | imap
  | nntp
  | ntp
  | pop
  | smtp
  | tcp
  deriving DecidableEq

/-- Lines written to the log. -/
inductive Message where
  | cannotReceive
  | shortPacket (length : ℕ)
  | tooManyServices (count : ℕ)
  | incorrectSize (length expected : ℕ)
  | unsupportedVersion (version : UInt16)
  | notAllowed (service : CStr)
  | cannotSend
  | requestFrom (version : UInt16)
  | unknownOp (op : UInt16)
  | cannotSetHandler
  | cannotCreatePid (path : CStr)
  | ready
  | cannotNotifySystemd
  | cannotNotifyUpstart
  | exiting
  | cannotOpen
  | cannotParse
  deriving DecidableEq

/-- Messages of die and sysdie, which end the process. -/
inductive Die where
  | unknownService
  | listenFds
  | createSocket
  | bindAddress (addr : CStr)
  | closeExec
  | waitConnections
  deriving DecidableEq

/-- Undefined behaviour the model stops at. -/
inductive Fault where
  | overread (offset : ℕ)
  | badSlot (offset : ℕ)
  | nullEntry
  | nullFunction
  | badSize
  deriving DecidableEq

inductive Signal where
  | hup
  | int
  | term
  | pipe
  deriving DecidableEq

inductive Disposition where
  | dfl
  | ign
  | handler
  deriving DecidableEq

/-- Files whose existence is asked for: LBCD_SENTINEL_FILE and /etc/nologin. -/
inductive HostFile where
  | sentinel
  | nologin
  deriving DecidableEq

/-- /tmp and P_tmpdir. -/
inductive TmpDir where
  | tmp
  | pTmpdir
  deriving DecidableEq

/-- /proc/uptime and /proc/loadavg. -/
inductive ProcFile where
  | uptime
  | loadavg
  deriving DecidableEq

/-- The utmp file, /dev/console and /dev/tty1. -/
inductive StatFile where
  | utmp
  | console
  | tty1
  deriving DecidableEq

structure FileStat where
  stMtime : ℤ
  stUid : ℕ
  deriving DecidableEq

structure StatVfs where
  fBavail : ℕ
  fBlocks : ℕ
  deriving DecidableEq

/-- A utmpx record, by the members that are read. -/
structure Utmpx where
  userProcess : Bool
  utLine : List UInt8
  utHost : List UInt8
  utUser : List UInt8
  deriving DecidableEq

structure AddrInfo where
  addr : UInt32
  port : UInt16
  deriving DecidableEq

/-- A received datagram: its whole payload and where it came from. -/
structure Datagram where
  payload : List UInt8
  source : SockAddr
  deriving DecidableEq

inductive WaitAny where
  | ready (fd : Fd)
  | interrupted
  | failed
  deriving DecidableEq

inductive ForkResult where
  | failed
  | child
  | parent (pid : ℕ)
  deriving DecidableEq

inductive WaitPid where
  | failed (eintr : Bool)
  | exited (status : ℕ)
  | signaled (sig : ℕ)
  deriving DecidableEq

/-- Statics of get_user_stats. -/
structure UserCache where
  lastTotal : ℤ
  lastUniq : ℤ
  lastOnConsole : ℤ
  lastUserMtime : ℤ
  deriving DecidableEq

structure UserStats where
  total : ℤ
  uniq : ℤ
  onConsole : ℤ
  userMtime : ℤ
  deriving DecidableEq

/-- The double variables of lbcd_pack_info; kernel_getload may leave some unset. -/
structure Loads where
  l1 : Option ℚ
  l5 : Option ℚ
  l15 : Option ℚ
  deriving DecidableEq

/-- Automatic variables of lbcd_pack_info before they are assigned. -/
structure PackLocals where
  bt : ℤ
  l1 : ℚ
  l5 : ℚ
  l15 : ℚ
  deriving DecidableEq

/-- System calls and library routines outside the program. Fuel is none of these:
it is a bound on the turns of the next loop, as every finite run has one. The stack
calls give the indeterminate contents of automatic storage. -/
inductive SysCall where
  | fuel
  | outOfFuel
  | fault (f : Fault)
  | die (d : Die)
  | message (m : Message)
  | stackReply
  | stackLocals
  | stackBuffer (n : ℕ)
  | undefinedInt
  | malloc (n : ℕ)
  | sigaction (sig : Signal) (act : Disposition)
  | sdListenFds
  | networkBindAll (port : UInt16)
  | inetPton6 (addr : CStr)
  | networkBind (v6 : Bool) (addr : CStr) (port : UInt16)
  | closeExec (fd : Fd)
  | createPid (path : CStr)
  | writePid
  | sdNotify
  | raiseStop
  | exitSignaled
  | networkWaitAny (fds : List Fd)
  | recvfrom (fd : Fd)
  | sendto (fd : Fd) (packet : List UInt8) (addr : SockAddr)
  | unlink (path : CStr)
  | time
  | access (f : HostFile)
  | chdir (d : TmpDir)
  | statvfs
  | stat (f : StatFile)
  | utmpRecords
  | hsearchEnter (count : ℕ)
  | fopen (f : ProcFile)
  | fscanf (n : ℕ)
  | fcloseProc
  | getaddrinfo (host service : CStr) (numericserv : Bool)
  | networkConnect (ai : List AddrInfo)
  | select (fd : Fd) (timeout : ℤ)
  | read (fd : Fd) (n : ℕ)
  | write (fd : Fd) (bytes : List UInt8)
  | close (fd : Fd)
  | getservbyname (name : CStr)
  | getservbyport (port : UInt16)
  | endservent
  | inetAddr (host : CStr)
  | gethostbyaddr (addr : UInt32)
  | gethostbyname (host : CStr)
  | socket
  | connect (fd : Fd) (addr : UInt32) (port : UInt16)
  | send (fd : Fd) (bytes : List UInt8)
  | recv (fd : Fd) (n : ℕ)
  | pipe
  | fork
  | dup2 (old new : Fd)
  | execl (path : Option CStr)
  | exit (status : ℕ)
  | fdopen (fd : Fd)
  | waitpid (pid : ℕ)
  | kill (pid sig : ℕ)
  | fgets (fd : Fd) (n : ℕ)
  | fclose (fd : Fd)
  deriving DecidableEq

/-- A read of at most n bytes: none for -1, the empty list for end of file. -/
abbrev ReadReply (n : ℕ) := Option { bs : List UInt8 // bs.length ≤ n }

@[reducible] def SysCall.Reply : SysCall → Type
  | fuel => ℕ
  | outOfFuel => Empty
  | fault _ => Empty
  | die _ => Empty
  | message _ => Unit
  | stackReply => LbcdReply
  | stackLocals => PackLocals
  | stackBuffer n => { bs : List UInt8 // bs.length=n }
  | undefinedInt => ℤ
  | malloc n => Option { bs : List UInt8 // bs.length=n }
  | sigaction _ _ => Bool
  | sdListenFds => ℤ
  | networkBindAll _ => Option (List Fd)
  | inetPton6 _ => Bool
  | networkBind _ _ _ => Option Fd
  | closeExec _ => Bool
  | createPid _ => Bool
  | writePid => Unit
  | sdNotify => ℤ
  | raiseStop => Bool
  | exitSignaled => Bool
  | networkWaitAny _ => WaitAny
  | recvfrom _ => Option Datagram
  | sendto _ _ _ => Option ℕ
  | unlink _ => Unit
  | time => ℤ
  | access _ => Bool
  | chdir _ => Bool
  | statvfs => Option StatVfs
  | stat _ => Option FileStat
  | utmpRecords => List Utmpx
  | hsearchEnter _ => Bool
  | fopen _ => Bool
  | fscanf n => { qs : List ℚ // qs.length ≤ n }
  | fcloseProc => Unit
  | getaddrinfo _ _ _ => Option (List AddrInfo)
  | networkConnect _ => Option Fd
  | select _ _ => ℤ
  | read _ n => ReadReply n
  | write _ _ => ℤ
  | close _ => Unit
  | getservbyname _ => Option UInt16
  | getservbyport _ => Option UInt16
  | endservent => Unit
  | inetAddr _ => Option UInt32
  | gethostbyaddr _ => Option UInt32
  | gethostbyname _ => Option UInt32
  | socket => Option Fd
  | connect _ _ _ => Bool
  | send _ _ => Bool
  | recv _ n => ReadReply n
  | pipe => Option (Fd × Fd)
  | fork => ForkResult
  | dup2 _ _ => Unit
  | execl _ => Unit
  | exit _ => Empty
  | fdopen _ => Bool
  | waitpid _ => WaitPid
  | kill _ _ => Bool
  | fgets _ n => Option { bs : List UInt8 // bs.length < n }
  | fclose _ => Unit

/-- The calls that server.c and lbcd.c make: system calls, and the measuring routines
and weight functions of the other files. -/
inductive ServerCall where
  | sys (c : SysCall)
  | kernelGetboottime
  | kernelGetload
  | getUserStats (cache : UserCache)
  | tmpFull (path : TmpDir)
  | weight (f : WeightFunc) (slot : Slot) (timeout : ℤ) (portarg : Option CStr)
      (lb : LbcdReply)
  deriving DecidableEq

@[reducible] def ServerCall.Reply : ServerCall → Type
  | sys c => c.Reply
  | kernelGetboottime => Option ℤ
  | kernelGetload => Loads
  | getUserStats _ => UserStats × UserCache
  | tmpFull _ => ℤ
  | weight _ _ _ _ _ => LbcdReply × ℤ

abbrev System : Interface := ⟨SysCall,SysCall.Reply⟩

abbrev Server : Interface := ⟨ServerCall,ServerCall.Reply⟩

/-- Issue a system call. -/
def sys (c : SysCall) : Prog System c.Reply := Prog.call (I := System) c Prog.ret

/-- Issue a system call from the server's own code. -/
def ssys (c : SysCall) : Prog Server c.Reply :=
  Prog.call (I := Server) (.sys c) Prog.ret

def outOfFuel {α : Type} : Prog System α := Prog.call (I := System) .outOfFuel Empty.elim

def fault {α : Type} (f : Fault) : Prog Server α :=
  Prog.call (I := Server) (.sys (.fault f)) Empty.elim

def die {α : Type} (d : Die) : Prog Server α :=
  Prog.call (I := Server) (.sys (.die d)) Empty.elim

section SystemCall

variable {α : Type} (o : Oracle System) (c : SysCall) (k : c.Reply → Prog System α)

theorem sys_bind_result :
    (sys c >>= k).result o=(o 0 c).bind fun r => (k r).result (o.drop 1) := rfl

theorem sys_bind_trace :
    (sys c >>= k).trace o=⟨c,o 0 c⟩ :: (o 0 c).elim [] fun r => (k r).trace (o.drop 1) := rfl

end SystemCall

@[simp] theorem ssys_bind {α : Type} (c : SysCall) (f : c.Reply → Prog Server α) :
    (ssys c >>= f)=Prog.call (I := Server) (.sys c) f := rfl

end Lbcd
