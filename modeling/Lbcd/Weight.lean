import Lbcd.Measure
import Lbcd.Modules.Ntp

namespace Lbcd

open Interaction CText ByteOrder

structure ServiceMapping where
  service : CStr
  function : Option WeightFunc
  deriving DecidableEq

def serviceTable : List ServiceMapping :=
  [⟨CStr.lit "load",some .load⟩,
    ⟨CStr.lit "cmd",some .cmd⟩,
    ⟨CStr.lit "rr",some .rr⟩,
    ⟨CStr.lit "unknown",some .unknown⟩,
    ⟨CStr.lit "ftp",some .ftp⟩,
    ⟨CStr.lit "http",some .http⟩,
    ⟨CStr.lit "imap",some .imap⟩,
    ⟨CStr.lit "nntp",some .nntp⟩,
    ⟨CStr.lit "ntp",some .ntp⟩,
    ⟨CStr.lit "pop",some .pop⟩,
    ⟨CStr.lit "smtp",some .smtp⟩,
    ⟨CStr.lit "tcp",some .tcp⟩,
    ⟨CStr.lit "",none⟩]

/-- The globals of weight.c. -/
structure WeightGlobals where
  lbcdCommand : Option CStr
  lbcdService : Option CStr
  defaultWeight : UInt32
  defaultIncrement : UInt32
  lbcdDefaultFunctab : Option ServiceMapping
  lbcdTimeout : ℤ
  deriving DecidableEq

/-- Before the program starts the globals are zero. -/
def WeightGlobals.initial : WeightGlobals := ⟨none,none,0,0,none,0⟩

def colon : UInt8 := 58

def defaultName : CStr := CStr.lit "default"

def isWeights (service : Option CStr) : ℤ :=
  match service with
  | none => -1
  | some s =>
    match s.bytes with
    | [] => -1
    | b :: bs =>
      if isdigit b=false then -1
      else if isdigit ((b :: bs).getLast (by simp))=false then -1
      else if (b :: bs).any (fun c => c≠colon && !isdigit c) then -1
      else if (b :: bs).count colon≠1 then -1
      else 0

/-- The two table loops: rows are compared up to the one with an empty name. -/
def scanTable (name : CStr) : List ServiceMapping → Option ServiceMapping
  | [] => none
  | stp :: rows =>
    if stp.service.bytes=[] then none
    else if name=stp.service then some stp
    else scanTable name rows

/-- The entry for a service; the error is the die at the end, none a null pointer. -/
def serviceToFunc (g : WeightGlobals) (service : Option CStr) :
    Except Die (Option ServiceMapping) :=
  match service with
  | none => .ok g.lbcdDefaultFunctab
  | some service =>
    if defaultName=service then .ok g.lbcdDefaultFunctab
    else
      let name := (service.strlcpy nameSize).cutAt colon
      match scanTable name serviceTable with
      | some stp => .ok (some stp)
      | none =>
        match scanTable (CStr.lit "unknown") serviceTable with
        | some stp => .ok (some stp)
        | none => .error .unknownService

def lbcdWeightInit (g : WeightGlobals) (cmd service : Option CStr) (timeout : ℤ) :
    Except Die WeightGlobals := do
  let g := { g with lbcdCommand := cmd, lbcdService := service, lbcdTimeout := timeout }
  if isWeights service=0 then
    let s := service.getD (CStr.lit "")
    let cp := ((s.strchr colon).getD (CStr.lit "")).next
    let g := { g with
      -- the string is cut at its colon in place
      lbcdService := some (s.cutAt colon)
      defaultWeight := UInt32.ofInt (s.cutAt colon).atoi
      defaultIncrement := UInt32.ofInt cp.atoi }
    let entry ← serviceToFunc g (some (CStr.lit "rr"))
    return { g with lbcdDefaultFunctab := entry }
  else
    match cmd with
    | some _ =>
      let entry ← serviceToFunc g (some (CStr.lit "cmd"))
      return { g with lbcdDefaultFunctab := entry }
    | none =>
      let g := { g with defaultWeight := 1, defaultIncrement := 1 }
      let entry ← serviceToFunc g (some (service.getD (CStr.lit "load")))
      return { g with lbcdDefaultFunctab := entry }

/-- Fill in weight and increment of the service with the given number and name. -/
def lbcdSetweight (g : WeightGlobals) (lb : LbcdReply) (offset : ℕ) (service : CStr) :
    Prog Server LbcdReply :=
  if h : offset < maxServices+1 then do
    let slot : Slot := ⟨offset,h⟩
    let lb := lb.setIncr slot g.defaultIncrement
    match serviceToFunc g (some service) with
    | .error d => die d
    | .ok none => fault .nullEntry
    | .ok (some functab) =>
      let cp := if service=defaultName then functab.service else service
      let cp := (cp.strchr colon).map CStr.next
      match functab.function with
      | none => fault .nullFunction
      | some f =>
        let (lb,_) ← Prog.lift (I := Server) (.weight f slot g.lbcdTimeout cp lb)
        return lb
  else fault (.badSlot offset)

def lbcdUnknownWeight (slot : Slot) (_timeout : ℤ) (_portarg : Option CStr) (lb : LbcdReply) :
    Prog System (LbcdReply × ℤ) :=
  return ((lb.setWeight slot (UInt32.ofInt (-1))).setIncr slot 0,0)

def lbcdRrWeight (g : WeightGlobals) (slot : Slot) (_timeout : ℤ) (_portarg : Option CStr)
    (lb : LbcdReply) : Prog System (LbcdReply × ℤ) :=
  return ((lb.setWeight slot g.defaultWeight).setIncr slot g.defaultIncrement,0)

/-- Multiplier penalty for a tmp directory from 90% to 100% full. -/
def penalty : Vector ℤ 11 := #v[2,2,2,2,4,4,4,8,8,16,32]

/-- The weight of lbcd_load_weight but for /etc/nologin. -/
def loadWeight (e : Endian) (lb : LbcdReply) : ℤ :=
  let tot : ℤ := (ntohs e lb.totUsers).toNat
  let uniq : ℤ := (ntohs e lb.uniqUsers).toNat
  let l1 : ℤ := (ntohs e lb.l1).toNat
  let fudge := (tot-uniq)*20
  let weight := uniq*100+3*l1+fudge
  let tmpUsed := max lb.tmpFull.toNat lb.tmpdirFull.toNat
  if tmpUsed < 90 then weight
  else if h : tmpUsed ≤ 100 then weight*penalty[tmpUsed-90]
  else -1

def lbcdLoadWeight (e : Endian) (slot : Slot) (_timeout : ℤ) (_portarg : Option CStr)
    (lb : LbcdReply) : Prog System (LbcdReply × ℤ) := do
  let nologin : Bool ← sys (.access .nologin)
  let weight := if nologin then -1 else loadWeight e lb
  return ((lb.setWeight slot (UInt32.ofInt weight)).setIncr slot 200,weight)

def sigterm : ℕ := 15

def sigkill : ℕ := 9

/-- The loop around waitpid: again on EINTR, none on any other error. -/
def waitChild (child : ℕ) : ℕ → Prog System (Option WaitPid)
  | 0 => outOfFuel
  | fuel+1 => do
    let st : WaitPid ← sys (.waitpid child)
    match st with
    | .failed true => waitChild child fuel
    | .failed false => return none
    | st => return some st

/-- sscanf with the format %d%d, when it stores both numbers. -/
def scanTwo (buf : List UInt8) : Option (UInt32 × UInt32) :=
  match scanInt (CStr.ofBuffer buf).bytes with
  | none => none
  | some (w,rest) =>
    match scanInt rest with
    | none => none
    | some (i,_) => some (UInt32.ofInt (wrapInt 32 w),UInt32.ofInt (wrapInt 32 i))

/-- The arguments of both calls of kill are in the order that the source has them:
the signal's number first, as the process. -/
def killChild (child : ℕ) : Prog System Unit := do
  let killed : Bool ← sys (.kill sigterm child)
  if killed then return ()
  else
    let _ : Bool ← sys (.kill sigkill child)
    return ()

/-- The child of the fork: standard output is the pipe, then the helper is run. -/
def cmdChild {α : Type} (cmd : Option CStr) (r w : Fd) : Prog System α := do
  let _ : Unit ← sys (.close r)
  let _ : Unit ← sys (.close 2)
  if w≠1 then
    let _ : Unit ← sys (.dup2 w 1)
    let _ : Unit ← sys (.close w)
  let _ : Unit ← sys (.execl cmd)
  let never : Empty ← sys (.exit 1)
  never.elim

/-- The numbers the helper's first line holds; none for every failure. -/
def runCmd (cmd : Option CStr) : Prog System (Option (UInt32 × UInt32)) := do
  let fds : Option (Fd × Fd) ← sys .pipe
  match fds with
  | none => return none
  | some (r,w) =>
    let forked : ForkResult ← sys .fork
    match forked with
    | .failed => return none
    | .child => cmdChild cmd r w
    | .parent child =>
      let _ : Unit ← sys (.close w)
      let fp : Bool ← sys (.fdopen r)
      if fp then
        let fuel : ℕ ← sys .fuel
        match ← waitChild child fuel with
        | none => do
          let _ : Unit ← sys (.fclose r)
          killChild child
          let _ : WaitPid ← sys (.waitpid child)
          return none
        | some (.exited 0) => do
          let line : Option { bs : List UInt8 // bs.length < 128 } ← sys (.fgets r 128)
          let _ : Unit ← sys (.fclose r)
          match line with
          | none => return none
          | some buf => return scanTwo buf.val
        | some (.exited _) => do
          let _ : Unit ← sys (.fclose r)
          return none
        | some _ => do
          killChild child
          let _ : Unit ← sys (.fclose r)
          return none
      else
        let _ : Bool ← sys (.kill sigterm child)
        let _ : WaitPid ← sys (.waitpid child)
        return none

/-- Every failure falls back on the unknown weight function. -/
def lbcdCmdWeight (g : WeightGlobals) (slot : Slot) (timeout : ℤ) (portarg : Option CStr)
    (lb : LbcdReply) : Prog System (LbcdReply × ℤ) := do
  match ← runCmd g.lbcdCommand with
  | none => lbcdUnknownWeight slot timeout portarg lb
  | some (w,i) => return ((lb.setWeight slot w).setIncr slot i,0)

def weightFunction (e : Endian) (g : WeightGlobals) :
    WeightFunc → Slot → ℤ → Option CStr → LbcdReply → Prog System (LbcdReply × ℤ)
  | .load => lbcdLoadWeight e
  | .cmd => lbcdCmdWeight g
  | .rr => lbcdRrWeight g
  | .unknown => lbcdUnknownWeight
  | .ftp => lbcdFtpWeight
  | .http => lbcdHttpWeight
  | .imap => lbcdImapWeight
  | .nntp => lbcdNntpWeight
  | .ntp => lbcdNtpWeight
  | .pop => lbcdPopWeight
  | .smtp => lbcdSmtpWeight
  | .tcp => lbcdTcpWeight

/-- What the server's calls do, in system calls. A log line has no effect and no failure. -/
def implement (e : Endian) (g : WeightGlobals) : (c : ServerCall) → Prog System c.Reply
  | .sys (.message _) => Prog.ret ()
  | .sys c => sys c
  | .kernelGetboottime => kernelGetboottime
  | .kernelGetload => kernelGetload
  | .getUserStats cache => getUserStats cache
  | .tmpFull path => tmpFull path
  | .weight f slot timeout portarg lb => weightFunction e g f slot timeout portarg lb

end Lbcd
