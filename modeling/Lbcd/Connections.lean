import Lbcd.Weight

namespace Lbcd

open Interaction CText ByteOrder

/-- A probe from its connection on: what is said over it, and the close. -/
def afterConnect (exchange : Fd → Prog System ℤ) : Option Fd → Prog System ℤ
  | none => return -1
  | some sd => do
    let v ← exchange sd
    let _ : Unit ← sys (.close sd)
    return v

def tcpExchange (replycheck : Option CStr) (timeout : ℤ) (sd : Fd) : Prog System ℤ :=
  match replycheck with
  | none => return 0
  | some token => do
    let v ← lbcdCheckReply sd timeout (some token)
    let _ : ℤ ← sys (.write sd (CStr.lit "quit\r\n").bytes)
    return v

def imapExchange (timeout : ℤ) (sd : Fd) : Prog System ℤ := do
  let v ← lbcdCheckReply sd timeout (some (CStr.lit "* OK"))
  let _ : ℤ ← sys (.write sd (CStr.lit "tag logout\r\n").bytes)
  return v

/-- The answer of an HTTP server, read into a buffer. -/
def httpAnswer (timeout : ℤ) (sd : Fd) (buf : { bs : List UInt8 // bs.length=17 }) :
    Prog System ℤ := do
  let ready : ℤ ← sys (.select sd timeout)
  if 0 < ready then
    let got : ReadReply 16 ← sys (.read sd 16)
    match got with
    | none => return -1
    | some bs =>
      if bs.val≠[] ∧ httpAccepts (overlay bs.val (buf.val.set 16 0)) then return 0
      else return -1
  else return -1

def httpExchange (timeout : ℤ) (sd : Fd) : Prog System ℤ := do
  let buf : { bs : List UInt8 // bs.length=17 } ← sys (.stackBuffer 17)
  let n : ℤ ← sys (.write sd httpQuery)
  if n < httpQuery.length then return -1 else httpAnswer timeout sd buf

theorem probeTcp_eq (host service : Option CStr) (port : ℤ) (replycheck : Option CStr)
    (timeout : ℤ) :
    probeTcp host service port replycheck timeout=
      tcpConnect (host.getD localhost) service port >>=
        afterConnect (tcpExchange replycheck timeout) := by
  rw [probeTcp]
  refine congrArg (tcpConnect _ service port >>= ·) (funext fun sd => ?_)
  cases sd with
  | none => rfl
  | some sd =>
    cases replycheck with
    | none => rfl
    | some token =>
      rw [afterConnect,tcpExchange,bind_assoc]
      rfl

theorem probeImap_eq (host : Option CStr) (timeout : ℤ) :
    probeImap host timeout=
      tcpConnect (host.getD localhost) (some (CStr.lit "imap")) 143 >>=
        afterConnect (imapExchange timeout) := by
  rw [probeImap]
  refine congrArg (tcpConnect _ _ 143 >>= ·) (funext fun sd => ?_)
  cases sd with
  | none => rfl
  | some sd =>
    rw [afterConnect,imapExchange,bind_assoc]
    rfl

theorem probeHttp_eq (host : Option CStr) (timeout : ℤ) (portarg : Option CStr) :
    probeHttp host timeout portarg=
      tcpConnect (host.getD localhost) (httpPort portarg).2 (httpPort portarg).1 >>=
        afterConnect (httpExchange timeout) := by
  rw [probeHttp]
  refine congrArg (tcpConnect _ _ _ >>= ·) (funext fun sd => ?_)
  cases sd with
  | none => rfl
  | some sd =>
    refine congrArg (Prog.call _) (funext fun buf => congrArg (Prog.call _) (funext fun n => ?_))
    change (if n < httpQuery.length then _ else _)=
      (if n < httpQuery.length then _ else httpAnswer timeout sd buf) >>= _
    split_ifs
    · rfl
    · refine congrArg (Prog.call _) (funext fun ready => ?_)
      change (if 0 < ready then _ else _)=(if 0 < ready then _ else _) >>= _
      split_ifs
      · refine congrArg (Prog.call _) (funext fun got => ?_)
        cases got with
        | none => rfl
        | some got =>
          change (if got.val≠[] ∧ httpAccepts (overlay got.val (buf.val.set 16 0))=true then _
              else _)=
            (if got.val≠[] ∧ httpAccepts (overlay got.val (buf.val.set 16 0))=true then _
              else _) >>= _
          split_ifs
          · rfl
          · rfl
      · rfl

theorem probeNtp_eq (host : Option CStr) (timeout : ℤ) :
    probeNtp host timeout=
      udpConnect (host.getD localhost) (some (CStr.lit "ntp")) 123 >>=
        afterConnect fun sd => monlist sd timeout := by
  rw [probeNtp]
  refine congrArg (udpConnect _ _ 123 >>= ·) (funext fun sd => ?_)
  cases sd with
  | none => rfl
  | some sd => rfl

/-- What the parent does with the helper's wait status. -/
def afterWait (r : Fd) (child : ℕ) : Option WaitPid → Prog System (Option (UInt32 × UInt32))
  | none => do
    let _ : Unit ← sys (.fclose r)
    killChild child
    let _ : WaitPid ← sys (.waitpid child)
    return none
  | some (.exited 0) => do
    let line : Option { bs : List UInt8 // bs.length < 128 } ← sys (.fgets r 128)
    let _ : Unit ← sys (.fclose r)
    match line with
    | none => return none
    | some buf => return scanTwo buf.val
  | some (.exited _) => do
    let _ : Unit ← sys (.fclose r)
    return none
  | some _ => do
    killChild child
    let _ : Unit ← sys (.fclose r)
    return none

/-- The parent's side of the fork. -/
def cmdParent (r w : Fd) (child : ℕ) : Prog System (Option (UInt32 × UInt32)) := do
  let _ : Unit ← sys (.close w)
  let fp : Bool ← sys (.fdopen r)
  if fp then
    let fuel : ℕ ← sys .fuel
    waitChild child fuel >>= afterWait r child
  else
    let _ : Bool ← sys (.kill sigterm child)
    let _ : WaitPid ← sys (.waitpid child)
    return none

theorem runCmd_eq (cmd : Option CStr) :
    runCmd cmd=
      (do
        let fds : Option (Fd × Fd) ← sys .pipe
        match fds with
        | none => return none
        | some (r,w) =>
          let forked : ForkResult ← sys .fork
          match forked with
          | .failed => return none
          | .child => cmdChild cmd r w
          | .parent child => cmdParent r w child) :=
  rfl

end Lbcd
