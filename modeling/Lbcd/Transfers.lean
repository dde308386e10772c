import Lbcd.Interaction.Transfer
import Lbcd.Connect

namespace Lbcd

open Interaction

/-- One write of what is left. -/
def writeOnce (fd : Fd) (buffer sent : List UInt8) :
    Prog Connecting (Except Errno (List UInt8)) := do
  let rest := buffer.drop sent.length
  let status : Except Errno { n : ℕ // n ≤ rest.length } ← ccall (.write fd rest)
  match status with
  | .ok n => return .ok (rest.take n.val)
  | .error errno => return .error errno

def pwriteOnce (fd : Fd) (buffer : List UInt8) (offset : ℕ) (sent : List UInt8) :
    Prog Connecting (Except Errno (List UInt8)) := do
  let rest := buffer.drop sent.length
  let status : Except Errno { n : ℕ // n ≤ rest.length } ←
    ccall (.pwrite fd rest (offset+sent.length))
  match status with
  | .ok n => return .ok (rest.take n.val)
  | .error errno => return .error errno

/-- One read of what is missing; the end of the file is an error. -/
def readOnce (fd : Fd) (size : ℕ) (got : List UInt8) :
    Prog Connecting (Except Errno (List UInt8)) := do
  let missing := size-got.length
  let status : Except Errno { bytes : List UInt8 // bytes.length ≤ missing } ←
    ccall (.read fd missing)
  match status with
  | .ok bytes => return if bytes.val=[] then .error .epipe else .ok bytes.val
  | .error errno => return .error errno

/-- An error after which the loops below try again is as good as moving nothing. -/
def retrying (again : List Errno) (p : Prog Connecting (Except Errno (List UInt8))) :
    Prog Connecting (Except Errno (List UInt8)) := do
  let status ← p
  match status with
  | .ok bytes => return .ok bytes
  | .error errno => return if errno∈again then .ok [] else .error errno

def maxTries : ℕ := 10

/-- The bytes written, and the error if there is one. -/
def xwrite (fd : Fd) (buffer : List UInt8) :
    Prog Connecting (List UInt8 × Except (Option Errno) Unit) :=
  if buffer.length=0 then return ([],.ok ())
  else Prog.transfer maxTries buffer.length
    (fun sent => retrying [.eintr] (writeOnce fd buffer sent)) [] 0

def xpwrite (fd : Fd) (buffer : List UInt8) (offset : ℕ) :
    Prog Connecting (List UInt8 × Except (Option Errno) Unit) :=
  if buffer.length=0 then return ([],.ok ())
  else Prog.transfer maxTries buffer.length
    (fun sent => retrying [.eintr] (pwriteOnce fd buffer offset sent)) [] 0

/-- The first loop of xwritev, with its count and the status of its last round. -/
def writevFirst (fd : Fd) (iov : List (List UInt8)) (count : ℕ) (status : Except Errno ℕ) :
    Prog Connecting (Except Errno ℕ × ℕ) :=
  if maxTries < count+1 then return (status,count+1)
  else do
    let status : Except Errno { n : ℕ // n ≤ iov.flatten.length } ← ccall (.writev fd iov)
    match status with
    | .ok n => return (.ok n.val,if n.val > 0 then 0 else count+1)
    | .error errno =>
      if errno=.eintr then writevFirst fd iov (count+1) (.error errno)
      else return (.error errno,count+1)
termination_by maxTries-count

/-- Pass over the vectors that are written out, to the one that the offset points into. There
is none where the loop would run past the end of the array. -/
def skipWritten : ℕ → List (List UInt8) → Option (ℕ × List UInt8 × List (List UInt8))
  | _,[] => none
  | offset,v :: vs =>
    if v.length ≤ offset then skipWritten (offset-v.length) vs else some (offset,v,vs)

/-- The second loop of xwritev, and how much is left when it ends. -/
def writevRest (fd : Fd) (count offset left : ℕ) (iov : List (List UInt8)) :
    Prog Connecting ℕ :=
  if maxTries < count+1 then return left
  else
    match skipWritten offset iov with
    | none => ccall (.sys (.fault (.overread offset))) >>= Empty.elim
    | some (offset,v,vs) => do
      let iov := v.drop offset :: vs
      let status : Except Errno { n : ℕ // n ≤ iov.flatten.length } ← ccall (.writev fd iov)
      match status with
      | .error errno =>
        if 0 < left ∧ errno=.eintr then writevRest fd (count+1) 0 left iov else return left
      | .ok ⟨0,_⟩ => if 0 < left then writevRest fd (count+1) 0 left iov else return left
      | .ok ⟨n+1,_⟩ =>
        if 0 < left-(n+1) then writevRest fd 0 (n+1) (left-(n+1)) iov else return left-(n+1)
termination_by (left,maxTries-count)

/-- The return value; none is -1. -/
def xwritev (fd : Fd) (iov : List (List UInt8)) : Prog Connecting (Option ℕ) := do
  let total := iov.flatten.length
  if iov.length=0 then return some 0
  else if total=0 then return some 0
  else
    let (status,count) ← writevFirst fd iov 0 (.ok 0)
    match status with
    | .error _ => return none
    | .ok n =>
      if n=total then return some total
      else
        match skipWritten n iov with
        | none => ccall (.sys (.fault (.overread n))) >>= Empty.elim
        | some (offset,v,vs) =>
          let allocated : Bool ← ccall (.calloc (v :: vs).length)
          if allocated then
            let left ← writevRest fd count offset (total-n) (v :: vs)
            return if left=0 then some total else none
          else return none

def maxReads : ℕ := 100

/-- The bytes read, and the error if there is one. Where nothing comes for too long the error
is that of an end of file. -/
def socketXread (fd : Fd) (size : ℕ) : Prog Connecting (List UInt8 × Except Errno Unit) := do
  let (got,status) ← Prog.transfer maxReads size
    (fun got => retrying [.eintr,.eagain] (readOnce fd size got)) [] 0
  match status with
  | .ok _ => return (got,.ok ())
  | .error none => return (got,.error .epipe)
  | .error (some errno) => return (got,.error errno)

/-- The loop of network_read and network_write, with what is moved and the last time. After an
interruption the time is not read again. -/
def timedLoop (select : ℤ → Prog Connecting Selected)
    (attempt : List UInt8 → Prog Connecting (Except Errno (List UInt8))) (size : ℕ)
    (timeout start : ℤ) :
    ℕ → List UInt8 → ℤ → Prog Connecting (List UInt8 × Except Errno Unit)
  | 0,_,_ => ccall (.sys .outOfFuel) >>= Empty.elim
  | fuel+1,moved,now => do
    let next (moved : List UInt8) (now : ℤ) :
        Prog Connecting (List UInt8 × Except Errno Unit) :=
      if now-start < timeout then timedLoop select attempt size timeout start fuel moved now
      else return (moved,.error .etimedout)
    let status ← select (max 1 (timeout-(now-start)))
    match status with
    | .failed errno => if errno=.eintr then next moved now else return (moved,.error errno)
    | .timedOut => return (moved,.error .etimedout)
    | .ready =>
      let status ← attempt moved
      match status with
      | .error errno => if errno=.eintr then next moved now else return (moved,.error errno)
      | .ok bytes =>
        let moved := moved++bytes
        if moved.length=size then return (moved,.ok ())
        else
          let now : ℤ ← ccall .time
          next moved now

def timed (select : ℤ → Prog Connecting Selected)
    (attempt : List UInt8 → Prog Connecting (Except Errno (List UInt8))) (size : ℕ)
    (timeout : ℤ) : Prog Connecting (List UInt8 × Except Errno Unit) := do
  let start : ℤ ← ccall .time
  let fuel : ℕ ← ccall (.sys .fuel)
  timedLoop select attempt size timeout start fuel [] start

/-- The buffer as far as it is filled, and the error if there is one. -/
def networkRead (fd : Fd) (total : ℕ) (timeout : ℤ) :
    Prog Connecting (List UInt8 × Except Errno Unit) :=
  if timeout=0 then socketXread fd total
  else timed (fun seconds => ccall (.selectRead fd seconds)) (readOnce fd total) total timeout

def networkWrite (fd : Fd) (buffer : List UInt8) (timeout : ℤ) :
    Prog Connecting (List UInt8 × Except (Option Errno) Unit) := do
  if timeout=0 then xwrite fd buffer
  else
    let _ ← fdflagNonblocking fd true
    let (sent,status) ← timed (fun seconds => ccall (.selectWrite fd seconds))
      (writeOnce fd buffer) buffer.length timeout
    let _ ← fdflagNonblocking fd false
    return (sent,status.mapError some)

end Lbcd
