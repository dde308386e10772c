import Lbcd.Calls

namespace Lbcd

open Interaction CText

/-- A buffer after bytes were read into its beginning. -/
def overlay (bs buf : List UInt8) : List UInt8 := bs++buf.drop bs.length

def lbcdCheckReply (sd : Fd) (timeout : ℤ) (token : Option CStr) : Prog System ℤ := do
  match token with
  | none => return -1
  | some token =>
    let len := token.bytes.length
    let block : Option { bs : List UInt8 // bs.length=len+1 } ← sys (.malloc (len+1))
    match block with
    | none => return -1
    | some buf =>
      let n : ℤ ← sys (.select sd timeout)
      if 0 < n then
        let got : ReadReply len ← sys (.read sd len)
        match got with
        | none => return -1
        | some bs =>
          -- the whole buffer is compared, also when the read was short
          if bs.val=[] then return -1
          else if CStr.ofBuffer (overlay bs.val (buf.val.set len 0))=token then return 0
          else return -1
      else return -1

/-- The socket of tcp_connect, once the host is looked up. -/
def tcpLink (ai : Option (List AddrInfo)) : Prog System (Option Fd) := do
  match ai with
  | none => return none
  | some ai => sys (.networkConnect ai)

/-- A protocol name that does not resolve falls back on the port, unless that is 0. -/
def tcpFallback (host : CStr) (port : ℤ) (ai : Option (List AddrInfo)) :
    Prog System (Option Fd) := do
  let ai : Option (List AddrInfo) ← if ai=none ∧ port≠0 then
      sys (.getaddrinfo host (CStr.lit (toString port)) true)
    else pure ai
  tcpLink ai

def tcpConnect (host : CStr) (protocol : Option CStr) (port : ℤ) :
    Prog System (Option Fd) := do
  let ai : Option (List AddrInfo) ← match protocol with
    | some name => sys (.getaddrinfo host name false)
    | none => pure none
  tcpFallback host port ai

def localhost : CStr := CStr.lit "localhost"

def probeTcp (host service : Option CStr) (port : ℤ) (replycheck : Option CStr)
    (timeout : ℤ) : Prog System ℤ := do
  match ← tcpConnect (host.getD localhost) service port with
  | none => return -1
  | some sd =>
    match replycheck with
    | none => do
      let _ : Unit ← sys (.close sd)
      return 0
    | some token => do
      let retval ← lbcdCheckReply sd timeout (some token)
      let _ : ℤ ← sys (.write sd (CStr.lit "quit\r\n").bytes)
      let _ : Unit ← sys (.close sd)
      return retval

def probeFtp (host : Option CStr) (timeout : ℤ) : Prog System ℤ :=
  probeTcp host (some (CStr.lit "ftp")) 21 (some (CStr.lit "220")) timeout

def probeNntp (host : Option CStr) (timeout : ℤ) : Prog System ℤ :=
  probeTcp host (some (CStr.lit "nntp")) 119 (some (CStr.lit "200")) timeout

def probePop (host : Option CStr) (timeout : ℤ) : Prog System ℤ :=
  probeTcp host (some (CStr.lit "pop")) 110 (some (CStr.lit "+OK")) timeout

def probeSmtp (host : Option CStr) (timeout : ℤ) : Prog System ℤ :=
  probeTcp host (some (CStr.lit "smtp")) 25 (some (CStr.lit "220")) timeout

def probeImap (host : Option CStr) (timeout : ℤ) : Prog System ℤ := do
  match ← tcpConnect (host.getD localhost) (some (CStr.lit "imap")) 143 with
  | none => return -1
  | some sd =>
    let retval ← lbcdCheckReply sd timeout (some (CStr.lit "* OK"))
    let _ : ℤ ← sys (.write sd (CStr.lit "tag logout\r\n").bytes)
    let _ : Unit ← sys (.close sd)
    return retval

/-- QUERY as it is written, its NUL included. -/
def httpQuery : List UInt8 := (CStr.lit "GET / HTTP/1.0\r\n\r\n").bytes++[0]

/-- Look for a response starting with 20x or 30x. -/
def httpAccepts (buf : List UInt8) : Bool :=
  let text := (CStr.ofBuffer buf).bytes
  let p := (strstr (CStr.lit "20").bytes text).or (strstr (CStr.lit "30").bytes text)
  match p with
  | some (_ :: _ :: c :: _) => isdigit c
  | _ => false

/-- The port argument of http, and whether the name http is tried first. -/
def httpPort (portarg : Option CStr) : ℤ × Option CStr :=
  match portarg with
  | none => (80,some (CStr.lit "http"))
  | some arg =>
    let port := wrapInt 16 arg.atoi
    if port < 1 then (80,some (CStr.lit "http")) else (port,none)

def probeHttp (host : Option CStr) (timeout : ℤ) (portarg : Option CStr) :
    Prog System ℤ := do
  let (port,service) := httpPort portarg
  match ← tcpConnect (host.getD localhost) service port with
  | none => return -1
  | some sd =>
    let buf : { bs : List UInt8 // bs.length=17 } ← sys (.stackBuffer 17)
    let n : ℤ ← sys (.write sd httpQuery)
    if n < httpQuery.length then
      let _ : Unit ← sys (.close sd)
      return -1
    else
      let ready : ℤ ← sys (.select sd timeout)
      let retval : ℤ ← if 0 < ready then do
          let got : ReadReply 16 ← sys (.read sd 16)
          match got with
          | none => pure (-1)
          | some bs =>
            if bs.val≠[] ∧ httpAccepts (overlay bs.val (buf.val.set 16 0)) then pure 0
            else pure (-1)
        else pure (-1)
      let _ : Unit ← sys (.close sd)
      return retval

/-- A weight function's store of a probe's return value through its first pointer;
the function returns the stored word as an int. -/
def assignWeight (slot : Slot) (lb : LbcdReply) (v : ℤ) : LbcdReply × ℤ :=
  let lb := lb.setWeight slot (UInt32.ofInt v)
  (lb,(lb.slot slot).hostWeight.toBitVec.toInt)

/-- What the weight functions do that report the return value of a probe. -/
def probeWeight (slot : Slot) (lb : LbcdReply) (probe : Prog System ℤ) :
    Prog System (LbcdReply × ℤ) := do
  let v ← probe
  return assignWeight slot lb v

def lbcdFtpWeight (slot : Slot) (timeout : ℤ) (_portarg : Option CStr) (lb : LbcdReply) :
    Prog System (LbcdReply × ℤ) :=
  probeWeight slot lb (probeFtp (some localhost) timeout)

def lbcdNntpWeight (slot : Slot) (timeout : ℤ) (_portarg : Option CStr) (lb : LbcdReply) :
    Prog System (LbcdReply × ℤ) :=
  probeWeight slot lb (probeNntp (some localhost) timeout)

def lbcdPopWeight (slot : Slot) (timeout : ℤ) (_portarg : Option CStr) (lb : LbcdReply) :
    Prog System (LbcdReply × ℤ) :=
  probeWeight slot lb (probePop (some localhost) timeout)

def lbcdSmtpWeight (slot : Slot) (timeout : ℤ) (_portarg : Option CStr) (lb : LbcdReply) :
    Prog System (LbcdReply × ℤ) :=
  probeWeight slot lb (probeSmtp (some localhost) timeout)

def lbcdImapWeight (slot : Slot) (timeout : ℤ) (_portarg : Option CStr) (lb : LbcdReply) :
    Prog System (LbcdReply × ℤ) :=
  probeWeight slot lb (probeImap (some localhost) timeout)

def lbcdHttpWeight (slot : Slot) (timeout : ℤ) (portarg : Option CStr) (lb : LbcdReply) :
    Prog System (LbcdReply × ℤ) :=
  probeWeight slot lb (probeHttp (some localhost) timeout portarg)

/-- Two exits of this function leave the weight as it was. -/
def lbcdTcpWeight (slot : Slot) (timeout : ℤ) (portarg : Option CStr) (lb : LbcdReply) :
    Prog System (LbcdReply × ℤ) :=
  match portarg with
  | none => return (lb,-1)
  | some arg =>
    if arg.bytes.all isdigit then
      let port := wrapInt 16 arg.atoi
      if port < 1 then return (lb,-1)
      else probeWeight slot lb (probeTcp (some localhost) none port none timeout)
    else probeWeight slot lb (probeTcp (some localhost) (some arg) 0 none timeout)

end Lbcd
