import Lbcd.Modules.Tcp

namespace Lbcd

open Interaction CText ByteOrder

/-- The socket of udp_connect, once the address of the host is looked up. -/
def udpLink (sinPort : UInt16) (he : Option UInt32) : Prog System (Option Fd) := do
  match he with
  | none => return none
  | some he =>
    let sd : Option Fd ← sys .socket
    match sd with
    | none => return none
    | some sd =>
      let connected : Bool ← sys (.connect sd he sinPort)
      if connected then return some sd
      else
        let _ : Unit ← sys (.close sd)
        return none

/-- What udp_connect does when the service is looked up. -/
def udpResolve (host : CStr) (port : UInt16) (se : Option UInt16) : Prog System (Option Fd) := do
  let sinPort := se.getD port
  let _ : Unit ← sys .endservent
  let addr : Option UInt32 ← sys (.inetAddr host)
  let he : Option UInt32 ← match addr with
    | some a => sys (.gethostbyaddr a)
    | none => sys (.gethostbyname host)
  udpLink sinPort he

/-- The port is the one that the name or the number stands for, else the number. -/
def udpService (host : CStr) (port : UInt16) (byName : Option UInt16) :
    Prog System (Option Fd) := do
  let se : Option UInt16 ← match byName with
    | some p => pure (some p)
    | none => if port≠0 then sys (.getservbyport port) else pure none
  udpResolve host port se

def udpConnect (host : CStr) (protocol : Option CStr) (port : UInt16) :
    Prog System (Option Fd) := do
  let byName : Option UInt16 ← match protocol with
    | some name => sys (.getservbyname name)
    | none => pure none
  udpService host port byName

def maxPackets : ℕ := 100

def implXntpd : UInt8 := 2

def reqMonGetlist : UInt8 := 20

def respHeaderSize : ℕ := 8

/-- sizeof(struct resp_pkt) -/
def respPktSize : ℕ := 508

/-- The request packet of sendrequest: RM_VN_MODE(0, 0) is version 3, mode 7. -/
def reqPkt (implcode reqcode : UInt8) : List UInt8 :=
  [0x1f,0,implcode,reqcode]++List.replicate 48 0

def isResponse (rmVnMode : UInt8) : Bool := rmVnMode.toNat/128==1

def isMore (rmVnMode : UInt8) : Bool := rmVnMode.toNat/64%2==1

def infoVersion (rmVnMode : UInt8) : ℕ := rmVnMode.toNat/8%8

def infoMode (rmVnMode : UInt8) : ℕ := rmVnMode.toNat%8

def infoIsAuth (authSeq : UInt8) : Bool := authSeq.toNat/128==1

def infoSeq (authSeq : UInt8) : ℕ := authSeq.toNat%128

def infoErr (errNitems : UInt16) : ℕ := errNitems.toNat/4096

def infoNitems (errNitems : UInt16) : ℕ := errNitems.toNat%4096

def infoMbz (mbzItemsize : UInt16) : ℕ := mbzItemsize.toNat/4096

/-- The locals of getresponse that its loop carries. -/
structure RespState where
  ritems : ℕ
  seenpacket : ℕ → Bool
  lastseq : ℕ
  numrecv : ℕ

def RespState.start : RespState := ⟨0,fun _ => false,999,0⟩

inductive RespStep where
  | again (s : RespState)
  | error (code : ℕ)
  | done (ritems : ℕ)

/-- One turn of the loop of getresponse, from the received packet on. -/
def respStep (implcode reqcode : UInt8) (s : RespState) (pkt : List UInt8) : RespStep :=
  let rmVnMode := pkt.getD 0 0
  let authSeq := pkt.getD 1 0
  let errNitems := ofBe16 (pkt.getD 4 0) (pkt.getD 5 0)
  let mbzItemsize := ofBe16 (pkt.getD 6 0) (pkt.getD 7 0)
  if pkt.length < respHeaderSize ∨ infoVersion rmVnMode≠3 ∨ infoMode rmVnMode≠7 ∨
      infoIsAuth authSeq ∨ isResponse rmVnMode=false ∨ infoMbz mbzItemsize≠0 then .again s
  else if pkt.getD 2 0≠implcode ∨ pkt.getD 3 0≠reqcode then .again s
  else if infoErr errNitems≠0 then .error (infoErr errNitems)
  else
    let seq := infoSeq authSeq
    if maxPackets ≤ seq then .again s
    else if s.seenpacket seq then .again s
    else
      let s := { s with
        seenpacket := Function.update s.seenpacket seq true
        ritems := s.ritems+infoNitems errNitems }
      if isMore rmVnMode=false ∧ s.lastseq≠999 then .again s
      else
        let s := if isMore rmVnMode then s else { s with lastseq := seq }
        let s := { s with numrecv := s.numrecv+1 }
        if s.numrecv ≤ s.lastseq then .again s else .done s.ritems

/-- The return value and *ritems. -/
def getresponseLoop (sd : Fd) (implcode reqcode : UInt8) (timeout : ℤ) :
    ℕ → RespState → Prog System (ℤ × ℕ)
  | 0,_ => outOfFuel
  | fuel+1,s => do
    let n : ℤ ← sys (.select sd timeout)
    if n < 1 then return (-1,s.ritems)
    else
      let pkt : ReadReply respPktSize ← sys (.recv sd respPktSize)
      match pkt with
      | none => return (-1,s.ritems)
      | some pkt =>
        match respStep implcode reqcode s pkt.val with
        | .again s => getresponseLoop sd implcode reqcode timeout fuel s
        | .error code => return (code,s.ritems)
        | .done ritems => return (0,ritems)

def getresponse (sd : Fd) (implcode reqcode : UInt8) (timeout : ℤ) : Prog System (ℤ × ℕ) := do
  let fuel : ℕ ← sys .fuel
  getresponseLoop sd implcode reqcode timeout fuel .start

def monlist (sd : Fd) (timeout : ℤ) : Prog System ℤ := do
  let sent : Bool ← sys (.send sd (reqPkt implXntpd reqMonGetlist))
  if sent then
    let (res,peers) ← getresponse sd implXntpd reqMonGetlist timeout
    if res≠0 then return -1 else return peers
  else return -1

def probeNtp (host : Option CStr) (timeout : ℤ) : Prog System ℤ := do
  match ← udpConnect (host.getD localhost) (some (CStr.lit "ntp")) 123 with
  | none => return -1
  | some sd =>
    let retval ← monlist sd timeout
    let _ : Unit ← sys (.close sd)
    return retval

def lbcdNtpWeight (slot : Slot) (timeout : ℤ) (_portarg : Option CStr) (lb : LbcdReply) :
    Prog System (LbcdReply × ℤ) := do
  let v ← probeNtp (some localhost) timeout
  let lb := lb.setWeight slot (UInt32.ofInt v)
  return (lb,if (lb.slot slot).hostWeight=UInt32.ofInt (-1) then -1 else 0)

end Lbcd
