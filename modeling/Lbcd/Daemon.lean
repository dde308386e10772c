import Lbcd.Server

namespace Lbcd

open Interaction CText ByteOrder

structure LbcdConfig where
  bindaddrs : List CStr
  log : Bool
  port : UInt16
  pidFile : Option CStr
  services : List CStr
  simple : Bool
  upstart : Bool
  deriving DecidableEq

/-- A request in host order, with the address its reply goes to. -/
structure Request where
  addr : SockAddr
  protocol : UInt16
  id : UInt16
  operation : UInt16
  services : List CStr
  deriving DecidableEq

def message (m : Message) : Prog Server Unit := ssys (.message m)

/-- The packet send_status sends. -/
def statusPacket (e : Endian) (request : Request) (status : LbcdStatus) : List UInt8 :=
  LbcdHeader.bytes e ⟨htons e lbcdVersion,htons e request.id,htons e request.operation,
    htons e status.code⟩

def sendStatus (e : Endian) (request : Request) (fd : Fd) (status : LbcdStatus) :
    Prog Server Unit := do
  let result : Option ℕ ← ssys (.sendto fd (statusPacket e request status) request.addr)
  if result≠some headerSize then message .cannotSend else return ()

def serviceAllowed (config : LbcdConfig) (service : CStr) : Bool :=
  if service=defaultName then true
  else if service=CStr.lit "cmd" ∨ service.strncmpEq (CStr.lit "cmd:") 4 then false
  else config.services.any (·=service)

/-- A read of the packet buffer; only the received bytes may be read. -/
def readByte (raw : List UInt8) (i : ℕ) : Prog Server UInt8 :=
  match raw[i]? with
  | some b => return b
  | none => fault (.overread i)

def readShort (e : Endian) (raw : List UInt8) (i : ℕ) : Prog Server UInt16 := do
  let a ← readByte raw i
  let b ← readByte raw (i+1)
  return ntohs e (load16 e a b)

/-- xstrndup from an offset of the packet buffer. -/
def xstrndup (raw : List UInt8) : ℕ → ℕ → Prog Server (List UInt8)
  | _,0 => return []
  | p,size+1 => do
    let b ← readByte raw p
    if b=0 then return []
    else
      let bs ← xstrndup raw (p+1) size
      return b :: bs

/-- The loop over the names of the packet: how many are left, and the next one's number. -/
def readServices (e : Endian) (config : LbcdConfig) (fd : Fd) (raw : List UInt8) :
    ℕ → ℕ → Request → Prog Server (Option Request)
  | 0,_,request => return some request
  | n+1,i,request => do
    let bs ← xstrndup raw (headerSize+i*nameSize) nameSize
    let service := CStr.ofBuffer bs
    if serviceAllowed config service then
      readServices e config fd raw n (i+1)
        { request with services := request.services++[service] }
    else
      message (.notAllowed service)
      sendStatus e request fd .error
      return none

/-- What request_recv does with the received bytes. -/
def parseRequest (e : Endian) (config : LbcdConfig) (fd : Fd) (raw : List UInt8)
    (addr : SockAddr) : Prog Server (Option Request) := do
  if raw.length < headerSize then
    message (.shortPacket raw.length)
    return none
  else
    let protocol ← readShort e raw 0
    let id ← readShort e raw 2
    let operation ← readShort e raw 4
    let nservices ← readShort e raw 6
    if protocol=3 ∧ nservices.toNat > maxServices then
      message (.tooManyServices nservices.toNat)
      return none
    else
      let expected := headerSize+(if protocol=3 then nservices.toNat*nameSize else 0)
      if raw.length≠expected then
        message (.incorrectSize raw.length expected)
        return none
      else
        let request : Request := ⟨addr,protocol,id,operation,[]⟩
        if protocol≠2 ∧ protocol≠3 then
          message (.unsupportedVersion protocol)
          sendStatus e request fd .version
          return none
        else if protocol=3 then readServices e config fd raw nservices.toNat 0 request
        else return some request

def requestRecv (e : Endian) (config : LbcdConfig) (fd : Fd) : Prog Server (Option Request) := do
  let got : Option Datagram ← ssys (.recvfrom fd)
  match got with
  | none => do
    message .cannotReceive
    return none
  | some d =>
    let raw := d.payload.take maxMesg
    if raw.length=0 then
      message .cannotReceive
      return none
    else parseRequest e config fd raw d.source

/-- Build and send the reply to a request. -/
def sendReply (e : Endian) (g : WeightGlobals) (config : LbcdConfig) (cache : UserCache)
    (request : Request) (fd : Fd) : Prog Server UserCache := do
  let reply : LbcdReply ← ssys .stackReply
  let reply := { reply with
    h := ⟨htons e request.protocol,htons e request.id,htons e request.operation,
      htons e LbcdStatus.ok.code⟩ }
  let (reply,cache) ← lbcdPackInfo e g reply request.protocol request.services config.simple
    cache
  let unused : UInt64 := UInt64.ofNat maxServices-UInt64.ofNat request.services.length
  let size : UInt64 := UInt64.ofNat replySize-unused*UInt64.ofNat serviceSize
  if size.toNat > replySize then fault .badSize
  else
    let result : Option ℕ ←
      ssys (.sendto fd ((reply.bytes e).take size.toNat) request.addr)
    if result≠some size.toNat then
      message .cannotSend
      return cache
    else return cache

def handleLbRequest (e : Endian) (g : WeightGlobals) (config : LbcdConfig) (cache : UserCache)
    (request : Request) (fd : Fd) : Prog Server UserCache := do
  if config.log then
    message (.requestFrom request.protocol)
    sendReply e g config cache request fd
  else sendReply e g config cache request fd

/-- The dispatch on the operation of a received request. -/
def dispatch (e : Endian) (g : WeightGlobals) (config : LbcdConfig) (cache : UserCache) (fd : Fd)
    (request : Option Request) : Prog Server UserCache :=
  match request with
  | none => return cache
  | some request =>
    if request.operation=opLbinfo then handleLbRequest e g config cache request fd
    else do
      message (.unknownOp request.operation)
      sendStatus e request fd .unknownOp
      return cache

/-- Accept and process one message. -/
def serveOne (e : Endian) (g : WeightGlobals) (config : LbcdConfig) (cache : UserCache)
    (fd : Fd) : Prog Server UserCache := do
  let request ← requestRecv e config fd
  dispatch e g config cache fd request

/-- The loop over the addresses to bind to. -/
def bindEach (config : LbcdConfig) : List CStr → Prog Server (List Fd)
  | [] => return []
  | addr :: addrs => do
    let v6 : Bool ← ssys (.inetPton6 addr)
    let fd : Option Fd ← ssys (.networkBind v6 addr config.port)
    match fd with
    | none => die (.bindAddress addr)
    | some fd =>
      let marked : Bool ← ssys (.closeExec fd)
      if marked then
        let fds ← bindEach config addrs
        return fd :: fds
      else die .closeExec

/-- SD_LISTEN_FDS_START -/
def listenFdsStart : Fd := 3

def bindSockets (config : LbcdConfig) : Prog Server (List Fd) := do
  let status : ℤ ← ssys .sdListenFds
  if status < 0 then die .listenFds
  else if 0 < status then return (List.range status.toNat).map (listenFdsStart+·)
  else
    match config.bindaddrs with
    | [] => do
      let fds : Option (List Fd) ← ssys (.networkBindAll config.port)
      match fds with
      | none => die .createSocket
      | some fds => return fds
    | addrs => bindEach config addrs

/-- The main loop, with the number of turns it has in this run. -/
def serveLoop (e : Endian) (g : WeightGlobals) (config : LbcdConfig) (fds : List Fd) :
    ℕ → UserCache → Prog Server Unit
  | 0,_ => Prog.call (I := Server) (.sys .outOfFuel) Empty.elim
  | fuel+1,cache => do
    let exitSignaled : Bool ← ssys .exitSignaled
    if exitSignaled then message .exiting
    else
      let any : WaitAny ← ssys (.networkWaitAny fds)
      match any with
      | .interrupted => serveLoop e g config fds fuel cache
      | .failed => die .waitConnections
      | .ready fd => do
        let cache ← serveOne e g config cache fd
        serveLoop e g config fds fuel cache

def setHandler (sig : Signal) (act : Disposition) : Prog Server Unit := do
  let set : Bool ← ssys (.sigaction sig act)
  if set then return () else message .cannotSetHandler

def createPidFile (config : LbcdConfig) : Prog Server Unit := do
  match config.pidFile with
  | none => return ()
  | some path =>
    let created : Bool ← ssys (.createPid path)
    if created then ssys .writePid else message (.cannotCreatePid path)

def removePidFile (config : LbcdConfig) : Prog Server Unit :=
  match config.pidFile with
  | none => return ()
  | some path => ssys (.unlink path)

def notifySystemd : Prog Server Unit := do
  let status : ℤ ← ssys .sdNotify
  if status < 0 then message .cannotNotifySystemd else return ()

/-- Upstart is told by stopping; it continues the process. -/
def notifyUpstart (config : LbcdConfig) : Prog Server Unit :=
  if config.upstart then do
    let raised : Bool ← ssys .raiseStop
    if raised then return () else message .cannotNotifyUpstart
  else return ()

def closeAll : List Fd → Prog Server Unit
  | [] => return ()
  | fd :: fds => do
    let _ : Unit ← ssys (.close fd)
    closeAll fds

/-- The statics of get_user_stats start as zero. -/
def UserCache.initial : UserCache := ⟨0,0,0,0⟩

/-- handle_requests up to its loop. -/
def startUp (config : LbcdConfig) : Prog Server (List Fd) := do
  setHandler .hup .ign
  setHandler .int .handler
  setHandler .term .handler
  let fds ← bindSockets config
  createPidFile config
  message .ready
  notifySystemd
  notifyUpstart config
  return fds

def handleRequests (e : Endian) (g : WeightGlobals) (config : LbcdConfig) : Prog Server Unit := do
  let fds ← startUp config
  let fuel : ℕ ← ssys .fuel
  serveLoop e g config fds fuel .initial
  removePidFile config
  closeAll fds

end Lbcd
