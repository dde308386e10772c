import Lbcd.Daemon
import Lbcd.Pools
import Lbcd.Interaction.Effects

namespace Lbcd

open Interaction CText ByteOrder CHeap

/-- The members of struct request. -/
structure RequestBlock where
  addr : Option ℕ
  source : Option ℕ
  services : Option ℕ
  protocol : UInt16
  id : UInt16
  operation : UInt16

/-- What is allocated besides strings. An entry of the sockets is none where it is
INVALID_SOCKET, or was never stored. -/
inductive Block where
  | request (request : RequestBlock)
  | address (addr : SockAddr)
  | vector (v : StringVector)
  | sockets (fds : List (Option Fd))

structure Memory where
  strings : Strings
  blocks : Heap Block

/-- Uses of memory; a pointer that may be null is an Option. -/
inductive MemoryCall where
  | callocRequest
  | setRequest (p : ℕ) (request : RequestBlock)
  | request (p : ℕ)
  | copyAddress (addr : SockAddr)
  | address (p : Option ℕ)
  | strdup (s : CStr)
  | string (p : Option ℕ)
  | vectorNew
  | vectorAdd (p : Option ℕ) (string : CStr)
  | texts (p : Option ℕ)
  | vectorFree (p : Option ℕ)
  | callocFds (n : ℕ)
  | reallocFds (p n : ℕ)
  | setFd (p i : ℕ) (fd : Option Fd)
  | fds (p count : ℕ)
  | freeString (p : Option ℕ)
  | free (p : Option ℕ)

@[reducible] def MemoryCall.Reply : MemoryCall → Type
  | callocRequest => ℕ
  | setRequest _ _ => Unit
  | request _ => RequestBlock
  | copyAddress _ => ℕ
  | address _ => SockAddr
  | strdup _ => ℕ
  | string _ => CStr
  | vectorNew => ℕ
  | vectorAdd _ _ => Unit
  | texts _ => List CStr
  | vectorFree _ => Unit
  | callocFds _ => ℕ
  | reallocFds _ _ => ℕ
  | setFd _ _ _ => Unit
  | fds _ _ => List Fd
  | freeString _ => Unit
  | free _ => Unit

namespace Memory

def allocBlock (m : Memory) (b : Block) : ℕ × Memory :=
  ((m.blocks.alloc b).1,{ m with blocks := (m.blocks.alloc b).2 })

/-- The vector that a pointer leads to. -/
def vectorAt (m : Memory) (p : Option ℕ) : Option (ℕ × StringVector) := do
  let p ← p
  match m.blocks.cells p with
  | some (.vector v) => some (p,v)
  | _ => none

end Memory

/-- None is a null or dangling pointer, a second free, or a read or write beyond a table. -/
def MemoryCall.run : (c : MemoryCall) → Memory → Option (c.Reply × Memory)
  | callocRequest,m => some (m.allocBlock (.request ⟨none,none,none,0,0,0⟩))
  | setRequest p block,m =>
    match m.blocks.cells p with
    | some (.request _) => do
      let blocks ← m.blocks.write p (.request block)
      return ((),{ m with blocks := blocks })
    | _ => none
  | request p,m =>
    match m.blocks.cells p with
    | some (.request block) => some (block,m)
    | _ => none
  | copyAddress addr,m => some (m.allocBlock (.address addr))
  | address p,m => do
    let p ← p
    match m.blocks.cells p with
    | some (.address addr) => some (addr,m)
    | _ => none
  | strdup s,m => some ((m.strings.alloc s).1,{ m with strings := (m.strings.alloc s).2 })
  | string p,m => do
    let p ← p
    let s ← m.strings.cells p
    return (s,m)
  | vectorNew,m => some (m.allocBlock (.vector (Lbcd.vectorNew m.strings).2))
  | vectorAdd p s,m => do
    let (p,v) ← m.vectorAt p
    let (strings,v) ← Lbcd.vectorAdd m.strings v s
    let blocks ← m.blocks.write p (.vector v)
    return ((),⟨strings,blocks⟩)
  | texts p,m => do
    let (_,v) ← m.vectorAt p
    let strings ← v.texts m.strings
    return (strings,m)
  | vectorFree none,m => some ((),m)
  | vectorFree (some p),m => do
    let (p,v) ← m.vectorAt (some p)
    let strings ← Lbcd.vectorFree m.strings (some v)
    let blocks ← m.blocks.free p
    return ((),⟨strings,blocks⟩)
  | callocFds n,m => some (m.allocBlock (.sockets (List.replicate n (some 0))))
  | reallocFds p n,m =>
    match m.blocks.cells p with
    | some (.sockets entries) => do
      let blocks ← m.blocks.free p
      return { m with blocks := blocks }.allocBlock
        (.sockets (entries.take n++List.replicate (n-entries.length) none))
    | _ => none
  | setFd p i fd,m =>
    match m.blocks.cells p with
    | some (.sockets entries) =>
      if i < entries.length then do
        let blocks ← m.blocks.write p (.sockets (entries.set i fd))
        return ((),{ m with blocks := blocks })
      else none
    | _ => none
  | fds p count,m =>
    match m.blocks.cells p with
    | some (.sockets entries) =>
      if count ≤ entries.length then do
        let sockets ← (entries.take count).mapM id
        return (sockets,m)
      else none
    | _ => none
  | freeString none,m => some ((),m)
  | freeString (some p),m => do
    let strings ← m.strings.free p
    return ((),{ m with strings := strings })
  | free none,m => some ((),m)
  | free (some p),m => do
    let blocks ← m.blocks.free p
    return ((),{ m with blocks := blocks })

def memoryEffect : Effect Memory := ⟨⟨MemoryCall,MemoryCall.Reply⟩,MemoryCall.run⟩

/-- The daemon's calls, and its uses of memory. -/
abbrev Daemon : Interface := memoryEffect.over Server

def mem (c : MemoryCall) : Prog Daemon c.Reply := Prog.own (E := memoryEffect) Server c

/-- Code that uses no memory of its own. -/
def plain {α : Type} (p : Prog Server α) : Prog Daemon α := p.outer memoryEffect

def requestFree (request : Option ℕ) : Prog Daemon Unit :=
  match request with
  | none => return ()
  | some p => do
    let request ← mem (.request p)
    mem (.free request.addr)
    mem (.freeString request.source)
    mem (.vectorFree request.services)
    mem (.free (some p))

/-- A message with the text of the client's address. -/
def clientMessage (request : ℕ) (m : Message) : Prog Daemon Unit := do
  let request ← mem (.request request)
  let _ : CStr ← mem (.string request.source)
  plain (message m)

def sendStatusTo (e : Endian) (request : ℕ) (fd : Fd) (status : LbcdStatus) :
    Prog Daemon Unit := do
  let block ← mem (.request request)
  let addr ← mem (.address block.addr)
  let result : Option ℕ ← plain (ssys (.sendto fd
    (statusPacket e ⟨addr,block.protocol,block.id,block.operation,[]⟩ status) addr))
  if result≠some headerSize then clientMessage request .cannotSend else return ()

/-- The pointers of struct lbcd_config. -/
structure ConfigVectors where
  bindaddrs : ℕ
  services : ℕ

def serviceAllowedAt (config : LbcdConfig) (vectors : ConfigVectors) (service : ℕ) :
    Prog Daemon Bool := do
  let services ← mem (.texts (some vectors.services))
  let service ← mem (.string (some service))
  return serviceAllowed { config with services := services } service

section

variable (sprint : SockAddr → CStr) (e : Endian) (g : WeightGlobals) (config : LbcdConfig)
  (vectors : ConfigVectors)

/-- The loop over the names of the packet, for an allocated request. -/
def readServicesInto (fd : Fd) (raw : List UInt8) (request : ℕ) :
    ℕ → ℕ → Prog Daemon (Option ℕ)
  | 0,_ => return some request
  | n+1,i => do
    let bs ← plain (xstrndup raw (headerSize+i*nameSize) nameSize)
    let service ← mem (.strdup (CStr.ofBuffer bs))
    let allowed ← serviceAllowedAt config vectors service
    let name ← mem (.string (some service))
    if allowed then
      let block ← mem (.request request)
      mem (.vectorAdd block.services name)
      mem (.freeString (some service))
      readServicesInto fd raw request n (i+1)
    else
      plain (message (.notAllowed name))
      sendStatusTo e request fd .error
      mem (.freeString (some service))
      requestFree (some request)
      return none

/-- The packet appears valid: create the request struct. -/
def makeRequest (addr : SockAddr) (protocol id operation : UInt16) : Prog Daemon ℕ := do
  let request ← mem .callocRequest
  let source ← mem (.strdup (sprint addr))
  let address ← mem (.copyAddress addr)
  let services ← mem .vectorNew
  mem (.setRequest request ⟨some address,some source,some services,protocol,id,operation⟩)
  return request

def parseRequestInto (fd : Fd) (raw : List UInt8) (addr : SockAddr) :
    Prog Daemon (Option ℕ) := do
  if raw.length < headerSize then
    plain (message (.shortPacket raw.length))
    return none
  else
    let protocol ← plain (readShort e raw 0)
    let id ← plain (readShort e raw 2)
    let operation ← plain (readShort e raw 4)
    let nservices ← plain (readShort e raw 6)
    if protocol=3 ∧ nservices.toNat > maxServices then
      plain (message (.tooManyServices nservices.toNat))
      return none
    else
      let expected := headerSize+(if protocol=3 then nservices.toNat*nameSize else 0)
      if raw.length≠expected then
        plain (message (.incorrectSize raw.length expected))
        return none
      else
        let request ← makeRequest sprint addr protocol id operation
        if protocol≠2 ∧ protocol≠3 then
          plain (message (.unsupportedVersion protocol))
          sendStatusTo e request fd .version
          requestFree (some request)
          return none
        else if protocol=3 then
          readServicesInto e config vectors fd raw request nservices.toNat 0
        else return some request

def requestRecvInto (fd : Fd) : Prog Daemon (Option ℕ) := do
  let got : Option Datagram ← plain (ssys (.recvfrom fd))
  match got with
  | none => do
    plain (message .cannotReceive)
    return none
  | some d =>
    let raw := d.payload.take maxMesg
    if raw.length=0 then
      plain (message .cannotReceive)
      return none
    else parseRequestInto sprint e config vectors fd raw d.source

/-- What lbcd_pack_info and sendto are given of the request. -/
def requestGiven (request : ℕ) : Prog Daemon Request := do
  let block ← mem (.request request)
  let addr ← mem (.address block.addr)
  let services ← mem (.texts block.services)
  return ⟨addr,block.protocol,block.id,block.operation,services⟩

/-- Build and send the reply to an allocated request. -/
def sendReplyTo (cache : UserCache) (request : ℕ) (fd : Fd) : Prog Daemon UserCache := do
  let reply : LbcdReply ← plain (ssys .stackReply)
  let given ← requestGiven request
  let reply := { reply with
    h := ⟨htons e given.protocol,htons e given.id,htons e given.operation,
      htons e LbcdStatus.ok.code⟩ }
  let packed ← plain (lbcdPackInfo e g reply given.protocol given.services config.simple cache)
  let unused : UInt64 := UInt64.ofNat maxServices-UInt64.ofNat given.services.length
  let size : UInt64 := UInt64.ofNat replySize-unused*UInt64.ofNat serviceSize
  if size.toNat > replySize then plain (fault .badSize)
  else
    let result : Option ℕ ←
      plain (ssys (.sendto fd ((packed.1.bytes e).take size.toNat) given.addr))
    if result≠some size.toNat then
      clientMessage request .cannotSend
      return packed.2
    else return packed.2

def handleLbRequestAt (cache : UserCache) (request : ℕ) (fd : Fd) : Prog Daemon UserCache := do
  if config.log then
    let block ← mem (.request request)
    clientMessage request (.requestFrom block.protocol)
    sendReplyTo e g config cache request fd
  else sendReplyTo e g config cache request fd

/-- One turn of the main loop after its wait. -/
def serveTurn (cache : UserCache) (fd : Fd) : Prog Daemon UserCache := do
  let request ← requestRecvInto sprint e config vectors fd
  match request with
  | none => return cache
  | some request => do
    let block ← mem (.request request)
    if block.operation=opLbinfo then
      let cache ← handleLbRequestAt e g config cache request fd
      requestFree (some request)
      return cache
    else
      clientMessage request (.unknownOp block.operation)
      sendStatusTo e request fd .unknownOp
      requestFree (some request)
      return cache

/-- The pointer and the count that bind_sockets stores. -/
structure SocketTable where
  fds : ℕ
  count : ℕ

def storeFds (table : ℕ) : ℕ → List Fd → Prog Daemon Unit
  | _,[] => return ()
  | i,fd :: fds => do
    mem (.setFd table i (some fd))
    storeFds table (i+1) fds

/-- What network_bind_all does with its table, which has room for two at first. -/
def collectFds (table size count : ℕ) : List Fd → Prog Daemon SocketTable
  | [] => return ⟨table,count⟩
  | fd :: fds =>
    if size ≤ count then do
      let table ← mem (.reallocFds table (size+2))
      mem (.setFd table count (some fd))
      collectFds table (size+2) (count+1) fds
    else do
      mem (.setFd table count (some fd))
      collectFds table size (count+1) fds

/-- The loop over the addresses to bind to. -/
def bindEachInto (table : ℕ) : ℕ → List CStr → Prog Daemon Unit
  | _,[] => return ()
  | i,addr :: addrs => do
    let v6 : Bool ← plain (ssys (.inetPton6 addr))
    let fd : Option Fd ← plain (ssys (.networkBind v6 addr config.port))
    mem (.setFd table i fd)
    match fd with
    | none => plain (die (.bindAddress addr))
    | some fd =>
      let marked : Bool ← plain (ssys (.closeExec fd))
      if marked then bindEachInto table (i+1) addrs
      else plain (die .closeExec)

def bindSocketsInto : Prog Daemon SocketTable := do
  let status : ℤ ← plain (ssys .sdListenFds)
  if status < 0 then plain (die .listenFds)
  else if 0 < status then
    let table ← mem (.callocFds status.toNat)
    storeFds table 0 ((List.range status.toNat).map (listenFdsStart+·))
    return ⟨table,status.toNat⟩
  else
    let bindaddrs ← mem (.texts (some vectors.bindaddrs))
    match bindaddrs with
    | [] => do
      let fds : Option (List Fd) ← plain (ssys (.networkBindAll config.port))
      match fds with
      | none => plain (die .createSocket)
      | some fds => do
        let table ← mem (.callocFds 2)
        collectFds table 2 0 fds
    | addrs => do
      let table ← mem (.callocFds addrs.length)
      bindEachInto config table 0 addrs
      return ⟨table,addrs.length⟩

def startUpIn : Prog Daemon SocketTable := do
  plain (setHandler .hup .ign)
  plain (setHandler .int .handler)
  plain (setHandler .term .handler)
  let sockets ← bindSocketsInto config vectors
  plain (createPidFile config)
  plain (message .ready)
  plain notifySystemd
  plain (notifyUpstart config)
  return sockets

def serveLoopIn (sockets : SocketTable) : ℕ → UserCache → Prog Daemon Unit
  | 0,_ => plain (Prog.call (I := Server) (.sys .outOfFuel) Empty.elim)
  | fuel+1,cache => do
    let exitSignaled : Bool ← plain (ssys .exitSignaled)
    if exitSignaled then plain (message .exiting)
    else
      let fds ← mem (.fds sockets.fds sockets.count)
      let any : WaitAny ← plain (ssys (.networkWaitAny fds))
      match any with
      | .interrupted => serveLoopIn sockets fuel cache
      | .failed => plain (die .waitConnections)
      | .ready fd => do
        let cache ← serveTurn sprint e g config vectors cache fd
        serveLoopIn sockets fuel cache

def handleRequestsIn : Prog Daemon Unit := do
  let sockets ← startUpIn config vectors
  let fuel : ℕ ← plain (ssys .fuel)
  serveLoopIn sprint e g config vectors sockets fuel .initial
  plain (removePidFile config)
  let fds ← mem (.fds sockets.fds sockets.count)
  plain (closeAll fds)
  mem (.free (some sockets.fds))

def addEach (vector : ℕ) : List CStr → Prog Daemon Unit
  | [] => return ()
  | optarg :: rest => do
    mem (.vectorAdd (some vector) optarg)
    addEach vector rest

/-- main from its first vector_new to its last vector_free; the options' arguments are those of
the configuration. -/
def lbcdMain : Prog Daemon Unit := do
  let bindaddrs ← mem .vectorNew
  let services ← mem .vectorNew
  addEach services config.services
  addEach bindaddrs config.bindaddrs
  handleRequestsIn sprint e g config ⟨bindaddrs,services⟩
  mem (.vectorFree (some bindaddrs))
  mem (.vectorFree (some services))

end

end Lbcd
