import Lbcd.Interaction.Pack
import Lbcd.Answers
import Lbcd.Versions

namespace Lbcd

open Interaction CText ByteOrder Pack

/-- How lbcdclient dies. -/
inductive QueryError where
  | badProtocol (protocol : ℕ)
  | servicesInV2
  | tooManyServices
  | longService
  | wrongId (id : ℕ)
  | unknownOperation (op : ℕ)
  | fromServer (message : String)
  | outsideOfString
  deriving DecidableEq

def statusMessage : ℕ → String
  | 0 => "request packet"
  | 1 => "okay"
  | 2 => "generic error"
  | 3 => "protocol version error"
  | 4 => "generic protocol error"
  | 5 => "unknown operation requested"
  | n => "unknown status "++toString n

/-- The packet that send_query sends. -/
def sendQuery (protocol : ℕ) (services : List (List UInt8)) : Except QueryError (List UInt8) :=
  if protocol≠2 ∧ protocol≠3 then .error (.badProtocol protocol)
  else if protocol=2 ∧ services≠[] then .error .servicesInV2
  else if services.length > 5 then .error .tooManyServices
  else if services.any (fun s => s.length > 31) then .error .longService
  else .ok (be16 (UInt16.ofNat protocol)++be16 0++be16 1++be16 (UInt16.ofNat services.length)++
    services.flatMap (packString 32))

/-- The services of a reply: their number, or a list of weights and increments. A value
that the packet does not hold is undefined. -/
inductive ReplyServices where
  | count (n : Option ℕ)
  | weights (ws : List (Option ℕ × Option ℕ))
  deriving DecidableEq

/-- The hash that read_reply returns. -/
structure QueryReply where
  version : Option ℕ
  bootTime : Option ℕ
  currentTime : Option ℕ
  userMtime : Option ℕ
  l1 : Option ℕ
  l5 : Option ℕ
  l15 : Option ℕ
  totUsers : Option ℕ
  uniqUsers : Option ℕ
  onConsole : Option ℕ
  tmpFull : Option ℕ
  tmpdirFull : Option ℕ
  services : ReplyServices
  deriving DecidableEq

def unpackReply (items : List Item) (bs : List UInt8) : Except QueryError (List ℕ) :=
  match unpack items bs with
  | some values => .ok values
  | none => .error .outsideOfString

/-- The loop over the weights and increments. -/
def readWeights : ℕ → List UInt8 → Except QueryError (List (Option ℕ × Option ℕ))
  | 0,_ => .ok []
  | n+1,reply => do
    let pair ← unpackReply [.long,.long] reply
    let weights ← readWeights n (reply.drop 8)
    return (pair[0]?,pair[1]?) :: weights

/-- The reply after its header; the weights start 28 bytes on. -/
def readFields (version : Option ℕ) (reply : List UInt8) : Except QueryError QueryReply := do
  let fields ← unpackReply [.long,.long,.long,.short,.short,.short,.short,.short,.byte,.skip,
    .byte,.byte,.skip,.byte] reply
  let services ←
    if version=some 3 then
      (readWeights (fields.getD 11 0+1) (reply.drop 28)).map ReplyServices.weights
    else .ok (.count fields[11]?)
  return ⟨version,fields[0]?,fields[1]?,fields[2]?,fields[3]?,fields[4]?,fields[5]?,fields[6]?,
    fields[7]?,fields[8]?,fields[9]?,fields[10]?,services⟩

/-- What read_reply makes of a packet. An undefined number counts as 0. -/
def readReply (packet : List UInt8) : Except QueryError QueryReply := do
  let reply := packet.take 256
  let head ← unpackReply [.short,.short,.short,.short] reply
  let id := head.getD 1 0
  let op := head.getD 2 0
  let status := head.getD 3 0
  if id≠0 then .error (.wrongId id)
  else if op≠1 then .error (.unknownOperation op)
  else if status≠1 then .error (.fromServer (statusMessage status))
  else readFields head[0]? (reply.drop 8)

/-- Queries that the client can make. -/
def Query (protocol : ℕ) (services : List CStr) : Prop :=
  (protocol=2 ∧ services=[]) ∨
    (protocol=3 ∧ services.length ≤ 5 ∧ ∀ s∈services,s.bytes.length ≤ 31)

/-- Requests that fit the packet; the client leaves room for a NUL after each name. -/
def Packable (protocol : ℕ) (services : List CStr) : Prop :=
  (protocol=2 ∧ services=[]) ∨
    (protocol=3 ∧ services.length ≤ 5 ∧ ∀ s∈services,s.bytes.length ≤ 32)

theorem Query.packable {protocol : ℕ} {services : List CStr} (h : Query protocol services) :
    Packable protocol services := by
  rcases h with h|⟨hp,hl,hs⟩
  · exact Or.inl h
  · exact Or.inr ⟨hp,hl,fun s hm => (hs s hm).trans (by decide)⟩

theorem Packable.bounds {protocol : ℕ} {services : List CStr} (h : Packable protocol services) :
    services.length ≤ 5 ∧ ∀ s∈services,s.bytes.length ≤ 32 := by
  rcases h with h|h
  · rw [h.2]
    exact ⟨by decide,fun s hs => by cases hs⟩
  · exact h.2

def queryPacket (protocol : ℕ) (services : List CStr) : List UInt8 :=
  be16 (UInt16.ofNat protocol)++be16 0++be16 1++be16 (UInt16.ofNat services.length)++
    services.flatMap fun s => packString 32 s.bytes

theorem Query.bounds {protocol : ℕ} {services : List CStr} (h : Query protocol services) :
    services.length ≤ 5 ∧ ∀ s∈services,s.bytes.length ≤ 31 := by
  rcases h with h|h
  · rw [h.2]
    exact ⟨by decide,fun s hs => by cases hs⟩
  · exact h.2

theorem sendQuery_eq {protocol : ℕ} {services : List CStr} (h : Query protocol services) :
    sendQuery protocol (services.map CStr.bytes)=.ok (queryPacket protocol services) := by
  have hp : ¬(protocol≠2 ∧ protocol≠3) := by
    rcases h with h|h
    · exact fun hn => hn.1 h.1
    · exact fun hn => hn.2 h.1
  have h2 : ¬(protocol=2 ∧ services.map CStr.bytes≠[]) := by
    rcases h with h|h
    · exact fun hn => hn.2 (by rw [h.2]; rfl)
    · exact fun hn => absurd (hn.1.symm.trans h.1) (by decide)
  have hn := h.bounds
  have h5 : ¬(services.map CStr.bytes).length > 5 := by
    rw [List.length_map]
    omega
  have h31 : ¬(services.map CStr.bytes).any (fun s => s.length > 31)=true := by
    rw [List.any_map,List.any_eq_true]
    intro hn
    obtain ⟨s,hs,hl⟩ := hn
    have hle := hn.2 s hs
    simp only [Function.comp_apply,gt_iff_lt,decide_eq_true_eq] at hl
    omega
  rw [sendQuery,if_neg hp,if_neg h2,if_neg h5,if_neg h31,List.length_map,List.flatMap_map]
  rfl

theorem queryPacket_fields (protocol : ℕ) (services : List CStr) :
    headerField (queryPacket protocol services) 0=UInt16.ofNat protocol ∧
      headerField (queryPacket protocol services) 2=0 ∧
      headerField (queryPacket protocol services) 4=1 ∧
      headerField (queryPacket protocol services) 6=UInt16.ofNat services.length :=
  headerField_words _ _ _ _ _

theorem queryPacket_length (protocol : ℕ) (services : List CStr) :
    (queryPacket protocol services).length=8+32*services.length := by
  have hblocks := length_flatMap_block (fun s : CStr => packString_length 32 s.bytes) services
  simp only [queryPacket,List.length_append,be16_length,hblocks]

/-- The server reads the names that the client packed. -/
theorem nameField_queryPacket {protocol : ℕ} {services : List CStr} {i : ℕ} {s : CStr}
    (hi : services[i]?=some s) (hs : s.bytes.length ≤ 32) :
    nameField (queryPacket protocol services) i=s := by
  have hhead : (be16 (UInt16.ofNat protocol)++be16 0++be16 1++
      be16 (UInt16.ofNat services.length)).length=8 := rfl
  have hblock := block_flatMap (fun s : CStr => packString_length 32 s.bytes) hi
  have hfield : ((queryPacket protocol services).drop (headerSize+i*nameSize)).take nameSize=
      packString 32 s.bytes := by
    rw [queryPacket,headerSize,← List.drop_drop,List.drop_left' hhead]
    exact hblock
  rw [nameField,hfield]
  exact CStr.ext (takeWhile_packString s.nulFree hs)

theorem queryPacket_names {protocol : ℕ} {services : List CStr}
    (h : Packable protocol services) :
    requestedNames (queryPacket protocol services)=services := by
  obtain ⟨hv,-,-,hn⟩ := queryPacket_fields protocol services
  obtain ⟨h5,h32⟩ := h.bounds
  rw [requestedNames,hv]
  rcases h with ⟨rfl,rfl⟩|⟨rfl,-⟩
  · exact if_neg (by decide)
  · rw [if_pos (show UInt16.ofNat 3=3 from rfl)]
    have hcount : nameCount (queryPacket 3 services)=services.length := by
      rw [nameCount,hn,UInt16.toNat_ofNat']
      omega
    apply List.ext_getElem
    · rw [List.length_map,List.length_range,hcount]
    · intro i hi hi'
      rw [List.getElem_map,List.getElem_range]
      have hs := h32 services[i] (List.getElem_mem hi')
      exact nameField_queryPacket (List.getElem?_eq_getElem hi') hs

theorem queryPacket_request {protocol : ℕ} {services : List CStr}
    (h : Packable protocol services) (addr : SockAddr) :
    requestOf (queryPacket protocol services) addr=
      ⟨addr,UInt16.ofNat protocol,0,1,services⟩ := by
  obtain ⟨hv,hi,ho,-⟩ := queryPacket_fields protocol services
  rw [requestOf,hv,hi,ho,queryPacket_names h]

/-- The server serves a query if it allows every name. -/
theorem queryPacket_reaction {protocol : ℕ} {services : List CStr}
    (h : Packable protocol services) (allowed : List CStr) (addr : SockAddr) :
    reaction allowed (queryPacket protocol services) addr=
      if ∀ name∈services,Allowed allowed name then
        .serve ⟨addr,UInt16.ofNat protocol,0,1,services⟩
      else .error ⟨addr,UInt16.ofNat protocol,0,1,services⟩ .error := by
  obtain ⟨hv,-,ho,hn⟩ := queryPacket_fields protocol services
  have hlen := queryPacket_length protocol services
  have hb := h.bounds
  have hnames := queryPacket_names h
  have hcount : nameCount (queryPacket protocol services)=services.length := by
    rw [nameCount,hn,UInt16.toNat_ofNat']
    omega
  have hsize : packetSize (queryPacket protocol services)=8+32*services.length := by
    rw [packetSize,hv,hcount]
    rcases h with ⟨rfl,rfl⟩|⟨rfl,-⟩
    · rfl
    · rfl
  have hversion : ¬(headerField (queryPacket protocol services) 0≠2 ∧
      headerField (queryPacket protocol services) 0≠3) := by
    rw [hv]
    rcases h with ⟨rfl,-⟩|⟨rfl,-⟩
    · decide
    · decide
  rw [reaction,if_neg (by omega),if_neg (by omega),if_neg (by omega),if_neg hversion,hnames,
    queryPacket_request h,ho]
  by_cases ha : ∀ name∈services,Allowed allowed name
  · have hex : ¬∃ name∈services,¬Allowed allowed name := by
      intro hn
      obtain ⟨name,hm,hd⟩ := hn
      exact hd (ha name hm)
    rw [if_pos ha,if_neg hex]
    rfl
  · have hex : ∃ name∈services,¬Allowed allowed name := by
      obtain ⟨name,hd⟩ := not_forall.mp ha
      exact ⟨name,Classical.not_imp.mp hd⟩
    rw [if_neg ha,if_pos hex]

/-- A query of version 2 is always served. -/
theorem query2_reaction (services : List CStr) :
    reactionTo services (some ⟨queryPacket 2 [],[]⟩)=.serve ⟨[],2,0,1,[]⟩ := by
  have hquery : Packable 2 [] := Or.inl ⟨rfl,rfl⟩
  have hreaction := queryPacket_reaction hquery services []
  rw [if_pos (List.forall_mem_nil _)] at hreaction
  exact hreaction

def hostPair (e : Endian) (w : LbcdService) : Option ℕ × Option ℕ :=
  (some (ntohl e w.hostWeight).toNat,some (ntohl e w.hostIncr).toNat)

/-- The values of a reply to a request for some names, in host order. -/
def inHostOrder (e : Endian) (names : ℕ) (lb : LbcdReply) : QueryReply where
  version := some (ntohs e lb.h.version).toNat
  bootTime := some (ntohl e lb.bootTime).toNat
  currentTime := some (ntohl e lb.currentTime).toNat
  userMtime := some (ntohl e lb.userMtime).toNat
  l1 := some (ntohs e lb.l1).toNat
  l5 := some (ntohs e lb.l5).toNat
  l15 := some (ntohs e lb.l15).toNat
  totUsers := some (ntohs e lb.totUsers).toNat
  uniqUsers := some (ntohs e lb.uniqUsers).toNat
  onConsole := some lb.onConsole.toNat
  tmpFull := some lb.tmpFull.toNat
  tmpdirFull := some lb.tmpdirFull.toNat
  services :=
    if ntohs e lb.h.version=3 then
      .weights (((List.finRange (maxServices+1)).take (names+1)).map fun i =>
        hostPair e (lb.slot i))
    else .count (some 0)

theorem readWeights_bytes (e : Endian) (ws : List LbcdService) :
    readWeights ws.length (ws.flatMap (LbcdService.bytes e))=.ok (ws.map (hostPair e)) := by
  induction ws with
  | nil => rfl
  | cons w ws ih =>
    have hw : (w.bytes e).length=8 := LbcdReply.serviceBytes_length e w
    have hpair : unpackReply [.long,.long] (w.bytes e++ws.flatMap (LbcdService.bytes e))=
        .ok [(ntohl e w.hostWeight).toNat,(ntohl e w.hostIncr).toNat] := by
      simp only [unpackReply,LbcdService.bytes,store32_eq,List.append_assoc,unpack_long,
        unpack_nil,Option.map_some]
    rw [List.flatMap_cons,List.length_cons,readWeights,hpair,List.drop_left' hw,ih]
    rfl

/-- Weight and increment of a reply's pair, by its bytes. -/
def pairOf (packet : List UInt8) (i : ℕ) : Option (List ℕ) :=
  unpack [.long,.long] ((packet.drop (36+i*serviceSize)).take serviceSize)

/-- A pair of a packet is the reply's slot. -/
theorem packet_slot (e : Endian) (lb : LbcdReply) {n : ℕ} {i : Slot} (hn : (i : ℕ) ≤ n) :
    (((lb.bytes e).take (44+8*n)).drop (36+i*serviceSize)).take serviceSize=
      (lb.slot i).bytes e := by
  have hget : (lb.weights.toList.take (n+1))[(i : ℕ)]?=some (lb.slot i) := by
    rw [List.getElem?_take_of_lt (by omega),Vector.getElem?_toList,
      Vector.getElem?_eq_getElem i.isLt]
    rfl
  rw [bytes_take,← List.drop_drop,List.drop_left' (LbcdReply.fixedBytes_length e lb)]
  exact block_flatMap (LbcdReply.serviceBytes_length e) hget

theorem pairOf_take (e : Endian) (lb : LbcdReply) {n : ℕ} {i : Slot} (hn : (i : ℕ) ≤ n) :
    pairOf ((lb.bytes e).take (44+8*n)) i=
      some [(ntohl e (lb.slot i).hostWeight).toNat,(ntohl e (lb.slot i).hostIncr).toNat] := by
  rw [pairOf,packet_slot e lb hn,LbcdService.bytes,store32_eq,store32_eq,unpack_long,
    ← List.append_nil (be32 (ntohl e (lb.slot i).hostIncr)),unpack_long,unpack_nil]
  rfl

theorem toList_slots (lb : LbcdReply) (n : ℕ) :
    lb.weights.toList.take n=((List.finRange (maxServices+1)).take n).map lb.slot := by
  rw [List.map_take]
  congr 1
  apply List.ext_getElem
  · rw [Vector.length_toList,List.length_map,List.length_finRange]
  · intro i hi hi'
    rw [Vector.getElem_toList,List.getElem_map,List.getElem_finRange]
    rfl

/-- The header of a packet as the client reads it. -/
theorem unpackReply_head (v i o s : UInt16) (rest : List UInt8) :
    unpackReply [.short,.short,.short,.short] (be16 v++be16 i++be16 o++be16 s++rest)=
      .ok [v.toNat,i.toNat,o.toNat,s.toNat] := by
  simp only [unpackReply,List.append_assoc,unpack_short,unpack_nil,Option.map_some]

theorem readReply_error (v s : UInt16) (hs : s≠1) :
    readReply (be16 v++be16 0++be16 1++be16 s)=
      .error (.fromServer (statusMessage s.toNat)) := by
  have hhead := unpackReply_head v 0 1 s []
  rw [List.append_nil] at hhead
  have hstatus : s.toNat≠1 := fun hn => hs (UInt16.toNat_inj.mp hn)
  have htake : (be16 v++be16 0++be16 1++be16 s).take 256=be16 v++be16 0++be16 1++be16 s := rfl
  rw [readReply,htake,hhead]
  exact if_pos hstatus

theorem readReply_ok (v : UInt16) {rest : List UInt8}
    (hl : (be16 v++be16 0++be16 1++be16 1++rest).length ≤ 256) :
    readReply (be16 v++be16 0++be16 1++be16 1++rest)=readFields (some v.toNat) rest := by
  rw [readReply,List.take_of_length_le hl,unpackReply_head]
  rfl

/-- The fixed part of a reply after its header. -/
def bodyBytes (e : Endian) (lb : LbcdReply) : List UInt8 :=
  be32 (ntohl e lb.bootTime)++be32 (ntohl e lb.currentTime)++be32 (ntohl e lb.userMtime)++
    (be16 (ntohs e lb.l1)++be16 (ntohs e lb.l5)++be16 (ntohs e lb.l15)++
      be16 (ntohs e lb.totUsers)++be16 (ntohs e lb.uniqUsers)++
      [lb.onConsole,lb.reserved,lb.tmpFull,lb.tmpdirFull,lb.pad,lb.services])

theorem fixedBytes_eq (e : Endian) (lb : LbcdReply) :
    lb.fixedBytes e=be16 (ntohs e lb.h.version)++be16 (ntohs e lb.h.id)++be16 (ntohs e lb.h.op)++
      be16 (ntohs e lb.h.status)++bodyBytes e lb := by
  simp only [LbcdReply.fixedBytes,LbcdHeader.bytes,store16_eq,store32_eq]
  rfl

/-- The values of a reply before its weights, in host order. -/
def bodyValues (e : Endian) (lb : LbcdReply) : List ℕ :=
  [(ntohl e lb.bootTime).toNat,(ntohl e lb.currentTime).toNat,(ntohl e lb.userMtime).toNat,
    (ntohs e lb.l1).toNat,(ntohs e lb.l5).toNat,(ntohs e lb.l15).toNat,
    (ntohs e lb.totUsers).toNat,(ntohs e lb.uniqUsers).toNat,lb.onConsole.toNat,
    lb.tmpFull.toNat,lb.tmpdirFull.toNat,lb.services.toNat]

theorem unpackReply_body (e : Endian) (lb : LbcdReply) (rest : List UInt8) :
    unpackReply [.long,.long,.long,.short,.short,.short,.short,.short,.byte,.skip,.byte,.byte,
        .skip,.byte] (bodyBytes e lb++rest)=.ok (bodyValues e lb) := by
  simp only [unpackReply,bodyBytes,List.append_assoc,List.cons_append,List.nil_append,unpack_long,
    unpack_short,unpack_byte,unpack_skip,unpack_nil,Option.map_some]
  rfl

/-- What the client makes of a reply. -/
theorem readReply_packed {e : Endian} {g : WeightGlobals} {names : List CStr} {v : UInt16}
    {tr : List (Event Server)} {lb : LbcdReply} (hl : names.length ≤ maxServices)
    (hv : v=3 ∨ (v=2 ∧ names=[]))
    (h : Packed e g names ⟨htons e v,htons e 0,htons e 1,htons e LbcdStatus.ok.code⟩ tr lb) :
    readReply ((lb.bytes e).take (44+8*names.length))=.ok (inHostOrder e names.length lb) := by
  let pairs := (lb.weights.toList.take (names.length+1)).flatMap (LbcdService.bytes e)
  have hlen : ((lb.bytes e).take (44+8*names.length)).length ≤ 256 := by
    rw [List.length_take,LbcdReply.bytes_length,replySize]
    omega
  have hversion : ntohs e lb.h.version=v := by
    rw [h.header]
    exact ntohs_htons e v
  have hpacket : (lb.bytes e).take (44+8*names.length)=
      be16 v++be16 0++be16 1++be16 1++(bodyBytes e lb++pairs) := by
    rw [bytes_take,fixedBytes_eq,h.header]
    simp only [ntohs_htons,List.append_assoc]
    rfl
  have hcount : lb.services.toNat=names.length := by
    have h5 : names.length ≤ 5 := hl
    rw [h.services,UInt8.toNat_ofNat']
    omega
  have hbody : (bodyBytes e lb).length=28 := rfl
  have hweights : readWeights (names.length+1) pairs=
      .ok (((List.finRange (maxServices+1)).take (names.length+1)).map fun i =>
        hostPair e (lb.slot i)) := by
    have htake : (lb.weights.toList.take (names.length+1)).length=names.length+1 := by
      have h5 : names.length ≤ 5 := hl
      rw [List.length_take,Vector.length_toList,maxServices]
      omega
    have hread := readWeights_bytes e (lb.weights.toList.take (names.length+1))
    rw [htake,toList_slots,List.map_map] at hread
    simp only [pairs]
    rw [toList_slots]
    exact hread
  rw [hpacket] at hlen ⊢
  rw [readReply_ok v hlen,readFields,unpackReply_body,List.drop_left' hbody]
  rcases hv with rfl|⟨rfl,rfl⟩
  · rw [← hcount] at hweights ⊢
    change ((readWeights (lb.services.toNat+1) pairs).map ReplyServices.weights >>= _)=_
    rw [hweights,inHostOrder,hversion]
    rfl
  · have hzero : lb.services.toNat=0 := hcount
    change Except.ok (QueryReply.mk _ _ _ _ _ _ _ _ _ _ _ _ (.count (some lb.services.toNat)))=_
    rw [hzero,inHostOrder,hversion]
    rfl

/-- The server parses every query of the client into what the client asked. -/
theorem requestRecv_query {protocol : ℕ} {services : List CStr} (h : Query protocol services)
    (e : Endian) (config : LbcdConfig) (addr : SockAddr) (fd : Fd) :
    ∃ log k,requestRecv e config fd=Prog.call (I := Server) (.sys (.recvfrom fd)) k ∧
      k (some ⟨queryPacket protocol services,addr⟩)=logAll log >>= fun _ =>
        if ∀ name∈services,Allowed config.services name then
          Prog.ret (some ⟨addr,UInt16.ofNat protocol,0,1,services⟩)
        else
          sendStatus e ⟨addr,UInt16.ofNat protocol,0,1,services⟩ fd .error >>= fun _ =>
            Prog.ret none := by
  obtain ⟨log,hlog⟩ := parseRequest_eq e config fd (queryPacket protocol services) addr
  have hlen := queryPacket_length protocol services
  have hb := h.bounds
  have htake : (queryPacket protocol services).take maxMesg=queryPacket protocol services :=
    List.take_of_length_le (by rw [hlen,maxMesg]; omega)
  refine ⟨log,_,rfl,?_⟩
  change (if ((queryPacket protocol services).take maxMesg).length=0 then
      (message .cannotReceive >>= fun _ => Prog.ret none)
    else parseRequest e config fd ((queryPacket protocol services).take maxMesg) addr)=_
  rw [htake,if_neg (by omega),hlog,queryPacket_reaction h.packable]
  split_ifs
  · rfl
  · rfl

/-- A packet about to be sent by handle_lb_request holds a reply. -/
def SendsReply (e : Endian) (g : WeightGlobals) (request : Request) (h : List (Event Server))
    (c : ServerCall) : Prop :=
  ∀ fd packet addr,c=.sys (.sendto fd packet addr) → Answers e g h packet addr (.serve request)

section

variable {e : Endian} {g : WeightGlobals} {config : LbcdConfig} {cache : UserCache}
  {request : Request} {fd : Fd} (hl : request.services.length ≤ maxServices)
  (hosts : ℕ → Oracle System)

include hl

theorem handleLbRequest_sends : (handleLbRequest e g config cache request fd).Safe (records e g)
    (SendsReply e g request) (fun h _ => Sends [] h 1) [] := by
  apply handleLbRequest_safe _ _ config cache fd hl
  · intro tr packet addr _ ha fd' packet' addr' hc
    cases hc
    exact ha
  · intro h c hc fd packet addr hs
    subst hs
    exact hc.elim
  · intro h c hc fd packet addr hs
    subst hs
    exact hc.elim

theorem handleLbRequest_replies
    (i : Fin ((handleLbRequest e g config cache request fd).trace
      (Oracle.lower (implement e g) hosts)).length) :
    SendsReply e g request
      (((handleLbRequest e g config cache request fd).trace
        (Oracle.lower (implement e g) hosts)).take i)
      ((handleLbRequest e g config cache request fd).trace
        (Oracle.lower (implement e g) hosts))[i].call :=
  safe_records (handleLbRequest_sends hl) hosts i

/-- A run of handle_lb_request that returns has sent one packet. -/
theorem handleLbRequest_packet {cache' : UserCache}
    (hr : (handleLbRequest e g config cache request fd).result
      (Oracle.lower (implement e g) hosts)=some cache') :
    (((handleLbRequest e g config cache request fd).trace
      (Oracle.lower (implement e g) hosts)).filterMap fun ev => sentPacket ev.call).length=1 := by
  obtain ⟨tr,htr,-,hone⟩ := (handleLbRequest_sends hl).result _ (lower_possible hosts) hr
  rw [List.nil_append,List.nil_append] at htr
  rw [htr]
  exact hone

end

/-- The server understands every query of the client and sends one packet for each it
serves. The client reads the values of every reply, and the status of every error. -/
theorem client_server_agree (e : Endian) (g : WeightGlobals) (config : LbcdConfig) :
    (∀ protocol services addr fd,Query protocol services →
      ∃ packet log k,
        sendQuery protocol (services.map CStr.bytes)=.ok packet ∧
        requestRecv e config fd=Prog.call (I := Server) (.sys (.recvfrom fd)) k ∧
        k (some ⟨packet,addr⟩)=logAll log >>= fun _ =>
          if ∀ name∈services,Allowed config.services name then
            Prog.ret (some ⟨addr,UInt16.ofNat protocol,0,1,services⟩)
          else
            sendStatus e ⟨addr,UInt16.ofNat protocol,0,1,services⟩ fd .error >>= fun _ =>
              Prog.ret none) ∧
    (∀ protocol services addr fd cache hosts,Query protocol services →
      let handle := handleLbRequest e g config cache
        ⟨addr,UInt16.ofNat protocol,0,1,services⟩ fd
      let run := handle.trace (Oracle.lower (implement e g) hosts)
      (∀ cache',handle.result (Oracle.lower (implement e g) hosts)=some cache' →
        (run.filterMap fun ev => sentPacket ev.call).length=1) ∧
      ∀ (i : Fin run.length) fd' packet dest,run[i].call=.sys (.sendto fd' packet dest) →
        ∃ lb,packet=(lb.bytes e).take (44+8*services.length) ∧
          Packed e g services ⟨htons e (UInt16.ofNat protocol),htons e 0,htons e 1,
            htons e LbcdStatus.ok.code⟩ (run.take i) lb ∧
          readReply packet=.ok (inHostOrder e services.length lb)) ∧
    (∀ protocol services addr fd cache (host : Host e g),Query protocol services →
      HasProbe g defaultName →
      (host.sent config cache ⟨addr,UInt16.ofNat protocol,0,1,services⟩ fd).length=1) ∧
    ∀ request status,request.id=0 → request.operation=1 → status≠.ok →
      readReply (statusPacket e request status)=
        .error (.fromServer (statusMessage status.code.toNat)) := by
  refine ⟨fun protocol services addr fd h => ?_,fun protocol services addr fd cache hosts h => ?_,
    fun protocol services addr fd cache host h hd => ?_,fun request status hid hop hst => ?_⟩
  · obtain ⟨log,k,hcall,hk⟩ := requestRecv_query h e config addr fd
    exact ⟨queryPacket protocol services,log,k,sendQuery_eq h,hcall,hk⟩
  · intro handle run
    have hl : services.length ≤ maxServices := h.bounds.1
    refine ⟨fun cache' hr => handleLbRequest_packet hl hosts hr,fun i fd' packet dest hc => ?_⟩
    obtain ⟨hserved,-⟩ := handleLbRequest_replies hl hosts i fd' packet dest hc
    obtain ⟨lb,hp,hpacked⟩ := hserved.reply
    refine ⟨lb,hp,hpacked,?_⟩
    rw [hp]
    refine readReply_packed hl ?_ hpacked
    rcases h with ⟨rfl,hnil⟩|⟨rfl,-⟩
    · exact Or.inr ⟨rfl,hnil⟩
    · exact Or.inl rfl
  · obtain ⟨q,-,hsent⟩ := host.sent_filled hd h.bounds.1 config cache addr
      (UInt16.ofNat protocol) 0 1 fd
    rw [hsent,List.length_singleton]
  · rw [statusPacket_eq,hid,hop]
    refine readReply_error _ _ ?_
    cases status with
    | ok => exact absurd rfl hst
    | _ => decide

end Lbcd
