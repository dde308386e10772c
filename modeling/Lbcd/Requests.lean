import Lbcd.Daemon

namespace Lbcd

open Interaction CText ByteOrder

/-- The services a client may ask for by name. -/
def Allowed (services : List CStr) (name : CStr) : Prop :=
  name=CStr.lit "default" ∨
    (name∈services ∧ name≠CStr.lit "cmd" ∧ ¬(CStr.lit "cmd:").bytes<+:name.bytes)

instance (services : List CStr) (name : CStr) : Decidable (Allowed services name) :=
  inferInstanceAs (Decidable (_ ∨ _))

/-- A number of the packet header, most significant byte first. -/
def headerField (raw : List UInt8) (i : ℕ) : UInt16 := ofBe16 (raw.getD i 0) (raw.getD (i+1) 0)

/-- A name of the packet: the 32 bytes of its field up to the first NUL. -/
def nameField (raw : List UInt8) (i : ℕ) : CStr :=
  CStr.ofBuffer ((raw.drop (headerSize+i*nameSize)).take nameSize)

/-- The number of names in a version 3 packet, where a reply has its status. -/
def nameCount (raw : List UInt8) : ℕ := (headerField raw 6).toNat

def requestedNames (raw : List UInt8) : List CStr :=
  if headerField raw 0=3 then (List.range (nameCount raw)).map (nameField raw) else []

def requestOf (raw : List UInt8) (addr : SockAddr) : Request :=
  ⟨addr,headerField raw 0,headerField raw 2,headerField raw 4,requestedNames raw⟩

/-- The one length a packet with this header may have. -/
def packetSize (raw : List UInt8) : ℕ := if headerField raw 0=3 then 8+32*nameCount raw else 8

/-- What one datagram gives rise to. -/
inductive Reaction where
  | silent
  | error (request : Request) (status : LbcdStatus)
  | serve (request : Request)

def reaction (services : List CStr) (raw : List UInt8) (addr : SockAddr) : Reaction :=
  if raw.length < 8 then .silent
  else if headerField raw 0=3 ∧ nameCount raw > 5 then .silent
  else if raw.length≠packetSize raw then .silent
  else if headerField raw 0≠2 ∧ headerField raw 0≠3 then .error (requestOf raw addr) .version
  else if ∃ name∈requestedNames raw,¬Allowed services name then
    .error (requestOf raw addr) .error
  else if headerField raw 4≠1 then .error (requestOf raw addr) .unknownOp
  else .serve (requestOf raw addr)

/-- The reaction to what a receive gives: the first 2048 bytes of a datagram, or nothing. -/
def reactionTo (services : List CStr) : Option Datagram → Reaction
  | none => .silent
  | some d => reaction services (d.payload.take 2048) d.source

/-- The reaction as a program: an error is one packet of four words in network order. -/
def react (e : Endian) (g : WeightGlobals) (config : LbcdConfig) (cache : UserCache) (fd : Fd) :
    Reaction → Prog Server UserCache
  | .silent => return cache
  | .error request status => do
    let packet := be16 lbcdVersion++be16 request.id++be16 request.operation++be16 status.code
    let sent : Option ℕ ← ssys (.sendto fd packet request.addr)
    if sent≠some 8 then message .cannotSend
    return cache
  | .serve request => handleLbRequest e g config cache request fd

/-- Lines written to the log. -/
def logAll : List Message → Prog Server Unit
  | [] => return ()
  | m :: ms => do
    message m
    logAll ms

theorem serviceAllowed_iff (config : LbcdConfig) (name : CStr) :
    serviceAllowed config name=true ↔ Allowed config.services name := by
  have hp : name.strncmpEq (CStr.lit "cmd:") 4=true ↔ (CStr.lit "cmd:").bytes<+:name.bytes := by
    rw [CStr.strncmpEq,decide_eq_true_iff,List.prefix_iff_eq_take]
    exact eq_comm
  have hm : config.services.any (·=name)=true ↔ name∈config.services := by simp
  unfold serviceAllowed Allowed
  rw [← hp,← hm,defaultName]
  by_cases hd : name=CStr.lit "default"
  · simp [hd]
  · by_cases hc : name=CStr.lit "cmd"
    · simp [hc]
    · by_cases hs : name.strncmpEq (CStr.lit "cmd:") 4=true <;> simp [hd,hc,hs]

theorem readByte_of_lt {raw : List UInt8} {i : ℕ} (h : i < raw.length) :
    readByte raw i=Prog.ret raw[i] := by
  rw [readByte,List.getElem?_eq_getElem h]
  rfl

theorem readShort_of_lt (e : Endian) {raw : List UInt8} {i : ℕ} (h : i+1 < raw.length) :
    readShort e raw i=Prog.ret (headerField raw i) := by
  have h0 : i < raw.length := by omega
  rw [readShort,readByte_of_lt h0,readByte_of_lt h]
  simp only [Prog.ret_bind,Prog.pure_eq_ret,ntohs_load16,headerField]
  simp [List.getD,h0,h]

theorem xstrndup_of_le {raw : List UInt8} {p size : ℕ} (h : p+size ≤ raw.length) :
    xstrndup raw p size=Prog.ret (((raw.drop p).take size).takeWhile (·≠0)) := by
  induction size generalizing p with
  | zero => rfl
  | succ size ih =>
    have hp : p < raw.length := by omega
    have hd : raw.drop p=raw[p] :: raw.drop (p+1) := List.drop_eq_getElem_cons hp
    rw [xstrndup,readByte_of_lt hp,Prog.ret_bind,hd,List.take_succ_cons,List.takeWhile_cons]
    by_cases hb : raw[p]=0
    · simp [hb]
    · rw [if_neg hb,ih (by omega)]
      simp [hb]

/-- The scan of the names takes all of them, or answers the first that is not allowed. -/
theorem readServices_eq (e : Endian) (config : LbcdConfig) (fd : Fd) (raw : List UInt8)
    (n i : ℕ) (request : Request) (h : headerSize+(i+n)*nameSize ≤ raw.length) :
    ∃ log,readServices e config fd raw n i request=
      if ∀ name∈(List.range' i n).map (nameField raw),Allowed config.services name then
        Prog.ret (some { request with
          services := request.services++(List.range' i n).map (nameField raw) })
      else do
        logAll log
        sendStatus e request fd .error
        return none := by
  induction n generalizing i request with
  | zero => exact ⟨[],by simp [readServices]⟩
  | succ n ih =>
    have hi : headerSize+i*nameSize+nameSize ≤ raw.length := by
      have hle : (i+1)*nameSize ≤ (i+(n+1))*nameSize := Nat.mul_le_mul_right _ (by omega)
      rw [Nat.succ_mul] at hle
      omega
    have hn : headerSize+(i+1+n)*nameSize ≤ raw.length := by
      rwa [show i+1+n=i+(n+1) by omega]
    have hname : CStr.ofBuffer (((raw.drop (headerSize+i*nameSize)).take nameSize).takeWhile (·≠0))=
        nameField raw i := by
      have hb := CStr.ofBuffer_bytes (nameField raw i)
      exact hb
    rw [readServices,xstrndup_of_le hi,Prog.ret_bind,hname]
    by_cases ha : serviceAllowed config (nameField raw i)=true
    · have hA := (serviceAllowed_iff config _).mp ha
      obtain ⟨log,hlog⟩ := ih (i+1)
        { request with services := request.services++[nameField raw i] } hn
      refine ⟨log,?_⟩
      rw [if_pos ha,hlog]
      simp only [List.range'_succ,List.map_cons,List.forall_mem_cons,hA,true_and,
        List.append_assoc,List.singleton_append]
      rfl
    · have hA : ¬Allowed config.services (nameField raw i) :=
        fun h => ha ((serviceAllowed_iff config _).mpr h)
      refine ⟨[.notAllowed (nameField raw i)],?_⟩
      rw [if_neg ha,if_neg (fun h => hA (h _ (by simp [List.range'_succ])))]
      rfl

/-- All that can come of a datagram. -/
theorem reaction_cases (services : List CStr) (raw : List UInt8) (addr : SockAddr) :
    reaction services raw addr=.silent ∨
      (∃ status,status≠.unknownOp ∧
        reaction services raw addr=.error (requestOf raw addr) status) ∨
      (headerField raw 4≠1 ∧ reaction services raw addr=.error (requestOf raw addr) .unknownOp) ∨
      headerField raw 4=1 ∧ (∀ name∈requestedNames raw,Allowed services name) ∧
        reaction services raw addr=.serve (requestOf raw addr) := by
  unfold reaction
  split_ifs with hl hc hs hv ha ho
  · exact Or.inl rfl
  · exact Or.inl rfl
  · exact Or.inl rfl
  · exact Or.inr (Or.inl ⟨.version,by decide,rfl⟩)
  · exact Or.inr (Or.inl ⟨.error,by decide,rfl⟩)
  · exact Or.inr (Or.inr (Or.inl ⟨ho,rfl⟩))
  · have hall : ∀ name∈requestedNames raw,Allowed services name := by
      intro name hm
      by_contra hn
      exact ha ⟨name,hm,hn⟩
    exact Or.inr (Or.inr (Or.inr ⟨not_not.mp ho,hall,rfl⟩))

/-- What request_recv is left with: an error other than an unknown operation is sent at once. -/
def received (e : Endian) (fd : Fd) : Reaction → Prog Server (Option Request)
  | .silent => return none
  | .error request .unknownOp => return some request
  | .error request status => do
    sendStatus e request fd status
    return none
  | .serve request => return some request

theorem received_wellFormed (e : Endian) (fd : Fd) (services : List CStr) (raw : List UInt8)
    (addr : SockAddr) (hl : ¬raw.length < 8) (hc : ¬(headerField raw 0=3 ∧ nameCount raw > 5))
    (hs : ¬raw.length≠packetSize raw) (hv : ¬(headerField raw 0≠2 ∧ headerField raw 0≠3))
    (ha : ∀ name∈requestedNames raw,Allowed services name) :
    received e fd (reaction services raw addr)=Prog.ret (some (requestOf raw addr)) := by
  have hex : ¬∃ name∈requestedNames raw,¬Allowed services name := by
    intro hn
    obtain ⟨name,hm,hd⟩ := hn
    exact hd (ha name hm)
  rw [reaction,if_neg hl,if_neg hc,if_neg hs,if_neg hv,if_neg hex]
  split_ifs <;> rfl

/-- A version 3 request of a well-formed header comes to the reaction to its names. -/
theorem readNames_eq (e : Endian) (config : LbcdConfig) (fd : Fd) (raw : List UInt8)
    (addr : SockAddr) (hl : ¬raw.length < 8) (hc : ¬(headerField raw 0=3 ∧ nameCount raw > 5))
    (hs : ¬raw.length≠packetSize raw) (hv : ¬(headerField raw 0≠2 ∧ headerField raw 0≠3))
    (h3 : headerField raw 0=3) :
    ∃ log,readServices e config fd raw (nameCount raw) 0
        ⟨addr,headerField raw 0,headerField raw 2,headerField raw 4,[]⟩=
      logAll log >>= fun _ => received e fd (reaction config.services raw addr) := by
  have hr : requestedNames raw=(List.range' 0 (nameCount raw)).map (nameField raw) := by
    rw [requestedNames,if_pos h3,List.range_eq_range']
  have hn : headerSize+(0+nameCount raw)*nameSize ≤ raw.length := by
    rw [packetSize,if_pos h3] at hs
    simp only [headerSize,nameSize]
    omega
  obtain ⟨log,hlog⟩ := readServices_eq e config fd raw (nameCount raw) 0
    ⟨addr,headerField raw 0,headerField raw 2,headerField raw 4,[]⟩ hn
  rw [← hr] at hlog
  by_cases ha : ∀ name∈requestedNames raw,Allowed config.services name
  · refine ⟨[],?_⟩
    rw [if_pos ha] at hlog
    rw [received_wellFormed e fd config.services raw addr hl hc hs hv ha]
    exact hlog
  · refine ⟨log,?_⟩
    have hex : ∃ name∈requestedNames raw,¬Allowed config.services name := by
      obtain ⟨name,h⟩ := not_forall.mp ha
      exact ⟨name,Classical.not_imp.mp h⟩
    rw [if_neg ha] at hlog
    rw [reaction,if_neg hl,if_neg hc,if_neg hs,if_neg hv,if_pos hex]
    exact hlog

theorem parseRequest_eq (e : Endian) (config : LbcdConfig) (fd : Fd) (raw : List UInt8)
    (addr : SockAddr) :
    ∃ log,parseRequest e config fd raw addr=
      logAll log >>= fun _ => received e fd (reaction config.services raw addr) := by
  by_cases hl : raw.length < 8
  · refine ⟨[.shortPacket raw.length],?_⟩
    rw [parseRequest,if_pos (show raw.length < headerSize from hl),reaction,if_pos hl]
    rfl
  have hle : 8 ≤ raw.length := by omega
  unfold parseRequest
  rw [if_neg (show ¬raw.length < headerSize from hl),
    readShort_of_lt e (by omega : 0+1 < raw.length),
    readShort_of_lt e (by omega : 2+1 < raw.length),
    readShort_of_lt e (by omega : 4+1 < raw.length),
    readShort_of_lt e (by omega : 6+1 < raw.length)]
  simp only [Prog.ret_bind]
  by_cases hc : headerField raw 0=3 ∧ nameCount raw > 5
  · refine ⟨[.tooManyServices (nameCount raw)],?_⟩
    rw [if_pos (show _ ∧ (headerField raw 6).toNat > maxServices from hc),reaction,if_neg hl,
      if_pos hc]
    rfl
  rw [if_neg (show ¬(_ ∧ (headerField raw 6).toNat > maxServices) from hc)]
  have hx : headerSize+(if headerField raw 0=3 then (headerField raw 6).toNat*nameSize else 0)=
      packetSize raw := by
    simp only [headerSize,nameSize,packetSize,nameCount]
    split_ifs <;> omega
  rw [hx]
  by_cases hs : raw.length≠packetSize raw
  · refine ⟨[.incorrectSize raw.length (packetSize raw)],?_⟩
    rw [if_pos hs,reaction,if_neg hl,if_neg hc,if_pos hs]
    rfl
  rw [if_neg hs]
  by_cases hv : headerField raw 0≠2 ∧ headerField raw 0≠3
  · refine ⟨[.unsupportedVersion (headerField raw 0)],?_⟩
    rw [if_pos hv,reaction,if_neg hl,if_neg hc,if_neg hs,if_pos hv]
    rfl
  rw [if_neg hv]
  by_cases h3 : headerField raw 0=3
  · obtain ⟨log,hlog⟩ := readNames_eq e config fd raw addr hl hc hs hv h3
    refine ⟨log,?_⟩
    rw [if_pos h3]
    exact hlog
  · refine ⟨[],?_⟩
    have hr : requestedNames raw=[] := if_neg h3
    rw [if_neg h3,received_wellFormed e fd config.services raw addr hl hc hs hv (by simp [hr]),
      requestOf,hr]
    rfl

theorem statusPacket_eq (e : Endian) (request : Request) (status : LbcdStatus) :
    statusPacket e request status=
      be16 lbcdVersion++be16 request.id++be16 request.operation++be16 status.code := by
  simp only [statusPacket,LbcdHeader.bytes,store16_htons]

theorem sendStatus_react (e : Endian) (g : WeightGlobals) (config : LbcdConfig)
    (cache : UserCache) (fd : Fd) (request : Request) (status : LbcdStatus) :
    (sendStatus e request fd status >>= fun _ => Prog.ret cache)=
      react e g config cache fd (.error request status) := by
  rw [sendStatus,statusPacket_eq,react,bind_assoc,ssys_bind,ssys_bind]
  refine congrArg (Prog.call _) (funext fun sent => ?_)
  by_cases h : sent=some headerSize
  · rw [if_neg (not_not.mpr h),if_neg (not_not.mpr (show sent=some 8 from h))]
    rfl
  · rw [if_pos h,if_pos (show sent≠some 8 from h)]
    rfl

theorem received_rejected (e : Endian) (fd : Fd) (request : Request) {status : LbcdStatus}
    (hs : status≠.unknownOp) : received e fd (.error request status)=
      sendStatus e request fd status >>= fun _ => Prog.ret none := by
  cases status with
  | unknownOp => exact absurd rfl hs
  | _ => rfl

/-- A request that is turned down while it is parsed is only answered with the status. -/
theorem dispatch_rejected (e : Endian) (g : WeightGlobals) (config : LbcdConfig)
    (cache : UserCache) (fd : Fd) (request : Request) {status : LbcdStatus}
    (hs : status≠.unknownOp) :
    received e fd (.error request status) >>= dispatch e g config cache fd=
      react e g config cache fd (.error request status) := by
  rw [received_rejected e fd request hs,bind_assoc,← sendStatus_react]
  rfl

theorem dispatch_received (e : Endian) (g : WeightGlobals) (config : LbcdConfig)
    (cache : UserCache) (fd : Fd) (services : List CStr) (raw : List UInt8) (addr : SockAddr) :
    ∃ log,received e fd (reaction services raw addr) >>= dispatch e g config cache fd=
      logAll log >>= fun _ => react e g config cache fd (reaction services raw addr) := by
  rcases reaction_cases services raw addr with hr|⟨status,hs,hr⟩|⟨hop,hr⟩|⟨hop,-,hr⟩
  · rw [hr]
    exact ⟨[],rfl⟩
  · rw [hr]
    exact ⟨[],dispatch_rejected e g config cache fd _ hs⟩
  · rw [hr]
    refine ⟨[.unknownOp (headerField raw 4)],?_⟩
    have hne : ¬(requestOf raw addr).operation=opLbinfo := hop
    change dispatch e g config cache fd (some (requestOf raw addr))=_
    rw [← sendStatus_react,dispatch,if_neg hne]
    rfl
  · rw [hr]
    refine ⟨[],?_⟩
    have heq : (requestOf raw addr).operation=opLbinfo := hop
    change dispatch e g config cache fd (some (requestOf raw addr))=_
    rw [dispatch,if_pos heq]
    rfl

/-- The loop body but for its receive, as the reaction to what was received. -/
theorem process_eq (e : Endian) (g : WeightGlobals) (config : LbcdConfig) (cache : UserCache)
    (fd : Fd) (raw : List UInt8) (addr : SockAddr) :
    ∃ log,parseRequest e config fd raw addr >>= dispatch e g config cache fd=
      logAll log >>= fun _ => react e g config cache fd (reaction config.services raw addr) := by
  obtain ⟨log,hlog⟩ := parseRequest_eq e config fd raw addr
  obtain ⟨more,hmore⟩ := dispatch_received e g config cache fd config.services raw addr
  refine ⟨log++more,?_⟩
  have happ : ∀ log,logAll (log++more)=logAll log >>= fun _ => logAll more := by
    intro log
    induction log with
    | nil => rfl
    | cons m ms ih => exact congrArg (Prog.call _) (funext fun _ => ih)
  rw [hlog,bind_assoc,hmore,happ,bind_assoc]

/-- What the server does with one message: wait for it, write lines to the log, react. -/
theorem serveOne_eq (e : Endian) (g : WeightGlobals) (config : LbcdConfig) (cache : UserCache)
    (fd : Fd) :
    ∃ log : Option Datagram → List Message,serveOne e g config cache fd=
      ssys (.recvfrom fd) >>= fun got => logAll (log got) >>= fun _ =>
        react e g config cache fd (reactionTo config.services got) := by
  choose log hlog using process_eq e g config cache fd
  refine ⟨fun got => got.elim [.cannotReceive] fun d =>
    if (d.payload.take maxMesg).length=0 then [.cannotReceive]
    else log (d.payload.take maxMesg) d.source,?_⟩
  rw [serveOne,requestRecv,bind_assoc,ssys_bind,ssys_bind]
  refine congrArg (Prog.call _) (funext fun got => ?_)
  cases got with
  | none => rfl
  | some d =>
    by_cases h0 : (d.payload.take maxMesg).length=0
    · have hr : reactionTo config.services (some d)=.silent := by
        change reaction config.services (d.payload.take maxMesg) d.source=.silent
        rw [reaction,if_pos (by omega)]
      simp only [Option.elim_some,hr,if_pos h0]
      rfl
    · simp only [Option.elim_some,if_neg h0]
      exact hlog _ _

/-- No undefined behaviour. -/
def NoFault (c : ServerCall) : Prop := ∀ f,c≠.sys (.fault f)

theorem logAll_meets (log : List Message) : (logAll log).Meets NoFault fun _ => True := by
  induction log with
  | nil => trivial
  | cons m ms ih => exact ⟨fun f => by simp,fun _ => ih⟩

theorem sendStatus_meets (e : Endian) (request : Request) (fd : Fd) (status : LbcdStatus) :
    (sendStatus e request fd status).Meets NoFault fun _ => True := by
  refine ⟨fun f => by simp,fun sent => ?_⟩
  change Prog.Meets _ _ (if sent≠some headerSize then message .cannotSend else Prog.ret ())
  split_ifs
  · exact ⟨fun f => by simp,fun _ => trivial⟩
  · trivial

theorem requestRecv_meets (e : Endian) (config : LbcdConfig) (fd : Fd) :
    (requestRecv e config fd).Meets NoFault fun _ => True := by
  refine ⟨fun f => by simp,fun got => ?_⟩
  have silent : (message .cannotReceive >>= fun _ => (return none : Prog Server
      (Option Request))).Meets NoFault fun _ => True := ⟨fun f => by simp,fun _ => trivial⟩
  cases got with
  | none => exact silent
  | some d =>
    change Prog.Meets _ _ (if (d.payload.take maxMesg).length=0 then _ else _)
    split_ifs with h0
    · exact silent
    · obtain ⟨log,hlog⟩ := parseRequest_eq e config fd (d.payload.take maxMesg) d.source
      rw [hlog]
      apply (logAll_meets log).bind
      intro _ _
      rcases reaction_cases config.services (d.payload.take maxMesg) d.source with
        hr|⟨status,hs,hr⟩|⟨-,hr⟩|⟨-,-,hr⟩
      · rw [hr]
        trivial
      · rw [hr,received_rejected e fd _ hs]
        exact (sendStatus_meets e _ fd _).bind fun _ _ => trivial
      · rw [hr]
        trivial
      · rw [hr]
        trivial

/-- The reaction to every datagram, and no read beyond the received bytes. -/
theorem datagram_reaction (e : Endian) (g : WeightGlobals) (config : LbcdConfig)
    (cache : UserCache) (fd : Fd) :
    (∃ log : Option Datagram → List Message,
      serveOne e g config cache fd=
        ssys (.recvfrom fd) >>= fun got => logAll (log got) >>= fun _ =>
          react e g config cache fd (reactionTo config.services got)) ∧
    ∀ (o : Oracle Server),∀ ev∈(requestRecv e config fd).trace o,
      ∀ i,ev.call≠.sys (.fault (.overread i)) :=
  ⟨serveOne_eq e g config cache fd,
    fun o ev hev i => (requestRecv_meets e config fd).trace o ev hev (.overread i)⟩

end Lbcd
