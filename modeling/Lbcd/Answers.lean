import Lbcd.Exchanges
import Lbcd.Footprint

namespace Lbcd

open Interaction CText ByteOrder

def receives : ServerCall → Bool
  | .sys (.recvfrom _) => true
  | _ => false

/-- Nothing goes over the server's sockets. -/
def Quiet (c : ServerCall) : Prop := receives c=false ∧ sentPacket c=none

/-- The number of packets that answer a datagram. -/
def Reaction.packets : Reaction → ℕ
  | .silent => 0
  | _ => 1

/-- Every datagram so far has its answer; the last one is looked at here. -/
def Settled (services : List CStr) (h : List (Event Server)) : Prop :=
  (∀ ev∈h,Quiet ev.call) ∨
    ∃ before fd got mid,
      h=before++(⟨.sys (.recvfrom fd),some got⟩ : Event Server) :: mid ∧
      (∀ ev∈mid,receives ev.call=false) ∧
      (mid.filterMap fun ev => sentPacket ev.call).length=(reactionTo services got).packets

/-- A packet with the reply to a served request. -/
structure Served (e : Endian) (g : WeightGlobals) (request : Request)
    (tr : List (Event Server)) (packet : List UInt8) : Prop where
  count : request.services.length ≤ maxServices
  room : (maxServices-request.services.length)*serviceSize ≤ replySize
  length : packet.length=44+8*request.services.length
  version : headerField packet 0=request.protocol
  status : headerField packet 6=LbcdStatus.ok.code
  reply : ∃ lb : LbcdReply,packet=(lb.bytes e).take (44+8*request.services.length) ∧
    Packed e g request.services ⟨htons e request.protocol,htons e request.id,
      htons e request.operation,htons e LbcdStatus.ok.code⟩ tr lb

/-- The packet that a reaction sends, and where to. -/
def Answers (e : Endian) (g : WeightGlobals) (tr : List (Event Server)) (packet : List UInt8)
    (addr : SockAddr) : Reaction → Prop
  | .silent => False
  | .error request status =>
    packet=be16 lbcdVersion++be16 request.id++be16 request.operation++be16 status.code ∧
      addr=request.addr
  | .serve request => Served e g request tr packet ∧ addr=request.addr

/-- A packet that is about to be sent is the only one since the last datagram, and answers
that datagram. -/
def Replying (e : Endian) (g : WeightGlobals) (services : List CStr) (h : List (Event Server))
    (fd : Fd) (packet : List UInt8) (addr : SockAddr) : Prop :=
  ∃ before d mid,
    h=before++(⟨.sys (.recvfrom fd),some (some d)⟩ : Event Server) :: mid ∧
    (∀ ev∈mid,Quiet ev.call) ∧ addr=d.source ∧
    Answers e g mid packet addr (reaction services (d.payload.take 2048) d.source) ∧
    headerField packet 2=headerField (d.payload.take 2048) 2 ∧
    headerField packet 4=headerField (d.payload.take 2048) 4 ∧
    2*packet.length ≤ 11*(d.payload.take 2048).length

/-- What holds when the server is about to make a call. Null pointers are met only where
the default service stands for no table entry. -/
def AboutTo (e : Endian) (g : WeightGlobals) (services : List CStr) (h : List (Event Server)) :
    ServerCall → Prop
  | .sys (.sendto fd packet addr) => Replying e g services h fd packet addr
  | .sys (.recvfrom _) => Settled services h
  | .sys .exitSignaled => Settled services h
  | .sys (.fault f) => f=.nullEntry ∨ f=.nullFunction
  | _ => True

/-- Calls that nothing is asked of. -/
def Plain : ServerCall → Prop
  | .sys (.write _ _) => False
  | .sys (.sendto _ _ _) => False
  | .sys (.recvfrom _) => False
  | .sys .exitSignaled => False
  | .sys (.fault _) => False
  | _ => True

theorem Plain.quiet {c : ServerCall} (h : Plain c) : Quiet c := by
  cases c with
  | sys c =>
    cases c with
    | sendto fd packet addr => exact h.elim
    | recvfrom fd => exact h.elim
    | _ => exact ⟨rfl,rfl⟩
  | _ => exact ⟨rfl,rfl⟩

theorem Plain.aboutTo {c : ServerCall} (hc : Plain c) (e : Endian) (g : WeightGlobals)
    (services : List CStr) (h : List (Event Server)) : AboutTo e g services h c := by
  cases c with
  | sys c =>
    cases c with
    | sendto fd packet addr => exact hc.elim
    | recvfrom fd => exact hc.elim
    | exitSignaled => exact hc.elim
    | fault f => exact hc.elim
    | _ => trivial
  | _ => trivial

theorem Building.quiet {c : ServerCall} (h : Building c) : Quiet c := by
  cases c with
  | sys c =>
    cases c with
    | recvfrom fd => exact h.elim
    | sendto fd packet addr => exact h.elim
    | _ => exact ⟨rfl,rfl⟩
  | _ => exact ⟨rfl,rfl⟩

theorem Building.aboutTo {c : ServerCall} (hc : Building c) (e : Endian) (g : WeightGlobals)
    (services : List CStr) (h : List (Event Server)) : AboutTo e g services h c := by
  cases c with
  | sys c =>
    cases c with
    | sendto fd packet addr => exact hc.elim
    | recvfrom fd => exact hc.elim
    | exitSignaled => exact hc.elim
    | fault f =>
      cases f with
      | nullEntry => exact Or.inl rfl
      | nullFunction => exact Or.inr rfl
      | _ => exact hc.elim
    | _ => trivial
  | _ => trivial

theorem Settled.append {services : List CStr} {h tr : List (Event Server)}
    (hs : Settled services h) (ht : ∀ ev∈tr,Quiet ev.call) : Settled services (h++tr) := by
  rcases hs with hs|⟨before,fd,got,mid,rfl,hr,hp⟩
  · exact Or.inl fun ev hev => (List.mem_append.mp hev).elim (hs ev) (ht ev)
  · refine Or.inr ⟨before,fd,got,mid++tr,by simp,fun ev hev => ?_,?_⟩
    · exact (List.mem_append.mp hev).elim (hr ev) fun hev => (ht ev hev).1
    · have hnil : (tr.filterMap fun ev => sentPacket ev.call)=[] :=
        List.filterMap_eq_nil_iff.mpr fun ev hev => (ht ev hev).2
      rw [List.filterMap_append,hnil,List.append_nil,hp]

/-- The fields of a packet that starts with four words in network order. -/
theorem headerField_words (v i o s : UInt16) (rest : List UInt8) :
    headerField (be16 v++be16 i++be16 o++be16 s++rest) 0=v ∧
      headerField (be16 v++be16 i++be16 o++be16 s++rest) 2=i ∧
      headerField (be16 v++be16 i++be16 o++be16 s++rest) 4=o ∧
      headerField (be16 v++be16 i++be16 o++be16 s++rest) 6=s := by
  refine ⟨?_,?_,?_,?_⟩
  · exact ofBe16_be16 v
  · exact ofBe16_be16 i
  · exact ofBe16_be16 o
  · exact ofBe16_be16 s

/-- A datagram that is not dropped has one length for its number of names. -/
theorem reaction_sized {services : List CStr} {raw : List UInt8} {addr : SockAddr}
    (h : reaction services raw addr≠.silent) :
    raw.length=8+32*(requestedNames raw).length ∧ (requestedNames raw).length ≤ 5 := by
  have hl : ¬raw.length < 8 := fun hl => h (if_pos hl)
  have hc : ¬(headerField raw 0=3 ∧ nameCount raw > 5) := by
    intro hc
    rw [reaction,if_neg hl,if_pos hc] at h
    exact h rfl
  have hs : ¬raw.length≠packetSize raw := by
    intro hs
    rw [reaction,if_neg hl,if_neg hc,if_pos hs] at h
    exact h rfl
  have hs := not_not.mp hs
  rw [requestedNames]
  by_cases h3 : headerField raw 0=3
  · have hn : nameCount raw ≤ 5 := by
      by_contra hn
      exact hc ⟨h3,by omega⟩
    rw [packetSize,if_pos h3] at hs
    rw [if_pos h3,List.length_map,List.length_range]
    omega
  · rw [packetSize,if_neg h3] at hs
    rw [if_neg h3,List.length_nil]
    omega

/-- The request of a reaction is the one the bytes hold. -/
theorem reaction_request (services : List CStr) (raw : List UInt8) (addr : SockAddr) :
    (∀ request,reaction services raw addr=.serve request → request=requestOf raw addr) ∧
      ∀ request status,reaction services raw addr=.error request status →
        request=requestOf raw addr := by
  refine ⟨fun request hr => (reaction_serve hr).1,fun request status hr => ?_⟩
  rcases reaction_cases services raw addr with h|⟨status,-,h⟩|⟨-,h⟩|⟨-,-,h⟩
  · cases h.symm.trans hr
  · cases h.symm.trans hr
    rfl
  · cases h.symm.trans hr
    rfl
  · cases h.symm.trans hr

/-- A request that is served asks for as many services as fit. -/
theorem served_count {services : List CStr} {got : Option Datagram} {request : Request}
    (hr : reactionTo services got=.serve request) : request.services.length ≤ maxServices := by
  cases got with
  | none => cases hr
  | some d =>
    have hsize := @reaction_sized services (d.payload.take 2048) d.source
    rw [show reaction services (d.payload.take 2048) d.source=_ from hr] at hsize
    rw [(reaction_serve hr).1]
    exact (hsize fun hn => by cases hn).2

theorem Packed.words {e : Endian} {g : WeightGlobals} {names : List CStr}
    {v i o s : UInt16} {tr : List (Event Server)} {lb : LbcdReply}
    (h : Packed e g names ⟨htons e v,htons e i,htons e o,htons e s⟩ tr lb) (n : ℕ) :
    ∃ rest,(lb.bytes e).take (44+8*n)=be16 v++be16 i++be16 o++be16 s++rest := by
  rw [bytes_take,LbcdReply.fixedBytes,h.header,LbcdHeader.bytes,store16_htons,
    store16_htons,store16_htons,store16_htons,List.append_assoc (be16 v++be16 i++be16 o++be16 s)]
  exact ⟨_,rfl⟩

theorem Answers.mono {e : Endian} {g : WeightGlobals} {tr tr' : List (Event Server)}
    {packet : List UInt8} {addr : SockAddr} {r : Reaction} (h : Answers e g tr packet addr r)
    (hs : tr⊆tr') : Answers e g tr' packet addr r := by
  cases r with
  | silent => exact h
  | error request status => exact h
  | serve request =>
    obtain ⟨hserved,haddr⟩ := h
    obtain ⟨lb,hp,hpacked⟩ := hserved.reply
    exact ⟨{ hserved with reply := ⟨lb,hp,hpacked.mono hs⟩ },haddr⟩

/-- An answer goes back where the datagram came from, echoes its id and op and is not much
longer. -/
theorem Answers.echo {e : Endian} {g : WeightGlobals} {services : List CStr}
    {tr : List (Event Server)} {packet raw : List UInt8} {addr source : SockAddr}
    (h : Answers e g tr packet addr (reaction services raw source)) :
    addr=source ∧ headerField packet 2=headerField raw 2 ∧
      headerField packet 4=headerField raw 4 ∧ 2*packet.length ≤ 11*raw.length := by
  obtain ⟨hserve,herror⟩ := reaction_request services raw source
  have hsize := @reaction_sized services raw source
  cases hr : reaction services raw source with
  | silent =>
    rw [hr] at h
    exact h.elim
  | error request status =>
    rw [hr] at h hsize
    obtain ⟨rfl,rfl⟩ := h
    obtain ⟨hlen,-⟩ := hsize fun hn => by cases hn
    cases herror request status hr
    obtain ⟨-,hid,hop,-⟩ := headerField_words lbcdVersion (headerField raw 2) (headerField raw 4)
      status.code []
    rw [List.append_nil] at hid hop
    refine ⟨rfl,hid,hop,?_⟩
    simp only [List.length_append,be16_length]
    omega
  | serve request =>
    rw [hr] at h hsize
    obtain ⟨hserved,rfl⟩ := h
    obtain ⟨hlen,hcount⟩ := hsize fun hn => by cases hn
    cases hserve request hr
    obtain ⟨lb,hp,hpacked⟩ := hserved.reply
    obtain ⟨rest,hw⟩ := hpacked.words (requestOf raw source).services.length
    obtain ⟨-,hid,hop,-⟩ := headerField_words (headerField raw 0) (headerField raw 2)
      (headerField raw 4) LbcdStatus.ok.code rest
    refine ⟨rfl,?_,?_,?_⟩
    · rw [hp,hw]
      exact hid
    · rw [hp,hw]
      exact hop
    · have hl := hserved.length
      change packet.length=44+8*(requestedNames raw).length at hl
      omega

theorem logAll_plain (log : List Message) : (logAll log).Meets Plain fun _ => True := by
  induction log with
  | nil => trivial
  | cons m ms ih => exact ⟨trivial,fun _ => ih⟩

/-- So many packets are sent and nothing is received. -/
def Sends (h h' : List (Event Server)) (n : ℕ) : Prop :=
  ∃ tr,h'=h++tr ∧ (∀ ev∈tr,receives ev.call=false) ∧
    (tr.filterMap fun ev => sentPacket ev.call).length=n

theorem Sends.after {h tr h' : List (Event Server)} {n : ℕ} (ht : ∀ ev∈tr,Quiet ev.call)
    (hs : Sends (h++tr) h' n) : Sends h h' n := by
  obtain ⟨tr',rfl,hr,hp⟩ := hs
  refine ⟨tr++tr',List.append_assoc h tr tr',?_,?_⟩
  · exact List.forall_mem_append.mpr ⟨fun ev hev => (ht ev hev).1,hr⟩
  · have hnil : (tr.filterMap fun ev => sentPacket ev.call)=[] :=
      List.filterMap_eq_nil_iff.mpr fun ev hev => (ht ev hev).2
    rw [List.filterMap_append,hnil,List.nil_append,hp]

/-- A reaction's packet may be sent after these events. -/
def MaySend (e : Endian) (g : WeightGlobals) (ok : List (Event Server) → ServerCall → Prop)
    (fd : Fd) (r : Reaction) (h : List (Event Server)) : Prop :=
  ∀ tr packet addr,(∀ ev∈tr,Quiet ev.call) → Answers e g tr packet addr r →
    ok (h++tr) (.sys (.sendto fd packet addr))

theorem MaySend.after {e : Endian} {g : WeightGlobals}
    {ok : List (Event Server) → ServerCall → Prop} {fd : Fd} {r : Reaction}
    {h tr : List (Event Server)}
    (hm : MaySend e g ok fd r h) (ht : ∀ ev∈tr,Quiet ev.call) :
    MaySend e g ok fd r (h++tr) := by
  intro tr' packet addr ht' ha
  rw [List.append_assoc]
  have hquiet : ∀ ev∈tr++tr',Quiet ev.call := List.forall_mem_append.mpr ⟨ht,ht'⟩
  exact hm (tr++tr') packet addr hquiet (ha.mono (List.subset_append_right tr tr'))

section Sending

variable {e : Endian} {g : WeightGlobals} {ok : List (Event Server) → ServerCall → Prop}
  (hplain : ∀ h c,Plain c → ok h c)

include hplain

theorem warn_safe {α : Type} {result : Option ℕ} {n : ℕ} (a : α) {h h' : List (Event Server)}
    (hs : Sends h h' 1) :
    (if result≠some n then message .cannotSend >>= fun _ => Prog.ret a else Prog.ret a :
      Prog Server α).Safe (records e g) ok (fun h'' _ => Sends h h'' 1) h' := by
  split_ifs
  · refine ⟨hplain _ _ trivial,?_⟩
    intro r h'' hstep
    obtain ⟨-,rfl⟩ := hstep
    obtain ⟨tr,rfl,hr,hp⟩ := hs
    refine ⟨tr++[⟨.sys (.message .cannotSend),some r⟩],List.append_assoc h tr _,?_,?_⟩
    · exact List.forall_mem_append.mpr ⟨hr,List.forall_mem_singleton.mpr rfl⟩
    · rw [List.filterMap_append,List.length_append,hp]
      rfl
  · exact hs

variable (hbuild : ∀ h c,Building c → ok h c)

include hbuild

theorem sendReply_safe (config : LbcdConfig) (cache : UserCache) {request : Request} (fd : Fd)
    (hl : request.services.length ≤ maxServices) {h : List (Event Server)}
    (hm : MaySend e g ok fd (.serve request) h) :
    (sendReply e g config cache request fd).Safe (records e g) ok
      (fun h' _ => Sends h h' 1) h := by
  rw [sendReply_eq e g config cache hl]
  refine ⟨hplain _ _ trivial,?_⟩
  intro reply h1 hstep
  obtain ⟨-,rfl⟩ := hstep
  refine (lbcdPackInfo_safe hbuild hl _ _ _ _ _).bind
    fun h' p hpack => ?_
  obtain ⟨tr,rfl,hbuild,hpacked⟩ := hpack
  obtain ⟨lb,cache'⟩ := p
  let before : List (Event Server) := [⟨.sys .stackReply,some reply⟩]++tr
  have hquiet : ∀ ev∈before,Quiet ev.call :=
    List.forall_mem_append.mpr
      ⟨List.forall_mem_singleton.mpr ⟨rfl,rfl⟩,fun ev hev => (hbuild ev hev).quiet⟩
  have hpacked := hpacked.mono (List.subset_append_right [⟨.sys .stackReply,some reply⟩] tr)
  have hroom : (maxServices-request.services.length)*serviceSize ≤ replySize :=
    (Nat.mul_le_mul_right _ (Nat.sub_le _ _)).trans (by decide)
  have hlen : ((lb.bytes e).take (44+8*request.services.length)).length=
      44+8*request.services.length := by
    have h5 : request.services.length ≤ 5 := hl
    rw [List.length_take,LbcdReply.bytes_length,replySize]
    omega
  obtain ⟨rest,hw⟩ := hpacked.words request.services.length
  obtain ⟨hv,-,-,hst⟩ := headerField_words request.protocol request.id request.operation
    LbcdStatus.ok.code rest
  rw [← hw] at hv hst
  have hserved : Served e g request before
      ((lb.bytes e).take (44+8*request.services.length)) :=
    ⟨hl,hroom,hlen,hv,hst,lb,rfl,hpacked⟩
  rw [List.append_assoc]
  refine ⟨hm before _ _ hquiet ⟨hserved,rfl⟩,?_⟩
  intro result h2 hstep
  obtain ⟨-,rfl⟩ := hstep
  apply warn_safe hplain
  apply Sends.after hquiet
  exact ⟨[_],rfl,List.forall_mem_singleton.mpr rfl,rfl⟩

theorem handleLbRequest_safe (config : LbcdConfig) (cache : UserCache) {request : Request}
    (fd : Fd) (hl : request.services.length ≤ maxServices) {h : List (Event Server)}
    (hm : MaySend e g ok fd (.serve request) h) :
    (handleLbRequest e g config cache request fd).Safe (records e g) ok
      (fun h' _ => Sends h h' 1) h := by
  rw [handleLbRequest]
  split_ifs with hlog
  · refine ⟨hplain _ _ trivial,?_⟩
    intro r h1 hstep
    obtain ⟨-,rfl⟩ := hstep
    have hquiet : ∀ ev∈[(⟨.sys (.message (.requestFrom request.protocol)),some r⟩ : Event Server)],
        Quiet ev.call := List.forall_mem_singleton.mpr ⟨rfl,rfl⟩
    exact (sendReply_safe hplain hbuild config cache fd hl (hm.after hquiet)).mono fun h' _ hs =>
      hs.after hquiet
  · exact sendReply_safe hplain hbuild config cache fd hl hm

end Sending

section Runs

variable {e : Endian} {g : WeightGlobals} {services : List CStr}

/-- Calls nothing is asked of leave a settled history settled. -/
theorem plain_safe {α : Type} {post : α → Prop} {p : Prog Server α} (hp : p.Meets Plain post)
    {h : List (Event Server)} (hs : Settled services h) :
    p.Safe (records e g) (AboutTo e g services) (fun h' a => Settled services h' ∧ post a) h := by
  refine hp.safe (fun h c _ hc => hc.aboutTo e g services h) ?_ hs
  intro h c r h' hinv hc hstep
  obtain ⟨-,rfl⟩ := hstep
  exact hinv.append (List.forall_mem_singleton.mpr hc.quiet)

/-- The events of calls nothing is asked of. -/
theorem plain_events {α : Type} {post : α → Prop} {p : Prog Server α} (hp : p.Meets Plain post)
    (h : List (Event Server)) :
    p.Safe (records e g) (AboutTo e g services)
      (fun h' a => (∃ tr,h'=h++tr ∧ ∀ ev∈tr,Quiet ev.call) ∧ post a) h := by
  have hkeep : ∀ h1 c r h2,(∃ tr,h1=h++tr ∧ ∀ ev∈tr,Quiet ev.call) → Plain c →
      (records e g).step h1 c r h2 → ∃ tr,h2=h++tr ∧ ∀ ev∈tr,Quiet ev.call := by
    intro h1 c r h2 hinv hc hstep
    obtain ⟨tr,rfl,htr⟩ := hinv
    obtain ⟨-,rfl⟩ := hstep
    have hlast : ∀ ev∈[(⟨c,some r⟩ : Event Server)],Quiet ev.call :=
      List.forall_mem_singleton.mpr hc.quiet
    exact ⟨tr++[⟨c,some r⟩],List.append_assoc h tr _,List.forall_mem_append.mpr ⟨htr,hlast⟩⟩
  exact hp.safe (fun h c _ hc => hc.aboutTo e g services h) hkeep ⟨[],by simp,by simp⟩

theorem react_safe (config : LbcdConfig) (cache : UserCache) (fd : Fd) {r : Reaction}
    (hl : ∀ request,r=.serve request → request.services.length ≤ maxServices)
    {h : List (Event Server)} (hm : MaySend e g (AboutTo e g services) fd r h) :
    (react e g config cache fd r).Safe (records e g) (AboutTo e g services)
      (fun h' _ => Sends h h' r.packets) h := by
  cases r with
  | silent => exact ⟨[],(List.append_nil h).symm,fun ev hev => (by cases hev),rfl⟩
  | error request status =>
    have hsend := hm [] _ _ (fun ev hev => by cases hev) ⟨rfl,rfl⟩
    rw [List.append_nil] at hsend
    refine ⟨hsend,?_⟩
    intro sent h1 hstep
    obtain ⟨-,rfl⟩ := hstep
    have hone : Sends h (h++[⟨.sys (.sendto fd (be16 lbcdVersion++be16 request.id++
        be16 request.operation++be16 status.code) request.addr),some sent⟩]) 1 :=
      ⟨[_],rfl,List.forall_mem_singleton.mpr rfl,rfl⟩
    exact warn_safe (fun h c hc => hc.aboutTo e g services h) cache hone
  | serve request =>
    exact handleLbRequest_safe (fun h c hc => hc.aboutTo e g services h)
      (fun h c hc => hc.aboutTo e g services h) config cache fd (hl request rfl) hm

theorem serveOne_safe (config : LbcdConfig) (cache : UserCache) (fd : Fd)
    {h : List (Event Server)} (hs : Settled config.services h) :
    (serveOne e g config cache fd).Safe (records e g) (AboutTo e g config.services)
      (fun h' _ => Settled config.services h') h := by
  obtain ⟨log,hlog⟩ := serveOne_eq e g config cache fd
  rw [hlog]
  refine ⟨hs,?_⟩
  intro got h1 hstep
  obtain ⟨-,rfl⟩ := hstep
  apply (plain_events (logAll_plain (log got)) _).bind
  intro h2 _ hev
  obtain ⟨⟨tr,rfl,hquiet⟩,-⟩ := hev
  have hl : ∀ request,reactionTo config.services got=.serve request →
      request.services.length ≤ maxServices := fun request hr => served_count hr
  have hm : MaySend e g (AboutTo e g config.services) fd (reactionTo config.services got)
      (h++[⟨.sys (.recvfrom fd),some got⟩]) := by
    intro tr packet addr ht ha
    cases got with
    | none => exact ha.elim
    | some d =>
      have hecho := ha.echo
      exact ⟨h,d,tr,by rw [List.append_assoc]; rfl,ht,hecho.1,ha,hecho.2⟩
  apply (react_safe config cache fd hl (hm.after hquiet)).mono
  intro h' _ hsent
  obtain ⟨tr',rfl,hr,hp⟩ := hsent.after hquiet
  exact Or.inr ⟨h,fd,got,tr',by rw [List.append_assoc]; rfl,hr,hp⟩

theorem serveLoop_safe (config : LbcdConfig) (fds : List Fd) (fuel : ℕ) (cache : UserCache)
    {h : List (Event Server)} (hs : Settled config.services h) :
    (serveLoop e g config fds fuel cache).Safe (records e g) (AboutTo e g config.services)
      (fun h' _ => Settled config.services h') h := by
  have one {h : List (Event Server)} (hs : Settled config.services h) (ev : Event Server)
      (hq : Quiet ev.call) : Settled config.services (h++[ev]) :=
    hs.append (List.forall_mem_singleton.mpr hq)
  induction fuel generalizing cache h with
  | zero => exact ⟨trivial,fun r => r.elim⟩
  | succ fuel ih =>
    refine ⟨hs,?_⟩
    intro exiting h1 hstep
    obtain ⟨-,rfl⟩ := hstep
    have hs1 := one hs ⟨.sys .exitSignaled,some exiting⟩ ⟨rfl,rfl⟩
    cases exiting with
    | true =>
      refine ⟨trivial,?_⟩
      intro r h2 hstep
      obtain ⟨-,rfl⟩ := hstep
      exact one hs1 _ ⟨rfl,rfl⟩
    | false =>
      refine ⟨trivial,?_⟩
      intro any h2 hstep
      obtain ⟨-,rfl⟩ := hstep
      have hs2 := one hs1 ⟨.sys (.networkWaitAny fds),some any⟩ ⟨rfl,rfl⟩
      cases any with
      | interrupted => exact ih cache hs2
      | failed => exact ⟨trivial,fun r => r.elim⟩
      | ready fd =>
        apply (serveOne_safe config cache fd hs2).bind
        intro h' cache' hs'
        exact ih cache' hs'

end Runs

theorem Starting.plain {config : LbcdConfig} {c : ServerCall} (h : Starting config c) :
    Plain c := by
  cases c with
  | sys c =>
    cases c with
    | write fd bs => exact h
    | sendto fd packet addr => exact h
    | recvfrom fd => exact h
    | exitSignaled => exact h
    | fault f => exact h
    | _ => trivial
  | _ => trivial

theorem starting_plain {α : Type} {config : LbcdConfig} {p : Prog Server α}
    (h : p.Meets (Starting config) fun _ => True) : p.Meets Plain fun _ => True :=
  h.mono (fun _ hc => hc.plain) fun _ h => h

theorem handleRequests_safe (e : Endian) (g : WeightGlobals) (config : LbcdConfig) :
    (handleRequests e g config).Safe (records e g) (AboutTo e g config.services)
      (fun _ _ => True) [] := by
  have start : Settled config.services [] := Or.inl fun ev hev => by cases hev
  have bounded : (ssys .fuel).Meets Plain fun _ => True := ⟨trivial,fun _ => trivial⟩
  rw [handleRequests]
  apply (plain_safe (starting_plain (startUp_starting config)) start).bind
  intro h fds hs
  apply (plain_safe bounded hs.1).bind
  intro h fuel hs
  apply (serveLoop_safe config fds fuel .initial hs.1).bind
  intro h _ hs
  apply (plain_safe (starting_plain (removePidFile_starting config)) hs).bind
  intro h _ hs
  apply (plain_safe (starting_plain (closeAll_starting config fds)) hs.1).mono
  intro _ _ _
  trivial

/-- In every run of the server every datagram is answered by at most one packet, which goes
back to its source and is as the protocol says, and nothing is out of bounds. -/
theorem one_reply_each (e : Endian) (g : WeightGlobals) (config : LbcdConfig)
    (hosts : ℕ → Oracle System) :
    let run := (handleRequests e g config).trace (Oracle.lower (implement e g) hosts)
    ∀ i : Fin run.length,AboutTo e g config.services (run.take i) run[i].call := by
  intro run i
  exact safe_records (handleRequests_safe e g config) hosts i

end Lbcd
