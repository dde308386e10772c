import Mathlib.Logic.Relation
import Lbcd.Increments
import Lbcd.Sentinel

namespace Lbcd

open Interaction CText ByteOrder

/-- What a user asks lbcdclient for. -/
structure Asking where
  protocol : ℕ
  services : List CStr

namespace Asking

/-- The queries that the client sends. -/
def Valid (q : Asking) : Prop := Query q.protocol q.services

def packet (q : Asking) : List UInt8 := queryPacket q.protocol q.services

def datagram (q : Asking) (addr : SockAddr) : Datagram := ⟨q.packet,addr⟩

/-- The request that the server makes of it. -/
def request (q : Asking) (addr : SockAddr) : Request :=
  ⟨addr,UInt16.ofNat q.protocol,0,1,q.services⟩

end Asking

/-- lbcdclient at one address. While it waits its socket is connected to a peer. -/
inductive Client where
  | idle
  | refused (error : QueryError)
  | waiting (peer : SockAddr) (q : Asking)
  | timedOut (q : Asking)
  | finished (q : Asking) (outcome : Except QueryError QueryReply)

/-- A daemon, its clients and the datagrams on their way to it and to other addresses.
Whatever was sent may arrive any number of times, in any order, or never. -/
structure Traffic where
  daemon : Prog Server Unit
  seen : List (Event Server)
  queries : Set Datagram
  replies : Set (SockAddr × Datagram)
  clients : SockAddr → Client

namespace Traffic

def initial (e : Endian) (g : WeightGlobals) (config : LbcdConfig) : Traffic :=
  ⟨handleRequests e g config,[],∅,∅,fun _ => .idle⟩

def setClient (s : Traffic) (addr : SockAddr) (c : Client) : Traffic :=
  { s with clients := Function.update s.clients addr c }

/-- A wait gives one of its descriptors and a receive a datagram that was sent, if they do
not fail. -/
def Arrives (queries : Set Datagram) : (c : ServerCall) → c.Reply → Prop
  | .sys (.networkWaitAny fds),.ready fd => fd∈fds
  | .sys (.recvfrom _),some d => d∈queries
  | _,_ => True

/-- What a call puts on the network, from one of the daemon's addresses. -/
def emitted (source : SockAddr) : (c : ServerCall) → c.Reply → Set (SockAddr × Datagram)
  | .sys (.sendto _ packet addr),some _ => {(addr,⟨packet,source⟩)}
  | _,_ => ∅

def advance (s : Traffic) (source : SockAddr) (c : ServerCall) (k : c.Reply → Prog Server Unit)
    (r : c.Reply) : Traffic :=
  { s with
    daemon := k r
    seen := s.seen++[⟨c,some r⟩]
    replies := s.replies ∪ emitted source c r }

/-- The client's recv. -/
def recv (d : Datagram) : List UInt8 := d.payload.take 256

/-- One step of anybody. Nothing but lbcdclient sends to the daemon from the clients'
addresses, and nothing but the daemon sends from its own; apart from that anything may come
to the daemon and to the clients. A client gets what its peer has sent, since its socket is
connected. -/
inductive Step (e : Endian) (g : WeightGlobals) (ours server : SockAddr → Prop) :
    Traffic → Traffic → Prop where
  | ask (s : Traffic) (addr peer : SockAddr) (q : Asking) (packet : List UInt8) (ho : ours addr)
      (hv : server peer) (hw : ∀ peer' q',s.clients addr≠.waiting peer' q')
      (hs : sendQuery q.protocol (q.services.map CStr.bytes)=.ok packet) :
      Step e g ours server s
        { s.setClient addr (.waiting peer q) with queries := insert ⟨packet,addr⟩ s.queries }
  | refuse (s : Traffic) (addr : SockAddr) (q : Asking) (error : QueryError) (ho : ours addr)
      (hw : ∀ peer' q',s.clients addr≠.waiting peer' q')
      (hs : sendQuery q.protocol (q.services.map CStr.bytes)=.error error) :
      Step e g ours server s (s.setClient addr (.refused error))
  | stray (s : Traffic) (d : Datagram) (ho : ¬ours d.source) :
      Step e g ours server s { s with queries := insert d s.queries }
  | forged (s : Traffic) (addr : SockAddr) (d : Datagram) (hv : ¬server d.source) :
      Step e g ours server s { s with replies := insert (addr,d) s.replies }
  | serve (s : Traffic) (source : SockAddr) (c : ServerCall) (k : c.Reply → Prog Server Unit)
      (r : c.Reply) (hv : server source) (hc : s.daemon=.call c k) (hp : Possible e g c r)
      (ha : Arrives s.queries c r) : Step e g ours server s (s.advance source c k r)
  | read (s : Traffic) (addr : SockAddr) (q : Asking) (d : Datagram)
      (hw : s.clients addr=.waiting d.source q) (hr : (addr,d)∈s.replies) :
      Step e g ours server s (s.setClient addr (.finished q (readReply (recv d))))
  | alarm (s : Traffic) (addr peer : SockAddr) (q : Asking)
      (hw : s.clients addr=.waiting peer q) :
      Step e g ours server s (s.setClient addr (.timedOut q))

/-- Any order of any number of steps. -/
def Reaches (e : Endian) (g : WeightGlobals) (ours server : SockAddr → Prop) :
    Traffic → Traffic → Prop :=
  Relation.ReflTransGen (Step e g ours server)

end Traffic

/-- An outcome is the daemon's answer to a query that it received: the values measured after
that, or an error where a service is not allowed. -/
def AnswerTo (e : Endian) (g : WeightGlobals) (services : List CStr) (h : List (Event Server))
    (addr : SockAddr) (q : Asking) (outcome : Except QueryError QueryReply) : Prop :=
  ∃ before fd mid rest,
    h=before++(⟨.sys (.recvfrom fd),some (some (q.datagram addr))⟩ : Event Server) :: (mid++rest) ∧
    (((∀ name∈q.services,Allowed services name) ∧
        ∃ lb,Packed e g q.services (replyHead e (q.request addr)) mid lb ∧
          outcome=.ok (inHostOrder e q.services.length lb)) ∨
      ((∃ name∈q.services,¬Allowed services name) ∧
        outcome=.error (.fromServer "generic error")))

/-- The client sends nothing but queries that it can make. -/
theorem sendQuery_valid {q : Asking} {packet : List UInt8}
    (h : sendQuery q.protocol (q.services.map CStr.bytes)=.ok packet) :
    q.Valid ∧ packet=q.packet := by
  have hvalid : q.Valid := by
    unfold sendQuery at h
    split_ifs at h with hp h2 h5 h31
    have hshort : ∀ s∈q.services,s.bytes.length ≤ 31 := by
      intro s hs
      by_contra hlong
      apply h31
      apply List.any_eq_true.mpr
      exact ⟨s.bytes,List.mem_map_of_mem hs,decide_eq_true (by omega)⟩
    rw [List.length_map] at h5
    by_cases hv : q.protocol=2
    · left
      refine ⟨hv,?_⟩
      by_contra hn
      exact h2 ⟨hv,fun he => hn (List.map_eq_nil_iff.mp he)⟩
    · right
      refine ⟨?_,by omega,hshort⟩
      by_contra hn
      exact hp ⟨hv,hn⟩
  refine ⟨hvalid,?_⟩
  have hsend := sendQuery_eq hvalid
  rw [h] at hsend
  exact Except.ok.inj hsend

/-- The packet that answers a query is read as its outcome. -/
theorem readReply_answers {e : Endian} {g : WeightGlobals} {services : List CStr}
    {tr : List (Event Server)} {packet : List UInt8} {addr dest : SockAddr} {q : Asking}
    (hq : q.Valid)
    (ha : Answers e g tr packet dest (reaction services (q.packet.take 2048) addr)) :
    ((∀ name∈q.services,Allowed services name) ∧
        ∃ lb,Packed e g q.services (replyHead e (q.request addr)) tr lb ∧
          readReply packet=.ok (inHostOrder e q.services.length lb)) ∨
      ((∃ name∈q.services,¬Allowed services name) ∧
        readReply packet=.error (.fromServer "generic error")) := by
  have hlen : q.packet.length=8+32*q.services.length := queryPacket_length _ _
  obtain ⟨h5,-⟩ := hq.bounds
  have hreaction := queryPacket_reaction hq.packable services addr
  rw [List.take_of_length_le (by omega)] at ha
  change reaction services q.packet addr=_ at hreaction
  rw [hreaction] at ha
  by_cases hall : ∀ name∈q.services,Allowed services name
  · left
    rw [if_pos hall] at ha
    obtain ⟨lb,hp,hpacked⟩ := ha.1.reply
    refine ⟨hall,lb,hpacked,?_⟩
    rw [hp]
    refine readReply_packed h5 ?_ hpacked
    rcases hq with ⟨h2,hnil⟩|⟨h3,-⟩
    · right
      rw [h2]
      exact ⟨rfl,hnil⟩
    · left
      rw [h3]
      rfl
  · right
    rw [if_neg hall] at ha
    obtain ⟨name,hname⟩ := not_forall.mp hall
    refine ⟨⟨name,Classical.not_imp.mp hname⟩,?_⟩
    rw [ha.1]
    exact readReply_error _ _ (by decide)

/-- The daemon's packets are short enough for the client's buffer. -/
theorem Answers.short {e : Endian} {g : WeightGlobals} {tr : List (Event Server)}
    {packet : List UInt8} {addr : SockAddr} {r : Reaction} (h : Answers e g tr packet addr r) :
    packet.length ≤ 84 := by
  cases r with
  | silent => exact h.elim
  | error request status =>
    rw [h.1]
    exact Nat.le_add_left 8 76
  | serve request =>
    have hl := h.1.length
    have h5 : request.services.length ≤ 5 := h.1.count
    omega

namespace Traffic

/-- What holds of a daemon and its clients at all times. -/
structure Consistent (e : Endian) (g : WeightGlobals) (config : LbcdConfig)
    (ours server : SockAddr → Prop) (s : Traffic) : Prop where
  daemon : Run (records e g) [] (handleRequests e g config) s.seen s.daemon
  received : ∀ fd d,(⟨.sys (.recvfrom fd),some (some d)⟩ : Event Server)∈s.seen → d∈s.queries
  queries : ∀ d∈s.queries,ours d.source → ∃ q : Asking,q.Valid ∧ d.payload=q.packet
  replies : ∀ addr d,(addr,d)∈s.replies → server d.source → ∃ h fd ev rest,
    s.seen=h++ev :: rest ∧ Replying e g config.services h fd d.payload addr
  waiting : ∀ addr peer q,s.clients addr=.waiting peer q →
    ours addr ∧ server peer ∧ q.Valid ∧ q.datagram addr∈s.queries
  finished : ∀ addr q outcome,s.clients addr=.finished q outcome →
    ours addr ∧ q.Valid ∧ q.datagram addr∈s.queries ∧
      ∃ d,(addr,d)∈s.replies ∧ server d.source ∧ outcome=readReply (recv d)

section

variable {e : Endian} {g : WeightGlobals} {config : LbcdConfig} {ours server : SockAddr → Prop}

theorem initial_consistent : (initial e g config).Consistent e g config ours server where
  daemon := .refl [] _
  received _ _ h := absurd h List.not_mem_nil
  queries _ h := absurd h (Set.notMem_empty _)
  replies _ _ h := absurd h (Set.notMem_empty _)
  waiting _ _ _ h := by cases h
  finished _ _ _ h := by cases h

/-- More queries under way and one client with another state. -/
theorem Consistent.setClient {s : Traffic} (h : s.Consistent e g config ours server)
    {queries : Set Datagram} (hsub : s.queries⊆queries)
    (hqueries : ∀ d∈queries,ours d.source → ∃ q : Asking,q.Valid ∧ d.payload=q.packet)
    {addr : SockAddr} {c : Client}
    (hw : ∀ peer q,c=.waiting peer q →
      ours addr ∧ server peer ∧ q.Valid ∧ q.datagram addr∈queries)
    (hf : ∀ q outcome,c=.finished q outcome →
      ours addr ∧ q.Valid ∧ q.datagram addr∈queries ∧
        ∃ d,(addr,d)∈s.replies ∧ server d.source ∧ outcome=readReply (recv d)) :
    Consistent e g config ours server { s.setClient addr c with queries := queries } where
  daemon := h.daemon
  received fd d hm := hsub (h.received fd d hm)
  queries := hqueries
  replies := h.replies
  waiting addr' peer q hc := by
    change Function.update s.clients addr c addr'=_ at hc
    by_cases ha : addr'=addr
    · subst ha
      rw [Function.update_self] at hc
      exact hw peer q hc
    · rw [Function.update_of_ne ha] at hc
      obtain ⟨ho,hv,hq,hm⟩ := h.waiting addr' peer q hc
      exact ⟨ho,hv,hq,hsub hm⟩
  finished addr' q outcome hc := by
    change Function.update s.clients addr c addr'=_ at hc
    by_cases ha : addr'=addr
    · subst ha
      rw [Function.update_self] at hc
      exact hf q outcome hc
    · rw [Function.update_of_ne ha] at hc
      obtain ⟨ho,hq,hm,hp⟩ := h.finished addr' q outcome hc
      exact ⟨ho,hq,hsub hm,hp⟩

/-- A call of the daemon with its reply. -/
theorem Consistent.advance {s : Traffic} (h : s.Consistent e g config ours server)
    (source : SockAddr) {c : ServerCall} {k : c.Reply → Prog Server Unit} {r : c.Reply}
    (hc : s.daemon=.call c k) (hp : Possible e g c r) (ha : Arrives s.queries c r) :
    (s.advance source c k r).Consistent e g config ours server where
  daemon := by
    have hrun := h.daemon
    rw [hc] at hrun
    exact hrun.trans (.step ⟨hp,rfl⟩ (.refl _ _))
  received fd d hm := by
    rcases List.mem_append.mp hm with hm|hm
    · exact h.received fd d hm
    · cases List.mem_singleton.mp hm
      exact ha
  queries := h.queries
  replies addr d hm hv := by
    rcases hm with hm|hm
    · obtain ⟨h0,fd,ev,rest,hseen,hreplying⟩ := h.replies addr d hm hv
      refine ⟨h0,fd,ev,rest++[⟨c,some r⟩],?_,hreplying⟩
      change s.seen++_=_
      rw [hseen,List.append_assoc,List.cons_append]
    · have hsafe := (handleRequests_safe e g config).run (hc ▸ h.daemon)
      cases c with
      | sys c =>
        cases c with
        | sendto fd packet' addr' =>
          cases r with
          | none => exact absurd hm (Set.notMem_empty _)
          | some n =>
            cases hm
            exact ⟨s.seen,fd,_,[],rfl,hsafe.1⟩
        | _ => exact absurd hm (Set.notMem_empty _)
      | _ => exact absurd hm (Set.notMem_empty _)
  waiting := h.waiting
  finished addr q outcome hf := by
    obtain ⟨ho,hq,hm,d,hp,hr⟩ := h.finished addr q outcome hf
    exact ⟨ho,hq,hm,d,Or.inl hp,hr⟩

theorem Consistent.step {s t : Traffic} (h : s.Consistent e g config ours server)
    (hs : Step e g ours server s t) : t.Consistent e g config ours server := by
  cases hs with
  | ask addr peer q packet ho hv hw hs =>
    obtain ⟨hq,rfl⟩ := sendQuery_valid hs
    refine h.setClient (Set.subset_insert _ _) ?_ ?_ ?_
    · intro d hd hod
      rcases hd with rfl|hd
      · exact ⟨q,hq,rfl⟩
      · exact h.queries d hd hod
    · intro peer' q' hc
      cases hc
      exact ⟨ho,hv,hq,Set.mem_insert _ _⟩
    · intro q' outcome hc
      cases hc
  | refuse addr q error ho hw hs =>
    refine h.setClient (Set.Subset.refl _) h.queries ?_ ?_
    · intro peer' q' hc
      cases hc
    · intro q' outcome hc
      cases hc
  | stray d ho =>
    refine { h with received := ?_, queries := ?_, waiting := ?_, finished := ?_ }
    · intro fd d' hm
      exact Set.mem_insert_of_mem d (h.received fd d' hm)
    · intro d' hd hod
      rcases hd with rfl|hd
      · exact absurd hod ho
      · exact h.queries d' hd hod
    · intro addr peer q hc
      obtain ⟨ho,hv,hq,hm⟩ := h.waiting addr peer q hc
      exact ⟨ho,hv,hq,Set.mem_insert_of_mem d hm⟩
    · intro addr q outcome hc
      obtain ⟨ho,hq,hm,hp⟩ := h.finished addr q outcome hc
      exact ⟨ho,hq,Set.mem_insert_of_mem d hm,hp⟩
  | forged addr d hv =>
    refine { h with replies := ?_, finished := ?_ }
    · intro addr' d' hm hv'
      rcases hm with hm|hm
      · cases hm
        exact absurd hv' hv
      · exact h.replies addr' d' hm hv'
    · intro addr' q outcome hc
      obtain ⟨ho,hq,hm,d',hp,hr⟩ := h.finished addr' q outcome hc
      exact ⟨ho,hq,hm,d',Set.mem_insert_of_mem _ hp,hr⟩
  | serve source c k r hv hc hp ha => exact h.advance source hc hp ha
  | read addr q d hw hr =>
    obtain ⟨ho,hv,hq,hm⟩ := h.waiting addr d.source q hw
    refine h.setClient (Set.Subset.refl _) h.queries ?_ ?_
    · intro peer' q' hc
      cases hc
    · intro q' outcome hc
      cases hc
      exact ⟨ho,hq,hm,d,hr,hv,rfl⟩
  | alarm addr peer q hw =>
    refine h.setClient (Set.Subset.refl _) h.queries ?_ ?_
    · intro peer' q' hc
      cases hc
    · intro q' outcome hc
      cases hc

theorem Reaches.consistent {s t : Traffic} (h : s.Consistent e g config ours server)
    (hr : Reaches e g ours server s t) : t.Consistent e g config ours server := by
  induction hr with
  | refl => exact h
  | tail _ hs ih => exact ih.step hs

/-- What was sent to a client stays on its way. -/
theorem Reaches.replies {s t : Traffic} (hr : Reaches e g ours server s t) :
    s.replies⊆t.replies := by
  induction hr with
  | refl => exact Set.Subset.refl _
  | tail _ hs ih =>
    apply ih.trans
    cases hs with
    | forged addr d hv => exact Set.subset_insert _ _
    | serve source c k r hv hc hp ha => exact Set.subset_union_left
    | _ => exact Set.Subset.refl _

/-- A datagram on its way from the daemon to a client answers a query from that address. -/
theorem Consistent.answer {s : Traffic} (h : s.Consistent e g config ours server)
    {addr : SockAddr} {d : Datagram} (ho : ours addr) (hm : (addr,d)∈s.replies)
    (hv : server d.source) :
    ∃ q : Asking,q.Valid ∧ q.datagram addr∈s.queries ∧
      AnswerTo e g config.services s.seen addr q (readReply (Traffic.recv d)) := by
  obtain ⟨h0,fd,ev,rest,hseen,before,d',mid,hh,-,haddr,hanswers,-⟩ := h.replies addr d hm hv
  have hevent : (⟨.sys (.recvfrom fd),some (some d')⟩ : Event Server)∈s.seen := by
    rw [hseen,hh]
    exact List.mem_append_left _ (List.mem_append_right _ List.mem_cons_self)
  have hd := h.received fd d' hevent
  obtain ⟨q,hq,hpayload⟩ := h.queries d' hd (haddr ▸ ho)
  have hdatagram : d'=q.datagram addr := by
    obtain ⟨payload,source⟩ := d'
    change payload=q.packet at hpayload
    change addr=source at haddr
    rw [hpayload,haddr]
    rfl
  subst hdatagram
  have hwhole : Traffic.recv d=d.payload :=
    List.take_of_length_le (hanswers.short.trans (by decide))
  rw [hwhole]
  refine ⟨q,hq,hd,before,fd,mid,ev :: rest,?_,readReply_answers hq hanswers⟩
  rw [hseen,hh]
  simp

end
end Traffic

/-- Where nothing happens but a query, the daemon sends its answer. -/
theorem react_answers {e : Endian} {g : WeightGlobals} (hd : HasProbe g defaultName)
    (config : LbcdConfig) (cache : UserCache) (fd : Fd) {q : Asking} (hq : q.Valid)
    (addr : SockAddr) :
    ∃ packet tr,Answers e g tr packet addr (reaction config.services q.packet addr) ∧
      Visits (served (oneDatagram (q.datagram addr)) e g) ()
        (react e g config cache fd (reaction config.services q.packet addr)) ()
        (ssys (.sendto fd packet addr)) := by
  have hw := oneDatagram_uneventful (q.datagram addr)
  have hreaction : reaction config.services q.packet addr=_ :=
    queryPacket_reaction hq.packable config.services addr
  rw [hreaction]
  split_ifs with hall
  · have hl : (q.request addr).services.length ≤ maxServices := hq.bounds.1
    obtain ⟨packet,k,hrun,hends⟩ := hw.handleLbRequest_sends (e := e) config cache fd hd
      (fun name _ => Host.hasProbe_all hd name) hl ()
    obtain ⟨tr,hrec,-⟩ := hrun.recorded (fun _ _ _ _ => oneDatagram_step (q.datagram addr)) []
    have hsafe := (handleLbRequest_sends hl).run hrec
    exact ⟨packet,tr,hsafe.1 fd packet addr rfl,k,hrun,hends⟩
  · refine ⟨_,[],⟨rfl,rfl⟩,?_⟩
    apply Visits.here
    intro sent
    dsimp only
    split_ifs
    · exact Ends.step (fun s => hw.sys s (c := .message .cannotSend) trivial ()) (ends_ret _ _)
    · exact ends_ret _ _

theorem serveOne_answers {e : Endian} {g : WeightGlobals} (hd : HasProbe g defaultName)
    (config : LbcdConfig) (cache : UserCache) (fd : Fd) {q : Asking} (hq : q.Valid)
    (addr : SockAddr) :
    ∃ packet tr,Answers e g tr packet addr (reaction config.services (q.packet.take 2048) addr) ∧
      Visits (served (oneDatagram (q.datagram addr)) e g) () (serveOne e g config cache fd) ()
        (ssys (.sendto fd packet addr)) := by
  have hw := oneDatagram_uneventful (q.datagram addr)
  have hlen : q.packet.length=8+32*q.services.length := queryPacket_length _ _
  obtain ⟨h5,-⟩ := hq.bounds
  have htake : q.packet.take 2048=q.packet := List.take_of_length_le (by omega)
  have hreact : reactionTo config.services (some (q.datagram addr))=
      reaction config.services q.packet addr :=
    congrArg (reaction config.services · addr) htake
  obtain ⟨packet,tr,hanswers,hvisits⟩ := react_answers (e := e) hd config cache fd hq addr
  rw [htake]
  refine ⟨packet,tr,hanswers,?_⟩
  obtain ⟨log,hlog⟩ := serveOne_eq e g config cache fd
  rw [hlog]
  have hrecv : (served (oneDatagram (q.datagram addr)) e g).step () (.sys (.recvfrom fd))
      (some (q.datagram addr)) () := .step rfl (.refl () _)
  apply Visits.step hrecv
  dsimp only [Prog.bind]
  rw [hreact]
  exact hvisits.after ((hw.logAll_run _ ()).bind _)

/-- Calls other than the wait of the main loop. -/
def Unwaiting : ServerCall → Prop
  | .sys (.networkWaitAny _) => False
  | _ => True

theorem serveOne_unwaiting (e : Endian) (g : WeightGlobals) (config : LbcdConfig)
    (cache : UserCache) (fd : Fd) :
    (serveOne e g config cache fd).Meets Unwaiting fun _ => True := by
  obtain ⟨log,hlog⟩ := serveOne_eq e g config cache fd
  rw [hlog]
  refine ⟨trivial,fun got => ?_⟩
  obtain ⟨-,hl⟩ := servedNames_allowed config.services got
  have hall := (logAll_handling g (servedNames (reactionTo config.services got)) (log got)).bind
    fun _ _ => react_handling e g config cache fd (reactionTo config.services got) hl
  apply hall.mono
  · intro c hc
    rcases hc with hc|⟨c',rfl,hc⟩
    · have hb := hc.building
      cases c with
      | sys c =>
        cases c with
        | networkWaitAny fds => exact hb.elim
        | _ => trivial
      | _ => trivial
    · cases c' with
      | networkWaitAny fds => exact hc.elim
      | _ => trivial
  · intro _ _
    trivial

namespace Traffic

section

variable {e : Endian} {g : WeightGlobals} {config : LbcdConfig} {ours server : SockAddr → Prop}

/-- The daemon goes on by itself while the network holds a datagram. -/
theorem reaches_run (ours : SockAddr → Prop) {source : SockAddr} (hv : server source) {α : Type}
    {f : α → Prog Server Unit} {s : Traffic} {d : Datagram} (hd : d∈s.queries) {p q : Prog Server α}
    (hp : p.Meets Unwaiting fun _ => True) {u u' : Unit}
    (hr : Run (served (oneDatagram d) e g) u p u' q) (hs : s.daemon=p >>= f) :
    ∃ t,Reaches e g ours server s t ∧ t.daemon=q >>= f ∧ t.clients=s.clients ∧ t.queries=s.queries ∧
      s.replies⊆t.replies ∧ q.Meets Unwaiting fun _ => True := by
  induction hr generalizing s with
  | refl _ p => exact ⟨s,.refl,hs,rfl,rfl,Set.Subset.refl _,hp⟩
  | @step _ _ _ c k r q hstep rest ih =>
    obtain ⟨hpossible,hrecv⟩ := oneDatagram_step d hstep
    have harrives : Arrives s.queries c r := by
      cases c with
      | sys c =>
        cases c with
        | networkWaitAny fds => exact hp.1.elim
        | recvfrom fd =>
          have hr : r=some d := hrecv
          rw [hr]
          exact hd
        | _ => trivial
      | _ => trivial
    obtain ⟨t,ht,htd,htc,htq,htr,hleft⟩ :=
      ih (s := s.advance source c (fun r => k r >>= f) r) hd (hp.2 r) rfl
    exact ⟨t,.head (.serve s source c _ r hv hs hpossible harrives) ht,htd,htc,htq,
      Set.subset_union_left.trans htr,hleft⟩

/-- A call of the server's own code can get any reply. -/
theorem calm_possible (e : Endian) (g : WeightGlobals) {c : SysCall} (hc : Calm c) (r : c.Reply) :
    Possible e g (.sys c) r :=
  (oneDatagram_step ⟨[],[]⟩ ((oneDatagram_uneventful ⟨[],[]⟩).sys () hc r)).1

/-- A turn of the loop begins. -/
theorem reaches_turn (ours : SockAddr → Prop) {source : SockAddr} (hv : server source)
    {s : Traffic} {fds : List Fd} {fd : Fd} (hfd : fd∈fds) {fuel : ℕ} {cache : UserCache}
    {rest : Unit → Prog Server Unit}
    (hs : s.daemon=serveLoop e g config fds (fuel+1) cache >>= rest) :
    ∃ t,Reaches e g ours server s t ∧
      t.daemon=serveOne e g config cache fd >>= (fun cache' =>
        serveLoop e g config fds fuel cache' >>= rest) ∧
      t.clients=s.clients ∧ t.queries=s.queries := by
  obtain ⟨k,hk,hfalse⟩ : ∃ k : Bool → Prog Server Unit,
      s.daemon=.call (.sys .exitSignaled) k ∧ ∃ k' : WaitAny → Prog Server Unit,
        k false=.call (.sys (.networkWaitAny fds)) k' ∧
        k' (.ready fd)=(serveOne e g config cache fd >>= fun cache' =>
          serveLoop e g config fds fuel cache') >>= rest :=
    ⟨_,hs,_,rfl,rfl⟩
  obtain ⟨k',hk',hready⟩ := hfalse
  have hp : Possible e g (.sys .exitSignaled) false :=
    calm_possible e g (c := .exitSignaled) trivial false
  have hp' : Possible e g (.sys (.networkWaitAny fds)) (.ready fd) :=
    calm_possible e g (c := .networkWaitAny fds) trivial (.ready fd)
  let s1 : Traffic := s.advance source (.sys .exitSignaled) k false
  have h1 : Step e g ours server s s1 := .serve s source _ _ _ hv hk hp trivial
  have h2 : Step e g ours server s1
      (s1.advance source (.sys (.networkWaitAny fds)) k' (.ready fd)) :=
    .serve s1 source _ _ _ hv hk' hp' hfd
  refine ⟨_,.head h1 (.single h2),?_,rfl,rfl⟩
  change k' (.ready fd)=_
  rw [hready,bind_assoc]

/-- A daemon at the top of its loop can answer a client that waits, and go on. -/
theorem Consistent.answers_waiting (hd : HasProbe g defaultName) {s : Traffic}
    (hs : s.Consistent e g config ours server) {addr peer : SockAddr} {q : Asking}
    (hc : s.clients addr=.waiting peer q) {fds : List Fd} {fd : Fd} (hfd : fd∈fds) {fuel : ℕ}
    {cache : UserCache} {rest : Unit → Prog Server Unit}
    (hdaemon : s.daemon=serveLoop e g config fds (fuel+1) cache >>= rest) :
    ∃ t packet tr,Reaches e g ours server s t ∧
      t.clients=Function.update s.clients addr (.finished q (readReply packet)) ∧
      (∃ cache',t.daemon=serveLoop e g config fds fuel cache' >>= rest) ∧
      Answers e g tr packet addr (reaction config.services (q.packet.take 2048) addr) := by
  obtain ⟨-,hv,hq,hm⟩ := hs.waiting addr peer q hc
  obtain ⟨packet,tr,hanswers,k,hsend,hends⟩ :=
    serveOne_answers (e := e) hd config cache fd hq addr
  let next : UserCache → Prog Server Unit := fun cache' =>
    serveLoop e g config fds fuel cache' >>= rest
  obtain ⟨s1,h1,hturn,hc1,hq1⟩ := reaches_turn ours hv hfd hdaemon
  -- it comes to the answer
  obtain ⟨t,ht,htd,htc,htq,-,hleft⟩ :=
    reaches_run ours hv (hq1 ▸ hm) (serveOne_unwaiting e g config cache fd) hsend hturn
  -- any number of bytes but -1 means that the packet was sent
  let sent : Option ℕ := some packet.length
  have hstep : Step e g ours server t (t.advance peer (.sys (.sendto fd packet addr)) _ sent) :=
    .serve t peer _ _ sent hv htd (calm_possible e g (c := .sendto fd packet addr) trivial sent)
      trivial
  have hm' : q.datagram addr∈
      (t.advance peer (.sys (.sendto fd packet addr)) (fun sent => k sent >>= next)
        sent).queries := by
    change _∈t.queries
    rwa [htq,hq1]
  obtain ⟨cache',hend⟩ := hends sent ()
  obtain ⟨u,hu,hud,huc,-,hur,-⟩ := reaches_run ours hv hm' (hleft.2 sent) hend rfl
  have hwaits : u.clients addr=.waiting peer q := by
    rw [huc]
    change t.clients addr=_
    rw [htc,hc1]
    exact hc
  have hthere : (addr,(⟨packet,peer⟩ : Datagram))∈u.replies := hur (Or.inr rfl)
  have hread : Step e g ours server u (u.setClient addr (.finished q
      (readReply (Traffic.recv ⟨packet,peer⟩)))) := .read u addr q ⟨packet,peer⟩ hwaits hthere
  have hwhole : Traffic.recv ⟨packet,peer⟩=packet :=
    List.take_of_length_le (hanswers.short.trans (by decide))
  rw [hwhole] at hread
  refine ⟨u.setClient addr (.finished q (readReply packet)),packet,tr,?_,?_,⟨cache',hud⟩,hanswers⟩
  · exact h1.trans ((ht.tail hstep).trans (hu.tail hread))
  · change Function.update u.clients addr _=_
    rw [huc]
    exact congrArg (Function.update · addr _) (htc.trans hc1)

/-- A daemon that has started, and one client's query. -/
theorem reaches_asked (e : Endian) (g : WeightGlobals) (config : LbcdConfig)
    (ours server : SockAddr → Prop) {addr peer : SockAddr} (ho : ours addr) (hv : server peer)
    {q : Asking} (hq : q.Valid) (fuel : ℕ) :
    ∃ s rest,Reaches e g ours server (initial e g config) s ∧ s.clients addr=.waiting peer q ∧
      s.daemon=serveLoop e g config [listenFdsStart] fuel .initial >>= rest := by
  let s : Traffic := { (initial e g config).setClient addr (.waiting peer q) with
    queries := insert (q.datagram addr) ∅ }
  have hask : Step e g ours server (initial e g config) s := by
    refine .ask _ addr peer q q.packet ho hv ?_ (sendQuery_eq hq)
    intro peer' q' hn
    cases hn
  have hstart : (startUp config).Meets Unwaiting fun _ => True := by
    apply (startUp_starting config).mono
    · intro c hc
      cases c with
      | sys c =>
        cases c with
        | networkWaitAny fds => exact hc.elim
        | _ => trivial
      | _ => trivial
    · intro _ _
      trivial
  have hw := oneDatagram_uneventful (q.datagram addr)
  obtain ⟨t,ht,htd,htc,-⟩ := reaches_run ours hv (s := s) (Set.mem_insert _ _) hstart
    (hw.startUp_run config ()) rfl
  have hp : Possible e g (.sys .fuel) fuel := calm_possible e g (c := .fuel) trivial fuel
  refine ⟨t.advance peer (.sys .fuel) _ fuel,_,(Relation.ReflTransGen.head hask ht).tail
    (.serve t peer _ _ _ hv htd hp trivial),?_,rfl⟩
  change t.clients addr=_
  rw [htc]
  exact Function.update_self addr _ _

end
end Traffic

/-- Whatever happened before, a daemon that takes another turn of its loop can serve any
client that waits: the client gets the values of a reply, or the error if a service is not
allowed, and the daemon is at the top of its loop again. -/
theorem waiting_client_served {e : Endian} {g : WeightGlobals} {config : LbcdConfig}
    {ours server : SockAddr → Prop} (hd : HasProbe g defaultName) {s : Traffic}
    (h : Traffic.Reaches e g ours server (Traffic.initial e g config) s) {addr peer : SockAddr}
    {q : Asking} (hc : s.clients addr=.waiting peer q) {fds : List Fd} {fd : Fd} (hfd : fd∈fds)
    {fuel : ℕ} {cache : UserCache} {rest : Unit → Prog Server Unit}
    (hdaemon : s.daemon=serveLoop e g config fds (fuel+1) cache >>= rest) :
    ∃ t outcome,Traffic.Reaches e g ours server s t ∧
      t.clients=Function.update s.clients addr (.finished q outcome) ∧
      (∃ cache',t.daemon=serveLoop e g config fds fuel cache' >>= rest) ∧
      (((∀ name∈q.services,Allowed config.services name) ∧
          ∃ lb,outcome=.ok (inHostOrder e q.services.length lb)) ∨
        ((∃ name∈q.services,¬Allowed config.services name) ∧
          outcome=.error (.fromServer "generic error"))) := by
  have hs := Traffic.Reaches.consistent Traffic.initial_consistent h
  obtain ⟨-,-,hq,-⟩ := hs.waiting addr peer q hc
  obtain ⟨t,packet,tr,ht,htc,htd,hanswers⟩ := hs.answers_waiting hd hc hfd hdaemon
  refine ⟨t,_,ht,htc,htd,?_⟩
  rcases readReply_answers hq hanswers with ⟨hall,lb,-,hr⟩|hr
  · exact Or.inl ⟨hall,lb,hr⟩
  · exact Or.inr hr

/-- Its second query would be served as well. -/
theorem waiting_client_served_v2 :
    ∃ g,∃ s : Traffic,∃ rest,HasProbe g defaultName ∧ s.clients [1]=.waiting [0] ⟨2,[]⟩ ∧
      s.daemon=serveLoop .little g ⟨[],false,4330,none,[],false,false⟩ [listenFdsStart] 2
        .initial >>= rest ∧
      ∃ t outcome,Traffic.Reaches .little g (·=[1]) (·=[0]) s t ∧
        t.clients=Function.update s.clients [1] (.finished ⟨2,[]⟩ outcome) ∧
        (∃ cache',t.daemon=serveLoop .little g ⟨[],false,4330,none,[],false,false⟩
          [listenFdsStart] 1 cache' >>= rest) := by
  let g : WeightGlobals := { WeightGlobals.initial with
    lbcdDefaultFunctab := some ⟨CStr.lit "load",some .load⟩ }
  have hd : HasProbe g defaultName := by
    unfold HasProbe
    decide
  have hq : Asking.Valid ⟨2,[]⟩ := Or.inl ⟨rfl,rfl⟩
  obtain ⟨s,rest,hs,hw,hdaemon⟩ := Traffic.reaches_asked .little g
    ⟨[],false,4330,none,[],false,false⟩ (·=[1]) (·=[0]) rfl rfl hq 2
  obtain ⟨t,outcome,ht,htc,htd,-⟩ := waiting_client_served hd hs hw List.mem_cons_self hdaemon
  exact ⟨g,s,rest,hd,hw,hdaemon,t,outcome,ht,htc,htd⟩

end Lbcd
