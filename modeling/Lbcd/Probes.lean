import Lbcd.Connections

namespace Lbcd

open Interaction CText ByteOrder

/-- A call with the reply it got. -/
def answered (c : SysCall) (r : c.Reply) : Event System := ⟨c,some r⟩

/-- A TCP connection was made. -/
def Connected (tr : List (Event System)) : Prop :=
  ∃ ai fd,answered (.networkConnect ai) (some fd)∈tr

/-- A connection was ready to be read within the time limit. -/
def Readable (tr : List (Event System)) : Prop :=
  ∃ fd timeout n,0 < n ∧ answered (.select fd timeout) n∈tr

/-- What was read made the buffer equal to the token. -/
def Banner (token : CStr) (tr : List (Event System)) : Prop :=
  ∃ fd block got,answered (.malloc (token.bytes.length+1)) (some block)∈tr ∧
    answered (.read fd token.bytes.length) (some got)∈tr ∧ got.val≠[] ∧
    CStr.ofBuffer (overlay got.val (block.val.set token.bytes.length 0))=token

/-- The query was written and the beginning of the answer accepted. -/
def HttpAnswered (tr : List (Event System)) : Prop :=
  (∃ fd n,(httpQuery.length : ℤ) ≤ n ∧ answered (.write fd httpQuery) n∈tr) ∧
  ∃ fd buf got,answered (.stackBuffer 17) buf∈tr ∧ answered (.read fd 16) (some got)∈tr ∧
    got.val≠[] ∧ httpAccepts (overlay got.val (buf.val.set 16 0))=true

/-- Payload of a received packet. -/
def packetOf : Event System → Option (List UInt8)
  | ⟨.recv _ _,some (some got)⟩ => some got.val
  | _ => none

/-- The state of getresponse after some packets, if none of them ended its loop. -/
def respFold (implcode reqcode : UInt8) : RespState → List (List UInt8) → RespStep
  | s,[] => .again s
  | s,pkt :: pkts =>
    match respStep implcode reqcode s pkt with
    | .again s => respFold implcode reqcode s pkts
    | r => r

/-- The time server was asked and its packets make up a whole response. -/
def PeersListed (n : ℕ) (tr : List (Event System)) : Prop :=
  (∃ fd addr port,answered (.connect fd addr port) true∈tr) ∧
  (∃ fd,answered (.send fd (reqPkt implXntpd reqMonGetlist)) true∈tr) ∧
  ∃ pkts,pkts.Sublist (tr.filterMap packetOf) ∧
    respFold implXntpd reqMonGetlist .start pkts=.done n

/-- The helper ran to its end and its first line holds the two numbers. -/
def HelperPrinted (w i : UInt32) (tr : List (Event System)) : Prop :=
  ∃ r wr pid line,answered .pipe (some (r,wr))∈tr ∧ answered .fork (.parent pid)∈tr ∧
    answered (.fdopen r) true∈tr ∧ answered (.waitpid pid) (.exited 0)∈tr ∧
    answered (.fgets r 128) (some line)∈tr ∧ scanTwo line.val=some (w,i)

section Growth

variable {tr tr' : List (Event System)} (h : tr.Sublist tr')
include h

theorem Connected.mono (hc : Connected tr) : Connected tr' := by
  obtain ⟨ai,fd,hm⟩ := hc
  exact ⟨ai,fd,h.subset hm⟩

theorem Readable.mono (hr : Readable tr) : Readable tr' := by
  obtain ⟨fd,timeout,n,hn,hm⟩ := hr
  exact ⟨fd,timeout,n,hn,h.subset hm⟩

theorem Banner.mono {token : CStr} (hb : Banner token tr) : Banner token tr' := by
  obtain ⟨fd,block,got,hm,hr,he⟩ := hb
  exact ⟨fd,block,got,h.subset hm,h.subset hr,he⟩

theorem HttpAnswered.mono (ha : HttpAnswered tr) : HttpAnswered tr' := by
  obtain ⟨⟨fd,n,hn,hw⟩,fd',buf,got,hb,hr,hgot⟩ := ha
  exact ⟨⟨fd,n,hn,h.subset hw⟩,fd',buf,got,h.subset hb,h.subset hr,hgot⟩

end Growth

theorem lbcdCheckReply_traced (sd : Fd) (timeout : ℤ) (token : CStr) :
    (lbcdCheckReply sd timeout (some token)).Traced fun tr v =>
      v=-1 ∨ (v=0 ∧ Readable tr ∧ Banner token tr) := by
  intro block
  cases block with
  | none => exact Or.inl rfl
  | some block =>
    intro n
    change Prog.Traced (if 0 < n then _ else _) _
    split_ifs with hn
    · intro got
      cases got with
      | none => exact Or.inl rfl
      | some got =>
        change Prog.Traced (if got.val=[] then _ else
          if CStr.ofBuffer (overlay got.val (block.val.set token.bytes.length 0))=token then _
          else _) _
        split_ifs with he ht
        · exact Or.inl rfl
        · right
          exact ⟨rfl,⟨sd,timeout,n,hn,List.mem_of_getElem? (i := 1) rfl⟩,
            ⟨sd,block,got,List.mem_of_getElem? (i := 0) rfl,
              List.mem_of_getElem? (i := 2) rfl,he,ht⟩⟩
        · exact Or.inl rfl
    · exact Or.inl rfl

/-- A descriptor, if there is one, is that of a connected socket. -/
def Joined (tr : List (Event System)) (r : Option Fd) : Prop := ∀ fd,r=some fd → Connected tr

theorem Joined.cons {tr : List (Event System)} {r : Option Fd} (h : Joined tr r)
    (ev : Event System) : Joined (ev :: tr) r :=
  fun fd hr => (h fd hr).mono (List.sublist_cons_self ev tr)

theorem tcpLink_traced (ai : Option (List AddrInfo)) : (tcpLink ai).Traced Joined := by
  cases ai with
  | none =>
    intro fd h
    cases h
  | some ai =>
    intro r fd h
    exact ⟨ai,fd,by rw [← h]; exact List.mem_cons_self⟩

theorem tcpFallback_traced (host : CStr) (port : ℤ) (ai : Option (List AddrInfo)) :
    (tcpFallback host port ai).Traced Joined := by
  rw [tcpFallback]
  split_ifs
  · exact Prog.traced_later (fun ev _ _ h => h.cons ev) tcpLink_traced
  · exact tcpLink_traced ai

theorem tcpConnect_traced (host : CStr) (protocol : Option CStr) (port : ℤ) :
    (tcpConnect host protocol port).Traced Joined := by
  cases protocol with
  | none => exact tcpFallback_traced host port none
  | some name => exact Prog.traced_later (fun ev _ _ h => h.cons ev) (tcpFallback_traced host port)

/-- A probe over TCP succeeds if a connection is made and what is said over it is good. -/
theorem tcpProbe_traced {exchange : Fd → Prog System ℤ} {good : List (Event System) → Prop}
    (hmono : ∀ {tr tr'},tr.Sublist tr' → good tr → good tr')
    (hx : ∀ sd,(exchange sd).Traced fun tr v => v=-1 ∨ (v=0 ∧ good tr)) (host : CStr)
    (protocol : Option CStr) (port : ℤ) :
    (tcpConnect host protocol port >>= afterConnect exchange).Traced fun tr v =>
      v=-1 ∨ (v=0 ∧ Connected tr ∧ good tr) := by
  apply (tcpConnect_traced host protocol port).bind
  intro tr sd hc
  cases sd with
  | none => exact Or.inl rfl
  | some sd =>
    have hconn := hc sd rfl
    apply (hx sd).bind
    intro tr' v hv closed
    rcases hv with hv|⟨hv,hgood⟩
    · exact Or.inl hv
    · right
      refine ⟨hv,hconn.mono (List.sublist_append_left tr _),hmono ?_ hgood⟩
      exact (List.sublist_append_left tr' _).trans (List.sublist_append_right tr _)

/-- What is written after the banner is not looked at. -/
theorem checkedWrite_traced (sd : Fd) (timeout : ℤ) (token : CStr) (bytes : List UInt8) :
    (lbcdCheckReply sd timeout (some token) >>= fun v => sys (.write sd bytes) >>= fun _ =>
      Prog.ret v).Traced fun tr v => v=-1 ∨ (v=0 ∧ Readable tr ∧ Banner token tr) := by
  apply (lbcdCheckReply_traced sd timeout token).bind
  intro tr v hv n
  rcases hv with hv|⟨hv,hr,hb⟩
  · exact Or.inl hv
  · right
    have hsub := List.sublist_append_left tr [answered (.write sd bytes) n]
    exact ⟨hv,hr.mono hsub,hb.mono hsub⟩

theorem tcpExchange_traced (replycheck : Option CStr) (timeout : ℤ) (sd : Fd) :
    (tcpExchange replycheck timeout sd).Traced fun tr v =>
      v=-1 ∨ (v=0 ∧ ∀ token,replycheck=some token → Readable tr ∧ Banner token tr) := by
  cases replycheck with
  | none =>
    right
    exact ⟨rfl,fun token h => by cases h⟩
  | some token =>
    apply (checkedWrite_traced sd timeout token _).mono
    intro tr v hv
    rcases hv with hv|⟨hv,hgood⟩
    · exact Or.inl hv
    · right
      refine ⟨hv,fun t ht => ?_⟩
      cases ht
      exact hgood

theorem probeTcp_traced (host service : Option CStr) (port : ℤ) (replycheck : Option CStr)
    (timeout : ℤ) :
    (probeTcp host service port replycheck timeout).Traced fun tr v =>
      v=-1 ∨ (v=0 ∧ Connected tr ∧
        ∀ token,replycheck=some token → Readable tr ∧ Banner token tr) := by
  rw [probeTcp_eq]
  apply tcpProbe_traced
  · intro tr tr' hsub hgood token ht
    exact ⟨(hgood token ht).1.mono hsub,(hgood token ht).2.mono hsub⟩
  · exact tcpExchange_traced replycheck timeout

theorem probeImap_traced (host : Option CStr) (timeout : ℤ) :
    (probeImap host timeout).Traced fun tr v =>
      v=-1 ∨ (v=0 ∧ Connected tr ∧ Readable tr ∧ Banner (CStr.lit "* OK") tr) := by
  rw [probeImap_eq]
  apply tcpProbe_traced
  · intro tr tr' hsub hgood
    exact ⟨hgood.1.mono hsub,hgood.2.mono hsub⟩
  · intro sd
    exact checkedWrite_traced sd timeout (CStr.lit "* OK") _

theorem httpExchange_traced (timeout : ℤ) (sd : Fd) :
    (httpExchange timeout sd).Traced fun tr v =>
      v=-1 ∨ (v=0 ∧ Readable tr ∧ HttpAnswered tr) := by
  intro buf n
  change Prog.Traced (if n < httpQuery.length then _ else _) _
  split_ifs with hn
  · exact Or.inl rfl
  · intro ready
    change Prog.Traced (if 0 < ready then _ else _) _
    split_ifs with hr
    · intro got
      cases got with
      | none => exact Or.inl rfl
      | some got =>
        change Prog.Traced (if got.val≠[] ∧
          httpAccepts (overlay got.val (buf.val.set 16 0))=true then _ else _) _
        split_ifs with ha
        · right
          exact ⟨rfl,⟨sd,timeout,ready,hr,List.mem_of_getElem? (i := 2) rfl⟩,
            ⟨sd,n,not_lt.mp hn,List.mem_of_getElem? (i := 1) rfl⟩,
            ⟨sd,buf,got,List.mem_of_getElem? (i := 0) rfl,
              List.mem_of_getElem? (i := 3) rfl,ha.1,ha.2⟩⟩
        · exact Or.inl rfl
    · exact Or.inl rfl

theorem probeHttp_traced (host : Option CStr) (timeout : ℤ) (portarg : Option CStr) :
    (probeHttp host timeout portarg).Traced fun tr v =>
      v=-1 ∨ (v=0 ∧ Connected tr ∧ Readable tr ∧ HttpAnswered tr) := by
  rw [probeHttp_eq]
  apply tcpProbe_traced
  · intro tr tr' hsub hgood
    exact ⟨hgood.1.mono hsub,hgood.2.mono hsub⟩
  · exact httpExchange_traced timeout

/-- A descriptor that is returned was connected to some address. -/
def Linked (tr : List (Event System)) (r : Option Fd) : Prop :=
  ∀ fd,r=some fd → ∃ fd addr p,answered (.connect fd addr p) true∈tr

theorem Linked.cons {tr : List (Event System)} {r : Option Fd} (ev : Event System)
    (h : Linked tr r) : Linked (ev :: tr) r := by
  intro fd hr
  obtain ⟨fd',addr,port,hmem⟩ := h fd hr
  exact ⟨fd',addr,port,List.mem_cons_of_mem _ hmem⟩

theorem udpLink_traced (sinPort : UInt16) (he : Option UInt32) :
    (udpLink sinPort he).Traced Linked := by
  cases he with
  | none =>
    intro fd h
    cases h
  | some he =>
    intro sd
    cases sd with
    | none =>
      intro fd h
      cases h
    | some sd =>
      intro connected
      cases connected with
      | true =>
        intro fd _
        exact ⟨sd,he,sinPort,by simp [answered]⟩
      | false =>
        intro _ fd h
        cases h

theorem udpResolve_traced (host : CStr) (port : UInt16) (se : Option UInt16) :
    (udpResolve host port se).Traced Linked := by
  have grows : ∀ ev tr r,Linked tr r → Linked (ev :: tr) r := fun ev _ _ h => h.cons ev
  apply Prog.traced_later grows
  intro _
  apply Prog.traced_later grows
  intro addr
  cases addr with
  | some a => exact Prog.traced_later grows fun he => udpLink_traced _ he
  | none => exact Prog.traced_later grows fun he => udpLink_traced _ he

theorem udpService_traced (host : CStr) (port : UInt16) (byName : Option UInt16) :
    (udpService host port byName).Traced Linked := by
  cases byName with
  | some p => exact udpResolve_traced host port (some p)
  | none =>
    rw [udpService]
    dsimp only
    split_ifs
    · exact Prog.traced_later (fun ev _ _ h => h.cons ev) (udpResolve_traced host port)
    · exact udpResolve_traced host port none

theorem udpConnect_traced (host : CStr) (protocol : Option CStr) (port : UInt16) :
    (udpConnect host protocol port).Traced Linked := by
  cases protocol with
  | none => exact udpService_traced host port none
  | some name => exact Prog.traced_later (fun ev _ _ h => h.cons ev) (udpService_traced host port)

/-- Before the wait loop ends there are only interrupts. -/
theorem waitChild_heard (child fuel : ℕ) :
    (waitChild child fuel).Traced fun tr st =>
      (∀ ev∈tr,ev=answered (.waitpid child) (.failed true) ∨
        ev=answered (.waitpid child) (st.getD (.failed false))) ∧
      answered (.waitpid child) (st.getD (.failed false))∈tr ∧
      ∀ eintr,st≠some (.failed eintr) := by
  induction fuel with
  | zero =>
    intro never
    exact never.elim
  | succ fuel ih =>
    intro st
    cases st with
    | failed eintr =>
      cases eintr with
      | true =>
        refine (ih : (waitChild child fuel).Traced _).mono fun tr st ⟨hall,hmem,hst⟩ => ?_
        refine ⟨fun ev hev => ?_,List.mem_cons_of_mem _ hmem,hst⟩
        rcases List.mem_cons.mp hev with rfl|hev
        · exact Or.inl rfl
        · exact hall ev hev
      | false => exact ⟨fun ev hev => Or.inr (List.mem_singleton.mp hev),by simp [answered],by simp⟩
    | exited status =>
      exact ⟨fun ev hev => Or.inr (List.mem_singleton.mp hev),by simp [answered],by simp⟩
    | signaled sig =>
      exact ⟨fun ev hev => Or.inr (List.mem_singleton.mp hev),by simp [answered],by simp⟩

theorem cmdChild_traced {α : Type} (cmd : Option CStr) (r w : Fd)
    (post : List (Event System) → α → Prop) : (cmdChild cmd r w : Prog System α).Traced post := by
  intro _ _
  change Prog.Traced (if w≠1 then _ else _) _
  split_ifs
  · intro _ _ _ never
    exact never.elim
  · intro _ never
    exact never.elim

/-- Only a helper that exited with status 0 is read. -/
theorem afterWait_traced (r : Fd) (child : ℕ) (st : Option WaitPid) :
    (afterWait r child st).Traced fun tr res => ∀ w i,res=some (w,i) →
      st=some (.exited 0) ∧ ∃ buf,answered (.fgets r 128) (some buf)∈tr ∧
        scanTwo buf.val=some (w,i) := by
  have killed (c : SysCall) (P : List (Event System) → UInt32 → UInt32 → Prop) :
      (do
        killChild child
        let _ ← sys c
        return none : Prog System (Option (UInt32 × UInt32))).Traced
          fun tr r => ∀ w i,r=some (w,i) → P tr w i := by
    apply (Prog.traced_true (killChild child)).bind
    intro tr a _ _ w i h
    cases h
  match st with
  | none =>
    intro _
    exact killed (.waitpid child) _
  | some (.exited 0) =>
    intro line _
    cases line with
    | none =>
      intro w i h
      cases h
    | some buf =>
      intro w i h
      exact ⟨rfl,buf,List.mem_cons_self,h⟩
  | some (.exited (status+1)) =>
    intro _ w i h
    cases h
  | some (.failed eintr) => exact killed (.fclose r) _
  | some (.signaled sig) => exact killed (.fclose r) _

theorem runCmd_traced (cmd : Option CStr) :
    (runCmd cmd).Traced fun tr r => ∀ w i,r=some (w,i) → HelperPrinted w i tr := by
  rw [runCmd_eq]
  intro fds
  cases fds with
  | none =>
    intro w i h
    cases h
  | some p =>
    obtain ⟨r,wr⟩ := p
    intro forked
    cases forked with
    | failed =>
      intro w i h
      cases h
    | child => exact cmdChild_traced cmd r wr _
    | parent child =>
      intro _ fp
      cases fp with
      | false =>
        intro _ _ w i h
        cases h
      | true =>
        intro fuel
        apply (waitChild_heard child fuel).bind
        rintro tr st ⟨-,hlast,-⟩
        apply (afterWait_traced r child st).mono
        intro tr' res hread w i h
        obtain ⟨hst,buf,hbuf,hscan⟩ := hread w i h
        rw [hst] at hlast
        have hwait : answered (.waitpid child) (.exited 0)∈tr := hlast
        refine ⟨r,wr,child,buf,?_,?_,?_,?_,?_,hscan⟩
        · exact List.mem_of_getElem? (i := 0) rfl
        · exact List.mem_of_getElem? (i := 1) rfl
        · exact List.mem_of_getElem? (i := 3) rfl
        · exact List.mem_append_right [_,_,_,_,_] (List.mem_append_left tr' hwait)
        · exact List.mem_append_right [_,_,_,_,_] (List.mem_append_right tr hbuf)

theorem RespStep.error_of_else {c : Prop} [Decidable c] {s : RespState} {step : RespStep} {code : ℕ}
    (h : (if c then .again s else step)=RespStep.error code) : step=.error code := by
  by_cases hc : c
  · rw [if_pos hc] at h
    cases h
  · rwa [if_neg hc] at h

theorem respStep_error {implcode reqcode : UInt8} {s : RespState} {pkt : List UInt8} {code : ℕ}
    (h : respStep implcode reqcode s pkt=.error code) : code≠0 := by
  unfold respStep at h
  dsimp only at h
  have hfield := RespStep.error_of_else (RespStep.error_of_else h)
  by_cases herr : infoErr (ofBe16 (pkt.getD 4 0) (pkt.getD 5 0))≠0
  · rw [if_pos herr] at hfield
    cases hfield
    exact herr
  · rw [if_neg herr] at hfield
    -- past the error field the step goes on or is done
    have hlast := RespStep.error_of_else
      (RespStep.error_of_else (RespStep.error_of_else (RespStep.error_of_else hfield)))
    cases hlast

theorem getresponseLoop_traced (sd : Fd) (implcode reqcode : UInt8) (timeout : ℤ) (fuel : ℕ)
    (s : RespState) :
    (getresponseLoop sd implcode reqcode timeout fuel s).Traced fun tr r =>
      r.1=0 → ∃ pkts,pkts.Sublist (tr.filterMap packetOf) ∧
        respFold implcode reqcode s pkts=.done r.2 := by
  induction fuel generalizing s with
  | zero =>
    intro never
    exact never.elim
  | succ fuel ih =>
    intro n
    change Prog.Traced (if n < 1 then _ else _) _
    split_ifs with hn
    · intro h
      cases h
    · intro pkt
      cases pkt with
      | none =>
        intro h
        cases h
      | some pkt =>
        dsimp only [Prog.bind]
        cases hs : respStep implcode reqcode s pkt.val with
        | again s' =>
          apply (ih s').mono
          intro tr r hr h
          obtain ⟨pkts,hsub,hfold⟩ := hr h
          refine ⟨pkt.val :: pkts,hsub.cons_cons _,?_⟩
          rw [respFold,hs]
          exact hfold
        | error code =>
          intro h
          exact absurd (Int.ofNat_eq_zero.mp h) (respStep_error hs)
        | done ritems =>
          intro _
          refine ⟨[pkt.val],List.Sublist.refl _,?_⟩
          rw [respFold,hs]

theorem monlist_traced (sd : Fd) (timeout : ℤ) :
    (monlist sd timeout).Traced fun tr v => v=-1 ∨ ∃ n : ℕ,v=n ∧
      answered (.send sd (reqPkt implXntpd reqMonGetlist)) true∈tr ∧
      ∃ pkts,pkts.Sublist (tr.filterMap packetOf) ∧
        respFold implXntpd reqMonGetlist .start pkts=.done n := by
  intro sent
  cases sent with
  | false => exact Or.inl rfl
  | true =>
    intro fuel
    have hloop := getresponseLoop_traced sd implXntpd reqMonGetlist timeout fuel .start
    apply hloop.bind
    intro tr r hr
    obtain ⟨res,peers⟩ := r
    change Prog.Traced (if res≠0 then _ else _) _
    split_ifs with h0
    · exact Or.inl rfl
    · right
      obtain ⟨pkts,hsub,hfold⟩ := hr (not_not.mp h0)
      refine ⟨peers,rfl,by simp [answered],pkts,?_,hfold⟩
      rw [List.append_nil]
      exact hsub

theorem probeNtp_traced (host : Option CStr) (timeout : ℤ) :
    (probeNtp host timeout).Traced fun tr v => v=-1 ∨ ∃ n : ℕ,v=n ∧ PeersListed n tr := by
  rw [probeNtp]
  apply (udpConnect_traced _ _ _).bind
  intro tr sd hc
  cases sd with
  | none => exact Or.inl rfl
  | some sd =>
    obtain ⟨fd,addr,port,hconn⟩ := hc sd rfl
    apply (monlist_traced sd timeout).bind
    intro tr' v hv _
    rcases hv with hv|⟨n,hv,hsend,pkts,hsub,hfold⟩
    · exact Or.inl hv
    · right
      refine ⟨n,hv,⟨fd,addr,port,List.mem_append_left _ hconn⟩,⟨sd,?_⟩,pkts,?_,hfold⟩
      · exact List.mem_append_right _ (List.mem_append_left _ hsend)
      · rw [List.filterMap_append,List.filterMap_append]
        exact (hsub.trans (List.sublist_append_left _ _)).trans (List.sublist_append_right _ _)

end Lbcd
