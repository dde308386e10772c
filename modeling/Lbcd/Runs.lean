import Lbcd.Requests

namespace Lbcd

open Interaction CText ByteOrder

/-- One call of a weight function, by its function, slot and port argument. -/
structure WeightRun where
  function : WeightFunc
  slot : ℕ
  portarg : Option CStr
  deriving DecidableEq

def weightRun : ServerCall → Option WeightRun
  | .weight f slot _ portarg _ => some ⟨f,slot,portarg⟩
  | _ => none

/-- The weight function that a service stands for, and its port argument. -/
def probeOf (g : WeightGlobals) (service : CStr) : Option (WeightFunc × Option CStr) :=
  match serviceToFunc g (some service) with
  | .ok (some functab) => functab.function.map fun f =>
    (f,((if service=defaultName then functab.service else service).strchr colon).map CStr.next)
  | _ => none

theorem lbcdSetweight_of_probe {g : WeightGlobals} {service : CStr} {f : WeightFunc}
    {portarg : Option CStr} (h : probeOf g service=some (f,portarg)) (lb : LbcdReply)
    (slot : Slot) :
    lbcdSetweight g lb slot service=
      Prog.call (I := Server)
        (.weight f slot g.lbcdTimeout portarg (lb.setIncr slot g.defaultIncrement))
        fun r => Prog.ret r.1 := by
  unfold probeOf at h
  unfold lbcdSetweight
  rw [dif_pos slot.isLt]
  split at h
  next functab hs =>
    obtain ⟨f',hf,he⟩ := Option.map_eq_some_iff.mp h
    cases he
    simp only [hs,hf]
    rfl
  next => simp at h

theorem scanTable_mem {name : CStr} {rows : List ServiceMapping} {st : ServiceMapping}
    (h : scanTable name rows=some st) :
    st∈rows ∧ st.service=name ∧ st.service.bytes≠[] := by
  induction rows with
  | nil => cases h
  | cons row rows ih =>
    rw [scanTable] at h
    split_ifs at h with h0 hn
    · cases h
      exact ⟨List.mem_cons_self,hn.symm,h0⟩
    · obtain ⟨hm,hs⟩ := ih h
      exact ⟨List.mem_cons_of_mem _ hm,hs⟩

theorem serviceTable_function {st : ServiceMapping} (h : st∈serviceTable)
    (hs : st.service.bytes≠[]) : st.function≠none := by
  revert st
  decide

/-- A name other than default stands for the table entry of its part before any colon,
or else for the unknown function. -/
theorem serviceToFunc_named (g : WeightGlobals) {service : CStr} (h : service≠defaultName) :
    ∃ st∈serviceTable,serviceToFunc g (some service)=.ok (some st) ∧ st.service.bytes≠[] ∧
      (st.service=(service.strlcpy nameSize).cutAt colon ∨ st.service=CStr.lit "unknown") := by
  have hd : ¬defaultName=service := fun he => h he.symm
  cases hs : scanTable ((service.strlcpy nameSize).cutAt colon) serviceTable with
  | some st =>
    obtain ⟨hm,hn,hb⟩ := scanTable_mem hs
    exact ⟨st,hm,by simp only [serviceToFunc,if_neg hd,hs],hb,Or.inl hn⟩
  | none =>
    have hu : scanTable (CStr.lit "unknown") serviceTable=
        some ⟨CStr.lit "unknown",some .unknown⟩ := by decide
    exact ⟨⟨CStr.lit "unknown",some .unknown⟩,by decide,
      by simp only [serviceToFunc,if_neg hd,hs,hu],by decide,Or.inr rfl⟩

theorem lbcdSetweight_of_none {g : WeightGlobals} {service : CStr} (h : probeOf g service=none)
    (lb : LbcdReply) (slot : Slot) :
    lbcdSetweight g lb slot service=fault .nullEntry ∨
      lbcdSetweight g lb slot service=fault .nullFunction := by
  unfold probeOf at h
  unfold lbcdSetweight
  rw [dif_pos slot.isLt]
  cases hs : serviceToFunc g (some service) with
  | error d =>
    by_cases hd : service=defaultName
    · simp [serviceToFunc,hd] at hs
    · obtain ⟨st,-,hst,-⟩ := serviceToFunc_named g hd
      rw [hst] at hs
      cases hs
  | ok entry =>
    cases entry with
    | none => exact Or.inl rfl
    | some functab =>
      have hf : functab.function=none := by simpa [hs] using h
      right
      simp only [hf]

theorem fault_emits {α κ : Type} (kind : ServerCall → Option κ) (f : Fault) (ks : List κ)
    (h : kind (.sys (.fault f))=none) : (fault f : Prog Server α).Emits kind ks :=
  Prog.emits_skip h fun r => r.elim

/-- The weight function calls for these services in the slots from a number on. -/
def runsFrom (g : WeightGlobals) : ℕ → List CStr → List WeightRun
  | _,[] => []
  | i,service :: services =>
    ((probeOf g service).map fun p => ⟨p.1,i,p.2⟩).toList++runsFrom g (i+1) services

theorem lbcdSetweight_emits (g : WeightGlobals) (lb : LbcdReply) (i : ℕ) (service : CStr) :
    (lbcdSetweight g lb i service).Emits weightRun (runsFrom g i [service]) := by
  by_cases hi : i < maxServices+1
  · cases hp : probeOf g service with
    | none =>
      rcases lbcdSetweight_of_none hp lb ⟨i,hi⟩ with h|h
      all_goals
        change lbcdSetweight g lb i service=_ at h
        rw [h]
        exact fault_emits weightRun _ _ rfl
    | some p =>
      have h := lbcdSetweight_of_probe hp lb ⟨i,hi⟩
      change lbcdSetweight g lb i service=_ at h
      rw [h]
      simp only [runsFrom,hp]
      exact Prog.emits_cons rfl fun r => rfl
  · rw [lbcdSetweight,dif_neg hi]
    exact fault_emits weightRun _ _ rfl

theorem hostToNetwork_emits (e : Endian) (lb : LbcdReply) (i : ℕ) :
    (hostToNetwork e lb i).Emits weightRun [] := by
  rw [hostToNetwork]
  split_ifs with hi
  · rfl
  · exact fault_emits weightRun _ _ rfl

theorem setRequested_emits (e : Endian) (g : WeightGlobals) (names : List CStr) (i : ℕ)
    (lb : LbcdReply) :
    (setRequested e g i names lb).Emits weightRun (runsFrom g i names) := by
  induction names generalizing i lb with
  | nil => rfl
  | cons name names ih =>
    have hr : runsFrom g i (name :: names)=
        runsFrom g i [name]++([]++runsFrom g (i+1) names) := by
      simp [runsFrom]
    rw [setRequested,hr]
    apply (lbcdSetweight_emits g lb i name).bind
    intro lb
    exact (hostToNetwork_emits e lb i).bind fun lb => ih (i+1) lb

theorem lbcdSetLoad_emits (e : Endian) (g : WeightGlobals) (lb : LbcdReply)
    (services : List CStr) :
    (lbcdSetLoad e g lb services).Emits weightRun (runsFrom g 0 (defaultName :: services)) := by
  have hr : runsFrom g 0 (defaultName :: services)=
      runsFrom g 0 [defaultName]++([]++runsFrom g 1 services) := by
    simp [runsFrom]
  rw [lbcdSetLoad,hr]
  apply (lbcdSetweight_emits g _ 0 defaultName).bind
  intro lb
  apply Prog.emits_skip rfl
  intro sentinel
  exact (hostToNetwork_emits e _ 0).bind fun lb => setRequested_emits e g services 1 lb

theorem lbcdPackInfo_emits (e : Endian) (g : WeightGlobals) (lb : LbcdReply)
    (protocol : UInt16) (services : List CStr) (simple : Bool) (cache : UserCache) :
    (lbcdPackInfo e g lb protocol services simple cache).Emits weightRun
      (runsFrom g 0 (defaultName :: services)) := by
  rw [lbcdPackInfo,← List.append_nil (runsFrom g 0 (defaultName :: services))]
  apply Prog.emits_skip rfl
  intro locals
  apply Prog.emits_skip rfl
  intro bt
  apply Prog.emits_skip rfl
  intro ct
  apply Prog.emits_skip rfl
  intro loads
  apply Prog.emits_skip rfl
  intro users
  apply Prog.emits_skip rfl
  intro tmp
  apply Prog.emits_skip rfl
  intro tmpdir
  apply (lbcdSetLoad_emits e g _ services).bind
  intro lb
  split_ifs <;> rfl

theorem handleLbRequest_emits (e : Endian) (g : WeightGlobals) (config : LbcdConfig)
    (cache : UserCache) (request : Request) (fd : Fd) :
    (handleLbRequest e g config cache request fd).Emits weightRun
      (runsFrom g 0 (defaultName :: request.services)) := by
  have hs : (sendReply e g config cache request fd).Emits weightRun
      (runsFrom g 0 (defaultName :: request.services)) := by
    rw [sendReply,← List.append_nil (runsFrom g 0 (defaultName :: request.services))]
    apply Prog.emits_skip rfl
    intro reply
    refine (lbcdPackInfo_emits e g _ request.protocol request.services config.simple
      cache).bind fun packed => ?_
    dsimp only
    split_ifs
    · exact fault_emits weightRun _ _ rfl
    · apply Prog.emits_skip rfl
      intro result
      dsimp only [Prog.bind]
      split_ifs
      · exact Prog.emits_skip rfl fun _ => rfl
      · rfl
  rw [handleLbRequest]
  split_ifs
  · exact Prog.emits_skip rfl fun _ => hs
  · exact hs

theorem logAll_emits (log : List Message) : (logAll log).Emits weightRun [] := by
  induction log with
  | nil => rfl
  | cons m ms ih => exact Prog.emits_skip rfl fun _ => ih

/-- The weight functions a reaction may run: none but for a served request. -/
def authorizedRuns (g : WeightGlobals) : Reaction → List WeightRun
  | .serve request => runsFrom g 0 (defaultName :: request.services)
  | _ => []

theorem react_emits (e : Endian) (g : WeightGlobals) (config : LbcdConfig) (cache : UserCache)
    (fd : Fd) (r : Reaction) :
    (react e g config cache fd r).Emits weightRun (authorizedRuns g r) := by
  cases r with
  | silent => rfl
  | error request status =>
    apply Prog.emits_skip rfl
    intro sent
    dsimp only [Prog.bind]
    split_ifs
    · exact Prog.emits_skip rfl fun _ => rfl
    · rfl
  | serve request => exact handleLbRequest_emits e g config cache request fd

theorem mem_runsFrom {g : WeightGlobals} {services : List CStr} {i : ℕ} {run : WeightRun}
    (h : run∈runsFrom g i services) :
    ∃ k name,services[k]?=some name ∧ run.slot=i+k ∧
      probeOf g name=some (run.function,run.portarg) := by
  induction services generalizing i with
  | nil => cases h
  | cons service services ih =>
    rw [runsFrom,List.mem_append] at h
    rcases h with h|h
    · obtain ⟨p,hp,hrun⟩ := Option.map_eq_some_iff.mp (Option.mem_toList.mp h)
      rw [← hrun]
      exact ⟨0,service,rfl,rfl,hp⟩
    · obtain ⟨k,name,hk,hs,hp⟩ := ih h
      exact ⟨k+1,name,hk,by omega,hp⟩

/-- Only names that passed the check are served. -/
theorem reaction_serve {services : List CStr} {raw : List UInt8} {addr : SockAddr}
    {request : Request} (h : reaction services raw addr=.serve request) :
    request=requestOf raw addr ∧ ∀ name∈request.services,Allowed services name := by
  rcases reaction_cases services raw addr with hr|⟨status,-,hr⟩|⟨-,hr⟩|⟨-,hall,hr⟩
  · cases hr.symm.trans h
  · cases hr.symm.trans h
  · cases hr.symm.trans h
  · cases hr.symm.trans h
    exact ⟨rfl,hall⟩

/-- No name that is allowed stands for the helper, default apart. -/
theorem cmd_not_selected (g : WeightGlobals) {services : List CStr} {name : CStr}
    (ha : Allowed services name) (hd : name≠defaultName) :
    ∃ st,serviceToFunc g (some name)=.ok (some st) ∧ st.function≠some .cmd := by
  obtain ⟨st,hm,hst,-,hs⟩ := serviceToFunc_named g hd
  refine ⟨st,hst,fun hf => ?_⟩
  have hcmd : ∀ st∈serviceTable,st.function=some .cmd → st.service=CStr.lit "cmd" := by decide
  have hsv := hcmd st hm hf
  obtain ⟨-,hc,hp⟩ := ha.resolve_left hd
  rw [hsv] at hs
  rcases hs with h|h
  · have hcut := CStr.eq_or_prefix_of_cutAt_strlcpy h.symm (by decide)
    rcases hcut with he|he
    · exact hc he
    · exact hp he
  · exact absurd h (by decide)

/-- The names that are served. -/
def servedNames : Reaction → List CStr
  | .serve request => request.services
  | _ => []

theorem authorizedRuns_name {g : WeightGlobals} {services : List CStr} {got : Option Datagram}
    {run : WeightRun} (h : run∈authorizedRuns g (reactionTo services got)) :
    ∃ name,(defaultName :: servedNames (reactionTo services got))[run.slot]?=some name ∧
      probeOf g name=some (run.function,run.portarg) ∧
      (name=defaultName ∨ (name∈services ∧ run.function≠.cmd)) := by
  cases hr : reactionTo services got with
  | silent =>
    rw [hr] at h
    cases h
  | error request status =>
    rw [hr] at h
    cases h
  | serve request =>
    rw [hr] at h
    obtain ⟨k,name,hk,hslot,hp⟩ := mem_runsFrom h
    have hslot : run.slot=k := by omega
    refine ⟨name,hslot ▸ hk,hp,?_⟩
    by_cases hd : name=defaultName
    · exact Or.inl hd
    · right
      have hm : name∈request.services :=
        (List.mem_cons.mp (List.mem_of_getElem? hk)).resolve_left hd
      have ha : Allowed services name := by
        cases got with
        | none => cases hr
        | some d => exact (reaction_serve hr).2 name hm
      obtain ⟨st,hst,hf⟩ := cmd_not_selected g ha hd
      refine ⟨(ha.resolve_left hd).1,fun hc => ?_⟩
      rw [probeOf,hst] at hp
      obtain ⟨f,hff,he⟩ := Option.map_eq_some_iff.mp hp
      have hfr : f=run.function := congrArg Prod.fst he
      exact hf (hff.trans (congrArg some (hfr.trans hc)))

/-- Weight functions run for the default service and for the names that passed the check,
in order, and for nothing else; the helper runs at most as the default. -/
theorem weight_functions_authorized (e : Endian) (g : WeightGlobals) (config : LbcdConfig)
    (cache : UserCache) (fd : Fd) (o : Oracle Server) :
    let runs := ((serveOne e g config cache fd).trace o).filterMap fun ev => weightRun ev.call
    let r := (o 0 (.sys (.recvfrom fd))).elim .silent (reactionTo config.services)
    (runs<+:authorizedRuns g r ∧
      ∀ c,(serveOne e g config cache fd).result o=some c → runs=authorizedRuns g r) ∧
    (∀ run∈runs,∃ name,(defaultName :: servedNames r)[run.slot]?=some name ∧
      probeOf g name=some (run.function,run.portarg) ∧
      (name=defaultName ∨ (name∈config.services ∧ run.function≠.cmd))) ∧
    ∀ name,Allowed config.services name → name≠defaultName →
      ∃ st,serviceToFunc g (some name)=.ok (some st) ∧ st.function≠some .cmd := by
  intro runs r
  obtain ⟨log,hlog⟩ := serveOne_eq e g config cache fd
  rw [ssys_bind] at hlog
  have hruns : runs<+:authorizedRuns g r ∧
      ∀ c,(serveOne e g config cache fd).result o=some c → runs=authorizedRuns g r := by
    simp only [runs,r]
    rw [hlog,Prog.trace_call,Prog.result_call]
    cases hgot : o 0 (.sys (.recvfrom fd)) with
    | none => exact ⟨List.prefix_refl _,fun c hc => by cases hc⟩
    | some got =>
      have hem := ((logAll_emits (log got)).bind fun _ => react_emits e g config cache fd
        (reactionTo config.services got)).trace (o.drop 1)
      rw [List.nil_append] at hem
      exact hem
  refine ⟨hruns,fun run hrun => ?_,fun name ha hd => cmd_not_selected g ha hd⟩
  have hmem : run∈authorizedRuns g r := hruns.1.subset hrun
  cases hgot : o 0 (.sys (.recvfrom fd)) with
  | none =>
    simp only [r,hgot] at hmem
    cases hmem
  | some got =>
    simp only [r,hgot] at hmem ⊢
    exact authorizedRuns_name hmem

end Lbcd
