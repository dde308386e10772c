import Mathlib.Algebra.BigOperators.Group.Finset.Basic
import Lbcd.Interaction.Firsts
import Lbcd.Probes

namespace Lbcd

open Interaction CText ByteOrder

/-- A packet that getresponse takes for a part of the response. -/
structure Fragment where
  seq : ℕ
  more : Bool
  items : ℕ
  seq_lt : seq < maxPackets
  deriving DecidableEq

/-- What the checks of getresponse make of a packet. -/
inductive Packet where
  | stray
  | error (code : ℕ)
  | beyond
  | fragment (f : Fragment)
  deriving DecidableEq

/-- The first checks of the loop: the format, then the implementation and the request. -/
def IsStray (implcode reqcode : UInt8) (pkt : List UInt8) : Prop :=
  (pkt.length < respHeaderSize ∨ infoVersion (pkt.getD 0 0)≠3 ∨ infoMode (pkt.getD 0 0)≠7 ∨
    infoIsAuth (pkt.getD 1 0) ∨ isResponse (pkt.getD 0 0)=false ∨
    infoMbz (ofBe16 (pkt.getD 6 0) (pkt.getD 7 0))≠0) ∨
  pkt.getD 2 0≠implcode ∨ pkt.getD 3 0≠reqcode

instance (implcode reqcode : UInt8) (pkt : List UInt8) :
    Decidable (IsStray implcode reqcode pkt) :=
  inferInstanceAs (Decidable (_ ∨ _))

def classify (implcode reqcode : UInt8) (pkt : List UInt8) : Packet :=
  if IsStray implcode reqcode pkt then .stray
  else
    let errNitems := ofBe16 (pkt.getD 4 0) (pkt.getD 5 0)
    if infoErr errNitems≠0 then .error (infoErr errNitems)
    else if h : infoSeq (pkt.getD 1 0) < maxPackets then
      .fragment ⟨infoSeq (pkt.getD 1 0),isMore (pkt.getD 0 0),infoNitems errNitems,h⟩
    else .beyond

/-- The rest of a turn of the loop, for a part of the response. -/
def RespState.receive (s : RespState) (f : Fragment) : RespStep :=
  if s.seenpacket f.seq then .again s
  else
    let s := { s with
      seenpacket := Function.update s.seenpacket f.seq true
      ritems := s.ritems+f.items }
    if f.more=false ∧ s.lastseq≠999 then .again s
    else
      let s := if f.more then s else { s with lastseq := f.seq }
      let s := { s with numrecv := s.numrecv+1 }
      if s.numrecv ≤ s.lastseq then .again s else .done s.ritems

theorem RespState.receive_ne_error (s : RespState) (f : Fragment) (code : ℕ) :
    s.receive f≠.error code := by
  intro h
  unfold RespState.receive at h
  dsimp only at h
  have hlast := RespStep.error_of_else (RespStep.error_of_else (RespStep.error_of_else h))
  cases hlast

theorem respStep_classify (implcode reqcode : UInt8) (s : RespState) (pkt : List UInt8) :
    respStep implcode reqcode s pkt=
      match classify implcode reqcode pkt with
      | .stray => .again s
      | .error code => .error code
      | .beyond => .again s
      | .fragment f => s.receive f := by
  unfold respStep classify
  by_cases hformat : pkt.length < respHeaderSize ∨ infoVersion (pkt.getD 0 0)≠3 ∨
      infoMode (pkt.getD 0 0)≠7 ∨ infoIsAuth (pkt.getD 1 0) ∨ isResponse (pkt.getD 0 0)=false ∨
      infoMbz (ofBe16 (pkt.getD 6 0) (pkt.getD 7 0))≠0
  · have hstray : IsStray implcode reqcode pkt := .inl hformat
    rw [if_pos hformat,if_pos hstray]
  · by_cases hreq : pkt.getD 2 0≠implcode ∨ pkt.getD 3 0≠reqcode
    · have hstray : IsStray implcode reqcode pkt := .inr hreq
      rw [if_neg hformat,if_pos hreq,if_pos hstray]
    · have hstray : ¬IsStray implcode reqcode pkt := not_or.mpr ⟨hformat,hreq⟩
      rw [if_neg hformat,if_neg hreq,if_neg hstray]
      dsimp only
      by_cases herr : infoErr (ofBe16 (pkt.getD 4 0) (pkt.getD 5 0))≠0
      · rw [if_pos herr,if_pos herr]
      · rw [if_neg herr,if_neg herr]
        by_cases hseq : infoSeq (pkt.getD 1 0) < maxPackets
        · rw [if_neg (by omega),dif_pos hseq]
          rfl
        · rw [if_pos (by omega),dif_neg hseq]

/-- The parts of the response among some packets. -/
def fragmentOf (implcode reqcode : UInt8) (pkt : List UInt8) : Option Fragment :=
  match classify implcode reqcode pkt with
  | .fragment f => some f
  | _ => none

/-- The parts whose items getresponse adds up: the first with each number. -/
def counted (fs : List Fragment) : List Fragment := firstsBy Fragment.seq fs

/-- The number of the first part that ends the response, 999 without one. -/
def endSeq (cs : List Fragment) : ℕ := (cs.find? fun f => !f.more).elim 999 Fragment.seq

/-- The parts that the receive counter has counted: all that do not end the response, and
the first that does. -/
def tally (cs : List Fragment) : ℕ :=
  (cs.filter Fragment.more).length+if cs.any (fun f => !f.more) then 1 else 0

def itemSum (cs : List Fragment) : ℕ := (cs.map Fragment.items).sum

/-- The locals of getresponse after some parts of a response. -/
structure Tracks (fs : List Fragment) (s : RespState) : Prop where
  ritems : s.ritems=itemSum (counted fs)
  seen : ∀ q,s.seenpacket q=true ↔ q∈(counted fs).map Fragment.seq
  last : s.lastseq=endSeq (counted fs)
  numrecv : s.numrecv=tally (counted fs)
  waiting : s.numrecv ≤ s.lastseq

/-- What getresponse returns after the last of some parts. -/
structure Finished (fs : List Fragment) (n : ℕ) : Prop where
  ritems : n=itemSum (counted fs)
  last : endSeq (counted fs) < tally (counted fs)

theorem tracks_nil : Tracks [] .start :=
  ⟨rfl,fun q => by simp [RespState.start,counted],rfl,rfl,by decide⟩

theorem itemSum_concat (cs : List Fragment) (f : Fragment) :
    itemSum (cs++[f])=itemSum cs+f.items := by simp [itemSum]

theorem endSeq_of_ended {cs : List Fragment} (h : cs.any (fun f => !f.more)=true) :
    endSeq cs < maxPackets := by
  obtain ⟨f,hf⟩ := Option.isSome_iff_exists.mp (List.find?_isSome.mpr (List.any_eq_true.mp h))
  rw [endSeq,hf]
  exact f.seq_lt

theorem endSeq_concat (cs : List Fragment) (f : Fragment) :
    endSeq (cs++[f])=
      if cs.any (fun f => !f.more)=false ∧ f.more=false then f.seq else endSeq cs := by
  unfold endSeq
  rw [List.find?_append]
  cases hcs : cs.find? fun f => !f.more with
  | some g =>
    have hany : cs.any (fun f => !f.more)=true :=
      List.any_eq_true.mpr (List.find?_isSome.mp (by rw [hcs]; rfl))
    simp [hany]
  | none =>
    have hany : cs.any (fun f => !f.more)=false := by
      rw [List.find?_eq_none] at hcs
      exact List.any_eq_false.mpr hcs
    cases hmore : f.more <;> simp [hany,hmore]

theorem tally_concat (cs : List Fragment) (f : Fragment) :
    tally (cs++[f])=
      if f.more=false ∧ cs.any (fun f => !f.more)=true then tally cs else tally cs+1 := by
  unfold tally
  rw [List.filter_append,List.any_append]
  cases hmore : f.more <;> cases cs.any (fun f => !f.more) <;> simp [hmore]

theorem counted_concat (fs : List Fragment) (f : Fragment) :
    counted (fs++[f])=
      if f.seq∈(counted fs).map Fragment.seq then counted fs else counted fs++[f] :=
  firstsBy_concat Fragment.seq fs f

/-- What a step does after which the parts are these. -/
def Outcome (fs : List Fragment) : RespStep → Prop
  | .again s => Tracks fs s
  | .error _ => False
  | .done n => Finished fs n

theorem endSeq_eq_999 {cs : List Fragment} :
    endSeq cs=999 ↔ cs.any (fun f => !f.more)=false := by
  constructor
  · intro h
    by_contra hany
    have hlt := endSeq_of_ended (Bool.eq_true_of_not_eq_false hany)
    rw [h] at hlt
    exact absurd hlt (by decide)
  · intro h
    rw [endSeq,List.find?_eq_none.mpr (List.any_eq_false.mp h)]
    rfl

theorem Tracks.seen_update {fs : List Fragment} {s : RespState} (h : Tracks fs s) {f : Fragment}
    (hcounted : counted (fs++[f])=counted fs++[f]) (q : ℕ) :
    Function.update s.seenpacket f.seq true q=true ↔
      q∈(counted (fs++[f])).map Fragment.seq := by
  rw [hcounted,List.map_append,List.mem_append,List.map_singleton,List.mem_singleton,← h.seen q]
  by_cases hq : q=f.seq
  · rw [hq,Function.update_self]
    simp
  · rw [Function.update_of_ne hq]
    simp [hq]

/-- One more part of the response keeps the locals as described, or completes it. -/
theorem Tracks.receive {fs : List Fragment} {s : RespState} (h : Tracks fs s) (f : Fragment) :
    Outcome (fs++[f]) (s.receive f) := by
  have hcounted := counted_concat fs f
  unfold RespState.receive
  by_cases hseen : s.seenpacket f.seq
  · rw [if_pos hseen]
    rw [if_pos ((h.seen f.seq).mp hseen)] at hcounted
    exact ⟨by rw [hcounted]; exact h.ritems,by rw [hcounted]; exact h.seen,
      by rw [hcounted]; exact h.last,by rw [hcounted]; exact h.numrecv,h.waiting⟩
  · rw [if_neg hseen]
    rw [if_neg fun hm => hseen ((h.seen f.seq).mpr hm)] at hcounted
    have hitems : s.ritems+f.items=itemSum (counted (fs++[f])) := by
      rw [hcounted,itemSum_concat,h.ritems]
    have hseq := h.seen_update hcounted
    have hend : s.lastseq=999 ↔ (counted fs).any (fun f => !f.more)=false := by
      rw [h.last]
      exact endSeq_eq_999
    have hlast := endSeq_concat (counted fs) f
    have htally := tally_concat (counted fs) f
    rw [← hcounted] at hlast htally
    dsimp only
    by_cases hsecond : f.more=false ∧ s.lastseq≠999
    · have hany : (counted fs).any (fun f => !f.more)=true :=
        Bool.eq_true_of_not_eq_false fun hany => hsecond.2 (hend.mpr hany)
      rw [if_pos hsecond]
      rw [if_neg (by simp [hany])] at hlast
      rw [if_pos ⟨hsecond.1,hany⟩] at htally
      exact ⟨hitems,hseq,h.last.trans hlast.symm,h.numrecv.trans htally.symm,h.waiting⟩
    · rw [if_neg hsecond]
      have hnum : s.numrecv+1=tally (counted (fs++[f])) := by
        rw [htally,if_neg,h.numrecv]
        rintro ⟨hmore,hany⟩
        refine hsecond ⟨hmore,fun h999 => ?_⟩
        rw [hend.mp h999] at hany
        cases hany
      have hstep (last : ℕ) (hl : last=endSeq (counted (fs++[f]))) :
          Outcome (fs++[f]) (if s.numrecv+1 ≤ last then
            .again ⟨s.ritems+f.items,Function.update s.seenpacket f.seq true,last,s.numrecv+1⟩
            else .done (s.ritems+f.items)) := by
        split_ifs with hle
        · exact ⟨hitems,hseq,hl,hnum,hle⟩
        · exact ⟨hitems,by omega⟩
      cases hmore : f.more with
      | true => exact hstep s.lastseq (by rw [hlast,hmore,h.last]; simp)
      | false =>
        have h999 : s.lastseq=999 := by
          by_contra hne
          exact hsecond ⟨hmore,hne⟩
        exact hstep f.seq (by rw [hlast,hend.mp h999,hmore]; simp)

section Runs

variable (implcode reqcode : UInt8)

def fragments (rs : List (List UInt8)) : List Fragment := rs.filterMap (fragmentOf implcode reqcode)

theorem respFold_cons (s : RespState) (pkt : List UInt8) (pkts : List (List UInt8)) :
    respFold implcode reqcode s (pkt :: pkts)=
      match respStep implcode reqcode s pkt with
      | .again s' => respFold implcode reqcode s' pkts
      | r => r := rfl

theorem respFold_concat (s : RespState) (pkts : List (List UInt8)) (pkt : List UInt8) :
    respFold implcode reqcode s (pkts++[pkt])=
      match respFold implcode reqcode s pkts with
      | .again s' => respStep implcode reqcode s' pkt
      | r => r := by
  induction pkts generalizing s with
  | nil =>
    rw [List.nil_append,respFold_cons]
    cases h : respStep implcode reqcode s pkt <;> simp [respFold,h]
  | cons p pkts ih =>
    rw [List.cons_append,respFold_cons,respFold_cons]
    cases respStep implcode reqcode s p with
    | again s' => exact ih s'
    | error code => rfl
    | done n => rfl

theorem respStep_outcome {rs : List (List UInt8)} {s : RespState}
    (h : Tracks (fragments implcode reqcode rs) s) (pkt : List UInt8)
    (herr : ∀ code,classify implcode reqcode pkt≠.error code) :
    Outcome (fragments implcode reqcode (rs++[pkt])) (respStep implcode reqcode s pkt) := by
  have happ : fragments implcode reqcode (rs++[pkt])=
      fragments implcode reqcode rs++(fragmentOf implcode reqcode pkt).toList := by
    unfold fragments
    rw [List.filterMap_append]
    cases hf : fragmentOf implcode reqcode pkt <;> simp [hf]
  rw [respStep_classify,happ,fragmentOf]
  cases hc : classify implcode reqcode pkt with
  | stray =>
    rw [Option.toList_none,List.append_nil]
    exact h
  | error code => exact absurd hc (herr code)
  | beyond =>
    rw [Option.toList_none,List.append_nil]
    exact h
  | fragment f => exact h.receive f

theorem respStep_errorCode {s : RespState} {pkt : List UInt8} {code : ℕ}
    (h : classify implcode reqcode pkt=.error code) :
    respStep implcode reqcode s pkt=.error code := by
  rw [respStep_classify,h]

/-- As long as the loop goes on, its locals are those of the parts received. -/
theorem respFold_again {rs : List (List UInt8)} {s : RespState}
    (h : respFold implcode reqcode .start rs=.again s) :
    Tracks (fragments implcode reqcode rs) s := by
  induction rs using List.reverseRecOn generalizing s with
  | nil =>
    cases h
    exact tracks_nil
  | append_singleton rs pkt ih =>
    rw [respFold_concat] at h
    cases hs : respFold implcode reqcode .start rs with
    | again s' =>
      rw [hs] at h
      dsimp only at h
      have hout := respStep_outcome implcode reqcode (ih hs) pkt fun code hc => by
        have herr := respStep_errorCode implcode reqcode (s := s') hc
        rw [herr] at h
        cases h
      rw [h] at hout
      exact hout
    | error code =>
      rw [hs] at h
      cases h
    | done n =>
      rw [hs] at h
      cases h

/-- The packets of a run of getresponse, each of which but the last let it go on, and the
result they lead to. -/
structure Reading (s : RespState) (rs : List (List UInt8)) (res : Option (ℤ × ℕ)) : Prop where
  going : ∀ init,init<+:rs → init≠rs → ∃ s',respFold implcode reqcode s init=.again s'
  again : ∀ s',respFold implcode reqcode s rs=.again s' → ∀ r,res=some r → r.1=-1
  error : ∀ code,respFold implcode reqcode s rs=.error code → ∃ n,res=some ((code : ℤ),n)
  done : ∀ n,respFold implcode reqcode s rs=.done n → res=some (0,n)

theorem reading_nil (s : RespState) {res : Option (ℤ × ℕ)} (h : ∀ r,res=some r → r.1=-1) :
    Reading implcode reqcode s [] res := by
  refine ⟨fun init hp hne => absurd (List.prefix_nil.mp hp) hne,fun _ _ => h,fun code hc => ?_,
    fun n hn => ?_⟩
  · cases hc
  · cases hn

theorem Reading.cons {s s' : RespState} {pkt : List UInt8} {rs : List (List UInt8)}
    {res : Option (ℤ × ℕ)} (hs : respStep implcode reqcode s pkt=.again s')
    (h : Reading implcode reqcode s' rs res) : Reading implcode reqcode s (pkt :: rs) res := by
  have hcons (pkts : List (List UInt8)) : respFold implcode reqcode s (pkt :: pkts)=
      respFold implcode reqcode s' pkts := by rw [respFold_cons,hs]
  refine ⟨fun init hp hne => ?_,by rw [hcons]; exact h.again,by rw [hcons]; exact h.error,
    by rw [hcons]; exact h.done⟩
  cases init with
  | nil => exact ⟨s,rfl⟩
  | cons p init =>
    obtain ⟨rfl,hinit⟩ := List.cons_prefix_cons.mp hp
    rw [hcons]
    exact h.going init hinit fun he => hne (by rw [he])

/-- A packet that ends the loop. -/
theorem Reading.last {s : RespState} {pkt : List UInt8} {res : Option (ℤ × ℕ)}
    (hs : ∀ s',respStep implcode reqcode s pkt≠.again s')
    (herr : ∀ code,respStep implcode reqcode s pkt=.error code → ∃ n,res=some ((code : ℤ),n))
    (hdone : ∀ n,respStep implcode reqcode s pkt=.done n → res=some (0,n)) :
    Reading implcode reqcode s [pkt] res := by
  have hone : respFold implcode reqcode s [pkt]=respStep implcode reqcode s pkt := by
    rw [respFold_cons]
    cases respStep implcode reqcode s pkt <;> rfl
  refine ⟨fun init hp hne => ?_,fun s' h => ?_,by rw [hone]; exact herr,by rw [hone]; exact hdone⟩
  · cases init with
    | nil => exact ⟨s,rfl⟩
    | cons p init =>
      obtain ⟨rfl,hinit⟩ := List.cons_prefix_cons.mp hp
      exact absurd (by rw [List.prefix_nil.mp hinit]) hne
  · rw [hone] at h
    exact absurd h (hs s')

/-- What the loop does with the reply of recv. -/
def respTurn (next : RespState → Prog System (ℤ × ℕ)) (s : RespState) :
    ReadReply respPktSize → Prog System (ℤ × ℕ)
  | none => .ret (-1,s.ritems)
  | some pkt =>
    match respStep implcode reqcode s pkt.val with
    | .again s => next s
    | .error code => .ret (code,s.ritems)
    | .done ritems => .ret (0,ritems)

theorem getresponseLoop_succ (sd : Fd) (timeout : ℤ) (fuel : ℕ) (s : RespState) :
    getresponseLoop sd implcode reqcode timeout (fuel+1) s=
      sys (.select sd timeout) >>= fun n : ℤ =>
        if n < 1 then .ret (-1,s.ritems)
        else sys (.recv sd respPktSize) >>=
          respTurn implcode reqcode (getresponseLoop sd implcode reqcode timeout fuel) s := by
  rw [getresponseLoop]
  refine congrArg (sys (.select sd timeout) >>= ·) (funext fun n => ?_)
  split_ifs
  · rfl
  · refine congrArg (sys (.recv sd respPktSize) >>= ·) (funext fun pkt => ?_)
    cases pkt <;> rfl

/-- The loop, whatever the socket delivers. -/
theorem getresponseLoop_reading (sd : Fd) (timeout : ℤ) (fuel : ℕ) (s : RespState)
    (o : Oracle System) :
    Reading implcode reqcode s
      (((getresponseLoop sd implcode reqcode timeout fuel s).trace o).filterMap packetOf)
      ((getresponseLoop sd implcode reqcode timeout fuel s).result o) := by
  induction fuel generalizing s o with
  | zero =>
    cases h : o 0 .outOfFuel with
    | none =>
      rw [getresponseLoop,outOfFuel,Prog.trace_call,Prog.result_call,h]
      exact reading_nil implcode reqcode s fun r hr => by cases hr
    | some never => exact never.elim
  | succ fuel ih =>
    rw [getresponseLoop_succ,sys_bind_trace,sys_bind_result]
    cases hn : o 0 (.select sd timeout) with
    | none => exact reading_nil implcode reqcode s fun r hr => by cases hr
    | some n =>
      change Reading implcode reqcode s (List.filterMap packetOf (Prog.trace _
        (if (n : ℤ) < 1 then _ else _))) (Prog.result _ (if (n : ℤ) < 1 then _ else _))
      split_ifs with hlt
      · exact reading_nil implcode reqcode s fun r hr => by cases hr; rfl
      · rw [sys_bind_trace,sys_bind_result]
        cases hpkt : o.drop 1 0 (.recv sd respPktSize) with
        | none => exact reading_nil implcode reqcode s fun r hr => by cases hr
        | some pkt =>
          cases pkt with
          | none => exact reading_nil implcode reqcode s fun r hr => by cases hr; rfl
          | some pkt =>
            change Reading implcode reqcode s (pkt.val :: List.filterMap packetOf (Prog.trace _
              (respTurn implcode reqcode _ s (some pkt)))) (Prog.result _ _)
            rw [respTurn]
            cases hs : respStep implcode reqcode s pkt.val with
            | again s' => exact (ih s' _).cons implcode reqcode hs
            | error code =>
              exact Reading.last implcode reqcode (by simp [hs])
                (fun c hc => ⟨s.ritems,by cases hs.symm.trans hc; rfl⟩)
                fun n hn => by cases hs.symm.trans hn
            | done n =>
              exact Reading.last implcode reqcode (by simp [hs])
                (fun c hc => by cases hs.symm.trans hc)
                fun m hm => by cases hs.symm.trans hm; rfl

/-- The packets that getresponse receives in a run. -/
def receivedPackets (sd : Fd) (timeout : ℤ) (o : Oracle System) : List (List UInt8) :=
  ((getresponse sd implcode reqcode timeout).trace o).filterMap packetOf

theorem getresponse_reading (sd : Fd) (timeout : ℤ) (o : Oracle System) :
    Reading implcode reqcode .start (receivedPackets implcode reqcode sd timeout o)
      ((getresponse sd implcode reqcode timeout).result o) := by
  rw [receivedPackets,getresponse,sys_bind_trace,sys_bind_result]
  cases o 0 .fuel with
  | none => exact reading_nil implcode reqcode .start fun r hr => by cases hr
  | some fuel => exact getresponseLoop_reading implcode reqcode sd timeout fuel .start (o.drop 1)

theorem respFold_error {rs : List (List UInt8)} {s : RespState} {code : ℕ}
    (h : respFold implcode reqcode s rs=.error code) :
    code≠0 ∧ ∃ pkt∈rs,classify implcode reqcode pkt=.error code := by
  induction rs generalizing s with
  | nil => cases h
  | cons pkt rs ih =>
    rw [respFold_cons] at h
    cases hs : respStep implcode reqcode s pkt with
    | again s' =>
      rw [hs] at h
      obtain ⟨hne,p,hp,hc⟩ := ih h
      exact ⟨hne,p,List.mem_cons_of_mem pkt hp,hc⟩
    | error c =>
      rw [hs] at h
      cases h
      refine ⟨respStep_error hs,pkt,List.mem_cons_self,?_⟩
      rw [respStep_classify] at hs
      cases hc : classify implcode reqcode pkt with
      | error c =>
        rw [hc] at hs
        cases hs
        rfl
      | stray =>
        rw [hc] at hs
        cases hs
      | beyond =>
        rw [hc] at hs
        cases hs
      | fragment f =>
        rw [hc] at hs
        exact absurd hs (s.receive_ne_error f code)
    | done n =>
      rw [hs] at h
      cases h

/-- A response is done at a packet that completes it. -/
theorem Reading.finished {rs : List (List UInt8)} {res : Option (ℤ × ℕ)}
    (h : Reading implcode reqcode .start rs res) {n : ℕ}
    (hd : respFold implcode reqcode .start rs=.done n) :
    Finished (fragments implcode reqcode rs) n := by
  induction rs using List.reverseRecOn with
  | nil => cases hd
  | append_singleton rs pkt _ =>
    obtain ⟨s,hs⟩ := h.going rs (List.prefix_append rs [pkt]) (by simp)
    rw [respFold_concat,hs] at hd
    dsimp only at hd
    have hout := respStep_outcome implcode reqcode (respFold_again implcode reqcode hs) pkt
      fun code hc => by
        have herr := respStep_errorCode implcode reqcode (s := s) hc
        rw [herr] at hd
        cases hd
    rw [hd] at hout
    exact hout

theorem Reading.success {rs : List (List UInt8)} {res : Option (ℤ × ℕ)}
    (h : Reading implcode reqcode .start rs res) {n : ℕ} :
    res=some (0,n) ↔ respFold implcode reqcode .start rs=.done n := by
  refine ⟨fun hres => ?_,h.done n⟩
  cases hf : respFold implcode reqcode .start rs with
  | again s =>
    have hneg : (0 : ℤ)=-1 := h.again s hf _ hres
    exact absurd hneg (by decide)
  | error code =>
    obtain ⟨m,hm⟩ := h.error code hf
    have hz : ((code : ℤ),m)=(0,n) := Option.some.inj (hm.symm.trans hres)
    have hcode := Int.ofNat_eq_zero.mp (congrArg Prod.fst hz)
    exact absurd hcode (respFold_error implcode reqcode hf).1
  | done m =>
    have hz : ((0 : ℤ),m)=(0,n) := Option.some.inj ((h.done m hf).symm.trans hres)
    exact congrArg (fun r : ℤ × ℕ => RespStep.done r.2) hz

end Runs

theorem mem_keys_counted {fs : List Fragment} {q : ℕ} :
    q∈(counted fs).map Fragment.seq ↔ q∈fs.map Fragment.seq := mem_keys_firstsBy Fragment.seq

theorem nodup_keys_counted (fs : List Fragment) : ((counted fs).map Fragment.seq).Nodup :=
  nodup_keys_firstsBy Fragment.seq fs

theorem counted_subset {fs : List Fragment} : counted fs⊆fs :=
  (firstsBy_sublist Fragment.seq fs).subset

theorem tally_le (cs : List Fragment) : tally cs ≤ cs.length := by
  have hlen := List.length_eq_length_filter_add (l := cs) Fragment.more
  unfold tally
  split_ifs with hany
  · obtain ⟨f,hf,hmore⟩ := List.any_eq_true.mp hany
    have hpos : 0 < (cs.filter fun f => !f.more).length :=
      List.length_pos_of_mem (List.mem_filter.mpr ⟨hf,hmore⟩)
    omega
  · omega

/-- Different numbers up to a bound, as many as there are. -/
theorem mem_of_full {qs : List ℕ} {n : ℕ} (hnd : qs.Nodup) (hle : ∀ q∈qs,q ≤ n)
    (hlen : n+1 ≤ qs.length) {q : ℕ} : q∈qs ↔ q ≤ n := by
  have hsub : qs.toFinset⊆Finset.range (n+1) := fun q hq => by
    rw [Finset.mem_range]
    exact Nat.lt_succ_of_le (hle q (List.mem_toFinset.mp hq))
  have heq := Finset.eq_of_subset_of_card_le hsub
    (by rw [Finset.card_range,List.toFinset_card_of_nodup hnd]; exact hlen)
  rw [← List.mem_toFinset,heq,Finset.mem_range]
  exact Nat.lt_succ_iff

theorem counted_length_le (fs : List Fragment) : (counted fs).length ≤ maxPackets := by
  have hsub : ((counted fs).map Fragment.seq).toFinset⊆Finset.range maxPackets := fun q hq => by
    obtain ⟨f,-,rfl⟩ := List.mem_map.mp (List.mem_toFinset.mp hq)
    exact Finset.mem_range.mpr f.seq_lt
  have hcard := Finset.card_le_card hsub
  rw [Finset.card_range,List.toFinset_card_of_nodup (nodup_keys_counted fs),
    List.length_map] at hcard
  exact hcard

theorem endSeq_mem {cs : List Fragment} (h : endSeq cs≠999) :
    ∃ f∈cs,f.seq=endSeq cs ∧ f.more=false := by
  have hany : cs.any (fun f => !f.more)=true :=
    Bool.eq_true_of_not_eq_false fun hany => h (endSeq_eq_999.mpr hany)
  obtain ⟨f,hf⟩ := Option.isSome_iff_exists.mp (List.find?_isSome.mpr (List.any_eq_true.mp hany))
  refine ⟨f,List.mem_of_find?_eq_some hf,by rw [endSeq,hf]; rfl,?_⟩
  simpa using List.find?_some hf

/-- A response that getresponse takes for complete has an end. -/
theorem Finished.ended {fs : List Fragment} {n : ℕ} (h : Finished fs n) :
    ∃ f∈counted fs,f.seq=endSeq (counted fs) ∧ f.more=false := by
  refine endSeq_mem fun h999 => ?_
  have hlast := h.last
  have htally := tally_le (counted fs)
  have hlen := counted_length_le fs
  rw [h999] at hlast
  have hmax : maxPackets=100 := rfl
  omega

/-- The parts counted are those up to the number of one without the MORE bit, each of them
has come, and no other is in the sum. -/
structure Whole (fs : List Fragment) (n last : ℕ) : Prop where
  marked : ∃ f∈fs,f.seq=last ∧ f.more=false
  counted : ∀ q,q∈(counted fs).map Fragment.seq ↔ q ≤ last
  ritems : n=itemSum (Lbcd.counted fs)

/-- No part has a higher number than the first that ends the response; or a contradictory
one, that ends it later, has the highest, and there are as many different ones as it says. -/
def EndsHighest (fs : List Fragment) : Prop :=
  (∀ f∈fs,f.seq ≤ endSeq (counted fs)) ∨
  ∃ last,endSeq (counted fs) < last ∧ (∃ f∈fs,f.seq=last ∧ f.more=false) ∧
    (∀ f∈fs,f.seq ≤ last) ∧ (counted fs).length=last+1

theorem Whole.le {fs : List Fragment} {n last : ℕ} (h : Whole fs n last) {f : Fragment}
    (hf : f∈fs) : f.seq ≤ last :=
  (h.counted f.seq).mp (mem_keys_counted.mpr (List.mem_map_of_mem hf))

theorem whole_of_full {fs : List Fragment} {n last : ℕ} (hf : Finished fs n)
    (hmarked : ∃ f∈fs,f.seq=last ∧ f.more=false) (hle : ∀ f∈fs,f.seq ≤ last)
    (hlen : last+1 ≤ (counted fs).length) : Whole fs n last := by
  refine ⟨hmarked,fun q => mem_of_full (nodup_keys_counted fs) ?_ ?_,hf.ritems⟩
  · intro q hq
    obtain ⟨f,hm,rfl⟩ := List.mem_map.mp hq
    exact hle f (counted_subset hm)
  · rw [List.length_map]
    exact hlen

theorem whole_iff_endsHighest {fs : List Fragment} {n : ℕ} (hf : Finished fs n) :
    (∃ last,Whole fs n last) ↔ EndsHighest fs := by
  obtain ⟨e,hmem,hseq,hmore⟩ := hf.ended
  constructor
  · rintro ⟨last,hw⟩
    have hend : endSeq (counted fs) ≤ last := hseq ▸ hw.le (counted_subset hmem)
    rcases Nat.eq_or_lt_of_le hend with heq|hlt
    · exact .inl fun f hm => heq ▸ hw.le hm
    · refine .inr ⟨last,hlt,hw.marked,fun f hm => hw.le hm,?_⟩
      have hkeys : ((counted fs).map Fragment.seq).toFinset=Finset.range (last+1) :=
        Finset.ext fun q => by
          rw [List.mem_toFinset,hw.counted,Finset.mem_range,Nat.lt_succ_iff]
      have hcard := congrArg Finset.card hkeys
      rw [Finset.card_range,List.toFinset_card_of_nodup (nodup_keys_counted fs),
        List.length_map] at hcard
      exact hcard
  · rintro (hle|⟨last,-,hmarked,hle,hlen⟩)
    · have htally := tally_le (counted fs)
      have hlast := hf.last
      exact ⟨_,whole_of_full hf ⟨e,counted_subset hmem,hseq,hmore⟩ hle (by omega)⟩
    · exact ⟨last,whole_of_full hf hmarked hle hlen.ge⟩

/-- What a run of getresponse that returns 0 has counted. -/
theorem getresponse_finished {implcode reqcode : UInt8} {sd : Fd} {timeout : ℤ}
    {o : Oracle System} {n : ℕ}
    (h : (getresponse sd implcode reqcode timeout).result o=some (0,n)) :
    Finished (fragments implcode reqcode (receivedPackets implcode reqcode sd timeout o)) n := by
  have hreading := getresponse_reading implcode reqcode sd timeout o
  exact hreading.finished implcode reqcode ((hreading.success implcode reqcode).mp h)

/-- A peer count comes from a run of getresponse that returns 0. -/
theorem monlist_getresponse {sd : Fd} {timeout : ℤ} {o : Oracle System} {n : ℕ}
    (h : (monlist sd timeout).result o=some (n : ℤ)) :
    (getresponse sd implXntpd reqMonGetlist timeout).result (o.drop 1)=some (0,n) ∧
      ((monlist sd timeout).trace o).filterMap packetOf=
        receivedPackets implXntpd reqMonGetlist sd timeout (o.drop 1) := by
  rw [monlist,sys_bind_result] at h
  rw [monlist,sys_bind_trace]
  cases hsent : o 0 (.send sd (reqPkt implXntpd reqMonGetlist)) with
  | none =>
    rw [hsent] at h
    cases h
  | some sent =>
    rw [hsent] at h
    cases sent with
    | false =>
      have hneg : (-1 : ℤ)=n := Option.some.inj h
      omega
    | true =>
      change ((getresponse sd implXntpd reqMonGetlist timeout >>= fun r =>
        if r.1≠0 then Prog.ret (-1) else Prog.ret (r.2 : ℤ)).result (o.drop 1))=_ at h
      have hret (r : ℤ × ℕ) : (if r.1≠0 then Prog.ret (-1) else Prog.ret (r.2 : ℤ) :
          Prog System ℤ)=Prog.ret (if r.1≠0 then -1 else (r.2 : ℤ)) := by
        split_ifs <;> rfl
      simp only [hret,Prog.result_bind,Prog.result_ret] at h
      obtain ⟨r,hr,hv⟩ := Option.bind_eq_some_iff.mp h
      have hv' := Option.some.inj hv
      by_cases hz : r.1=0
      · rw [if_neg (not_not.mpr hz)] at hv'
        refine ⟨?_,?_⟩
        · rw [hr]
          exact congrArg some (Prod.ext hz (by exact_mod_cast hv'))
        · change List.filterMap packetOf (Prog.trace (o.drop 1)
            (getresponse sd implXntpd reqMonGetlist timeout >>= fun r =>
              if r.1≠0 then Prog.ret (-1) else Prog.ret (r.2 : ℤ)))=_
          simp only [hret,Prog.trace_bind,hr,Option.elim_some,Prog.trace_ret,List.append_nil]
          rfl
      · rw [if_pos hz] at hv'
        omega

/-- A response that getresponse takes for complete is whole exactly when it ends at its
highest number; so it is for the peer counts that are reported. -/
theorem getresponse_whole_iff (sd : Fd) (timeout : ℤ) (o : Oracle System) (n : ℕ) :
    (∀ implcode reqcode : UInt8,
      (getresponse sd implcode reqcode timeout).result o=some (0,n) →
      ((∃ last,Whole (fragments implcode reqcode
          (receivedPackets implcode reqcode sd timeout o)) n last) ↔
        EndsHighest (fragments implcode reqcode
          (receivedPackets implcode reqcode sd timeout o)))) ∧
    ((monlist sd timeout).result o=some (n : ℤ) →
      ((∃ last,Whole (fragments implXntpd reqMonGetlist
          (((monlist sd timeout).trace o).filterMap packetOf)) n last) ↔
        EndsHighest (fragments implXntpd reqMonGetlist
          (((monlist sd timeout).trace o).filterMap packetOf)))) := by
  refine ⟨fun implcode reqcode h => whole_iff_endsHighest (getresponse_finished h),fun h => ?_⟩
  obtain ⟨hres,htr⟩ := monlist_getresponse h
  rw [htr]
  exact whole_iff_endsHighest (getresponse_finished hres)

/-- The payload of a packet, as far as the buffer of getresponse holds it. -/
abbrev Payload := { bs : List UInt8 // bs.length ≤ respPktSize }

/-- A socket at which these packets arrive one after the other and no more; the first calls
of a run come before the loop. -/
def deliver (fuel : ℕ) (pkts : List Payload) (before : ℕ) : Oracle System := fun n c =>
  match c with
  | .fuel => some fuel
  | .send _ _ => some true
  | .select _ _ => some (if (n-before)/2 < pkts.length then 1 else 0)
  | .recv _ m => (pkts[(n-before)/2]?).map fun pkt =>
    if h : pkt.val.length ≤ m then some ⟨pkt.val,h⟩ else none
  | _ => none

/-- A packet of eight bytes with a number and a count of items. -/
def packet (mode seq items : UInt8) : Payload :=
  ⟨[mode,seq,implXntpd,reqMonGetlist,0,items,0,32],by change 8 ≤ 508; decide⟩

/-- The end of the response comes first, and twice; the part before it comes last. -/
theorem getresponse_whole_iff_shuffled :
    (∃ last,Whole (fragments implXntpd reqMonGetlist (receivedPackets implXntpd reqMonGetlist 3 5
      (deliver 5 [packet 0x9f 2 4,packet 0xdf 0 3,packet 0x9f 2 9,packet 0xdf 1 2] 1))) 9 last) ∧
    ∃ last,Whole (fragments implXntpd reqMonGetlist (((monlist 3 5).trace
      (deliver 5 [packet 0x9f 2 4,packet 0xdf 0 3,packet 0x9f 2 9,packet 0xdf 1 2] 2)).filterMap
        packetOf)) 9 last := by
  have hparts : fragments implXntpd reqMonGetlist (receivedPackets implXntpd reqMonGetlist 3 5
      (deliver 5 [packet 0x9f 2 4,packet 0xdf 0 3,packet 0x9f 2 9,packet 0xdf 1 2] 1))=
        [⟨2,false,4,by decide⟩,⟨0,true,3,by decide⟩,⟨2,false,9,by decide⟩,
          ⟨1,true,2,by decide⟩] := by decide
  have hpeers : fragments implXntpd reqMonGetlist (((monlist 3 5).trace
      (deliver 5 [packet 0x9f 2 4,packet 0xdf 0 3,packet 0x9f 2 9,packet 0xdf 1 2] 2)).filterMap
        packetOf)=[⟨2,false,4,by decide⟩,⟨0,true,3,by decide⟩,⟨2,false,9,by decide⟩,
          ⟨1,true,2,by decide⟩] := by decide
  constructor
  · refine ((getresponse_whole_iff 3 5 (deliver 5 [packet 0x9f 2 4,packet 0xdf 0 3,
      packet 0x9f 2 9,packet 0xdf 1 2] 1) 9).1 implXntpd reqMonGetlist (by decide)).mpr (.inl ?_)
    rw [hparts]
    decide
  · refine ((getresponse_whole_iff 3 5 (deliver 5 [packet 0x9f 2 4,packet 0xdf 0 3,
      packet 0x9f 2 9,packet 0xdf 1 2] 2) 9).2 (by decide)).mpr (.inl ?_)
    rw [hpeers]
    decide

/-- Number 5, then number 1 as the last: two packets are enough for a response that ends at
number 1, and number 0 never came. -/
theorem first_fragment_missing :
    (getresponse 3 implXntpd reqMonGetlist 5).result
      (deliver 5 [packet 0xdf 5 3,packet 0x9f 1 2] 1)=some (0,5) ∧
    (monlist 3 5).result (deliver 5 [packet 0xdf 5 3,packet 0x9f 1 2] 2)=some 5 ∧
    ¬∃ last,Whole (fragments implXntpd reqMonGetlist (receivedPackets implXntpd reqMonGetlist 3 5
      (deliver 5 [packet 0xdf 5 3,packet 0x9f 1 2] 1))) 5 last := by
  refine ⟨by decide,by decide,?_⟩
  rintro ⟨last,hw⟩
  have hparts : fragments implXntpd reqMonGetlist (receivedPackets implXntpd reqMonGetlist 3 5
      (deliver 5 [packet 0xdf 5 3,packet 0x9f 1 2] 1))=
        [⟨5,true,3,by decide⟩,⟨1,false,2,by decide⟩] := by decide
  have hzero := (hw.counted 0).mpr (Nat.zero_le last)
  rw [mem_keys_counted,hparts] at hzero
  exact absurd hzero (by decide)

end Lbcd
