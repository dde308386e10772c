import Lbcd.Connections

namespace Lbcd

open Interaction CText

/-- What the daemon does about its helper's process, with the answers. -/
inductive Deed where
  | forked (pid : ℕ)
  | unopened
  | waited (pid : ℕ) (st : WaitPid)
  | closed
  | killed (pid sig : ℕ) (ok : Option Bool)
  deriving DecidableEq

def deedOf : Event System → Option Deed
  | ⟨.fork,some (.parent pid)⟩ => some (.forked pid)
  | ⟨.fdopen _,some false⟩ => some .unopened
  | ⟨.waitpid pid,some st⟩ => some (.waited pid st)
  | ⟨.fclose _,some _⟩ => some .closed
  | ⟨.kill pid sig,ok⟩ => some (.killed pid sig ok)
  | _ => none

def deeds (tr : List (Event System)) : List Deed := tr.filterMap deedOf

def Deed.reaps (pid : ℕ) : Deed → Bool
  | .waited p (.exited _) => p=pid
  | .waited p (.signaled _) => p=pid
  | _ => false

/-- A signal goes to the child, is one that ends it, and the child has not been reaped. -/
def Deed.Aimed (before : List Deed) : Deed → Prop
  | .killed pid sig _ =>
    .forked pid∈before ∧ (sig=sigterm ∨ sig=sigkill) ∧ before.countP (Deed.reaps pid)=0
  | _ => True

def Aimed (before : List Deed) : List Deed → Prop
  | [] => True
  | d :: ds => d.Aimed before ∧ Aimed (before++[d]) ds

/-- A child is reaped exactly once before the return, unless waitpid has failed to report it
with an error other than EINTR, and nothing else is signalled. -/
structure ReapLaw (ds : List Deed) (returned : Bool) : Prop where
  reaped : returned → ∀ pid,.forked pid∈ds → ds.countP (Deed.reaps pid)=1 ∨
    ds.countP (Deed.reaps pid)=0 ∧ .waited pid (.failed false)∈ds
  aimed : Aimed [] ds

def Deed.verdict : Deed → Option WaitPid
  | .waited _ (.failed true) => none
  | .waited _ st => some st
  | _ => none

/-- The first answer of waitpid other than EINTR. -/
def verdict (ds : List Deed) : Option WaitPid := ds.findSome? Deed.verdict

/-- No signal is called for: the pipe was opened for reading, and the helper is not known
to have ended other than by an exit. -/
def Unneeded (ds : List Deed) : Prop :=
  .unopened∉ds ∧
    ∀ st,verdict ds=some st → (∃ n,st=.exited n) ∨ st=.failed false ∧ .closed∉ds

/-- The child's number is that of the signal, so that the order of the arguments does not
matter, and the one signal and one wait are enough. -/
def Lucky (ds : List Deed) : Prop :=
  .forked sigterm∈ds ∧
    (.unopened∈ds ∧ .waited sigterm (.failed true)∉ds ∨
      verdict ds=some (.failed false) ∧ ∀ pid sig,.killed pid sig (some false)∉ds)

/-- The law holds exactly if it should. -/
def Judged (ds : List Deed) (returned : Bool) : Prop :=
  ReapLaw ds returned ↔ Unneeded ds ∨ Lucky ds

theorem deeds_cons (e : Event System) (tr : List (Event System)) :
    deeds (e :: tr)=(deedOf e).toList++deeds tr := by
  rw [deeds,List.filterMap_cons]
  cases deedOf e with
  | none => rfl
  | some d => rfl

/-- Something holds of every run of a program, as to what it does after some deeds. -/
def Going {α : Type} (before : List Deed) (p : Prog System α)
    (post : List Deed → Option α → Prop) : Prop :=
  p.Every fun tr a => post (before++deeds tr) a

theorem going_ret {α : Type} {before : List Deed} {a : α} {post : List Deed → Option α → Prop}
    (h : post before (some a)) : Going before (Prog.ret a) post := by
  rw [Going,Prog.Every,deeds,List.filterMap_nil,List.append_nil]
  exact h

theorem going_call {α : Type} {before : List Deed} {c : SysCall} {k : c.Reply → Prog System α}
    {post : List Deed → Option α → Prop} (hnone : post (before++(deedOf ⟨c,none⟩).toList) none)
    (h : ∀ r : c.Reply,Going (before++(deedOf ⟨c,some r⟩).toList) (k r) post) :
    Going before (Prog.call (I := System) c k) post := by
  refine ⟨?_,fun r => (h r).mono fun tr a hp => ?_⟩
  · dsimp only
    rw [deeds_cons,deeds,List.filterMap_nil,List.append_nil]
    exact hnone
  · dsimp only
    rw [deeds_cons,← List.append_assoc]
    exact hp

theorem Going.bind {α β : Type} {before : List Deed} {p : Prog System α}
    {f : α → Prog System β} {middle : List Deed → Option α → Prop}
    {post : List Deed → Option β → Prop} (h : Going before p middle)
    (hnone : ∀ ds,middle ds none → post ds none)
    (hf : ∀ ds a,middle ds (some a) → Going ds (f a) post) : Going before (p >>= f) post := by
  refine Prog.Every.bind h (fun tr => hnone _) fun tr a hm => ?_
  refine (hf _ a hm).mono fun tr' b hp => ?_
  rw [deeds,List.filterMap_append,← List.append_assoc]
  exact hp

/-- The loop around waitpid leaves deeds behind only in this way. -/
theorem waitChild_going (child fuel n : ℕ) :
    Going (.forked child :: List.replicate n (.waited child (.failed true)))
      (waitChild child fuel) fun ds st => ∃ n,
        ds=.forked child :: (List.replicate n (.waited child (.failed true))++
          match st with
          | none => []
          | some none => [.waited child (.failed false)]
          | some (some st) => [.waited child st]) ∧
        ∀ eintr,st≠some (some (.failed eintr)) := by
  induction fuel generalizing n with
  | zero =>
    refine going_call ⟨n,rfl,?_⟩ fun r => r.elim
    exact fun _ => nofun
  | succ fuel ih =>
    refine going_call ⟨n,rfl,fun _ => nofun⟩ fun st => ?_
    cases st with
    | failed eintr =>
      cases eintr with
      | true =>
        have hnext := ih (n+1)
        rw [List.replicate_succ'] at hnext
        exact hnext
      | false => exact going_ret ⟨n,rfl,by simp⟩
    | exited status => exact going_ret ⟨n,rfl,by simp⟩
    | signaled sig => exact going_ret ⟨n,rfl,by simp⟩

theorem Aimed.congr {b b' ds : List Deed} (hf : ∀ pid,.forked pid∈b ↔ .forked pid∈b')
    (hr : ∀ pid,b.countP (Deed.reaps pid)=b'.countP (Deed.reaps pid)) :
    Aimed b ds ↔ Aimed b' ds := by
  induction ds generalizing b b' with
  | nil => rfl
  | cons d ds ih =>
    have hd : d.Aimed b ↔ d.Aimed b' := by
      cases d with
      | killed pid sig ok => rw [Deed.Aimed,Deed.Aimed,hf,hr]
      | _ => rfl
    refine and_congr hd (ih (fun pid => ?_) fun pid => ?_)
    · rw [List.mem_append,List.mem_append,hf]
    · rw [List.countP_append,List.countP_append,hr]

/-- What is done up to the end of the loop, and after it. -/
def history (child n : ℕ) (st : WaitPid) (after : List Deed) : List Deed :=
  .forked child :: (List.replicate n (.waited child (.failed true))++.waited child st :: after)

theorem mem_history {child n : ℕ} {st : WaitPid} {after : List Deed} {d : Deed}
    (hd : d≠.waited child (.failed true)) :
    d∈history child n st after ↔ d=.forked child ∨ d=.waited child st ∨ d∈after := by
  rw [history,List.mem_cons,List.mem_append,List.mem_cons,List.mem_replicate]
  have hnone : ¬(n≠0 ∧ d=.waited child (.failed true)) := fun h => hd h.2
  rw [or_iff_right hnone]

theorem verdict_history {child n : ℕ} {st : WaitPid} {after : List Deed}
    (hst : st≠.failed true) : verdict (history child n st after)=some st := by
  have hlast : Deed.verdict (.waited child st)=some st := by
    cases st with
    | failed eintr =>
      cases eintr with
      | true => exact absurd rfl hst
      | false => rfl
    | _ => rfl
  have hskip : List.findSome? Deed.verdict
      (List.replicate n (.waited child (.failed true)))=none := by
    rw [List.findSome?_eq_none_iff]
    intro d hd
    rw [List.eq_of_mem_replicate hd]
    rfl
  rw [verdict,history,List.findSome?_cons]
  change List.findSome? _ _=_
  rw [List.findSome?_append,hskip,List.findSome?_cons,hlast]
  rfl

theorem reaps_history (child n : ℕ) (st : WaitPid) (after : List Deed) (pid : ℕ) :
    (history child n st after).countP (Deed.reaps pid)=
      [Deed.waited child st].countP (Deed.reaps pid)+after.countP (Deed.reaps pid) := by
  have hskip : (List.replicate n (Deed.waited child (.failed true))).countP
      (Deed.reaps pid)=0 := by
    rw [List.countP_eq_zero]
    intro d hd
    rw [List.eq_of_mem_replicate hd]
    exact Bool.false_ne_true
  rw [history,List.countP_cons_of_neg Bool.false_ne_true,List.countP_append,hskip,Nat.zero_add,
    ← List.singleton_append,List.countP_append]

theorem aimed_forked {pid : ℕ} {b ds : List Deed} :
    Aimed b (.forked pid :: ds) ↔ Aimed (b++[.forked pid]) ds := Iff.of_eq (true_and _)

theorem aimed_unopened {b ds : List Deed} :
    Aimed b (.unopened :: ds) ↔ Aimed (b++[.unopened]) ds := Iff.of_eq (true_and _)

theorem aimed_waited {pid : ℕ} {st : WaitPid} {b ds : List Deed} :
    Aimed b (.waited pid st :: ds) ↔ Aimed (b++[.waited pid st]) ds := Iff.of_eq (true_and _)

theorem aimed_closed {b ds : List Deed} :
    Aimed b (.closed :: ds) ↔ Aimed (b++[.closed]) ds := Iff.of_eq (true_and _)

theorem aimed_killed {pid sig : ℕ} {ok : Option Bool} {b ds : List Deed} :
    Aimed b (.killed pid sig ok :: ds) ↔
      (.forked pid∈b ∧ (sig=sigterm ∨ sig=sigkill) ∧ b.countP (Deed.reaps pid)=0) ∧
        Aimed (b++[.killed pid sig ok]) ds := Iff.rfl

theorem aimed_interrupted {child : ℕ} {b ds : List Deed} :
    Aimed b (.waited child (.failed true) :: ds) ↔ Aimed b ds := by
  refine aimed_waited.trans (Aimed.congr (fun pid => ?_) fun pid => ?_)
  · rw [List.mem_append,List.mem_singleton,or_iff_left Deed.noConfusion]
  · rw [List.countP_append,List.countP_singleton]
    rfl

theorem aimed_history (child n : ℕ) (st : WaitPid) (after : List Deed) :
    Aimed [] (history child n st after) ↔ Aimed [.forked child,.waited child st] after := by
  rw [history,aimed_forked,List.nil_append]
  induction n with
  | zero => exact aimed_waited
  | succ n ih => rw [List.replicate_succ,List.cons_append,aimed_interrupted,ih]

/-- An exit is waited for once, and nothing is signalled. -/
theorem judged_exited (child n status : ℕ) {after : List Deed} (h : after=[] ∨ after=[.closed])
    (returned : Bool) : Judged (history child n (.exited status) after) returned := by
  have hun : Unneeded (history child n (.exited status) after) := by
    refine ⟨?_,fun st hst => Or.inl ⟨status,?_⟩⟩
    · rw [mem_history (by simp)]
      rcases h with rfl|rfl
      · simp
      · simp
    · rw [verdict_history (by simp)] at hst
      exact (Option.some.inj hst).symm
  refine iff_of_true ⟨fun _ pid hpid => Or.inl ?_,?_⟩ (Or.inl hun)
  · rw [mem_history (by simp)] at hpid
    have hpid' : pid=child := by
      rcases h with rfl|rfl
      · simpa using hpid
      · simpa using hpid
    rw [reaps_history]
    rcases h with rfl|rfl
    · simp [Deed.reaps,hpid']
    · simp [Deed.reaps,hpid']
  · rw [aimed_history]
    rcases h with rfl|rfl
    · trivial
    · exact aimed_closed.mpr trivial

/-- A helper that was killed has been reaped when the signals are sent. -/
theorem judged_signaled (child n sig : ℕ) (ok : Option Bool) {after : List Deed}
    (h : .unopened∉after) (returned : Bool) :
    Judged (history child n (.signaled sig) (.killed sigterm child ok :: after)) returned := by
  have hst : WaitPid.signaled sig≠.failed true := by simp
  refine iff_of_false (fun hlaw => ?_) ?_
  · have haim := (aimed_history child n (.signaled sig) _).mp hlaw.aimed
    rw [aimed_killed] at haim
    simp [Deed.reaps] at haim
    omega
  · rintro (hun|⟨-,⟨hopen,-⟩|⟨hv,-⟩⟩)
    · rcases hun.2 _ (verdict_history hst) with ⟨status,h⟩|⟨h,-⟩
      · simp at h
      · simp at h
    · rw [mem_history (by simp)] at hopen
      simp [h] at hopen
    · rw [verdict_history hst] at hv
      simp at hv

theorem judged_failing (child n : ℕ) :
    Judged (history child n (.failed false) []) false := by
  refine iff_of_true ⟨nofun,(aimed_history _ _ _ _).mpr trivial⟩ (Or.inl ⟨?_,fun st hst => ?_⟩)
  · rw [mem_history (by simp)]
    simp
  · rw [verdict_history (by simp)] at hst
    refine Or.inr ⟨(Option.some.inj hst).symm,?_⟩
    rw [mem_history (by simp)]
    simp

/-- The first signal goes to the child only by the child's number. -/
theorem aimed_term {child : ℕ} {b : List Deed} (hf : ∀ pid,.forked pid∈b ↔ pid=child)
    (hr : b.countP (Deed.reaps child)=0) (ok : Option Bool) {more : List Deed}
    (h : more=[] ∨ ∃ st,more=[.waited child st]) :
    Aimed b (.killed sigterm child ok :: more) ↔ child=sigterm := by
  rw [aimed_killed,hf]
  constructor
  · intro haim
    exact haim.1.1.symm
  · rintro rfl
    refine ⟨⟨rfl,Or.inl rfl,hr⟩,?_⟩
    rcases h with rfl|⟨st,rfl⟩
    · trivial
    · exact aimed_waited.mpr trivial

/-- After an error of waitpid there is one signal, if it does not fail, and one more wait. -/
theorem judged_failed (child n : ℕ) (ok : Option Bool) (hok : ok≠some false) {more : List Deed}
    (h : more=[] ∨ ∃ st,more=[.waited child st]) (returned : Bool) :
    Judged (history child n (.failed false) (.closed :: .killed sigterm child ok :: more))
      returned := by
  have hst : WaitPid.failed false≠.failed true := by simp
  have hforked (pid : ℕ) : .forked pid∈history child n (.failed false)
      (.closed :: .killed sigterm child ok :: more) ↔ pid=child := by
    rw [mem_history (by simp)]
    rcases h with rfl|⟨st,rfl⟩
    · simp
    · simp
  have haim : Aimed [] (history child n (.failed false)
      (.closed :: .killed sigterm child ok :: more)) ↔ child=sigterm := by
    rw [aimed_history,aimed_closed]
    exact aimed_term (fun pid => by simp) rfl ok h
  constructor
  · intro hlaw
    refine Or.inr ⟨(hforked _).mpr (haim.mp hlaw.aimed).symm,
      Or.inr ⟨verdict_history hst,fun pid sig => ?_⟩⟩
    rw [mem_history (by simp)]
    rcases h with rfl|⟨st,rfl⟩
    · simp [hok.symm]
    · simp [hok.symm]
  · rintro (hun|⟨hterm,-⟩)
    · rcases hun.2 _ (verdict_history hst) with ⟨status,h⟩|⟨-,h⟩
      · simp at h
      · rw [mem_history (by simp)] at h
        simp at h
    · refine ⟨fun _ pid hpid => ?_,haim.mpr ((hforked _).mp hterm).symm⟩
      have hpid' := (hforked pid).mp hpid
      subst hpid'
      have hfailed : Deed.waited pid (.failed false)∈history pid n (.failed false)
          (.closed :: .killed sigterm pid ok :: more) := by
        rw [mem_history (by simp)]
        simp
      rw [reaps_history]
      rcases h with rfl|⟨st,rfl⟩
      · exact Or.inr ⟨rfl,hfailed⟩
      · cases st with
        | failed eintr => exact Or.inr ⟨rfl,hfailed⟩
        | exited status => exact Or.inl (by simp [Deed.reaps])
        | signaled sig => exact Or.inl (by simp [Deed.reaps])

theorem judged_failed_twice (child n : ℕ) (ok : Option Bool) {more : List Deed}
    (h : .unopened∉more) (returned : Bool) :
    Judged (history child n (.failed false)
      (.closed :: .killed sigterm child (some false) :: .killed sigkill child ok :: more))
      returned := by
  have hst : WaitPid.failed false≠.failed true := by simp
  refine iff_of_false (fun hlaw => ?_) ?_
  · have haim := (aimed_history child n (.failed false) _).mp hlaw.aimed
    rw [aimed_closed,aimed_killed,aimed_killed] at haim
    have hterm : sigterm=child := by simpa using haim.1.1
    have hkill : sigkill=child := by simpa using haim.2.1.1
    exact absurd (hterm.trans hkill.symm) (by decide)
  · rintro (hun|⟨-,⟨hopen,-⟩|⟨-,hok⟩⟩)
    · rcases hun.2 _ (verdict_history hst) with ⟨status,h⟩|⟨-,h⟩
      · simp at h
      · rw [mem_history (by simp)] at h
        simp at h
    · rw [mem_history (by simp)] at hopen
      simp [h] at hopen
    · apply hok sigterm child
      rw [mem_history (by simp)]
      simp

theorem aimed_unopened_killed (child : ℕ) (ok : Option Bool) {more : List Deed}
    (h : more=[] ∨ ∃ st,more=[.waited child st]) :
    Aimed [] (.forked child :: .unopened :: .killed sigterm child ok :: more) ↔
      child=sigterm := by
  rw [aimed_forked,aimed_unopened]
  exact aimed_term (fun pid => by simp) rfl ok h

/-- Without the stream there is one signal. -/
theorem judged_unopened (child : ℕ) (ok : Option Bool) :
    Judged [.forked child,.unopened,.killed sigterm child ok] false := by
  have haim := aimed_unopened_killed child ok (Or.inl rfl)
  constructor
  · intro hlaw
    have hc := haim.mp hlaw.aimed
    exact Or.inr ⟨by simp [hc],Or.inl ⟨by simp,by simp⟩⟩
  · rintro (hun|⟨hforked,-⟩)
    · exact absurd (by simp) hun.1
    · exact ⟨nofun,haim.mpr (by simpa using hforked : sigterm=child).symm⟩

/-- Without the stream there is also one wait, which an interrupt ends. -/
theorem judged_unopened_waited (child : ℕ) (ok : Option Bool) (st : WaitPid) :
    Judged [.forked child,.unopened,.killed sigterm child ok,.waited child st] true := by
  have haim := aimed_unopened_killed child ok (Or.inr ⟨st,rfl⟩)
  by_cases hst : st=.failed true
  · subst hst
    refine iff_of_false (fun hlaw => ?_) ?_
    · rcases hlaw.reaped rfl child (by simp) with h|⟨-,h⟩
      · simp [Deed.reaps] at h
      · simp at h
    · rintro (hun|⟨hforked,⟨-,hw⟩|⟨hv,-⟩⟩)
      · exact absurd (by simp) hun.1
      · have hc : sigterm=child := by simpa using hforked
        exact hw (by simp [hc])
      · exact absurd hv (nofun : (none : Option WaitPid)≠some (.failed false))
  · constructor
    · intro hlaw
      have hc := haim.mp hlaw.aimed
      exact Or.inr ⟨by simp [hc],Or.inl ⟨by simp,by simp [Ne.symm hst]⟩⟩
    · rintro (hun|⟨hforked,-⟩)
      · exact absurd (by simp) hun.1
      · refine ⟨fun _ pid hpid => ?_,haim.mpr (by simpa using hforked : sigterm=child).symm⟩
        have hpid' : pid=child := by simpa using hpid
        subst hpid'
        cases st with
        | failed eintr =>
          cases eintr with
          | true => exact absurd rfl hst
          | false => exact Or.inr ⟨by simp [Deed.reaps],by simp⟩
        | exited status => exact Or.inl (by simp [Deed.reaps])
        | signaled sig => exact Or.inl (by simp [Deed.reaps])

theorem judged_idle (returned : Bool) : Judged [] returned := by
  refine iff_of_true ⟨fun _ pid h => absurd h List.not_mem_nil,trivial⟩ (Or.inl ⟨?_,nofun⟩)
  exact List.not_mem_nil

theorem judged_waiting (child n : ℕ) :
    Judged (.forked child :: List.replicate n (.waited child (.failed true))) false := by
  have hskip (d : Deed) (hd : d∈List.replicate n (.waited child (.failed true))) :
      d=.waited child (.failed true) := List.eq_of_mem_replicate hd
  refine iff_of_true ⟨nofun,?_⟩ (Or.inl ⟨fun h => ?_,fun st hst => ?_⟩)
  · rw [aimed_forked,List.nil_append]
    induction n with
    | zero => trivial
    | succ n ih =>
      rw [List.replicate_succ,aimed_interrupted]
      exact ih fun d hd => hskip d (List.mem_cons_of_mem _ hd)
  · rcases List.mem_cons.mp h with h|h
    · exact Deed.noConfusion h
    · exact Deed.noConfusion (hskip _ h)
  · obtain ⟨d,hd,hv⟩ := List.exists_of_findSome?_eq_some hst
    rcases List.mem_cons.mp hd with rfl|hd
    · simp [Deed.verdict] at hv
    · rw [hskip d hd] at hv
      simp [Deed.verdict] at hv

theorem going_history {α : Type} {child n : ℕ} {st : WaitPid} {after : List Deed} {c : SysCall}
    {k : c.Reply → Prog System α} {post : List Deed → Option α → Prop}
    (hnone : post (history child n st (after++(deedOf ⟨c,none⟩).toList)) none)
    (h : ∀ r : c.Reply,
      Going (history child n st (after++(deedOf ⟨c,some r⟩).toList)) (k r) post) :
    Going (history child n st after) (Prog.call (I := System) c k) post := by
  have happ (more : List Deed) :
      history child n st after++more=history child n st (after++more) := by
    rw [history,history,List.cons_append,List.append_assoc,List.cons_append]
  refine going_call ?_ fun r => ?_
  · rw [happ]
    exact hnone
  · rw [happ]
    exact h r

theorem afterWait_going (r : Fd) (child n : ℕ) (st : Option WaitPid)
    (hst : ∀ eintr,st≠some (.failed eintr)) :
    Going (history child n (st.getD (.failed false)) []) (afterWait r child st)
      fun ds a => Judged ds a.isSome := by
  cases st with
  | none =>
    refine going_history (judged_failing child n) fun _ => ?_
    refine going_history (judged_failed child n none (by simp) (Or.inl rfl) _) fun ok => ?_
    cases ok with
    | true =>
      refine going_history (judged_failed child n (some true) (by simp) (Or.inl rfl) _) fun st => ?_
      exact going_ret (judged_failed child n (some true) (by simp) (Or.inr ⟨st,rfl⟩) _)
    | false =>
      refine going_history (judged_failed_twice child n none List.not_mem_nil _) fun ok => ?_
      refine going_history
        (judged_failed_twice child n (some ok) List.not_mem_nil _) fun st => ?_
      exact going_ret (judged_failed_twice child n (some ok) (by simp [deedOf]) _)
  | some st =>
    cases st with
    | failed eintr => exact absurd rfl (hst eintr)
    | exited status =>
      have hnil (returned : Bool) : Judged (history child n (.exited status) []) returned :=
        judged_exited child n status (Or.inl rfl) returned
      have hclosed (returned : Bool) :
          Judged (history child n (.exited status) [.closed]) returned :=
        judged_exited child n status (Or.inr rfl) returned
      cases status with
      | zero =>
        refine going_history (hnil _) fun line => going_history (hnil _) fun _ => ?_
        cases line with
        | none => exact going_ret (hclosed _)
        | some buf => exact going_ret (hclosed _)
      | succ status => exact going_history (hnil _) fun _ => going_ret (hclosed _)
    | signaled sig =>
      refine going_history (judged_signaled child n sig none List.not_mem_nil _) fun ok => ?_
      cases ok with
      | true =>
        refine going_history
          (judged_signaled child n sig (some true) List.not_mem_nil _) fun _ => ?_
        exact going_ret (judged_signaled child n sig (some true) (by simp [deedOf]) _)
      | false =>
        refine going_history
          (judged_signaled child n sig (some false) (by simp [deedOf]) _) fun ok => ?_
        refine going_history
          (judged_signaled child n sig (some false) (by simp [deedOf]) _) fun _ => ?_
        exact going_ret (judged_signaled child n sig (some false) (by simp [deedOf]) _)

theorem cmdParent_going (r w : Fd) (child : ℕ) :
    Going [.forked child] (cmdParent r w child) fun ds a => Judged ds a.isSome := by
  have hidle : Judged [.forked child] false := judged_waiting child 0
  refine going_call hidle fun _ => going_call hidle fun fp => ?_
  cases fp with
  | false =>
    refine going_call (judged_unopened child none) fun ok => ?_
    refine going_call (judged_unopened child (some ok)) fun st => ?_
    exact going_ret (judged_unopened_waited child (some ok) st)
  | true =>
    refine going_call hidle fun fuel => ?_
    refine (waitChild_going child fuel 0).bind ?_ ?_
    · rintro ds ⟨n,rfl,-⟩
      rw [List.append_nil]
      exact judged_waiting child n
    · rintro ds st ⟨n,rfl,hst⟩
      have hgo := afterWait_going r child n st fun eintr h => hst eintr (h ▸ rfl)
      cases st with
      | none => exact hgo
      | some st => exact hgo

theorem cmdChild_going {α : Type} (cmd : Option CStr) (r w : Fd) :
    Going [] (cmdChild cmd r w : Prog System α) fun ds a => Judged ds a.isSome := by
  have hexec : Going [] (do
      let _ : Unit ← sys (.execl cmd)
      let never : Empty ← sys (.exit 1)
      never.elim : Prog System α) fun ds a => Judged ds a.isSome :=
    going_call (judged_idle _) fun _ => going_call (judged_idle _) fun never => never.elim
  refine going_call (judged_idle _) fun _ => going_call (judged_idle _) fun _ => ?_
  by_cases hw : w≠1
  · rw [if_pos hw]
    exact going_call (judged_idle _) fun _ => going_call (judged_idle _) fun _ => hexec
  · rw [if_neg hw]
    exact hexec

theorem lbcdCmdWeight_going (g : WeightGlobals) (slot : Slot) (timeout : ℤ)
    (portarg : Option CStr) (lb : LbcdReply) :
    Going [] (lbcdCmdWeight g slot timeout portarg lb) fun ds a => Judged ds a.isSome := by
  have hrun : Going [] (runCmd g.lbcdCommand) fun ds a => Judged ds a.isSome := by
    rw [runCmd_eq]
    refine going_call (judged_idle _) fun fds => ?_
    match fds with
    | none => exact going_ret (judged_idle _)
    | some (r,w) =>
      refine going_call (judged_idle _) fun forked => ?_
      cases forked with
      | failed => exact going_ret (judged_idle _)
      | child => exact cmdChild_going _ r w
      | parent child => exact cmdParent_going r w child
  refine hrun.bind (fun ds h => h) fun ds pair h => ?_
  cases pair with
  | none => exact going_ret h
  | some pair => exact going_ret h

/-- In any run the helper is reaped exactly once and nothing else is signalled if and only if
no signal was called for, or the child's number happened to be that of the signal. -/
theorem lbcdCmdWeight_reaps_iff (g : WeightGlobals) (slot : Slot) (timeout : ℤ)
    (portarg : Option CStr) (lb : LbcdReply) (o : Oracle System) :
    ReapLaw (deeds ((lbcdCmdWeight g slot timeout portarg lb).trace o))
        ((lbcdCmdWeight g slot timeout portarg lb).result o).isSome ↔
      Unneeded (deeds ((lbcdCmdWeight g slot timeout portarg lb).trace o)) ∨
        Lucky (deeds ((lbcdCmdWeight g slot timeout portarg lb).trace o)) :=
  (lbcdCmdWeight_going g slot timeout portarg lb).run o

/-- The helper crashes. The kernel has no signal 100. -/
def crashedHelper : Oracle System := Oracle.const fun c =>
  match c with
  | .pipe => some (some (3,4))
  | .fork => some (.parent 100)
  | .close _ => some ()
  | .fdopen _ => some true
  | .fuel => some 1
  | .waitpid _ => some (.signaled 11)
  | .kill _ _ => some false
  | .fclose _ => some ()
  | _ => none

/-- The processes 15 and 9 are signalled, and the helper is gone already. -/
theorem crashed_helper_signals :
    deeds ((lbcdCmdWeight .initial 0 5 none default).trace crashedHelper)=
        [.forked 100,.waited 100 (.signaled 11),.killed 15 100 (some false),
          .killed 9 100 (some false),.closed] ∧
      ¬ReapLaw (deeds ((lbcdCmdWeight .initial 0 5 none default).trace crashedHelper))
        ((lbcdCmdWeight .initial 0 5 none default).result crashedHelper).isSome := by
  refine ⟨rfl,fun hlaw => ?_⟩
  have haim : Aimed [] [.forked 100,.waited 100 (.signaled 11),.killed 15 100 (some false),
    .killed 9 100 (some false),.closed] := hlaw.aimed
  rw [aimed_forked,aimed_waited,aimed_killed] at haim
  exact absurd haim.1.1 (by decide)

end Lbcd
