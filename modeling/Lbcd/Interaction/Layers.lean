import Lbcd.Interaction.World

namespace Interaction

variable {I J : Interface} {S : Type} {α β : Type}

theorem Run.trans {w : World I S} {s t u : S} {p q r : Prog I α} (h : Run w s p t q)
    (h' : Run w t q u r) : Run w s p u r := by
  induction h with
  | refl s p => exact h'
  | step hs rest ih => exact .step hs (ih h')

theorem Run.bind {w : World I S} {s t : S} {p q : Prog I α} (h : Run w s p t q)
    (f : α → Prog I β) : Run w s (p >>= f) t (q >>= f) := by
  induction h with
  | refl s p => exact .refl s (p >>= f)
  | step hs rest ih => exact .step hs ih

/-- A program whose first part returns goes on with the second. -/
theorem Run.seq {w : World I S} {s t u : S} {p : Prog I α} {f : α → Prog I β} {q : Prog I β}
    {a : α} (h : Run w s p t (.ret a)) (h' : Run w t (f a) u q) : Run w s (p >>= f) u q :=
  (h.bind f).trans h'

/-- What never changes along a step does not change along a run. -/
theorem Run.keeps {w : World I S} {inv : S → Prop}
    (hinv : ∀ s c r s',inv s → w.step s c r s' → inv s') {s t : S} {p q : Prog I α}
    (h : Run w s p t q) (hs : inv s) : inv t := by
  induction h with
  | refl s p => exact hs
  | step hstep rest ih => exact ih (hinv _ _ _ _ hs hstep)

/-- Where answers leave the state as it is, so does a program that is answered to its end. -/
theorem Run.of_result {w : World I S} {s : S} {o : Oracle I}
    (ho : ∀ n c r,o n c=some r → w.step s c r s) {p : Prog I α} {a : α}
    (h : p.result o=some a) : Run w s p s (.ret a) := by
  induction p generalizing o with
  | ret b =>
    cases h
    exact .refl s _
  | call c k ih =>
    rw [Prog.result_call] at h
    obtain ⟨r,hr,h⟩ := Option.bind_eq_some_iff.mp h
    apply Run.step (ho 0 c r hr)
    apply ih r _ h
    intro n c r hr
    exact ho (n+1) c r hr

/-- The events of a run are one of the world that records them; they are as the steps were. -/
theorem Run.recorded {w : World I S} {possible seen : (c : I.Call) → I.Reply c → Prop}
    (hw : ∀ s c r s',w.step s c r s' → possible c r ∧ seen c r) {s t : S} {p q : Prog I α}
    (h : Run w s p t q) (before : List (Event I)) :
    ∃ tr,Run (World.history possible) before p (before++tr) q ∧
      ∀ ev∈tr,∃ r,ev.reply=some r ∧ seen ev.call r := by
  induction h generalizing before with
  | refl s p =>
    refine ⟨[],?_,List.forall_mem_nil _⟩
    rw [List.append_nil]
    exact .refl before p
  | @step s s' t c k r q hs rest ih =>
    obtain ⟨hp,hseen⟩ := hw s c r s' hs
    obtain ⟨tr,hr,htr⟩ := ih (before++[⟨c,some r⟩])
    refine ⟨⟨c,some r⟩ :: tr,?_,List.forall_mem_cons.mpr ⟨⟨r,rfl,hseen⟩,htr⟩⟩
    rw [List.append_assoc] at hr
    exact .step ⟨hp,rfl⟩ hr

/-- A program that can return from any state and leave it as it is. -/
def Ends (w : World I S) (p : Prog I α) : Prop := ∀ s,∃ a,Run w s p s (.ret a)

theorem ends_ret (w : World I S) (a : α) : Ends w (.ret a) := fun s => ⟨a,.refl s _⟩

theorem Ends.step {w : World I S} {c : I.Call} {k : I.Reply c → Prog I α} {r : I.Reply c}
    (hs : ∀ s,w.step s c r s) (h : Ends w (k r)) : Ends w (.call c k) := by
  intro s
  obtain ⟨a,ha⟩ := h s
  exact ⟨a,.step (hs s) ha⟩

theorem Ends.bind {w : World I S} {p : Prog I α} {f : α → Prog I β} (h : Ends w p)
    (hf : ∀ a,Ends w (f a)) : Ends w (p >>= f) := by
  intro s
  obtain ⟨a,ha⟩ := h s
  obtain ⟨b,hb⟩ := hf a s
  exact ⟨b,ha.seq hb⟩

/-- A program that can come to another one, and can then return whatever that one does. -/
def Visits (w : World I S) (s : S) (p : Prog I α) (t : S) (q : Prog I β) : Prop :=
  ∃ k,Run w s p t (q >>= k) ∧ ∀ b,Ends w (k b)

theorem Visits.here {w : World I S} {s : S} {q : Prog I β} {f : β → Prog I α}
    (h : ∀ b,Ends w (f b)) : Visits w s (q >>= f) s q :=
  ⟨f,.refl s _,h⟩

theorem Visits.after {w : World I S} {s s' t : S} {p p' : Prog I α} {q : Prog I β}
    (hr : Run w s p s' p') (h : Visits w s' p' t q) : Visits w s p t q := by
  obtain ⟨k,hk,hret⟩ := h
  exact ⟨k,hr.trans hk,hret⟩

theorem Visits.step {w : World I S} {s s' t : S} {c : I.Call} {k : I.Reply c → Prog I α}
    {r : I.Reply c} {q : Prog I β} (hs : w.step s c r s') (h : Visits w s' (k r) t q) :
    Visits w s (.call c k) t q :=
  h.after (.step hs (.refl s' _))

theorem Visits.bind {γ : Type} {w : World I S} {s t : S} {p : Prog I α} {q : Prog I β}
    (h : Visits w s p t q) {f : α → Prog I γ} (hf : ∀ a,Ends w (f a)) :
    Visits w s (p >>= f) t q := by
  obtain ⟨k,hk,hret⟩ := h
  refine ⟨fun b => k b >>= f,?_,fun b => (hret b).bind hf⟩
  have hbind := hk.bind f
  rw [bind_assoc] at hbind
  exact hbind

theorem Visits.run {w : World I S} {s t : S} {p : Prog I α} {q : Prog I β}
    (h : Visits w s p t q) (hq : Ends w q) : ∃ a,Run w s p t (.ret a) := by
  obtain ⟨k,hk,hret⟩ := h
  obtain ⟨b,hb⟩ := hq t
  obtain ⟨a,ha⟩ := hret b t
  exact ⟨a,hk.trans (hb.seq ha)⟩

/-- The surroundings of a program whose calls are programs over the surroundings below. -/
def World.over (w : World J S) (impl : (c : I.Call) → Prog J (I.Reply c)) : World I S :=
  ⟨fun s c r s' => Run w s (impl c) s' (.ret r)⟩

/-- One more answer before the others. -/
def Oracle.cons [DecidableEq I.Call] (c : I.Call) (r : I.Reply c) (o : Oracle I) : Oracle I
  | 0,c' => if h : c=c' then some (h ▸ r) else none
  | n+1,c' => o n c'

/-- What a run returns it returns for some answers. -/
theorem Run.answered [DecidableEq I.Call] {w : World I S} {s t : S} {p : Prog I α} {a : α}
    (h : Run w s p t (.ret a)) : ∃ o,p.result o=some a := by
  induction p generalizing s with
  | ret b =>
    cases h
    exact ⟨Oracle.const fun _ => none,rfl⟩
  | call c k ih =>
    cases h with
    | @step _ s' _ _ _ r _ hs rest =>
      obtain ⟨o,ho⟩ := ih r rest
      refine ⟨Oracle.cons c r o,?_⟩
      have hfirst : Oracle.cons c r o 0 c=some r := dif_pos rfl
      rw [Prog.result_call,hfirst]
      exact ho

/-- A run of the upper layer is a run of the lower one. -/
theorem Run.expand {w : World J S} {impl : (c : I.Call) → Prog J (I.Reply c)} {s t : S}
    {p q : Prog I α} (h : Run (w.over impl) s p t q) :
    Run w s (p.expand impl) t (q.expand impl) := by
  induction h with
  | refl s p => exact .refl s _
  | step hs rest ih => exact Run.seq hs ih

/-- A run of a world whose states and steps map to those of another one is a run of that. -/
theorem Run.project {T : Type} {w : World I S} {v : World I T} (view : T → S)
    (hv : ∀ s c r t,v.step s c r t → w.step (view s) c r (view t)) {s t : T} {p q : Prog I α}
    (h : Run v s p t q) : Run w (view s) p (view t) q := by
  induction h with
  | refl s p => exact .refl _ p
  | step hs rest ih => exact .step (hv _ _ _ _ hs) ih

/-- What returns has returned from its first part. -/
theorem Run.split {w : World I S} {s t : S} {p : Prog I α} {f : α → Prog I β} {b : β}
    (h : Run w s (p >>= f) t (.ret b)) :
    ∃ u a,Run w s p u (.ret a) ∧ Run w u (f a) t (.ret b) := by
  induction p generalizing s with
  | ret a => exact ⟨s,a,.refl s _,h⟩
  | call c k ih =>
    rw [Prog.call_bind] at h
    cases h with
    | step hs rest =>
      obtain ⟨u,a,hp,hf⟩ := ih _ rest
      exact ⟨u,a,.step hs hp,hf⟩

/-- A run of the lower layer that returns is one of the upper layer. -/
theorem Run.collapse {w : World J S} {impl : (c : I.Call) → Prog J (I.Reply c)} {s t : S}
    {p : Prog I α} {a : α} (h : Run w s (p.expand impl) t (.ret a)) :
    Run (w.over impl) s p t (.ret a) := by
  induction p generalizing s with
  | ret b =>
    cases h
    exact .refl _ _
  | call c k ih =>
    obtain ⟨u,r,hc,hk⟩ := Run.split h
    exact .step hc (ih r hk)

namespace Prog

variable {w : World I S} {ok : S → I.Call → Prop}

theorem Safe.imp {ok' : S → I.Call → Prop} {post : S → α → Prop} {p : Prog I α} {s : S}
    (h : p.Safe w ok post s) (hi : ∀ t c,ok t c → ok' t c) : p.Safe w ok' post s := by
  induction p generalizing s with
  | ret a => exact h
  | call c k ih => exact ⟨hi s c h.1,fun r s' hs => ih r (h.2 r s' hs)⟩

/-- What a safe program returns, a run has returned. -/
theorem Safe.reached {post : S → α → Prop} {p : Prog I α} {s : S} (h : p.Safe w ok post s) :
    p.Safe w ok (fun t a => post t a ∧ Run w s p t (.ret a)) s := by
  induction p generalizing s with
  | ret a => exact ⟨h,.refl s _⟩
  | call c k ih =>
    refine ⟨h.1,?_⟩
    intro r s' hs
    apply (ih r (h.2 r s' hs)).mono
    intro t a ha
    exact ⟨ha.1,.step hs ha.2⟩

/-- A program that is safe in the upper layer is safe in the lower one, if what it calls is. -/
theorem Safe.expand {impl : (c : J.Call) → Prog I (J.Reply c)} {allowed : S → J.Call → Prop}
    {post : S → α → Prop} {p : Prog J α} {s : S} (h : p.Safe (w.over impl) allowed post s)
    (hi : ∀ s c,allowed s c → (impl c).Safe w ok (fun _ _ => True) s) :
    (p.expand impl).Safe w ok post s := by
  induction p generalizing s with
  | ret a => exact h
  | call c k ih =>
    rw [expand_call]
    apply (hi s c h.1).reached.bind
    intro t r hr
    exact ih r (h.2 r t hr.2)

end Prog
end Interaction
