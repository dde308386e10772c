import Lbcd.Interaction.Logic

namespace Interaction

/-- What the surroundings do at a call: the replies they can give, and the states
these leave them in. -/
structure World (I : Interface) (S : Type) where
  step : S → (c : I.Call) → I.Reply c → S → Prop

variable {I J : Interface} {S : Type} {α β : Type}

/-- A run of a program up to some call, with the states at both ends and what is left
of the program. -/
inductive Run (w : World I S) : S → Prog I α → S → Prog I α → Prop where
  | refl (s : S) (p : Prog I α) : Run w s p s p
  | step {s s' t : S} {c : I.Call} {k : I.Reply c → Prog I α} {r : I.Reply c} {q : Prog I α}
      (h : w.step s c r s') (rest : Run w s' (k r) t q) : Run w s (.call c k) t q

/-- The runs of a world in which every step meets a condition. -/
def World.restrict (w : World I S) (cond : S → I.Call → Prop) : World I S :=
  ⟨fun s c r s' => cond s c ∧ w.step s c r s'⟩

/-- The world that records every event and gives the possible replies. -/
def World.history (possible : (c : I.Call) → I.Reply c → Prop) : World I (List (Event I)) :=
  ⟨fun h c r h' => possible c r ∧ h'=h++[⟨c,some r⟩]⟩

/-- The events of a recorded run are those before it, and then calls with possible replies. -/
theorem Run.possible {possible : (c : I.Call) → I.Reply c → Prop} {h h' : List (Event I)}
    {p q : Prog I α} (hr : Run (World.history possible) h p h' q) :
    ∃ tr,h'=h++tr ∧ ∀ ev∈tr,∃ r,ev.reply=some r ∧ possible ev.call r := by
  induction hr with
  | refl s p => exact ⟨[],(List.append_nil s).symm,List.forall_mem_nil _⟩
  | @step s s' t c k r q hs rest ih =>
    obtain ⟨hp,rfl⟩ := hs
    obtain ⟨tr,rfl,htr⟩ := ih
    exact ⟨⟨c,some r⟩ :: tr,List.append_assoc s _ tr,List.forall_mem_cons.mpr ⟨⟨r,rfl,hp⟩,htr⟩⟩

namespace Prog

/-- The state and the program after a number of calls that are answered like this, as far
as the surroundings follow. -/
def walk (next : S → (c : I.Call) → I.Reply c → Option S) :
    ℕ → Oracle I → S → Prog I α → S × Prog I α
  | 0,_,s,p => (s,p)
  | _+1,_,s,ret a => (s,ret a)
  | n+1,o,s,call c k =>
    match o 0 c with
    | none => (s,call c k)
    | some r =>
      match next s c r with
      | none => (s,call c k)
      | some s' => (k r).walk next n (o.drop 1) s'

theorem run_walk {w : World I S} {next : S → (c : I.Call) → I.Reply c → Option S}
    (hn : ∀ s c r s',next s c r=some s' → w.step s c r s') (n : ℕ) (o : Oracle I) (s : S)
    (p : Prog I α) : Run w s p (p.walk next n o s).1 (p.walk next n o s).2 := by
  induction n generalizing o s p with
  | zero => exact .refl s p
  | succ n ih =>
    cases p with
    | ret a => exact .refl s _
    | call c k =>
      rw [walk]
      cases o 0 c with
      | none => exact .refl s _
      | some r =>
        dsimp only
        cases hs : next s c r with
        | none => exact .refl s _
        | some s' => exact .step (hn s c r s' hs) (ih (o.drop 1) s' (k r))

/-- Whatever the surroundings do, every call is in order at the state it is made in, and
every value the program returns is as promised. -/
def Safe (w : World I S) (ok : S → I.Call → Prop) (post : S → α → Prop) : Prog I α → S → Prop
  | ret a,s => post s a
  | call c k,s => ok s c ∧ ∀ r s',w.step s c r s' → (k r).Safe w ok post s'

variable {w : World I S} {ok : S → I.Call → Prop}

theorem Safe.mono {post post' : S → α → Prop} {p : Prog I α} {s : S}
    (h : p.Safe w ok post s) (hi : ∀ t a,post t a → post' t a) : p.Safe w ok post' s := by
  induction p generalizing s with
  | ret a => exact hi s a h
  | call c k ih => exact ⟨h.1,fun r s' hs => ih r (h.2 r s' hs)⟩

theorem Safe.bind {mid : S → α → Prop} {post : S → β → Prop} {p : Prog I α}
    {f : α → Prog I β} {s : S} (h : p.Safe w ok mid s)
    (hf : ∀ t a,mid t a → (f a).Safe w ok post t) : (p >>= f).Safe w ok post s := by
  induction p generalizing s with
  | ret a => exact hf s a h
  | call c k ih => exact ⟨h.1,fun r s' hs => ih r (h.2 r s' hs)⟩

/-- What is left of a safe program is safe. -/
theorem Safe.run {post : S → α → Prop} {p q : Prog I α} {s t : S} (h : p.Safe w ok post s)
    (hr : Run w s p t q) : q.Safe w ok post t := by
  induction hr with
  | refl s p => exact h
  | step hs rest ih => exact ih (h.2 _ _ hs)

/-- Calls that keep an invariant are in order as long as it holds. -/
theorem Meets.safe {allowed : I.Call → Prop} {inv : S → Prop} {post : α → Prop} {p : Prog I α}
    (h : p.Meets allowed post) (hok : ∀ s c,inv s → allowed c → ok s c)
    (hinv : ∀ s c r s',inv s → allowed c → w.step s c r s' → inv s') {s : S} (hs : inv s) :
    p.Safe w ok (fun t a => inv t ∧ post a) s := by
  induction p generalizing s with
  | ret a => exact ⟨hs,h⟩
  | call c k ih =>
    exact ⟨hok s c hs h.1,fun r s' hr => ih r (h.2 r) (hinv s c r s' hs h.1 hr)⟩

/-- A program over safe implementations of the calls it can make is safe. -/
theorem Meets.expand {impl : (c : J.Call) → Prog I (J.Reply c)} {allowed : J.Call → Prop}
    {inv : S → Prop} {post : α → Prop} {p : Prog J α} (h : p.Meets allowed post)
    (himpl : ∀ c s,inv s → allowed c → (impl c).Safe w ok (fun t _ => inv t) s) {s : S}
    (hs : inv s) : (p.expand impl).Safe w ok (fun t a => inv t ∧ post a) s := by
  induction p generalizing s with
  | ret a => exact ⟨hs,h⟩
  | call c k ih => exact (himpl c s hs h.1).bind fun t r ht => ih r (h.2 r) ht

/-- Every call of a run is in order after the events before it. -/
theorem Safe.trace {possible : (c : I.Call) → I.Reply c → Prop}
    {ok : List (Event I) → I.Call → Prop} {post : List (Event I) → α → Prop} {p : Prog I α}
    {h : List (Event I)} (hp : p.Safe (World.history possible) ok post h) (o : Oracle I)
    (ho : ∀ n c r,o n c=some r → possible c r) (i : Fin (p.trace o).length) :
    ok (h++(p.trace o).take i) (p.trace o)[i].call := by
  induction p generalizing h o with
  | ret a => exact i.elim0
  | call c k ih =>
    obtain ⟨i,hi⟩ := i
    cases i with
    | zero =>
      have hfirst := hp.1
      rw [← List.append_nil h] at hfirst
      exact hfirst
    | succ i =>
      cases hr : o 0 c with
      | none =>
        rw [trace_call,hr] at hi
        exact absurd hi (by simp)
      | some r =>
        have hrest := hp.2 r _ ⟨ho 0 c r hr,rfl⟩
        have htrace : (call c k).trace o=⟨c,some r⟩ :: (k r).trace (o.drop 1) := by
          rw [trace_call,hr]
          rfl
        have hi' : i < ((k r).trace (o.drop 1)).length := by
          rw [htrace,List.length_cons] at hi
          omega
        have hlast := ih r hrest (o.drop 1) (fun n => ho (n+1)) ⟨i,hi'⟩
        simp only [htrace,Fin.getElem_fin,List.take_succ_cons,List.getElem_cons_succ] at hlast ⊢
        rw [List.append_assoc] at hlast
        exact hlast

/-- A run that returns has come to what was promised. -/
theorem Safe.result {possible : (c : I.Call) → I.Reply c → Prop}
    {ok : List (Event I) → I.Call → Prop} {post : List (Event I) → α → Prop} {p : Prog I α}
    {h : List (Event I)} (hp : p.Safe (World.history possible) ok post h) (o : Oracle I)
    (ho : ∀ n c r,o n c=some r → possible c r) {a : α} (ha : p.result o=some a) :
    post (h++p.trace o) a := by
  induction p generalizing h o with
  | ret b =>
    cases ha
    rw [trace_ret,List.append_nil]
    exact hp
  | call c k ih =>
    rw [result_call] at ha
    obtain ⟨r,hr,ha⟩ := Option.bind_eq_some_iff.mp ha
    have hk := ih r (hp.2 r _ ⟨ho 0 c r hr,rfl⟩) (o.drop 1) (fun n => ho (n+1)) ha
    rw [List.append_assoc] at hk
    rw [trace_call,hr]
    exact hk

end Prog
end Interaction
