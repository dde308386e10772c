import Lbcd.Interaction.World

namespace Interaction

/-- Calls that act on a state of the program's own; none is a call that goes wrong. -/
structure Effect (S : Type) extends Interface where
  run : (c : Call) → S → Option (Reply c × S)

/-- The calls of an effect beside those of the surroundings. -/
abbrev Effect.over {S : Type} (E : Effect S) (I : Interface) : Interface :=
  ⟨E.Call ⊕ I.Call,Sum.elim E.Reply I.Reply⟩

/-- The effect does what it does; the surroundings reply whatever they like. -/
def Effect.world {S : Type} (E : Effect S) (I : Interface) : World (E.over I) S where
  step s c r s' :=
    match c,r with
    | .inl c,r => E.run c s=some (r,s')
    | .inr _,_ => s'=s

namespace Prog

variable {S : Type} {E : Effect S} {I : Interface} {α β γ δ : Type}

/-- A call of the effect. -/
def own (I : Interface) (c : E.Call) : Prog (E.over I) (E.Reply c) :=
  call (I := E.over I) (.inl c) ret

/-- A program that does not use the effect. -/
def outer (E : Effect S) (p : Prog I α) : Prog (E.over I) α :=
  p.expand fun c => call (I := E.over I) (.inr c) ret

/-- The program over the surroundings alone, with the effect run on its state; none from where a
call of the effect goes wrong. -/
def handle : S → Prog (E.over I) α → Prog I (Option (α × S))
  | s,ret a => ret (some (a,s))
  | s,call (.inl c) k =>
    match E.run c s with
    | none => ret none
    | some (r,s') => (k r).handle s'
  | s,call (.inr c) k => call c fun r => (k r).handle s

/-- A program that makes the same calls of the surroundings as another one, each where it is in
order, uses its effect rightly, and ends like the other one. -/
def Shadows (ok : S → I.Call → Prop) (post : S → α → β → Prop) :
    S → Prog (E.over I) α → Prog I β → Prop
  | s,ret a,q => ∃ b,q=ret b ∧ post s a b
  | s,call (.inl c) k,q => ∃ r s',E.run c s=some (r,s') ∧ (k r).Shadows ok post s' q
  | s,call (.inr c) k,q => ok s c ∧ ∃ k',q=call c k' ∧ ∀ r,(k r).Shadows ok post s (k' r)

variable {ok : S → I.Call → Prop}

theorem Shadows.mono {post post' : S → α → β → Prop} {s : S} {p : Prog (E.over I) α}
    {q : Prog I β} (h : p.Shadows ok post s q) (hi : ∀ t a b,post t a b → post' t a b) :
    p.Shadows ok post' s q := by
  induction p generalizing s q with
  | ret a =>
    obtain ⟨b,hq,hb⟩ := h
    exact ⟨b,hq,hi s a b hb⟩
  | call c k ih =>
    cases c with
    | inl c =>
      obtain ⟨r,s',hr,hk⟩ := h
      exact ⟨r,s',hr,ih r hk⟩
    | inr c =>
      obtain ⟨hok,k',hq,hk⟩ := h
      exact ⟨hok,k',hq,fun r => ih r (hk r)⟩

theorem Shadows.bind {mid : S → α → β → Prop} {post : S → γ → δ → Prop} {s : S}
    {p : Prog (E.over I) α} {q : Prog I β} {f : α → Prog (E.over I) γ} {g : β → Prog I δ}
    (h : p.Shadows ok mid s q)
    (hf : ∀ t a b,mid t a b → (f a).Shadows ok post t (g b)) :
    (p >>= f).Shadows ok post s (q >>= g) := by
  induction p generalizing s q with
  | ret a =>
    obtain ⟨b,rfl,hb⟩ := h
    exact hf s a b hb
  | call c k ih =>
    cases c with
    | inl c =>
      obtain ⟨r,s',hr,hk⟩ := h
      exact ⟨r,s',hr,ih r hk⟩
    | inr c =>
      obtain ⟨hok,k',rfl,hk⟩ := h
      exact ⟨hok,fun r => k' r >>= g,rfl,fun r => ih r (hk r)⟩

/-- What follows on one side only ends like the other program. -/
theorem Shadows.bind_left {mid : S → α → β → Prop} {post : S → γ → β → Prop} {s : S}
    {p : Prog (E.over I) α} {q : Prog I β} {f : α → Prog (E.over I) γ}
    (h : p.Shadows ok mid s q) (hf : ∀ t a b,mid t a b → (f a).Shadows ok post t (pure b)) :
    (p >>= f).Shadows ok post s q := by
  rw [← bind_pure q]
  exact h.bind hf

theorem Shadows.bind_right {mid : S → α → β → Prop} {post : S → α → δ → Prop} {s : S}
    {p : Prog (E.over I) α} {q : Prog I β} {g : β → Prog I δ}
    (h : p.Shadows ok mid s q)
    (hg : ∀ t a b,mid t a b → (pure a : Prog (E.over I) α).Shadows ok post t (g b)) :
    p.Shadows ok post s (q >>= g) := by
  rw [← bind_pure p]
  exact h.bind hg

/-- A call of the effect that goes right. -/
theorem shadows_own {post : S → α → β → Prop} {s s' : S} {c : E.Call} {r : E.Reply c}
    {k : E.Reply c → Prog (E.over I) α} {q : Prog I β} (hr : E.run c s=some (r,s'))
    (hk : (k r).Shadows ok post s' q) : (own I c >>= k).Shadows ok post s q :=
  ⟨r,s',hr,hk⟩

/-- A program that does not use the effect shadows itself. -/
theorem Meets.shadows {s : S} {p : Prog I α} {post : α → Prop} (h : p.Meets (ok s) post) :
    (outer E p).Shadows ok (fun t a b => t=s ∧ a=b ∧ post b) s p := by
  induction p with
  | ret a => exact ⟨a,rfl,rfl,rfl,h⟩
  | call c k ih => exact ⟨h.1,k,rfl,fun r => ih r (h.2 r)⟩

/-- With its effect handled, the program runs as the one that it shadows. -/
theorem Shadows.handled {post : S → α → β → Prop} {s : S} {p : Prog (E.over I) α}
    {q : Prog I β} (h : p.Shadows ok post s q) (o : Oracle I) :
    (p.handle s).trace o=q.trace o ∧
      Option.Rel (fun x b => ∃ a t,x=some (a,t) ∧ post t a b) ((p.handle s).result o)
        (q.result o) := by
  induction p generalizing s q o with
  | ret a =>
    obtain ⟨b,rfl,hb⟩ := h
    exact ⟨rfl,Option.Rel.some ⟨a,s,rfl,hb⟩⟩
  | call c k ih =>
    cases c with
    | inl c =>
      obtain ⟨r,s',hr,hk⟩ := h
      rw [handle,hr]
      exact ih r hk o
    | inr c =>
      obtain ⟨-,k',rfl,hk⟩ := h
      rw [handle,trace_call,trace_call,result_call,result_call]
      cases hr : o 0 c with
      | none => exact ⟨rfl,Option.Rel.none⟩
      | some r =>
        obtain ⟨htrace,hresult⟩ := ih r (hk r) (o.drop 1)
        exact ⟨congrArg _ htrace,hresult⟩

/-- Wherever a run has come to, what is left shadows what is left of the other program. -/
theorem Shadows.run {post : S → α → β → Prop} {s t : S} {p p' : Prog (E.over I) α}
    {q : Prog I β} (h : p.Shadows ok post s q) (hr : Run (E.world I) s p t p') :
    ∃ q',p'.Shadows ok post t q' := by
  induction hr generalizing q with
  | refl s p => exact ⟨q,h⟩
  | @step s s' t c k r p' hs rest ih =>
    cases c with
    | inl c =>
      obtain ⟨r',s'',hr',hk⟩ := h
      have hsame := hr'.symm.trans hs
      cases hsame
      exact ih hk
    | inr c =>
      obtain ⟨-,k',-,hk⟩ := h
      cases (hs : s'=s)
      exact ih (hk r)

end Prog
end Interaction
