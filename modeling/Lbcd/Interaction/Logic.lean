import Lbcd.Interaction.Program

namespace Interaction

variable {I J : Interface} {α β : Type}

namespace Prog

/-- Every call a program can make is allowed and every value it can return is as
promised, whatever the replies. -/
def Meets (ok : I.Call → Prop) (post : α → Prop) : Prog I α → Prop
  | ret a => post a
  | call c k => ok c ∧ ∀ r,(k r).Meets ok post

theorem Meets.mono {ok ok' : I.Call → Prop} {post post' : α → Prop} {p : Prog I α}
    (h : p.Meets ok post) (hc : ∀ c,ok c → ok' c) (ha : ∀ a,post a → post' a) :
    p.Meets ok' post' := by
  induction p with
  | ret a => exact ha a h
  | call c k ih => exact ⟨hc c h.1,fun r => ih r (h.2 r)⟩

theorem Meets.bind {ok : I.Call → Prop} {mid : α → Prop} {post : β → Prop} {p : Prog I α}
    {f : α → Prog I β} (h : p.Meets ok mid) (hf : ∀ a,mid a → (f a).Meets ok post) :
    (p >>= f).Meets ok post := by
  induction p with
  | ret a => exact hf a h
  | call c k ih => exact ⟨h.1,fun r => ih r (h.2 r)⟩

theorem Meets.trace {ok : I.Call → Prop} {post : α → Prop} {p : Prog I α}
    (h : p.Meets ok post) (o : Oracle I) : ∀ e∈p.trace o,ok e.call := by
  induction p generalizing o with
  | ret a => simp
  | call c k ih =>
    intro e he
    rw [trace_call] at he
    rcases List.mem_cons.mp he with rfl|he
    · exact h.1
    · cases hr : o 0 c with
      | none => simp [hr] at he
      | some r => exact ih r (h.2 r) (o.drop 1) e (by simpa [hr] using he)

theorem Meets.result {ok : I.Call → Prop} {post : α → Prop} {p : Prog I α}
    (h : p.Meets ok post) (o : Oracle I) {a : α} (ha : p.result o=some a) : post a := by
  induction p generalizing o with
  | ret b => exact Option.some.inj ha ▸ h
  | call c k ih =>
    rw [result_call] at ha
    obtain ⟨r,-,ha⟩ := Option.bind_eq_some_iff.mp ha
    exact ih r (h.2 r) _ ha

/-- Surroundings that answer every allowed call alike give the same result. -/
theorem Meets.result_congr {ok : I.Call → Prop} {post : α → Prop} {p : Prog I α}
    (h : p.Meets ok post) {o o' : Oracle I} (ho : ∀ n c,ok c → o n c=o' n c) :
    p.result o=p.result o' := by
  induction p generalizing o o' with
  | ret a => rfl
  | call c k ih =>
    rw [result_call,result_call,ho 0 c h.1]
    cases o' 0 c with
    | none => rfl
    | some r => exact ih r (h.2 r) fun n c hc => ho (n+1) c hc

/-- The calls of one kind are these, in this order, on every path of a program as far
as the path goes. -/
def Emits {κ : Type} (kind : I.Call → Option κ) : Prog I α → List κ → Prop
  | ret _,ks => ks=[]
  | call c k,ks => ∃ rest,ks=(kind c).toList++rest ∧ ∀ r,(k r).Emits kind rest

theorem emits_skip {κ : Type} {kind : I.Call → Option κ} {c : I.Call}
    {k : I.Reply c → Prog I α} {ks : List κ} (hc : kind c=none)
    (hk : ∀ r,(k r).Emits kind ks) : (call c k).Emits kind ks :=
  ⟨ks,by rw [hc]; rfl,hk⟩

theorem emits_cons {κ : Type} {kind : I.Call → Option κ} {c : I.Call}
    {k : I.Reply c → Prog I α} {b : κ} {ks : List κ} (hc : kind c=some b)
    (hk : ∀ r,(k r).Emits kind ks) : (call c k).Emits kind (b :: ks) :=
  ⟨ks,by rw [hc]; rfl,hk⟩

theorem Emits.bind {κ : Type} {kind : I.Call → Option κ} {p : Prog I α} {f : α → Prog I β}
    {ks ls : List κ} (h : p.Emits kind ks) (hf : ∀ a,(f a).Emits kind ls) :
    (p >>= f).Emits kind (ks++ls) := by
  induction p generalizing ks with
  | ret a =>
    have hks : ks=[] := h
    rw [hks,List.nil_append]
    exact hf a
  | call c k ih =>
    obtain ⟨rest,hks,hk⟩ := h
    exact ⟨rest++ls,by rw [hks,List.append_assoc],fun r => ih r (hk r)⟩

theorem Emits.trace {κ : Type} {kind : I.Call → Option κ} {p : Prog I α} {ks : List κ}
    (h : p.Emits kind ks) (o : Oracle I) :
    (p.trace o).filterMap (fun ev => kind ev.call)<+:ks ∧
      ∀ a,p.result o=some a → (p.trace o).filterMap (fun ev => kind ev.call)=ks := by
  induction p generalizing o ks with
  | ret a =>
    have hks : ks=[] := h
    rw [hks]
    exact ⟨List.prefix_refl _,fun _ _ => rfl⟩
  | call c k ih =>
    obtain ⟨rest,hks,hk⟩ := h
    have happ : ∀ es : List (Event I),
        ((⟨c,o 0 c⟩ :: es : List (Event I)).filterMap fun ev => kind ev.call)=
          (kind c).toList++es.filterMap fun ev => kind ev.call := by
      intro es
      cases hc : kind c <;> simp [hc]
    rw [trace_call,happ,hks]
    cases hr : o 0 c with
    | none =>
      refine ⟨?_,fun a ha => ?_⟩
      · exact (List.prefix_append_right_inj _).mpr (List.nil_prefix)
      · simp [result_call,hr] at ha
    | some r =>
      obtain ⟨hp,he⟩ := ih r (hk r) (o.drop 1)
      refine ⟨(List.prefix_append_right_inj _).mpr hp,fun a ha => ?_⟩
      rw [result_call,hr] at ha
      exact congrArg _ (he a ha)

/-- On every path that returns, the calls with their replies and the value are related. -/
def Traced : Prog I α → (List (Event I) → α → Prop) → Prop
  | ret a,post => post [] a
  | call c k,post => ∀ r,(k r).Traced fun tr a => post (⟨c,some r⟩ :: tr) a

theorem Traced.mono {p : Prog I α} {post post' : List (Event I) → α → Prop}
    (h : p.Traced post) (hi : ∀ tr a,post tr a → post' tr a) : p.Traced post' := by
  induction p generalizing post post' with
  | ret a => exact hi [] a h
  | call c k ih =>
    intro r
    exact ih r (h r) fun tr a => hi (⟨c,some r⟩ :: tr) a

/-- A relation that further calls do not disturb is shown of what follows a call. -/
theorem traced_later {c : I.Call} {k : I.Reply c → Prog I α} {post : List (Event I) → α → Prop}
    (hp : ∀ ev tr a,post tr a → post (ev :: tr) a) (h : ∀ r,(k r).Traced post) :
    (call c k).Traced post := fun r => (h r).mono (hp ⟨c,some r⟩)

theorem Traced.bind {p : Prog I α} {f : α → Prog I β} {mid : List (Event I) → α → Prop}
    {post : List (Event I) → β → Prop} (h : p.Traced mid)
    (hf : ∀ tr a,mid tr a → (f a).Traced fun tr' b => post (tr++tr') b) :
    (p >>= f).Traced post := by
  induction p generalizing mid post with
  | ret a => exact hf [] a h
  | call c k ih =>
    intro r
    exact ih r (h r) fun tr a hm => hf (⟨c,some r⟩ :: tr) a hm

/-- What every call and every value meets, a run that returns shows. -/
theorem Meets.traced {ok : I.Call → Prop} {post : α → Prop} {p : Prog I α}
    (h : p.Meets ok post) : p.Traced fun tr a => (∀ ev∈tr,ok ev.call) ∧ post a := by
  induction p with
  | ret a => exact ⟨fun ev hev => absurd hev List.not_mem_nil,h⟩
  | call c k ih =>
    intro r
    refine (ih r (h.2 r)).mono fun tr a hr => ⟨fun ev hev => ?_,hr.2⟩
    rcases List.mem_cons.mp hev with rfl|hev
    · exact h.1
    · exact hr.1 ev hev

theorem traced_true (p : Prog I α) : p.Traced fun _ _ => True := by
  induction p with
  | ret a => trivial
  | call c k ih => exact ih

theorem Traced.result {p : Prog I α} {post : List (Event I) → α → Prop} (h : p.Traced post)
    (o : Oracle I) {a : α} (ha : p.result o=some a) : post (p.trace o) a := by
  induction p generalizing o post with
  | ret b =>
    cases ha
    exact h
  | call c k ih =>
    rw [result_call] at ha
    obtain ⟨r,hr,ha⟩ := Option.bind_eq_some_iff.mp ha
    have hk := ih r (h r) (o.drop 1) ha
    rw [trace_call,hr]
    exact hk

/-- The same for every run, also one that breaks off at a call without a reply: it has no
value then. -/
def Every : Prog I α → (List (Event I) → Option α → Prop) → Prop
  | ret a,post => post [] (some a)
  | call c k,post =>
    post [⟨c,none⟩] none ∧ ∀ r,(k r).Every fun tr a => post (⟨c,some r⟩ :: tr) a

theorem Every.mono {p : Prog I α} {post post' : List (Event I) → Option α → Prop}
    (h : p.Every post) (hi : ∀ tr a,post tr a → post' tr a) : p.Every post' := by
  induction p generalizing post post' with
  | ret a => exact hi [] _ h
  | call c k ih =>
    exact ⟨hi _ none h.1,fun r => ih r (h.2 r) fun tr a => hi (⟨c,some r⟩ :: tr) a⟩

theorem Every.bind {p : Prog I α} {f : α → Prog I β} {mid : List (Event I) → Option α → Prop}
    {post : List (Event I) → Option β → Prop} (h : p.Every mid)
    (hnone : ∀ tr,mid tr none → post tr none)
    (hf : ∀ tr a,mid tr (some a) → (f a).Every fun tr' b => post (tr++tr') b) :
    (p >>= f).Every post := by
  induction p generalizing mid post with
  | ret a => exact hf [] a h
  | call c k ih =>
    refine ⟨hnone _ h.1,fun r => ih r (h.2 r) (fun tr => hnone _) ?_⟩
    exact fun tr a hm => hf (⟨c,some r⟩ :: tr) a hm

theorem Every.run {p : Prog I α} {post : List (Event I) → Option α → Prop} (h : p.Every post)
    (o : Oracle I) : post (p.trace o) (p.result o) := by
  induction p generalizing o post with
  | ret a => exact h
  | call c k ih =>
    rw [trace_call,result_call]
    cases hr : o 0 c with
    | none => exact h.1
    | some r => exact ih r (h.2 r) (o.drop 1)

end Prog
end Interaction
