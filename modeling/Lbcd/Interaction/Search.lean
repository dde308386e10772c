import Lbcd.Interaction.World

namespace Interaction

variable {I : Interface} {S τ α ε κ : Type}

/-- Something holds after a failure, and something else after a success. -/
def Concluded (failed : Prop) (done : α → Prop) : Except ε α → Prop
  | .error _ => failed
  | .ok a => done a

namespace Prog

/-- What is done after a failure. -/
def recover {ε' : Type} (p : Prog I (Except ε α)) (f : ε → Prog I (Except ε' α)) :
    Prog I (Except ε' α) :=
  p >>= fun r =>
    match r with
    | .ok a => ret (.ok a)
    | .error e => f e

/-- The first of these that succeeds, or the error of the last one. -/
def firstOk (f : τ → Prog I (Except ε α)) : ε → List τ → Prog I (Except ε α)
  | e,[] => ret (.error e)
  | _,x :: xs => (f x).recover fun e => firstOk f e xs

variable {f : τ → Prog I (Except ε α)}

/-- What every failure keeps holds until one succeeds. -/
theorem Safe.firstOk {w : World I S} {ok : S → I.Call → Prop} {inv : S → Prop}
    {post : S → τ → α → Prop} {xs : List τ}
    (h : ∀ x∈xs,∀ s,inv s → (f x).Safe w ok (fun t => Concluded (inv t) (post t x)) s)
    (e : ε) {s : S} (hs : inv s) :
    (firstOk f e xs).Safe w ok (fun t => Concluded (inv t) fun a => ∃ x∈xs,post t x a) s := by
  induction xs generalizing e s with
  | nil => exact hs
  | cons x xs ih =>
    obtain ⟨hx,hxs⟩ := List.forall_mem_cons.mp h
    apply (hx s hs).bind
    intro t r hr
    cases r with
    | ok a => exact ⟨x,List.mem_cons_self,hr⟩
    | error e =>
      apply (ih hxs e hr).mono
      intro u r hu
      cases r with
      | error e => exact hu
      | ok a =>
        obtain ⟨y,hy,hpost⟩ := hu
        exact ⟨y,List.mem_cons_of_mem x hy,hpost⟩

/-- A program without calls of a kind. -/
theorem Meets.emits {kind : I.Call → Option κ} {post : α → Prop} {p : Prog I α}
    (h : p.Meets (fun c => kind c=none) post) : p.Emits kind [] := by
  induction p with
  | ret a => rfl
  | call c k ih => exact emits_skip h.1 fun r => ih r (h.2 r)

theorem Emits.traced {kind : I.Call → Option κ} {p : Prog I α} {ks : List κ}
    (h : p.Emits kind ks) : p.Traced fun tr _ => tr.filterMap (fun ev => kind ev.call)=ks := by
  induction p generalizing ks with
  | ret a =>
    have hks : ks=[] := h
    exact hks.symm
  | call c k ih =>
    obtain ⟨rest,rfl,hk⟩ := h
    intro r
    apply (ih r (hk r)).mono
    intro tr a htr
    have hcons : ((⟨c,some r⟩ :: tr : List (Event I)).filterMap fun ev => kind ev.call)=
        (kind c).toList++tr.filterMap fun ev => kind ev.call := by
      cases hc : kind c <;> simp [hc]
    exact hcons.trans (congrArg _ htr)

theorem Traced.and {p : Prog I α} {post post' : List (Event I) → α → Prop} (h : p.Traced post)
    (h' : p.Traced post') : p.Traced fun tr a => post tr a ∧ post' tr a := by
  induction p generalizing post post' with
  | ret a => exact ⟨h,h'⟩
  | call c k ih => exact fun r => ih r (h r) (h' r)

/-- The calls are those for a list in its order, up to one that the last of them are about. -/
def InTurn (kind : I.Call → Option κ) (key : τ → κ) (xs : List τ)
    (post : τ → List (Event I) → Prop) (tr : List (Event I)) : Prop :=
  ∃ before x after,xs=before++x :: after ∧
    tr.filterMap (fun ev => kind ev.call)=(before++[x]).map key ∧
    ∃ earlier last,tr=earlier++last ∧ post x last

/-- They are tried in order, all of them before it fails and none after the first success. -/
theorem firstOk_traced {kind : I.Call → Option κ} {key : τ → κ}
    {post : τ → α → List (Event I) → Prop} {xs : List τ}
    (h : ∀ x∈xs,(f x).Traced fun tr r =>
      tr.filterMap (fun ev => kind ev.call)=[key x] ∧ Concluded True (fun a => post x a tr) r)
    (e : ε) :
    (firstOk f e xs).Traced fun tr =>
      Concluded (tr.filterMap (fun ev => kind ev.call)=xs.map key) fun a =>
        InTurn kind key xs (fun x => post x a) tr := by
  induction xs generalizing e with
  | nil => rfl
  | cons x xs ih =>
    obtain ⟨hx,hxs⟩ := List.forall_mem_cons.mp h
    apply hx.bind
    intro tr r hr
    obtain ⟨htr,hok⟩ := hr
    cases r with
    | ok a =>
      refine ⟨[],x,xs,rfl,?_,[],tr,List.append_nil tr,hok⟩
      rw [List.append_nil]
      exact htr
    | error e =>
      apply (ih hxs e).mono
      intro tr' r hr
      cases r with
      | error e =>
        have hall : tr'.filterMap (fun ev => kind ev.call)=xs.map key := hr
        change (tr++tr').filterMap _=_
        rw [List.filterMap_append,htr,hall]
        rfl
      | ok a =>
        obtain ⟨before,y,after,rfl,htr',earlier,last,rfl,hpost⟩ := hr
        refine ⟨x :: before,y,after,rfl,?_,tr++earlier,last,?_,hpost⟩
        · rw [List.filterMap_append,htr,htr']
          rfl
        · rw [List.append_assoc]

end Prog
end Interaction
