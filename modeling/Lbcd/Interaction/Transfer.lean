import Lbcd.Interaction.World

namespace Interaction

variable {I : Interface} {S β ε : Type}

/-- Where a transfer stands after a try: count is how many tries in a row moved nothing. -/
def Moved (inv : List β → ℕ → S → Prop) (size : ℕ) (moved : List β) (count : ℕ) (t : S) :
    Except ε (List β) → Prop
  | .error _ => ∃ count,inv moved count t
  | .ok [] => inv moved (count+1) t
  | .ok (b :: bs) => (moved++b :: bs).length ≤ size ∧ inv (moved++b :: bs) 0 t

/-- The end of a transfer: what is moved, which is all of it exactly if it succeeds. -/
structure Transferred (inv : List β → ℕ → S → Prop) (size : ℕ) (t : S)
    (r : List β × Except ε Unit) : Prop where
  inv : ∃ count,inv r.1 count t
  bounded : r.1.length ≤ size
  all : r.2=.ok () ↔ r.1.length=size

namespace Prog

/-- Tries that go on from where the last one came to, until all is moved or so many tries in
a row have moved nothing, which is an error without a reason. -/
def transfer (limit size : ℕ) (attempt : List β → Prog I (Except ε (List β))) (moved : List β)
    (count : ℕ) : Prog I (List β × Except (Option ε) Unit) :=
  if moved.length < size then
    if limit ≤ count then ret (moved,.error none)
    else attempt moved >>= fun r =>
      match r with
      | .error e => ret (moved,.error (some e))
      | .ok [] => transfer limit size attempt moved (count+1)
      | .ok (b :: bs) => transfer limit size attempt (moved++b :: bs) 0
  else ret (moved,.ok ())
termination_by (size-moved.length,limit-count)
decreasing_by
  · exact Prod.Lex.right _ (by omega)
  · apply Prod.Lex.left
    rw [List.length_append,List.length_cons]
    omega

variable {w : World I S} {ok : S → I.Call → Prop} {inv : List β → ℕ → S → Prop}
  {limit size : ℕ} {attempt : List β → Prog I (Except ε (List β))}

/-- An invariant of every try is one of the transfer. -/
theorem Safe.transfer
    (h : ∀ moved count s,moved.length < size → count < limit → inv moved count s →
      (attempt moved).Safe w ok (Moved inv size moved count) s) {moved : List β} {count : ℕ}
    {s : S} (hle : moved.length ≤ size) (hs : inv moved count s) :
    (transfer limit size attempt moved count).Safe w ok (Transferred inv size) s := by
  induction moved,count using transfer.induct limit size generalizing s with
  | case1 moved count hlt hlim =>
    rw [Prog.transfer,if_pos hlt,if_pos hlim]
    exact ⟨⟨count,hs⟩,hle,⟨(fun he => by cases he),fun he => absurd he (Nat.ne_of_lt hlt)⟩⟩
  | case2 moved count hlt hlim ih ih' =>
    rw [Prog.transfer,if_pos hlt,if_neg hlim]
    apply (h moved count s hlt (Nat.lt_of_not_le hlim) hs).bind
    intro t r hr
    match r with
    | .error e => exact ⟨hr,hle,⟨(fun he => by cases he),fun he => absurd he (Nat.ne_of_lt hlt)⟩⟩
    | .ok [] => exact ih hle hr
    | .ok (b :: bs) =>
      obtain ⟨hle',ht⟩ := hr
      exact ih' b bs hle' ht
  | case3 moved count hge =>
    rw [Prog.transfer,if_neg hge]
    have heq : moved.length=size := by omega
    exact ⟨⟨count,hs⟩,hle,⟨fun _ => heq,fun _ => rfl⟩⟩

end Prog
end Interaction
