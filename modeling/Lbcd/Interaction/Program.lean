import Mathlib.Data.List.Basic
import Mathlib.Order.Basic

namespace Interaction

/-- The calls a program can make of its surroundings, each with the type of its reply. -/
structure Interface where
  Call : Type
  Reply : Call → Type

/-- A program has finished or is about to make a call; a call whose reply type
is empty never comes back. -/
inductive Prog (I : Interface) (α : Type) where
  | ret (a : α)
  | call (c : I.Call) (k : I.Reply c → Prog I α)

/-- What the surroundings answer to the n-th call of a run; none is no answer ever. -/
def Oracle (I : Interface) := ℕ → (c : I.Call) → Option (I.Reply c)

structure Event (I : Interface) where
  call : I.Call
  reply : Option (I.Reply call)

variable {I J : Interface} {α β : Type}

namespace Prog

def bind : Prog I α → (α → Prog I β) → Prog I β
  | ret a,f => f a
  | call c k,f => call c fun r => (k r).bind f

instance : Monad (Prog I) where
  pure := ret
  bind := bind

def lift (c : I.Call) : Prog I (I.Reply c) := call c ret

@[simp] theorem pure_eq_ret (a : α) : (pure a : Prog I α)=ret a := rfl

@[simp] theorem ret_bind (a : α) (f : α → Prog I β) : (ret a >>= f)=f a := rfl

@[simp] theorem call_bind (c : I.Call) (k : I.Reply c → Prog I α) (f : α → Prog I β) :
    (call c k >>= f)=call c fun r => k r >>= f := rfl

instance : LawfulMonad (Prog I) := by
  refine LawfulMonad.mk' (Prog I) ?_ (fun _ _ => rfl) ?_
  · intro α p
    change p.bind ret=p
    induction p with
    | ret a => rfl
    | call c k ih => simp only [bind]; exact congrArg (call c) (funext ih)
  · intro α β γ p f g
    change (p.bind f).bind g=p.bind fun a => (f a).bind g
    induction p with
    | ret a => rfl
    | call c k ih => simp only [bind]; exact congrArg (call c) (funext ih)

/-- The same program with every call replaced by an implementation over another interface. -/
def expand (impl : (c : I.Call) → Prog J (I.Reply c)) : Prog I α → Prog J α
  | ret a => ret a
  | call c k => impl c >>= fun r => (k r).expand impl

@[simp] theorem expand_call (impl : (c : I.Call) → Prog J (I.Reply c)) (c : I.Call)
    (k : I.Reply c → Prog I α) :
    (call c k).expand impl=impl c >>= fun r => (k r).expand impl := rfl

theorem expand_bind (impl : (c : I.Call) → Prog J (I.Reply c)) (p : Prog I α)
    (f : α → Prog I β) :
    (p >>= f).expand impl=p.expand impl >>= fun a => (f a).expand impl := by
  induction p with
  | ret a => rfl
  | call c k ih =>
    rw [call_bind,expand_call,expand_call,bind_assoc]
    exact congrArg (impl c >>= ·) (funext ih)

end Prog

namespace Oracle

def drop (o : Oracle I) (n : ℕ) : Oracle I := fun k => o (k+n)

def const (answer : (c : I.Call) → Option (I.Reply c)) : Oracle I := fun _ => answer

@[simp] theorem drop_zero (o : Oracle I) : o.drop 0=o := rfl

@[simp] theorem drop_drop (o : Oracle I) (m n : ℕ) : (o.drop m).drop n=o.drop (n+m) := by
  funext k c
  exact congrArg (fun j => o j c) (Nat.add_assoc k n m)

end Oracle

namespace Prog

/-- The value a run returns, if it is answered to the end. -/
def result : Oracle I → Prog I α → Option α
  | _,ret a => some a
  | o,call c k => (o 0 c).bind fun r => (k r).result (o.drop 1)

/-- The calls of a run in order, with their replies; only the last one may lack its reply. -/
def trace : Oracle I → Prog I α → List (Event I)
  | _,ret _ => []
  | o,call c k => ⟨c,o 0 c⟩ :: (o 0 c).elim [] fun r => (k r).trace (o.drop 1)

@[simp] theorem result_ret (o : Oracle I) (a : α) : (ret a).result o=some a := rfl

@[simp] theorem trace_ret (o : Oracle I) (a : α) : (ret a : Prog I α).trace o=[] := rfl

theorem result_call (o : Oracle I) (c : I.Call) (k : I.Reply c → Prog I α) :
    (call c k).result o=(o 0 c).bind fun r => (k r).result (o.drop 1) := rfl

theorem trace_call (o : Oracle I) (c : I.Call) (k : I.Reply c → Prog I α) :
    (call c k).trace o=⟨c,o 0 c⟩ :: (o 0 c).elim [] fun r => (k r).trace (o.drop 1) := rfl

theorem result_bind (o : Oracle I) (p : Prog I α) (f : α → Prog I β) :
    (p >>= f).result o=
      (p.result o).bind fun a => (f a).result (o.drop (p.trace o).length) := by
  induction p generalizing o with
  | ret a => rfl
  | call c k ih =>
    rw [call_bind,result_call,result_call,trace_call]
    cases h : o 0 c with
    | none => rfl
    | some r =>
      simp only [Option.bind_some,Option.elim_some,List.length_cons]
      rw [ih r (o.drop 1)]
      simp only [Oracle.drop_drop]

theorem trace_bind (o : Oracle I) (p : Prog I α) (f : α → Prog I β) :
    (p >>= f).trace o=p.trace o ++
      (p.result o).elim [] fun a => (f a).trace (o.drop (p.trace o).length) := by
  induction p generalizing o with
  | ret a => rfl
  | call c k ih =>
    rw [call_bind,trace_call,trace_call,result_call]
    cases h : o 0 c with
    | none => rfl
    | some r =>
      simp only [Option.bind_some,Option.elim_some,List.length_cons,List.cons_append]
      rw [ih r (o.drop 1)]
      simp only [Oracle.drop_drop]

end Prog

/-- Answers to a program's calls, each computed by running the call's implementation
against its own answers one level below. -/
def Oracle.lower (impl : (c : I.Call) → Prog J (I.Reply c)) (o : ℕ → Oracle J) : Oracle I :=
  fun n c => (impl c).result (o n)

end Interaction
