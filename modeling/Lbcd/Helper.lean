import Mathlib.Logic.Relation
import Lbcd.Weight

namespace Lbcd

open Interaction CText

/-- The process that lbcd_cmd_weight forks: it runs the code after the fork, then the
helper, with so many bytes that the helper still has to write before it exits. -/
inductive Child (α : Type) where
  | absent
  | code (p : Prog System α)
  | helper (left : ℕ)
  | zombie (st : WaitPid)
  | reaped

/-- Both processes, the daemon's read end of the pipe, and the number of bytes in the pipe. -/
structure Procs (α : Type) where
  parent : Prog System α
  child : Child α
  readEnd : Option Fd
  held : ℕ

def Procs.start {α : Type} (p : Prog System α) : Procs α := ⟨p,.absent,none,0⟩

/-- The daemon closes a descriptor. -/
def Procs.closeEnd {α : Type} (s : Procs α) (fd : Fd) : Procs α :=
  { s with readEnd := s.readEnd.filter (·≠fd) }

/-- A call of the daemon other than a fork that makes a process. A wait for the child
comes back when the child has ended, or with an error. -/
inductive ParentCall {α : Type} : Procs α → (c : SysCall) → c.Reply → Procs α → Prop where
  | pipe (s : Procs α) (r w : Fd) (h : r≠w) :
      ParentCall s .pipe (some (r,w)) { s with readEnd := some r,held := 0 }
  | noPipe (s : Procs α) : ParentCall s .pipe none s
  | noFork (s : Procs α) : ParentCall s .fork .failed s
  | close (s : Procs α) (fd : Fd) : ParentCall s (.close fd) () (s.closeEnd fd)
  | fclose (s : Procs α) (fd : Fd) : ParentCall s (.fclose fd) () (s.closeEnd fd)
  | fgets (s : Procs α) (fd : Fd) (n rest : ℕ) (h : rest ≤ s.held)
      (got : Option { bs : List UInt8 // bs.length < n }) :
      ParentCall s (.fgets fd n) got { s with held := rest }
  | waitError (s : Procs α) (pid : ℕ) (eintr : Bool) :
      ParentCall s (.waitpid pid) (.failed eintr) s
  | wait (s : Procs α) (pid : ℕ) (st : WaitPid) (h : s.child=.zombie st) :
      ParentCall s (.waitpid pid) st { s with child := .reaped }
  | fuel (s : Procs α) (n : ℕ) : ParentCall s .fuel n s
  | fdopen (s : Procs α) (fd : Fd) (ok : Bool) : ParentCall s (.fdopen fd) ok s
  | kill (s : Procs α) (pid sig : ℕ) (ok : Bool) : ParentCall s (.kill pid sig) ok s

/-- One step of one of the two processes. The helper writes to a pipe of a capacity, so
many bytes in all, and exits with a status. -/
inductive ProcStep {α : Type} (capacity output status : ℕ) : Procs α → Procs α → Prop where
  | parent {s t : Procs α} {c : SysCall} {k : c.Reply → Prog System α} {r : c.Reply}
      (hp : s.parent=.call c k) (h : ParentCall s c r t) :
      ProcStep capacity output status s { t with parent := k r }
  | fork {s : Procs α} {k : ForkResult → Prog System α} (pid : ℕ)
      (hp : s.parent=Prog.call (I := System) .fork k) (hc : s.child=.absent) :
      ProcStep capacity output status s
        { s with parent := k (.parent pid),child := .code (k .child) }
  | childClose {s : Procs α} {fd : Fd} {k : Unit → Prog System α}
      (hc : s.child=.code (Prog.call (I := System) (.close fd) k)) :
      ProcStep capacity output status s { s with child := .code (k ()) }
  | childDup {s : Procs α} {old new : Fd} {k : Unit → Prog System α}
      (hc : s.child=.code (Prog.call (I := System) (.dup2 old new) k)) :
      ProcStep capacity output status s { s with child := .code (k ()) }
  | exec {s : Procs α} {path : CStr} {k : Unit → Prog System α}
      (hc : s.child=.code (Prog.call (I := System) (.execl (some path)) k)) :
      ProcStep capacity output status s { s with child := .helper output }
  | execError {s : Procs α} {path : Option CStr} {k : Unit → Prog System α}
      (hc : s.child=.code (Prog.call (I := System) (.execl path) k)) :
      ProcStep capacity output status s { s with child := .code (k ()) }
  | childExit {s : Procs α} {code : ℕ} {k : Empty → Prog System α}
      (hc : s.child=.code (Prog.call (I := System) (.exit code) k)) :
      ProcStep capacity output status s { s with child := .zombie (.exited code) }
  | write {s : Procs α} {left : ℕ} (hc : s.child=.helper (left+1)) (hr : s.readEnd≠none)
      (hroom : s.held < capacity) :
      ProcStep capacity output status s { s with child := .helper left,held := s.held+1 }
  | sigpipe {s : Procs α} {left : ℕ} (hc : s.child=.helper (left+1)) (hr : s.readEnd=none) :
      ProcStep capacity output status s { s with child := .zombie (.signaled 13) }
  | exit {s : Procs α} (hc : s.child=.helper 0) :
      ProcStep capacity output status s { s with child := .zombie (.exited status) }

/-- Any number of steps of the two processes, in any order. -/
abbrev ProcRun {α : Type} (capacity output status : ℕ) : Procs α → Procs α → Prop :=
  Relation.ReflTransGen (ProcStep capacity output status)

/-- The daemon waits for the child to end, and the child for room in the pipe, which only
the daemon can read. -/
def Deadlock {α : Type} (capacity : ℕ) (s : Procs α) : Prop :=
  (∃ pid k,s.parent=Prog.call (I := System) (.waitpid pid) k) ∧
    (∃ left,s.child=.helper (left+1)) ∧ s.readEnd≠none ∧ s.held=capacity

/-- What is in the pipe and what the helper still has to write come from its output. -/
def Accounted {α : Type} (output : ℕ) (s : Procs α) : Prop :=
  match s.child with
  | .absent => s.held=0
  | .code _ => s.held=0
  | .helper left => s.held+left ≤ output
  | _ => True

theorem Accounted.parentCall {α : Type} {output : ℕ} {s t : Procs α} {c : SysCall} {r : c.Reply}
    (h : Accounted output s) (hs : ParentCall s c r t) : Accounted output t := by
  have hless {n : ℕ} (hn : n ≤ s.held) (re : Option Fd) :
      Accounted output { s with readEnd := re,held := n } := by
    unfold Accounted at h ⊢
    dsimp only
    cases hc : s.child with
    | absent =>
      rw [hc] at h
      dsimp only at h ⊢
      omega
    | code p =>
      rw [hc] at h
      dsimp only at h ⊢
      omega
    | helper left =>
      rw [hc] at h
      dsimp only at h ⊢
      omega
    | zombie st => trivial
    | reaped => trivial
  cases hs with
  | pipe r w hrw => exact hless (Nat.zero_le _) _
  | close fd => exact hless (le_refl _) _
  | fclose fd => exact hless (le_refl _) _
  | fgets fd n rest hr got => exact hless hr _
  | wait pid st hc => trivial
  | _ => exact h

theorem Accounted.step {α : Type} {capacity output status : ℕ} {s t : Procs α}
    (h : Accounted output s) (hs : ProcStep capacity output status s t) : Accounted output t := by
  cases hs with
  | parent hp hcall =>
    have ht := h.parentCall hcall
    exact ht
  | fork pid hp hc =>
    rw [Accounted,hc] at h
    exact h
  | childClose hc =>
    rw [Accounted,hc] at h
    exact h
  | childDup hc =>
    rw [Accounted,hc] at h
    exact h
  | exec hc =>
    rw [Accounted,hc] at h
    have hz : s.held=0 := h
    change s.held+output ≤ output
    omega
  | execError hc =>
    rw [Accounted,hc] at h
    exact h
  | childExit hc => trivial
  | write hc hr hroom =>
    rw [Accounted,hc] at h
    rename_i left
    have hle : s.held+(left+1) ≤ output := h
    change s.held+1+left ≤ output
    omega
  | sigpipe hc hr => trivial
  | exit hc => trivial

theorem Accounted.run {α : Type} {capacity output status : ℕ} {s t : Procs α}
    (h : Accounted output s) (hr : ProcRun capacity output status s t) : Accounted output t := by
  induction hr with
  | refl => exact h
  | tail _ hs ih => exact ih.step hs

theorem Accounted.noDeadlock {α : Type} {capacity output : ℕ} {s : Procs α}
    (h : Accounted output s) (hle : output ≤ capacity) : ¬Deadlock capacity s := by
  rintro ⟨-,⟨left,hc⟩,-,hfull⟩
  rw [Accounted,hc] at h
  have hsum : s.held+(left+1) ≤ output := h
  omega

/-- The helper fills the pipe. -/
theorem fills {α : Type} (capacity output status left : ℕ) (s : Procs α)
    (hc : s.child=.helper (left+capacity-s.held)) (hr : s.readEnd≠none)
    (hle : s.held ≤ capacity) :
    ProcRun capacity output status s { s with child := .helper left,held := capacity } := by
  obtain ⟨room,hroom⟩ := Nat.exists_eq_add_of_le hle
  induction room generalizing s with
  | zero =>
    have hleft : left+capacity-s.held=left := by omega
    rw [hleft] at hc
    have hs : s={ s with child := .helper left,held := capacity } := by
      rw [← hc,hroom]
      rfl
    exact hs ▸ Relation.ReflTransGen.refl
  | succ room ih =>
    have hleft : left+capacity-s.held=left+capacity-(s.held+1)+1 := by omega
    rw [hleft] at hc
    have hlt : s.held < capacity := by omega
    refine .head (.write hc hr hlt) ?_
    exact ih { s with child := .helper (left+capacity-(s.held+1)),held := s.held+1 } rfl hr hlt
      (by dsimp only; omega)

/-- The daemon gets to wait for the helper, which has started and written nothing. -/
theorem waits_reachable (g : WeightGlobals) (cmd : CStr) (slot : Slot) (timeout : ℤ)
    (portarg : Option CStr) (lb : LbcdReply) (capacity output status : ℕ) :
    ∃ k,ProcRun capacity output status
      (.start (lbcdCmdWeight { g with lbcdCommand := some cmd } slot timeout portarg lb))
      ⟨Prog.call (I := System) (.waitpid 1000) k,.helper output,some 3,0⟩ := by
  apply Exists.intro
  apply Relation.ReflTransGen.head (.parent rfl (.pipe _ 3 4 (by decide)))
  apply Relation.ReflTransGen.head (.fork 1000 rfl rfl)
  apply Relation.ReflTransGen.head (.childClose rfl)
  apply Relation.ReflTransGen.head (.childClose rfl)
  apply Relation.ReflTransGen.head (.childDup rfl)
  apply Relation.ReflTransGen.head (.childClose rfl)
  apply Relation.ReflTransGen.head (.exec rfl)
  apply Relation.ReflTransGen.head (.parent rfl (.close _ 4))
  apply Relation.ReflTransGen.head (.parent rfl (.fdopen _ 3 true))
  apply Relation.ReflTransGen.head (.parent rfl (.fuel _ 1))
  exact Relation.ReflTransGen.refl

/-- A helper that writes more than the pipe holds is never waited for to its end. -/
theorem deadlock_reachable (g : WeightGlobals) (cmd : CStr) (slot : Slot) (timeout : ℤ)
    (portarg : Option CStr) (lb : LbcdReply) {capacity output : ℕ} (h : capacity < output)
    (status : ℕ) :
    ∃ s,ProcRun capacity output status
        (.start (lbcdCmdWeight { g with lbcdCommand := some cmd } slot timeout portarg lb)) s ∧
      Deadlock capacity s := by
  obtain ⟨left,hleft⟩ := Nat.exists_eq_add_of_lt h
  have hout : output=left+1+capacity-0 := by omega
  obtain ⟨k,hrun⟩ := waits_reachable g cmd slot timeout portarg lb capacity output status
  have hopen : some 3≠none := Option.some_ne_none 3
  have hfill := fills capacity output status (left+1)
    ⟨Prog.call (I := System) (.waitpid 1000) k,.helper output,some 3,0⟩
    (congrArg Child.helper hout) hopen (Nat.zero_le _)
  exact ⟨_,hrun.trans hfill,⟨1000,k,rfl⟩,⟨left,rfl⟩,hopen,rfl⟩

/-- Daemon and helper wait for each other in some run exactly if the helper writes more
than the pipe holds. -/
theorem no_deadlock_iff (g : WeightGlobals) (cmd : CStr) (slot : Slot) (timeout : ℤ)
    (portarg : Option CStr) (lb : LbcdReply) (capacity output status : ℕ) :
    (∀ s,ProcRun capacity output status
        (.start (lbcdCmdWeight { g with lbcdCommand := some cmd } slot timeout portarg lb)) s →
      ¬Deadlock capacity s) ↔ output ≤ capacity := by
  constructor
  · intro h
    by_contra hlt
    obtain ⟨s,hr,hd⟩ := deadlock_reachable g cmd slot timeout portarg lb (not_le.mp hlt) status
    exact h s hr hd
  · intro hle s hr
    have hstart : Accounted output (.start
        (lbcdCmdWeight { g with lbcdCommand := some cmd } slot timeout portarg lb)) := rfl
    exact (hstart.run hr).noDeadlock hle

/-- One byte more than a pipe of 64 KiB holds. -/
theorem deadlock_64k :
    ¬∀ (output : ℕ) (s : Procs (LbcdReply × ℤ)),ProcRun 65536 output 0
        (.start (lbcdCmdWeight { WeightGlobals.initial with lbcdCommand := some (CStr.lit "/h") }
          0 5 none default)) s →
      ¬Deadlock 65536 s := by
  intro h
  have hlt : 65536 < 65537 := by decide
  obtain ⟨s,hr,hd⟩ := deadlock_reachable .initial (CStr.lit "/h") 0 5 none default hlt 0
  exact h 65537 s hr hd

end Lbcd
