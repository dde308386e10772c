import Mathlib.Data.Finset.Card
import Lbcd.Client
import Lbcd.Serving
import Lbcd.Uneventful

namespace Lbcd

open Interaction CText ByteOrder

/-- The open descriptors of the daemon, the one of the file that is being read or written by
stdio, and how many forks and fdopens have failed so far. -/
structure FdTable where
  opened : Finset Fd
  stream : Option Fd
  failures : ℕ

namespace FdTable

def add (s : FdTable) (fd : Fd) : FdTable := { s with opened := insert fd s.opened }

def drop (s : FdTable) (fd : Fd) : FdTable := { s with opened := s.opened.erase fd }

def fail (s : FdTable) : FdTable := { s with failures := s.failures+1 }

def closeStream (s : FdTable) : FdTable :=
  match s.stream with
  | none => s
  | some fd => { s.drop fd with stream := none }

/-- An open gives a new descriptor, or none. -/
def Opens (s : FdTable) (r : Option Fd) (t : FdTable) : Prop :=
  match r with
  | none => t=s
  | some fd => fd∉s.opened ∧ t=s.add fd

/-- What the system calls do with the descriptors. -/
def Step (s : FdTable) : (c : SysCall) → c.Reply → FdTable → Prop
  | .pipe,none,t => t=s
  | .pipe,some (r,w),t => r∉s.opened ∧ w∉s.opened ∧ r≠w ∧ t=(s.add r).add w
  | .socket,fd,t => s.Opens fd t
  | .networkConnect _,fd,t => s.Opens fd t
  | .networkBind _ _ _,fd,t => s.Opens fd t
  | .networkBindAll _,none,t => t=s
  | .networkBindAll _,some fds,t =>
    (∀ fd∈fds,fd∉s.opened) ∧ t={ s with opened := s.opened∪fds.toFinset }
  | .fopen _,false,t => t=s
  | .fopen _,true,t => ∃ fd,fd∉s.opened ∧ t={ s.add fd with stream := some fd }
  | .createPid _,false,t => t=s
  | .createPid _,true,t => ∃ fd,fd∉s.opened ∧ t={ s.add fd with stream := some fd }
  | .fcloseProc,_,t => t=s.closeStream
  | .writePid,_,t => t=s.closeStream
  | .close fd,_,t => t=s.drop fd
  | .fclose fd,_,t => t=s.drop fd
  | .dup2 _ new,_,t => t=s.add new
  | .fork,.failed,t => t=s.fail
  | .fdopen _,false,t => t=s.fail
  | _,_,t => t=s

/-- Calls that leave the descriptors alone. -/
def Steady : SysCall → Prop
  | .pipe => False
  | .socket => False
  | .networkConnect _ => False
  | .networkBind _ _ _ => False
  | .networkBindAll _ => False
  | .fopen _ => False
  | .createPid _ => False
  | .fcloseProc => False
  | .writePid => False
  | .close _ => False
  | .fclose _ => False
  | .dup2 _ _ => False
  | .fork => False
  | .fdopen _ => False
  | _ => True

theorem step_steady {c : SysCall} (hc : Steady c) {s t : FdTable} {r : c.Reply}
    (h : s.Step c r t) : t=s := by
  cases c with
  | pipe => exact hc.elim
  | socket => exact hc.elim
  | networkConnect ai => exact hc.elim
  | networkBind v6 addr port => exact hc.elim
  | networkBindAll port => exact hc.elim
  | fopen f => exact hc.elim
  | createPid path => exact hc.elim
  | fcloseProc => exact hc.elim
  | writePid => exact hc.elim
  | close fd => exact hc.elim
  | fclose fd => exact hc.elim
  | dup2 old new => exact hc.elim
  | fork => exact hc.elim
  | fdopen fd => exact hc.elim
  | _ => exact h

/-- FdTable beyond two for each failure. -/
def excess (s : FdTable) : ℤ := s.opened.card-2*s.failures

@[simp] theorem excess_add {s : FdTable} {fd : Fd} (h : fd∉s.opened) :
    (s.add fd).excess=s.excess+1 := by
  unfold excess add
  rw [Finset.card_insert_of_notMem h]
  push_cast
  ring

theorem excess_add_le (s : FdTable) (fd : Fd) : (s.add fd).excess ≤ s.excess+1 := by
  have hcard := Finset.card_insert_le fd s.opened
  unfold excess add
  dsimp only
  omega

theorem excess_drop_le (s : FdTable) (fd : Fd) : (s.drop fd).excess ≤ s.excess := by
  have hcard := Finset.card_erase_le (s := s.opened) (a := fd)
  unfold excess drop
  dsimp only
  omega

theorem excess_drop {s : FdTable} {fd : Fd} (h : fd∈s.opened) :
    (s.drop fd).excess=s.excess-1 := by
  have hcard := Finset.card_erase_add_one h
  unfold excess drop
  dsimp only
  omega

@[simp] theorem excess_fail (s : FdTable) : s.fail.excess=s.excess-2 := by
  unfold excess fail
  push_cast
  ring

@[simp] theorem drop_add {s : FdTable} {fd : Fd} (h : fd∉s.opened) :
    (s.add fd).drop fd=s := by
  unfold add drop
  rw [Finset.erase_insert h]

/-- The descriptors stay open, and none is left over exactly if nothing failed. -/
structure Kept (s t : FdTable) : Prop where
  grown : s.opened⊆t.opened
  later : s.failures ≤ t.failures
  same : t.opened=s.opened ↔ t.failures=s.failures
  within : t.excess ≤ s.excess

theorem Kept.of_eq {s t : FdTable} (ho : t.opened=s.opened) (hf : t.failures=s.failures) :
    Kept s t := by
  have he : t.excess=s.excess := by rw [excess,excess,ho,hf]
  exact ⟨ho ▸ Finset.Subset.refl _,hf.ge,⟨fun _ => hf,fun _ => ho⟩,he.le⟩

theorem Kept.refl (s : FdTable) : Kept s s := .of_eq rfl rfl

theorem Kept.trans {s t u : FdTable} (h : Kept s t) (h' : Kept t u) : Kept s u := by
  refine ⟨h.grown.trans h'.grown,h.later.trans h'.later,⟨fun he => ?_,fun he => ?_⟩,
    h'.within.trans h.within⟩
  · have hst : t.opened=s.opened := (he ▸ h'.grown).antisymm h.grown
    exact (h'.same.mp (he.trans hst.symm)).trans (h.same.mp hst)
  · have hlater := h.later
    have hlater' := h'.later
    have hst := h.same.mpr (by omega)
    have htu := h'.same.mpr (by omega)
    exact htu.trans hst

/-- A failure that leaves a descriptor open. -/
theorem Kept.fail {s t : FdTable} {fd : Fd} (hfd : fd∉s.opened)
    (hs : (s.add fd).opened⊆t.opened) (hf : s.failures ≤ t.failures)
    (he : t.excess ≤ s.excess+2) : Kept s t.fail := by
  have hgrown : s.opened⊆t.opened := (Finset.subset_insert fd s.opened).trans hs
  have hlost : t.opened≠s.opened := fun h => hfd (h ▸ hs (Finset.mem_insert_self fd s.opened))
  have hlater : s.failures < t.fail.failures := Nat.lt_succ_of_le hf
  refine ⟨hgrown,hlater.le,⟨fun h => absurd h hlost,fun h => absurd h hlater.ne'⟩,?_⟩
  rw [excess_fail]
  omega

end FdTable

def descriptors : World System FdTable := ⟨FdTable.Step⟩

open FdTable

/-- Programs that never hold more than two descriptors at a time. -/
abbrev Holding {α : Type} (b : ℤ) (p : Prog System α) (post : FdTable → α → Prop)
    (s : FdTable) : Prop :=
  p.Safe descriptors (fun t _ => t.excess ≤ b+2) post s

section

variable {α : Type} {b : ℤ} {s : FdTable} {post : FdTable → α → Prop}

theorem holding_steady {c : SysCall} {k : c.Reply → Prog System α} (hs : s.excess ≤ b+2)
    (h : ∀ r,Holding b (k r) post s) (hc : Steady c := by trivial) :
    Holding b (Prog.call (I := System) c k) post s := by
  refine ⟨hs,fun r t hstep => ?_⟩
  have ht : t=s := step_steady hc hstep
  subst ht
  exact h r

theorem steady_holding {p : Prog System α} (hs : s.excess ≤ b+2)
    (h : p.Meets Steady fun _ => True) : Holding b p (fun t _ => t=s) s := by
  induction p with
  | ret a => rfl
  | call c k ih => exact holding_steady hs (fun r => ih r (h.2 r)) h.1

/-- A new descriptor that is closed leaves nothing behind. -/
theorem holding_close {c : SysCall} {k : c.Reply → Prog System α} {fd : Fd}
    (hc : ∀ r t,(s.add fd).Step c r t → t=(s.add fd).drop fd) (hfd : fd∉s.opened)
    (hs : (s.add fd).excess ≤ b+2) (h : ∀ r,Holding b (k r) post s) :
    Holding b (Prog.call (I := System) c k) post (s.add fd) := by
  refine ⟨hs,fun r t hstep => ?_⟩
  have ht := hc r t hstep
  rw [drop_add hfd] at ht
  subst ht
  exact h r

end

theorem StreamCall.steady {c : SysCall} (h : StreamCall c) : Steady c := by
  cases c with
  | malloc n => trivial
  | stackBuffer n => trivial
  | select fd timeout => trivial
  | read fd n => trivial
  | write fd bytes => trivial
  | _ => exact False.elim h

theorem DatagramCall.steady {c : SysCall} (h : DatagramCall c) : Steady c := by
  cases c with
  | fuel => trivial
  | outOfFuel => trivial
  | send fd bytes => trivial
  | select fd timeout => trivial
  | recv fd n => trivial
  | _ => exact h.elim

theorem UserCall.steady {c : SysCall} (h : UserCall c) : Steady c := by
  cases c with
  | stat f => trivial
  | utmpRecords => trivial
  | hsearchEnter n => trivial
  | _ => exact h.elim

theorem TmpCall.steady {path : TmpDir} {c : SysCall} (h : TmpCall path c) : Steady c := by
  cases c with
  | chdir path' => trivial
  | statvfs => trivial
  | undefinedInt => trivial
  | _ => exact h.elim

theorem ReapCall.steady {c : SysCall} (h : ReapCall c) : Steady c := by
  cases c with
  | outOfFuel => trivial
  | waitpid pid => trivial
  | kill pid sig => trivial
  | _ => exact h.elim

theorem waitChild_steady (child fuel : ℕ) :
    (waitChild child fuel).Meets Steady fun _ => True :=
  (waitChild_calls child fuel).mono (fun _ hc => hc.steady) fun _ h => h

theorem killChild_steady (child : ℕ) : (killChild child).Meets Steady fun _ => True :=
  (killChild_calls child).mono (fun _ hc => hc.steady) fun _ h => h

theorem killed_kept {α : Type} {b : ℤ} {s : FdTable} {r : Fd} (hr : r∉s.opened)
    (hs : (s.add r).excess ≤ b+2) (child : ℕ) (a : α) :
    Holding b (killChild child >>= fun _ => sys (.fclose r) >>= fun _ => Prog.ret a)
      (fun t _ => Kept s t) (s.add r) := by
  apply (steady_holding hs (killChild_steady child)).bind
  rintro t _ rfl
  exact holding_close (fun _ _ h => h) hr hs fun _ => .refl s

theorem probeWeight_kept {b : ℤ} {s : FdTable} (slot : Slot) (lb : LbcdReply)
    {probe : Prog System ℤ} (h : Holding b probe (fun t _ => Kept s t) s) :
    Holding b (probeWeight slot lb probe) (fun t _ => Kept s t) s :=
  h.bind fun _ _ hk => hk

/-- The child gives up the descriptors of the pipe before its other end becomes its output. -/
theorem cmdChild_holding {α : Type} {b : ℤ} (cmd : Option CStr) {r w : Fd} {t : FdTable}
    (ht : t.excess ≤ b+2) (hr : r∈t.opened) {post : FdTable → α → Prop} :
    Holding b (cmdChild cmd r w) post t := by
  refine ⟨ht,fun _ t1 hstep => ?_⟩
  have h1 : t1=t.drop r := hstep
  have he1 : t1.excess=t.excess-1 := by
    rw [h1,excess_drop hr]
  refine ⟨by omega,fun _ t2 hstep => ?_⟩
  have h2 : t2=t1.drop 2 := hstep
  have he2 := excess_drop_le t1 2
  rw [← h2] at he2
  change Prog.Safe _ _ _ (if w≠1 then _ else _) t2
  split_ifs
  · refine ⟨by omega,fun _ t3 hstep => ?_⟩
    have h3 : t3=t2.add 1 := hstep
    have he3 := excess_add_le t2 1
    rw [← h3] at he3
    refine ⟨by omega,fun _ t4 hstep => ?_⟩
    have h4 : t4=t3.drop w := hstep
    have he4 := excess_drop_le t3 w
    rw [← h4] at he4
    exact holding_steady (by omega) fun _ => holding_steady (by omega) fun r => r.elim
  · exact holding_steady (by omega) fun _ => holding_steady (by omega) fun r => r.elim

section

variable {b : ℤ} {s : FdTable} (hs : s.excess ≤ b)

include hs

theorem steady_kept {α : Type} {p : Prog System α} (h : p.Meets Steady fun _ => True) :
    Holding b p (fun t _ => Kept s t) s := by
  apply (steady_holding (by omega) h).mono
  rintro t _ rfl
  exact .refl t

theorem tcpConnect_opens (host : CStr) (protocol : Option CStr) (port : ℤ) :
    Holding b (tcpConnect host protocol port) (fun t r => s.Opens r t) s := by
  have hroom : s.excess ≤ b+2 := by omega
  have link (ai : Option (List AddrInfo)) :
      Holding b (tcpLink ai) (fun t r => s.Opens r t) s := by
    cases ai with
    | none => rfl
    | some ai => exact ⟨hroom,fun r t hstep => hstep⟩
  have fallback (ai : Option (List AddrInfo)) :
      Holding b (tcpFallback host port ai) (fun t r => s.Opens r t) s := by
    rw [tcpFallback]
    split_ifs
    · exact holding_steady hroom link
    · exact link ai
  cases protocol with
  | none => exact fallback none
  | some name => exact holding_steady hroom fallback

theorem udpLink_opens (sinPort : UInt16) (he : Option UInt32) :
    Holding b (udpLink sinPort he) (fun t r => s.Opens r t) s := by
  cases he with
  | none => rfl
  | some he =>
    refine ⟨by omega,fun sd t hstep => ?_⟩
    cases sd with
    | none => exact hstep
    | some sd =>
      obtain ⟨hfd,rfl⟩ := hstep
      have hadd : (s.add sd).excess ≤ b+2 := by
        rw [excess_add hfd]
        omega
      refine holding_steady hadd fun connected => ?_
      cases connected with
      | true => exact ⟨hfd,rfl⟩
      | false => exact holding_close (fun _ _ h => h) hfd hadd fun _ => rfl

theorem udpConnect_opens (host : CStr) (protocol : Option CStr) (port : UInt16) :
    Holding b (udpConnect host protocol port) (fun t r => s.Opens r t) s := by
  have hroom : s.excess ≤ b+2 := by omega
  have resolve (se : Option UInt16) :
      Holding b (udpResolve host port se) (fun t r => s.Opens r t) s := by
    refine holding_steady hroom fun _ => holding_steady hroom fun addr => ?_
    cases addr with
    | some a => exact holding_steady hroom (udpLink_opens hs _)
    | none => exact holding_steady hroom (udpLink_opens hs _)
  have service (byName : Option UInt16) :
      Holding b (udpService host port byName) (fun t r => s.Opens r t) s := by
    cases byName with
    | some p => exact resolve (some p)
    | none =>
      rw [udpService]
      dsimp only
      split_ifs
      · exact holding_steady hroom resolve
      · exact resolve none
  cases protocol with
  | none => exact service none
  | some name => exact holding_steady hroom service

/-- A probe closes the descriptor it was given. -/
theorem afterConnect_kept {exchange : Fd → Prog System ℤ}
    (hx : ∀ sd,(exchange sd).Meets Steady fun _ => True) {t : FdTable} {r : Option Fd}
    (ho : s.Opens r t) : Holding b (afterConnect exchange r) (fun u _ => Kept s u) t := by
  cases r with
  | none =>
    have ht : t=s := ho
    subst ht
    exact .refl t
  | some sd =>
    obtain ⟨hfd,rfl⟩ := ho
    have hadd : (s.add sd).excess ≤ b+2 := by
      rw [excess_add hfd]
      omega
    apply (steady_holding hadd (hx sd)).bind
    rintro t v rfl
    exact holding_close (fun _ _ h => h) hfd hadd fun _ => .refl s

theorem tcpProbe_kept {exchange : Fd → Prog System ℤ}
    (hx : ∀ sd,(exchange sd).Meets StreamCall fun _ => True) (host : CStr)
    (service : Option CStr) (port : ℤ) :
    Holding b (tcpConnect host service port >>= afterConnect exchange) (fun t _ => Kept s t) s :=
  (tcpConnect_opens hs host service port).bind fun _ _ ho =>
    afterConnect_kept hs (fun sd => (hx sd).mono (fun _ hc => hc.steady) fun _ h => h) ho

theorem probeNtp_kept (host : Option CStr) (timeout : ℤ) :
    Holding b (probeNtp host timeout) (fun t _ => Kept s t) s := by
  rw [probeNtp_eq]
  exact (udpConnect_opens hs _ _ 123).bind fun _ _ ho => afterConnect_kept hs
    (fun sd => (monlist_calls sd timeout).mono (fun _ hc => hc.steady) fun _ h => h) ho

/-- Once the helper has been waited for, the pipe is closed. -/
theorem afterWait_kept {r : Fd} (hr : r∉s.opened) (child : ℕ) (st : Option WaitPid) :
    Holding b (afterWait r child st) (fun t _ => Kept s t) (s.add r) := by
  have hroom : (s.add r).excess ≤ b+2 := by
    rw [excess_add hr]
    omega
  match st with
  | none =>
    refine holding_close (fun _ _ h => h) hr hroom fun _ => ?_
    exact steady_kept hs ((killChild_steady child).bind fun _ _ => ⟨trivial,fun _ => trivial⟩)
  | some (.exited 0) =>
    refine holding_steady hroom fun line => ?_
    refine holding_close (fun _ _ h => h) hr hroom fun _ => ?_
    cases line with
    | none => exact .refl s
    | some buf => exact .refl s
  | some (.exited (status+1)) => exact holding_close (fun _ _ h => h) hr hroom fun _ => .refl s
  | some (.failed eintr) => exact killed_kept hr hroom child _
  | some (.signaled sig) => exact killed_kept hr hroom child _

/-- The parent closes its end for writing at once, and leaves the other one where fdopen
fails. -/
theorem cmdParent_kept {r w : Fd} (hr : r∉s.opened) (hw : w∉(s.add r).opened) (child : ℕ) :
    Holding b (cmdParent r w child) (fun t _ => Kept s t) ((s.add r).add w) := by
  have hr1 : (s.add r).excess=s.excess+1 := excess_add hr
  have hw2 : ((s.add r).add w).excess=s.excess+2 := by
    rw [excess_add hw]
    omega
  refine holding_close (fun _ _ h => h) hw (by omega) fun _ => ?_
  refine ⟨by omega,fun fp t hstep => ?_⟩
  cases fp with
  | false =>
    have ht : t=(s.add r).fail := hstep
    subst ht
    have hroom : (s.add r).fail.excess ≤ b+2 := by
      rw [excess_fail]
      omega
    refine holding_steady hroom fun _ => holding_steady hroom fun _ => ?_
    exact .fail hr (Finset.Subset.refl _) (le_refl _) (by omega)
  | true =>
    have ht : t=s.add r := hstep
    subst ht
    have hroom : (s.add r).excess ≤ b+2 := by omega
    refine holding_steady hroom fun fuel => ?_
    apply (steady_holding hroom (waitChild_steady child fuel)).bind
    rintro t st rfl
    exact afterWait_kept hs hr child st

/-- The helper's pipe is left open where the fork or the fdopen fails, and nowhere else. -/
theorem runCmd_kept (cmd : Option CStr) :
    Holding b (runCmd cmd) (fun t _ => Kept s t) s := by
  rw [runCmd_eq]
  refine ⟨by omega,fun fds t hstep => ?_⟩
  cases fds with
  | none =>
    have ht : t=s := hstep
    subst ht
    exact .refl t
  | some p =>
    obtain ⟨r,w⟩ := p
    obtain ⟨hr,hw,hne,rfl⟩ := hstep
    have hw' : w∉(s.add r).opened := by
      intro h
      exact (Finset.mem_insert.mp h).elim (fun h => hne h.symm) hw
    have hr1 : (s.add r).excess=s.excess+1 := excess_add hr
    have hw2 : ((s.add r).add w).excess=s.excess+2 := by
      rw [excess_add hw']
      omega
    refine ⟨by omega,fun forked t hstep => ?_⟩
    cases forked with
    | failed =>
      have ht : t=((s.add r).add w).fail := hstep
      subst ht
      exact .fail hr (Finset.subset_insert w _) (le_refl _) (by omega)
    | child =>
      have ht : t=(s.add r).add w := hstep
      subst ht
      have hmem : r∈((s.add r).add w).opened :=
        Finset.mem_insert_of_mem (Finset.mem_insert_self r _)
      exact cmdChild_holding cmd (by omega) hmem
    | parent child =>
      have ht : t=(s.add r).add w := hstep
      subst ht
      exact cmdParent_kept hs hr hw' child

/-- A file of /proc is closed after the numbers are read. -/
theorem procFile_kept {α : Type} {fd : Fd} (hfd : fd∉s.opened) (n : ℕ)
    {k : { qs : List ℚ // qs.length ≤ n } → Prog System α}
    (hk : ∀ got,(k got).Meets Steady fun _ => True) :
    Holding b (sys (.fscanf n) >>= fun got => sys .fcloseProc >>= fun _ => k got)
      (fun t _ => Kept s t) { s.add fd with stream := some fd } := by
  have hadd : (s.add fd).excess ≤ b+2 := by
    rw [excess_add hfd]
    omega
  refine holding_steady hadd fun got => ⟨hadd,fun _ t hstep => ?_⟩
  have ht : t={ (s.add fd).drop fd with stream := none } := hstep
  rw [drop_add hfd] at ht
  have hkept : Kept s t := .of_eq (by rw [ht]) (by rw [ht])
  have hroom : t.excess ≤ b+2 := hkept.within.trans (by omega)
  apply (steady_holding hroom (hk got)).mono
  rintro u _ rfl
  exact hkept

/-- So is one that may not be there. -/
theorem fopen_kept {α : Type} (f : ProcFile) {k : Bool → Prog System α}
    (hno : (k false).Meets Steady fun _ => True)
    (hyes : ∀ fd,fd∉s.opened →
      Holding b (k true) (fun t _ => Kept s t) { s.add fd with stream := some fd }) :
    Holding b (Prog.call (I := System) (.fopen f) k) (fun t _ => Kept s t) s := by
  refine ⟨by omega,fun opened t hstep => ?_⟩
  cases opened with
  | false =>
    have ht : t=s := hstep
    subst ht
    apply (steady_holding (by omega) hno).mono
    rintro u _ rfl
    exact .refl _
  | true =>
    obtain ⟨fd,hfd,rfl⟩ := hstep
    exact hyes fd hfd

theorem kernelGetboottime_kept : Holding b kernelGetboottime (fun t _ => Kept s t) s := by
  apply fopen_kept hs
  · exact ⟨trivial,fun _ => trivial⟩
  · intro fd hfd
    refine procFile_kept hs hfd 1 fun got => ?_
    obtain ⟨qs,hq⟩ := got
    cases qs with
    | nil => exact ⟨trivial,fun _ => trivial⟩
    | cons uptime rest => exact ⟨trivial,fun _ => trivial⟩

theorem kernelGetload_kept : Holding b kernelGetload (fun t _ => Kept s t) s := by
  apply fopen_kept hs
  · exact ⟨trivial,fun _ => trivial⟩
  · intro fd hfd
    refine procFile_kept hs hfd 3 fun got => ?_
    change Prog.Meets _ _ (if got.val.length < 3 then _ else _)
    split_ifs
    · exact ⟨trivial,fun _ => trivial⟩
    · trivial

/-- No weight function leaves a descriptor open unless the helper cannot be started. -/
theorem weightFunction_kept (e : Endian) (g : WeightGlobals) (f : WeightFunc) (slot : Slot)
    (timeout : ℤ) (portarg : Option CStr) (lb : LbcdReply) :
    Holding b (weightFunction e g f slot timeout portarg lb) (fun t _ => Kept s t) s := by
  have tcp (host service : Option CStr) (port : ℤ) (replycheck : Option CStr) :
      Holding b (probeWeight slot lb (probeTcp host service port replycheck timeout))
        (fun t _ => Kept s t) s := by
    rw [probeTcp_eq]
    exact probeWeight_kept slot lb
      (tcpProbe_kept hs (tcpExchange_calls replycheck timeout) _ service port)
  cases f with
  | load => exact holding_steady (by omega) fun _ => .refl s
  | cmd =>
    apply (runCmd_kept hs g.lbcdCommand).bind
    intro t r hk
    cases r with
    | none => exact hk
    | some p => exact hk
  | rr => exact .refl s
  | unknown => exact .refl s
  | ftp => exact tcp _ _ _ _
  | http =>
    apply probeWeight_kept slot lb
    rw [probeHttp_eq]
    exact tcpProbe_kept hs (httpExchange_calls timeout) _ _ _
  | imap =>
    apply probeWeight_kept slot lb
    rw [probeImap_eq]
    exact tcpProbe_kept hs (imapExchange_calls timeout) _ _ 143
  | nntp => exact tcp _ _ _ _
  | ntp => exact (probeNtp_kept hs _ timeout).bind fun _ _ hk => hk
  | pop => exact tcp _ _ _ _
  | smtp => exact tcp _ _ _ _
  | tcp =>
    cases portarg with
    | none => exact .refl s
    | some arg =>
      change Prog.Safe _ _ _ (if arg.bytes.all isdigit then _ else _) s
      split_ifs
      · exact .refl s
      · exact tcp _ _ _ _
      · exact tcp _ _ _ _

end

/-- Calls of the server after its start. -/
def Turning : ServerCall → Prop
  | .sys c => Steady c
  | _ => True

theorem implement_kept (e : Endian) (g : WeightGlobals) {c : ServerCall} (hc : Turning c) {b : ℤ}
    {s : FdTable} (hs : s.excess ≤ b) :
    Holding b (implement e g c) (fun t _ => Kept s t) s := by
  cases c with
  | sys c =>
    cases c with
    | message m => exact .refl s
    | _ => exact steady_kept hs ⟨hc,fun _ => trivial⟩
  | kernelGetboottime => exact kernelGetboottime_kept hs
  | kernelGetload => exact kernelGetload_kept hs
  | getUserStats cache =>
    exact steady_kept hs ((getUserStats_calls cache).mono (fun _ hc => hc.steady) fun _ h => h)
  | tmpFull path =>
    exact steady_kept hs ((tmpFull_calls path).mono (fun _ hc => hc.steady) fun _ h => h)
  | weight f slot timeout portarg lb => exact weightFunction_kept hs e g f slot timeout portarg lb

theorem Building.turning {c : ServerCall} (h : Building c) : Turning c := by
  cases c with
  | sys c =>
    cases c with
    | stackLocals => trivial
    | time => trivial
    | access f => trivial
    | fault f => trivial
    | _ => exact h.elim
  | _ => trivial

theorem Handling.turning {g : WeightGlobals} {names : List CStr} {c : ServerCall}
    (h : Handling g names c) : Turning c := by
  rcases h with h|⟨c',rfl,h⟩
  · exact h.building.turning
  · cases c' with
    | message m => trivial
    | stackReply => trivial
    | sendto fd packet addr => trivial
    | _ => exact h.elim

section

variable (e : Endian) (g : WeightGlobals) (config : LbcdConfig)

theorem LoopCall.turning {c : SysCall} (h : LoopCall c) : Turning (.sys c) := by
  cases c with
  | exitSignaled => trivial
  | networkWaitAny fds => trivial
  | outOfFuel => trivial
  | recvfrom fd => trivial
  | message m => trivial
  | die d => trivial
  | _ => exact h.elim

theorem serveOne_turning (cache : UserCache) (fd : Fd) :
    (serveOne e g config cache fd).Meets Turning fun _ => True :=
  serveOne_meets (fun _ hc => LoopCall.turning hc) (fun _ _ _ hc => hc.turning) cache fd

theorem serveLoop_turning (fds : List Fd) (fuel : ℕ) (cache : UserCache) :
    (serveLoop e g config fds fuel cache).Meets Turning fun _ => True :=
  serveLoop_meets (fun _ hc => LoopCall.turning hc) (fun _ _ _ hc => hc.turning) fds fuel cache

variable {e g}

/-- Between the calls of the server nothing is left open without a failure. -/
theorem turning_safe {α : Type} {p : Prog Server α} (h : p.Meets Turning fun _ => True)
    (s : FdTable) :
    p.Safe (served descriptors e g) (fun t c => Kept s t ∧ Turning c) (fun t _ => Kept s t) s := by
  have hkeep : ∀ (t : FdTable) (c : ServerCall) (r : c.Reply) (t' : FdTable),Kept s t →
      Turning c → (served descriptors e g).step t c r t' → Kept s t' := by
    intro t c r t' hk hc hstep
    have hend : Kept t t' := (implement_kept e g hc (le_refl t.excess)).run hstep
    exact hk.trans hend
  exact (h.safe (fun _ _ hk hc => ⟨hk,hc⟩) hkeep (.refl s)).mono fun _ _ hk => hk.1

/-- Inside of them there are at most two more. -/
theorem turning_holding {α : Type} {p : Prog Server α} (h : p.Meets Turning fun _ => True)
    (s : FdTable) :
    Holding s.excess (p.expand (implement e g)) (fun t _ => Kept s t) s :=
  (turning_safe h s).expand fun _ _ hc =>
    (implement_kept e g hc.2 hc.1.within).mono fun _ _ _ => trivial

end

/-- A request, and any number of turns of the main loop, leave the open descriptors as they
were exactly if no fork and no fdopen failed. Each such failure costs at most two. -/
structure DescriptorLaw (e : Endian) (g : WeightGlobals) (config : LbcdConfig) : Prop where
  request : ∀ cache fd s t cache',
    Run descriptors s ((serveOne e g config cache fd).expand (implement e g)) t (.ret cache') →
      (t.opened=s.opened ↔ t.failures=s.failures)
  turns : ∀ fds fuel cache s t q,
    Run (served descriptors e g) s (serveLoop e g config fds fuel cache) t q →
      (t.opened=s.opened ↔ t.failures=s.failures)
  bounded : ∀ fds fuel cache s t q,
    Run descriptors s ((serveLoop e g config fds fuel cache).expand (implement e g)) t q →
      t.opened.card+2*s.failures ≤ s.opened.card+2*t.failures+2

theorem descriptorLaw (e : Endian) (g : WeightGlobals) (config : LbcdConfig) :
    DescriptorLaw e g config where
  request := by
    intro cache fd s t cache' hr
    have hkept : Kept s t := (turning_holding (serveOne_turning e g config cache fd) s).run hr
    exact hkept.same
  turns := by
    intro fds fuel cache s t q hr
    have hsafe := (turning_safe (serveLoop_turning e g config fds fuel cache) s).run hr
    cases q with
    | ret a =>
      have hkept : Kept s t := hsafe
      exact hkept.same
    | call c k => exact hsafe.1.1.same
  bounded := by
    intro fds fuel cache s t q hr
    have hsafe := (turning_holding (serveLoop_turning e g config fds fuel cache) s).run hr
    have hroom : t.excess ≤ s.excess+2 := by
      cases q with
      | ret a =>
        have hkept : Kept s t := hsafe
        have hwithin := hkept.within
        omega
      | call c k => exact hsafe.1
    unfold excess at hroom
    omega

theorem descriptors_uneventful : Uneventful descriptors where
  calm := by
    intro s c r hc
    cases c with
    | _ => first | rfl | exact hc.elim
  unread := by
    intro s n c r hr
    cases c with
    | fopen f =>
      cases hr
      rfl
    | message m => rfl
    | stat f => rfl
    | utmpRecords => rfl
    | _ => cases hr
  failed := by
    intro s n c r hr
    cases c with
    | pipe =>
      cases hr
      rfl
    | fuel => rfl
    | access f => rfl
    | getaddrinfo host service numericserv => rfl
    | getservbyname name => rfl
    | getservbyport port => rfl
    | endservent => rfl
    | inetAddr host => rfl
    | gethostbyname host => rfl
    | _ => cases hr
  missing := fun _ _ => rfl
  unwritten := fun _ _ => rfl

/-- Where the helper answers for the default, one fork that fails leaves both ends of a pipe. -/
theorem pipe_lost {e : Endian} {g : WeightGlobals} {portarg : Option CStr}
    (hp : probeOf g defaultName=some (.cmd,portarg)) (config : LbcdConfig) (cache : UserCache)
    (fd : Fd) {s : FdTable} {r w : Fd} (hr : r∉s.opened) (hw : w∉s.opened) (hne : r≠w) :
    ∃ cache',Run descriptors s ((serveOne e g config cache fd).expand (implement e g))
      ((s.add r).add w).fail (.ret cache') := by
  have huneventful := descriptors_uneventful
  have hlb : ∃ lb,Visits (served descriptors e g) s
      (handleLbRequest e g config cache ⟨[],2,0,1,[]⟩ fd) s (lbcdSetweight g lb 0 defaultName) :=
    huneventful.handleLbRequest_visits config cache fd (List.forall_mem_nil _) (Nat.zero_le _)
      (huneventful.tmpFull s .tmp) (huneventful.tmpFull s .pTmpdir)
  obtain ⟨lb,hlb⟩ := hlb
  have hrecv : (served descriptors e g).step s (.sys (.recvfrom fd))
      (some ⟨queryPacket 2 [],[]⟩) s := .step rfl (.refl s _)
  obtain ⟨k,hk,hret⟩ := huneventful.serveOne_visits (query2_reaction config.services) hrecv hlb
  have hset := lbcdSetweight_of_probe hp lb 0
  change lbcdSetweight g lb 0 defaultName=_ at hset
  rw [hset] at hk
  have hweight : ∃ v,(served descriptors e g).step s
      (.weight .cmd 0 g.lbcdTimeout portarg (lb.setIncr 0 g.defaultIncrement)) v
      ((s.add r).add w).fail := by
    apply Exists.intro
    have hpipe : descriptors.step s .pipe (some (r,w)) ((s.add r).add w) := ⟨hr,hw,hne,rfl⟩
    have hfork : descriptors.step ((s.add r).add w) .fork .failed ((s.add r).add w).fail := rfl
    exact .step hpipe (.step hfork (.refl _ _))
  obtain ⟨v,hv⟩ := hweight
  obtain ⟨cache',hend⟩ := hret v.1 ((s.add r).add w).fail
  exact ⟨cache',(hk.trans (.step hv hend)).expand⟩

/-- A daemon with nothing but a socket. -/
def idleTable : FdTable := ⟨{0,1,2,3},none,0⟩

/-- The pipe of a helper that cannot be forked stays open. -/
theorem pipe_left :
    ∃ g,lbcdWeightInit .initial (some (CStr.lit "/usr/bin/helper")) none 5=.ok g ∧
      ∃ t cache,Run descriptors idleTable
        ((serveOne .little g ⟨[],false,4330,none,[],false,false⟩ .initial 3).expand
          (implement .little g)) t (.ret cache) ∧
        t.opened={0,1,2,3,4,5} ∧ t.opened≠idleTable.opened := by
  have hlost (g : WeightGlobals) (hp : probeOf g defaultName=some (.cmd,none)) :
      ∃ t cache,Run descriptors idleTable
        ((serveOne .little g ⟨[],false,4330,none,[],false,false⟩ .initial 3).expand
          (implement .little g)) t (.ret cache) ∧
        t.opened={0,1,2,3,4,5} ∧ t.opened≠idleTable.opened := by
    have h4 : 4∉idleTable.opened := by decide
    have h5 : 5∉idleTable.opened := by decide
    obtain ⟨cache,hrun⟩ := pipe_lost (e := .little) hp ⟨[],false,4330,none,[],false,false⟩ .initial
      3 h4 h5 (by decide)
    exact ⟨_,cache,hrun,by decide,by decide⟩
  exact ⟨_,rfl,hlost _ rfl⟩

end Lbcd
