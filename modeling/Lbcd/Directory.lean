import Lbcd.Resets
import Lbcd.Client
import Lbcd.Uneventful

namespace Lbcd

open Interaction CText ByteOrder

section

variable {D : Type} (target : TmpDir → D)

/-- Changes of the working directory. A forked child starts in the directory of its parent,
and no call but chdir leaves the current one. -/
inductive DirStep : D → (c : SysCall) → c.Reply → D → Prop where
  | chdir (s : D) (path : TmpDir) : DirStep s (.chdir path) true (target path)
  | noChdir (s : D) (path : TmpDir) : DirStep s (.chdir path) false s
  | other (s : D) {c : SysCall} (r : c.Reply) (h : ∀ path,c≠.chdir path) : DirStep s c r s

/-- A system where the paths of tmp_full are these directories. -/
def directories : World System D := ⟨DirStep target⟩

/-- Uses of a path from the command line: to create the PID file, to run the helper, to
remove the PID file. -/
def UsesPath : SysCall → Prop
  | .createPid _ => True
  | .execl _ => True
  | .unlink _ => True
  | _ => False

/-- The daemon uses every path from the command line in the directory it was started in. -/
def KeepsDirectory (e : Endian) (g : WeightGlobals) (config : LbcdConfig) (start : D) : Prop :=
  ∀ (s : D) (c : SysCall) (k : c.Reply → Prog System Unit),
    Run (directories target) start (daemon e g config) s (.call c k) → UsesPath c → s=start

end

/-- The helper answers for the default service. -/
def RunsHelper (g : WeightGlobals) : Prop := ∃ portarg,probeOf g defaultName=some (.cmd,portarg)

/-- A call of the server that uses a path does so in the directory it was started in. -/
def Steady {D : Type} (g : WeightGlobals) (start s : D) (c : ServerCall) : Prop :=
  ∀ c',Footprint g c c' → UsesPath c' → s=start

section

variable {D : Type} {target : TmpDir → D} {e : Endian} {g : WeightGlobals}
  {config : LbcdConfig} {start : D}

theorem Footprint.chdir {c : ServerCall} {path : TmpDir} (h : Footprint g c (.chdir path)) :
    c=.tmpFull path ∨ c=.sys (.chdir path) := by
  cases c with
  | sys c =>
    cases h
    exact Or.inr rfl
  | tmpFull path' =>
    cases h
    exact Or.inl rfl
  | weight f slot timeout portarg lb =>
    cases f with
    | load => cases h
    | _ => exact h.elim
  | _ => exact h.elim

/-- Down to the system calls nothing but tmp_full changes the directory. -/
theorem unmoved_safe {s : D} {c : ServerCall} (hc : ∀ path : TmpDir,¬Footprint g c (.chdir path))
    {ok : D → SysCall → Prop} (hok : ∀ c',Footprint g c c' → ok s c') :
    (implement e g c).Safe (directories target) ok (fun t _ => t=s) s := by
  have hkeep : ∀ (t : D) (c' : SysCall) (r : c'.Reply) (t' : D),t=s → Footprint g c c' →
      (directories target).step t c' r t' → t'=s := by
    intro t c' r t' hts hf hstep
    cases hstep with
    | chdir path => exact absurd hf (hc path)
    | noChdir path => exact hts
    | other r h => exact hts
  have hallowed : ∀ (t : D) (c' : SysCall),t=s → Footprint g c c' → ok t c' := by
    intro t c' hts hf
    rw [hts]
    exact hok c' hf
  exact (Prog.Meets.safe (implement_calls e g c) hallowed hkeep rfl).mono fun _ _ h => h.1

theorem served_step {c : ServerCall} {r : c.Reply} {s s' : D}
    (h : (served (directories target) e g).step s c r s')
    (hc : ∀ path : TmpDir,¬Footprint g c (.chdir path)) :
    s'=s := by
  have hsafe : (implement e g c).Safe (directories target) (fun _ _ => True)
      (fun t _ => t=s) s := unmoved_safe hc fun _ _ => trivial
  exact hsafe.run h

theorem Steady.safe {s : D} {c : ServerCall} (h : Steady g start s c) :
    (implement e g c).Safe (directories target) (fun t c' => UsesPath c' → t=start)
      (fun _ _ => True) s := by
  by_cases hc : ∀ path : TmpDir,¬Footprint g c (.chdir path)
  · have hsafe : (implement e g c).Safe (directories target) (fun t c' => UsesPath c' → t=start)
        (fun t _ => t=s) s := unmoved_safe hc h
    exact hsafe.mono fun _ _ _ => trivial
  · have hnone : ∀ (t : D) (c' : SysCall),True → Footprint g c c' → UsesPath c' → t=start := by
      intro t c' _ hf hu
      obtain ⟨path,hp⟩ := not_forall.mp hc
      rcases (not_not.mp hp).chdir with he|he
      · rw [he] at hf
        cases c' with
        | createPid path => exact hf.elim
        | execl path => exact hf.elim
        | unlink path => exact hf.elim
        | _ => exact hu.elim
      · rw [he] at hf
        cases hf
        exact hu.elim
    exact (Prog.Meets.safe (implement_calls e g c) hnone (fun _ _ _ _ _ _ _ => trivial)
      trivial).mono fun _ _ _ => trivial

/-- A server that is steady at each call uses every path where it was started. -/
theorem keepsDirectory_of_steady
    (h : (handleRequests e g config).Safe (served (directories target) e g) (Steady g start)
      (fun _ _ => True) start) :
    KeepsDirectory target e g config start := by
  intro s c k hr hu
  have hsafe := h.expand fun s c hc => hc.safe
  exact (hsafe.run hr).1 hu

/-- If the paths of tmp_full are the directory that the daemon was started in. -/
theorem keepsDirectory_same (h : ∀ path,target path=start) :
    KeepsDirectory target e g config start := by
  intro s c k hr _
  have hkeep : ∀ (t : D) (c : SysCall) (r : c.Reply) (t' : D),t=start →
      (directories target).step t c r t' → t'=start := by
    intro t c r t' ht hstep
    cases hstep with
    | chdir path => exact h path
    | noChdir path => exact ht
    | other r hc => exact ht
  apply Run.keeps hkeep hr
  rfl

/-- Without a helper the only path that is used is the one of the PID file. -/
theorem Serving.path (hh : ¬RunsHelper g) {c : ServerCall} (hc : Serving g config c)
    {c' : SysCall} (hf : Footprint g c c') (hu : UsesPath c') :
    c=.sys c' ∧ ∃ path,config.pidFile=some path := by
  cases c with
  | sys c =>
    cases hf
    refine ⟨rfl,?_⟩
    cases c' with
    | createPid path => exact ⟨path,hc.resolve_right id⟩
    | unlink path => exact ⟨path,hc.resolve_right id⟩
    | execl path => exact (hc.elim id id).elim
    | _ => exact hu.elim
  | weight f slot timeout portarg lb =>
    obtain ⟨-,-,name,ha,hp⟩ := hc
    have hcmd : f≠.cmd := by
      intro he
      rw [he] at hp
      by_cases hd : name=defaultName
      · exact hh ⟨portarg,hd ▸ hp⟩
      · obtain ⟨st,hst,hne⟩ := cmd_not_selected g ha hd
        rw [probeOf,hst] at hp
        obtain ⟨f',hf',he'⟩ := Option.map_eq_some_iff.mp hp
        have hfirst : f'=.cmd := congrArg Prod.fst he'
        exact hne (hfirst ▸ hf')
    cases c' with
    | createPid path => cases f <;> cases hf
    | unlink path => cases f <;> cases hf
    | execl path =>
      cases f with
      | cmd => exact absurd rfl hcmd
      | load => cases hf
      | _ => exact hf.elim
    | _ => exact hu.elim
  | _ =>
    cases c' with
    | createPid path => exact hf.elim
    | unlink path => exact hf.elim
    | execl path => exact hf.elim
    | _ => exact hu.elim

/-- If the daemon has neither a helper nor a PID file. -/
theorem keepsDirectory_pathless (hh : ¬RunsHelper g) (hp : config.pidFile=none) :
    KeepsDirectory target e g config start := by
  apply keepsDirectory_of_steady
  have hsteady : ∀ (s : D) (c : ServerCall),True → Serving g config c → Steady g start s c := by
    intro s c _ hc c' hf hu
    obtain ⟨-,path,hpath⟩ := hc.path hh hf hu
    rw [hp] at hpath
    cases hpath
  exact (Prog.Meets.safe (handleRequests_serving e g config) hsteady
    (fun _ _ _ _ _ _ _ => trivial) trivial).mono fun _ _ _ => trivial

theorem logAll_starting (config : LbcdConfig) (log : List Message) :
    (logAll log).Meets (Starting config) fun _ => True := by
  induction log with
  | nil => trivial
  | cons m ms ih => exact ⟨trivial,fun _ => ih⟩

/-- Before the first request and after the last one the directory stays. -/
theorem starting_safe {α : Type} {p : Prog Server α} {post : α → Prop}
    (h : p.Meets (Starting config) post) :
    p.Safe (served (directories target) e g) (Steady g start) (fun t a => t=start ∧ post a)
      start := by
  have hsteady : ∀ (s : D) (c : ServerCall),s=start → Starting config c → Steady g start s c :=
    fun s c hs _ c' _ _ => hs
  have hkeep : ∀ (s : D) (c : ServerCall) (r : c.Reply) (s' : D),s=start → Starting config c →
      (served (directories target) e g).step s c r s' → s'=start := by
    intro s c r s' hs hc hstep
    have hmoves : ∀ path : TmpDir,¬Footprint g c (.chdir path) := by
      intro path hf
      rcases hf.chdir with he|he
      · rw [he] at hc
        exact hc
      · rw [he] at hc
        exact hc
    exact (served_step hstep hmoves).trans hs
  exact h.safe hsteady hkeep rfl

theorem Handling.steady (hh : ¬RunsHelper g) {names : List CStr}
    (hn : ∀ name∈names,Allowed config.services name) {c : ServerCall} (h : Handling g names c)
    (s : D) : Steady g start s c := by
  intro c' hf hu
  obtain ⟨he,-⟩ := (h.serving hn).path hh hf hu
  rw [he] at h
  rcases h with h|⟨c'',hc,h⟩
  · cases c' with
    | createPid path => exact False.elim h
    | execl path => exact False.elim h
    | unlink path => exact False.elim h
    | _ => exact hu.elim
  · cases hc
    cases c' with
    | createPid path => exact h.elim
    | execl path => exact h.elim
    | unlink path => exact h.elim
    | _ => exact hu.elim

/-- Where the default service stands for no function no request is answered, and the rest
stays in the directory. -/
theorem react_steady (hd : ¬HasProbe g defaultName) (cache : UserCache) (fd : Fd)
    (got : Option Datagram) :
    (react e g config cache fd (reactionTo config.services got)).Safe
      (served (directories target) e g) (Steady g start) (fun t _ => t=start) start := by
  have hh : ¬RunsHelper g := by
    intro hr
    obtain ⟨portarg,hp⟩ := hr
    apply hd
    rw [HasProbe,hp]
    exact Option.some_ne_none _
  obtain ⟨hn,hl⟩ := servedNames_allowed config.services got
  have hreact := react_handling e g config cache fd (reactionTo config.services got) hl
  cases hr : reactionTo config.services got with
  | silent => exact rfl
  | error request status =>
    refine ⟨fun _ _ _ => rfl,fun sent s' hs => ?_⟩
    have he : s'=start := served_step hs fun path hf => by cases hf
    rw [he]
    have hlog : (message .cannotSend >>= fun _ => Prog.ret cache).Meets (Starting config)
        fun _ => True := ⟨trivial,fun _ => trivial⟩
    dsimp only [Prog.bind]
    split_ifs
    · exact (starting_safe hlog).mono fun _ _ h => h.1
    · exact rfl
  | serve request =>
    rw [hr] at hreact hn
    have hsteady : ∀ (s : D) (c : ServerCall),True →
        Handling g (servedNames (.serve request)) c → Steady g start s c :=
      fun s c _ hc => hc.steady hh hn s
    apply (hreact.safe hsteady (fun _ _ _ _ _ _ _ => trivial) trivial).mono
    intro t cache' h
    exact absurd (h.2 request rfl) hd

theorem serveLoop_steady (hd : ¬HasProbe g defaultName) (fds : List Fd) (fuel : ℕ)
    (cache : UserCache) :
    (serveLoop e g config fds fuel cache).Safe (served (directories target) e g) (Steady g start)
      (fun t _ => t=start) start := by
  induction fuel generalizing cache with
  | zero => exact ⟨fun _ _ _ => rfl,fun r => r.elim⟩
  | succ fuel ih =>
    refine ⟨fun _ _ _ => rfl,fun exiting s hs => ?_⟩
    rw [served_step hs fun path hf => by cases hf]
    cases exiting with
    | true =>
      have hlog : (message .exiting).Meets (Starting config) fun _ => True :=
        ⟨trivial,fun _ => trivial⟩
      exact (starting_safe hlog).mono fun _ _ h => h.1
    | false =>
      refine ⟨fun _ _ _ => rfl,fun any s hs => ?_⟩
      rw [served_step hs fun path hf => by cases hf]
      cases any with
      | interrupted => exact ih cache
      | failed => exact ⟨fun _ _ _ => rfl,fun r => r.elim⟩
      | ready fd =>
        obtain ⟨log,hlog⟩ := serveOne_eq e g config cache fd
        have hone : (serveOne e g config cache fd).Safe (served (directories target) e g)
            (Steady g start) (fun t _ => t=start) start := by
          rw [hlog]
          refine ⟨fun _ _ _ => rfl,fun got s hs => ?_⟩
          rw [served_step hs fun path hf => by cases hf]
          apply (starting_safe (logAll_starting config (log got))).bind
          intro t _ ht
          rw [ht.1]
          exact react_steady hd cache fd got
        apply hone.bind
        intro t cache' ht
        rw [ht]
        exact ih cache'

/-- If no request is ever answered. -/
theorem keepsDirectory_unanswered (hd : ¬HasProbe g defaultName) :
    KeepsDirectory target e g config start := by
  apply keepsDirectory_of_steady
  rw [handleRequests]
  apply (starting_safe (startUp_starting config)).bind
  intro t fds ht
  rw [ht.1]
  refine ⟨fun _ _ _ => rfl,fun fuel s hs => ?_⟩
  rw [served_step hs fun path hf => by cases hf]
  apply (serveLoop_steady hd fds fuel .initial).bind
  intro t _ ht
  rw [ht]
  apply (starting_safe (removePidFile_starting config)).bind
  intro t _ ht
  rw [ht.1]
  exact (starting_safe (closeAll_starting config fds)).mono fun _ _ _ => trivial

theorem directories_uneventful (target : TmpDir → D) : Uneventful (directories target) where
  calm := by
    intro s c r hc
    apply DirStep.other s r
    intro path he
    subst he
    exact hc
  unread := by
    intro s n c r hc
    apply DirStep.other s r
    intro path he
    subst he
    cases hc
  failed := by
    intro s n c r hc
    apply DirStep.other s r
    intro path he
    subst he
    cases hc
  missing := DirStep.noChdir
  unwritten := fun s path => DirStep.other s (c := .createPid path) false fun path h => by cases h

theorem served_tmpFull (s : D) (path : TmpDir) :
    (served (directories target) e g).step s (.tmpFull path) 0 (target path) := by
  apply Run.step (DirStep.chdir s path)
  apply Run.step (DirStep.other (target path) (c := .statvfs) none fun path h => by cases h)
  exact .refl _ _

/-- The two calls of tmp_full can end in either directory. -/
theorem served_tmp (s : D) (path : TmpDir) :
    ∃ t,(served (directories target) e g).step s (.tmpFull .tmp) 0 t ∧
      (served (directories target) e g).step t (.tmpFull .pTmpdir) 0 (target path) := by
  have hw := directories_uneventful target
  cases path with
  | tmp => exact ⟨_,served_tmpFull s .tmp,hw.tmpFull _ .pTmpdir⟩
  | pTmpdir => exact ⟨_,hw.tmpFull s .tmp,served_tmpFull s .pTmpdir⟩

section

variable (target) (e) (g) (config) (start)

/-- A daemon that answers one request of version 2, and is told to stop. -/
theorem one_request (path : TmpDir) :
    ∃ lb k,Run (served (directories target) e g) start (handleRequests e g config) (target path)
        (lbcdSetweight g lb 0 defaultName >>= k) ∧
      ∀ b,Run (served (directories target) e g) (target path) (k b) (target path)
        (removePidFile config >>= fun _ => closeAll [listenFdsStart]) := by
  have hw := directories_uneventful target
  have hd := query2_reaction config.services
  obtain ⟨t,htmp,hptmp⟩ : ∃ t,(served (directories target) e g).step start (.tmpFull .tmp) 0 t ∧
      (served (directories target) e g).step t (.tmpFull .pTmpdir) 0 (target path) :=
    served_tmp start path
  have hvisits : ∃ lb,Visits (served (directories target) e g) start
      (handleLbRequest e g config .initial ⟨[],2,0,1,[]⟩ listenFdsStart) (target path)
      (lbcdSetweight g lb 0 defaultName) :=
    hw.handleLbRequest_visits config .initial listenFdsStart (List.forall_mem_nil _)
      (Nat.zero_le _) htmp hptmp
  obtain ⟨lb,hlb⟩ := hvisits
  have hrecv : (served (directories target) e g).step start (.sys (.recvfrom listenFdsStart))
      (some ⟨queryPacket 2 [],[]⟩) start :=
    .step (DirStep.other start _ fun path h => by cases h) (.refl start _)
  obtain ⟨k,hk⟩ := hw.handleRequests_visits hd hrecv hlb
  exact ⟨lb,k,hk⟩

/-- The helper is run where the measurements end. -/
theorem RunsHelper.reaches {g : WeightGlobals} (hr : RunsHelper g) (path : TmpDir) :
    ∃ k,Run (directories target) start (daemon e g config) (target path)
      (.call (.execl g.lbcdCommand) k) := by
  obtain ⟨portarg,hp⟩ := hr
  obtain ⟨lb,k,hk,-⟩ := one_request target e g config start path
  have hset := lbcdSetweight_of_probe hp lb 0
  change lbcdSetweight g lb 0 defaultName=_ at hset
  rw [hset] at hk
  apply Exists.intro
  apply hk.expand.trans
  apply Run.step (DirStep.other _ (c := .pipe) (some (3,4)) fun path h => by cases h)
  apply Run.step (DirStep.other _ (c := .fork) .child fun path h => by cases h)
  apply Run.step (DirStep.other _ (c := .close 3) () fun path h => by cases h)
  apply Run.step (DirStep.other _ (c := .close 2) () fun path h => by cases h)
  apply Run.step (DirStep.other _ (c := .dup2 4 1) () fun path h => by cases h)
  apply Run.step (DirStep.other _ (c := .close 4) () fun path h => by cases h)
  exact .refl _ _

/-- So is the PID file removed. -/
theorem unlink_reached (hd : HasProbe g defaultName) {pid : CStr} (hpid : config.pidFile=some pid)
    (path : TmpDir) :
    ∃ k,Run (directories target) start (daemon e g config) (target path)
      (.call (.unlink pid) k) := by
  obtain ⟨p,hp⟩ := Option.ne_none_iff_exists'.mp hd
  obtain ⟨f,portarg⟩ := p
  obtain ⟨lb,k,hk,hret⟩ := one_request target e g config start path
  have hset := lbcdSetweight_of_probe hp lb 0
  change lbcdSetweight g lb 0 defaultName=_ at hset
  rw [hset] at hk
  have hweight : ∃ r,(served (directories target) e g).step (target path)
      (.weight f 0 g.lbcdTimeout portarg (lb.setIncr 0 g.defaultIncrement)) r (target path) :=
    (directories_uneventful target).weight (target path) f 0 portarg _
  obtain ⟨r,hr⟩ := hweight
  have hall := (hk.trans (.step hr (hret r.1))).expand
  rw [removePidFile,hpid] at hall
  exact ⟨_,hall⟩

end

/-- The directory is kept exactly if it is the one of tmp_full, or no request is answered, or
no path is used after one. -/
theorem keepsDirectory_iff {D : Type} (target : TmpDir → D) (e : Endian) (g : WeightGlobals)
    (config : LbcdConfig) (start : D) :
    KeepsDirectory target e g config start ↔
      (∀ path,target path=start) ∨ ¬HasProbe g defaultName ∨
        (¬RunsHelper g ∧ config.pidFile=none) := by
  constructor
  · intro h
    by_cases hd : HasProbe g defaultName
    · by_cases hr : RunsHelper g
      · left
        intro path
        obtain ⟨k,hk⟩ := hr.reaches target e config start path
        exact h (target path) (.execl g.lbcdCommand) k hk trivial
      · cases hpid : config.pidFile with
        | none => exact Or.inr (Or.inr ⟨hr,rfl⟩)
        | some pid =>
          left
          intro path
          obtain ⟨k,hk⟩ := unlink_reached target e g config start hd hpid path
          exact h (target path) (.unlink pid) k hk trivial
    · exact Or.inr (Or.inl hd)
  · intro h
    rcases h with h|h|⟨hh,hp⟩
    · exact keepsDirectory_same h
    · exact keepsDirectory_unanswered h
    · exact keepsDirectory_pathless hh hp

end

/-- A daemon with a PID file that is not given from the root. -/
def pidConfig : LbcdConfig :=
  ⟨[],false,4330,some (CStr.lit "run/lbcd.pid"),[],false,false⟩

/-- Started without options but for the PID file, one request is enough. -/
theorem pid_file_left :
    ∃ g,lbcdWeightInit .initial none none 5=.ok g ∧
      ¬KeepsDirectory some .little g pidConfig none := by
  have hleft (g : WeightGlobals) (hd : HasProbe g defaultName) :
      ¬KeepsDirectory some .little g pidConfig none := by
    intro h
    obtain ⟨k,hk⟩ := unlink_reached some .little g pidConfig none hd rfl .tmp
    cases h (some .tmp) (.unlink (CStr.lit "run/lbcd.pid")) k hk trivial
  exact ⟨_,rfl,hleft _ (Option.some_ne_none _)⟩

end Lbcd
