import Mathlib.Logic.Relation
import Mathlib.Logic.Function.Basic
import Mathlib.Data.Option.Basic
import Lbcd.Serving

namespace Lbcd

open Interaction CText ByteOrder

/-- The server's end of a connection to a local service: what the service sent and is not
read yet, and how far it closed or reset the connection. A reset is reported by one call. -/
structure Conn where
  unread : List UInt8
  closed : Bool
  reset : Bool
  reported : Bool
  written : Bool
  deriving DecidableEq

def Conn.fresh : Conn := ⟨[],false,false,false,false⟩

/-- The open connections, and what signals do. -/
structure Net where
  conns : Fd → Option Conn
  disposition : Signal → Disposition

/-- Before the daemon starts there are no connections and signals have their defaults. -/
def Net.start : Net := ⟨fun _ => none,fun _ => .dfl⟩

def Net.set (s : Net) (fd : Fd) (c : Option Conn) : Net :=
  { s with conns := Function.update s.conns fd c }

/-- What the service at the other end can do. -/
inductive PeerMove : Conn → Conn → Prop where
  | data (c : Conn) (bs : List UInt8) (hc : c.closed=false) (hr : c.reset=false)
      (hn : c.reported=false) : PeerMove c { c with unread := c.unread++bs }
  | close (c : Conn) (hr : c.reset=false) (hn : c.reported=false) :
      PeerMove c { c with closed := true }
  | reset (c : Conn) (hr : c.reset=false) (hn : c.reported=false) :
      PeerMove c { c with reset := true }

/-- Any number of moves on any connections. -/
structure Moves (s s' : Net) : Prop where
  disposition : s'.disposition=s.disposition
  conns : ∀ fd,Option.Rel (Relation.ReflTransGen PeerMove) (s.conns fd) (s'.conns fd)

def Conn.readable (c : Conn) : Bool := c.unread≠[] || c.closed || c.reset || c.reported

/-- A read takes what is unread first; then it reports a reset, and then the end. -/
def Conn.read (c : Conn) (got : Option (List UInt8)) : Conn :=
  match got with
  | some bs => { c with unread := c.unread.drop bs.length }
  | none =>
    if c.reset ∧ c.unread=[] then { c with reset := false,reported := true } else c

def Conn.canRead (c : Conn) : Option (List UInt8) → Bool
  | some [] => c.unread=[] && (c.closed || c.reported) && !c.reset
  | some bs => bs.isPrefixOf c.unread
  | none => true

/-- A write reports a reset that no call has reported. -/
def Conn.write (c : Conn) : Conn :=
  if c.reset then { c with reset := false,reported := true,written := true }
  else { c with written := true }

/-- A write on a connection whose reset was reported raises SIGPIPE. -/
def Net.raisesPipe (s : Net) (fd : Fd) : Bool :=
  match s.conns fd with
  | some c => c.reported && s.disposition .pipe==.dfl
  | none => false

/-- The replies the system can give. A process that SIGPIPE ends gets none. -/
def Net.admits (s : Net) : (c : SysCall) → c.Reply → Bool
  | .networkConnect _,some fd => (s.conns fd).isNone
  | .select fd _,n => n ≤ 0 || (s.conns fd).all Conn.readable
  | .read fd _,got => (s.conns fd).all fun c => c.canRead (got.map Subtype.val)
  | .write fd _,_ => !s.raisesPipe fd
  | _,_ => true

/-- What a call does to the connections and the dispositions. -/
def Net.effect (s : Net) : (c : SysCall) → c.Reply → Net
  | .networkConnect _,some fd => s.set fd (some .fresh)
  | .read fd _,got => s.set fd ((s.conns fd).map fun c => c.read (got.map Subtype.val))
  | .write fd _,_ => s.set fd ((s.conns fd).map Conn.write)
  | .close fd,_ => s.set fd none
  | .sigaction sig act,true => { s with disposition := Function.update s.disposition sig act }
  | _,_ => s

/-- The system the daemon runs on, with the services it probes: after each call they may
move as they like. -/
def peers : World System Net :=
  ⟨fun s c r s' => s.admits c r=true ∧ Moves (s.effect c r) s'⟩

/-- The call does not end the process by SIGPIPE. -/
def NoSigpipe (s : Net) : SysCall → Prop
  | .write fd _ => ∀ c∈s.conns fd,¬(c.reported=true ∧ s.disposition .pipe=.dfl)
  | _ => True

/-- The connection that is read. -/
def readsFrom : SysCall → Option Fd
  | .read fd _ => some fd
  | _ => none

/-- A read finds no reset with nothing unread on a connection that was not written to. -/
def Intact (s : Net) (c : SysCall) : Prop :=
  ∀ fd∈readsFrom c,∀ conn∈s.conns fd,conn.written=false → ¬(conn.reset=true ∧ conn.unread=[])

instance (s : Net) (c : SysCall) : Decidable (Intact s c) :=
  inferInstanceAs (Decidable (∀ fd∈readsFrom c,_))

/-- An open connection without a reported reset, to which nothing was written. -/
def Fresh (s : Net) (fd : Fd) : Prop :=
  ∃ c,s.conns fd=some c ∧ c.reported=false ∧ c.written=false

theorem peerMoves_own {c c' : Conn} (h : Relation.ReflTransGen PeerMove c c') :
    c'.reported=c.reported ∧ c'.written=c.written := by
  induction h with
  | refl => exact ⟨rfl,rfl⟩
  | tail _ hm ih =>
    cases hm with
    | data bs hc hr hn => exact ih
    | close hr hn => exact ih
    | reset hr hn => exact ih

theorem Fresh.moves {s s' : Net} {fd : Fd} (h : Fresh s fd) (hm : Moves s s') : Fresh s' fd := by
  obtain ⟨c,hc,hr,hw⟩ := h
  have hrel := hm.conns fd
  rw [hc] at hrel
  cases hs : s'.conns fd with
  | none =>
    rw [hs] at hrel
    cases hrel
  | some c' =>
    rw [hs] at hrel
    cases hrel with
    | some hcc =>
      obtain ⟨hr',hw'⟩ := peerMoves_own hcc
      exact ⟨c',hs,hr'.trans hr,hw'.trans hw⟩

theorem fresh_set (s : Net) (fd : Fd) {c : Conn} (hr : c.reported=false)
    (hw : c.written=false) : Fresh (s.set fd (some c)) fd := by
  have hc := Function.update_self fd (some c) s.conns
  exact ⟨c,hc,hr,hw⟩

/-- A read that finds no reset leaves the connection as it should be. -/
theorem Fresh.read {s : Net} {fd : Fd} (h : Fresh s fd) {n : ℕ} (hi : Intact s (.read fd n))
    (got : ReadReply n) : Fresh (s.effect (.read fd n) got) fd := by
  obtain ⟨c,hc,hr,hw⟩ := h
  have hreset := hi fd rfl c hc hw
  change Fresh (s.set fd ((s.conns fd).map fun c => c.read (got.map Subtype.val))) fd
  rw [hc,Option.map_some]
  cases got with
  | none =>
    have hread : c.read none=c := if_neg hreset
    rw [Option.map_none,hread]
    exact fresh_set s fd hr hw
  | some bs => exact fresh_set s fd hr hw

theorem Fresh.noSigpipe {s : Net} {fd : Fd} (h : Fresh s fd) (bs : List UInt8) :
    NoSigpipe s (.write fd bs) := by
  obtain ⟨c,hc,hr,-⟩ := h
  intro c' hc' hstep
  obtain ⟨hr',-⟩ := hstep
  rw [hc] at hc'
  cases hc'
  rw [hr] at hr'
  cases hr'

/-- Calls other than writes. -/
def Unwritten : SysCall → Prop
  | .write _ _ => False
  | _ => True

theorem HelperCall.unwritten {cmd : Option CStr} {c : SysCall} (h : HelperCall cmd c) :
    Unwritten c := by
  cases c with
  | write fd bs => exact h
  | _ => trivial

theorem NtpCall.unwritten {c : SysCall} (h : NtpCall c) : Unwritten c := by
  cases c with
  | write fd bs => exact h
  | _ => trivial

theorem AwaitCall.unwritten {c : SysCall} (h : AwaitCall c) : Unwritten c := by
  cases c with
  | write fd bs => exact h
  | _ => trivial

section Probes

/-- The runs in which every read is as it should be. -/
abbrev intactPeers : World System Net := peers.restrict Intact

theorem unwritten_safe {α : Type} {p : Prog System α}
    (h : p.Meets Unwritten fun _ => True) (s : Net) :
    p.Safe intactPeers NoSigpipe (fun _ _ => True) s := by
  have hok : ∀ (s : Net) (c : SysCall),True → Unwritten c → NoSigpipe s c := by
    intro s c _ hc
    cases c with
    | write fd bs => exact hc.elim
    | _ => trivial
  exact (Prog.Meets.safe h hok (fun _ _ _ _ _ _ _ => trivial) trivial).mono fun _ _ _ => trivial

theorem networkConnect_safe (ai : List AddrInfo) (s : Net) :
    (sys (.networkConnect ai)).Safe intactPeers NoSigpipe
      (fun t r => ∀ fd,r=some fd → Fresh t fd) s := by
  refine ⟨trivial,?_⟩
  rintro r s' ⟨-,-,hm⟩ fd rfl
  exact (fresh_set s fd rfl rfl).moves hm

theorem tcpLink_safe (ai : Option (List AddrInfo)) (s : Net) :
    (tcpLink ai).Safe intactPeers NoSigpipe (fun t r => ∀ fd,r=some fd → Fresh t fd) s := by
  cases ai with
  | none =>
    intro fd h
    cases h
  | some ai => exact networkConnect_safe ai s

theorem tcpFallback_safe (host : CStr) (port : ℤ) (ai : Option (List AddrInfo)) (s : Net) :
    (tcpFallback host port ai).Safe intactPeers NoSigpipe
      (fun t r => ∀ fd,r=some fd → Fresh t fd) s := by
  rw [tcpFallback]
  split_ifs
  · exact ⟨trivial,fun ai s' _ => tcpLink_safe ai s'⟩
  · exact tcpLink_safe ai s

theorem tcpConnect_safe (host : CStr) (protocol : Option CStr) (port : ℤ) (s : Net) :
    (tcpConnect host protocol port).Safe intactPeers NoSigpipe
      (fun t r => ∀ fd,r=some fd → Fresh t fd) s := by
  cases protocol with
  | none => exact tcpFallback_safe host port none s
  | some name => exact ⟨trivial,fun ai s' _ => tcpFallback_safe host port ai s'⟩

theorem lbcdCheckReply_safe (sd : Fd) (timeout : ℤ) (token : CStr) {s : Net} (hs : Fresh s sd) :
    (lbcdCheckReply sd timeout (some token)).Safe intactPeers NoSigpipe
      (fun t _ => Fresh t sd) s := by
  refine ⟨trivial,?_⟩
  intro block s1 hstep
  obtain ⟨-,-,hm1⟩ := hstep
  have hs1 := hs.moves hm1
  cases block with
  | none => exact hs1
  | some block =>
    refine ⟨trivial,?_⟩
    intro n s2 hstep
    obtain ⟨-,-,hm2⟩ := hstep
    have hs2 := hs1.moves hm2
    change Prog.Safe _ _ _ (if 0 < n then _ else _) s2
    split_ifs
    · refine ⟨trivial,?_⟩
      intro got s3 hstep
      obtain ⟨hi,-,hm3⟩ := hstep
      have hs3 := (hs2.read hi got).moves hm3
      cases got with
      | none => exact hs3
      | some got =>
        change Prog.Safe _ _ _ (if got.val=[] then _ else
          if CStr.ofBuffer (overlay got.val (block.val.set token.bytes.length 0))=token then _
          else _) s3
        split_ifs
        · exact hs3
        · exact hs3
        · exact hs3
    · exact hs2

/-- A token is looked for before the one line that is written. -/
theorem checkedWrite_safe (sd : Fd) (timeout : ℤ) (token : CStr) (bytes : List UInt8) {s : Net}
    (hs : Fresh s sd) :
    (lbcdCheckReply sd timeout (some token) >>= fun v => sys (.write sd bytes) >>= fun _ =>
      Prog.ret v).Safe intactPeers NoSigpipe (fun _ _ => True) s := by
  apply (lbcdCheckReply_safe sd timeout token hs).bind
  intro t v ht
  exact ⟨ht.noSigpipe _,fun _ _ _ => trivial⟩

/-- A probe over TCP is as safe as what it says over a fresh connection. -/
theorem tcpProbe_safe {exchange : Fd → Prog System ℤ}
    (hx : ∀ sd s,Fresh s sd → (exchange sd).Safe intactPeers NoSigpipe (fun _ _ => True) s)
    (host : CStr) (service : Option CStr) (port : ℤ) (s : Net) :
    (tcpConnect host service port >>= afterConnect exchange).Safe intactPeers NoSigpipe
      (fun _ _ => True) s := by
  apply (tcpConnect_safe host service port s).bind
  intro t sd hsd
  cases sd with
  | none => trivial
  | some sd => exact (hx sd t (hsd sd rfl)).bind fun _ _ _ => ⟨trivial,fun _ _ _ => trivial⟩

theorem probeTcp_safe (host service : Option CStr) (port : ℤ) (replycheck : Option CStr)
    (timeout : ℤ) (s : Net) :
    (probeTcp host service port replycheck timeout).Safe intactPeers NoSigpipe
      (fun _ _ => True) s := by
  rw [probeTcp_eq]
  apply tcpProbe_safe
  intro sd s hs
  cases replycheck with
  | none => trivial
  | some token => exact checkedWrite_safe sd timeout token _ hs

theorem probeImap_safe (host : Option CStr) (timeout : ℤ) (s : Net) :
    (probeImap host timeout).Safe intactPeers NoSigpipe (fun _ _ => True) s := by
  rw [probeImap_eq]
  exact tcpProbe_safe (fun sd s hs => checkedWrite_safe sd timeout _ _ hs) _ _ 143 s

theorem probeHttp_safe (host : Option CStr) (timeout : ℤ) (portarg : Option CStr) (s : Net) :
    (probeHttp host timeout portarg).Safe intactPeers NoSigpipe (fun _ _ => True) s := by
  rw [probeHttp_eq]
  apply tcpProbe_safe
  intro sd s hs
  refine ⟨trivial,?_⟩
  intro buf s1 hstep
  obtain ⟨-,-,hm1⟩ := hstep
  refine ⟨(hs.moves hm1).noSigpipe _,fun n s2 _ => ?_⟩
  change Prog.Safe _ _ _ (if n < httpQuery.length then _ else _) s2
  split_ifs
  · trivial
  · exact unwritten_safe
      ((httpAnswer_calls timeout sd buf).mono (fun _ hc => hc.unwritten) fun _ h => h) s2

theorem probeWeight_safe (slot : Slot) (lb : LbcdReply) {probe : Prog System ℤ} {s : Net}
    (h : probe.Safe intactPeers NoSigpipe (fun _ _ => True) s) :
    (probeWeight slot lb probe).Safe intactPeers NoSigpipe (fun _ _ => True) s :=
  h.bind fun _ _ _ => trivial

theorem weightFunction_safe (e : Endian) (g : WeightGlobals) (f : WeightFunc) (slot : Slot)
    (timeout : ℤ) (portarg : Option CStr) (lb : LbcdReply) (s : Net) :
    (weightFunction e g f slot timeout portarg lb).Safe intactPeers NoSigpipe
      (fun _ _ => True) s := by
  cases f with
  | load => exact ⟨trivial,fun _ _ _ => trivial⟩
  | cmd =>
    have hcalls := weightFunction_calls e g .cmd slot timeout portarg lb
    exact unwritten_safe (hcalls.mono (fun _ hc => HelperCall.unwritten hc) fun _ h => h) s
  | rr => trivial
  | unknown => trivial
  | ftp => exact probeWeight_safe slot lb (probeTcp_safe _ _ _ _ timeout s)
  | http => exact probeWeight_safe slot lb (probeHttp_safe _ timeout portarg s)
  | imap => exact probeWeight_safe slot lb (probeImap_safe _ timeout s)
  | nntp => exact probeWeight_safe slot lb (probeTcp_safe _ _ _ _ timeout s)
  | ntp =>
    have hcalls := weightFunction_calls e g .ntp slot timeout portarg lb
    exact unwritten_safe (hcalls.mono (fun _ hc => NtpCall.unwritten hc) fun _ h => h) s
  | pop => exact probeWeight_safe slot lb (probeTcp_safe _ _ _ _ timeout s)
  | smtp => exact probeWeight_safe slot lb (probeTcp_safe _ _ _ _ timeout s)
  | tcp =>
    cases portarg with
    | none => trivial
    | some arg =>
      change Prog.Safe _ _ _ (if arg.bytes.all isdigit then _ else _) s
      split_ifs
      · trivial
      · exact probeWeight_safe slot lb (probeTcp_safe _ _ _ _ timeout s)
      · exact probeWeight_safe slot lb (probeTcp_safe _ _ _ _ timeout s)

end Probes

/-- The server itself writes to no connection. -/
def Outside : ServerCall → Prop
  | .sys (.write _ _) => False
  | _ => True

/-- Only the weight functions write to connections. -/
theorem Footprint.unwritten {g : WeightGlobals} {c : ServerCall} {c' : SysCall}
    (hc : Outside c) (hw : ∀ f slot timeout portarg lb,c≠.weight f slot timeout portarg lb)
    (h : Footprint g c c') : Unwritten c' := by
  cases c' with
  | write fd bs =>
    cases c with
    | sys c =>
      cases h
      exact hc
    | weight f slot timeout portarg lb => exact absurd rfl (hw f slot timeout portarg lb)
    | _ => exact h
  | _ => trivial

theorem implement_safe (e : Endian) (g : WeightGlobals) (c : ServerCall) (s : Net)
    (hc : Outside c) : (implement e g c).Safe intactPeers NoSigpipe (fun _ _ => True) s := by
  by_cases hw : ∀ f slot timeout portarg lb,c≠.weight f slot timeout portarg lb
  · exact unwritten_safe ((implement_calls e g c).mono (fun _ h => h.unwritten hc hw)
      fun _ h => h) s
  · cases c with
    | weight f slot timeout portarg lb => exact weightFunction_safe e g f slot timeout portarg lb s
    | _ => exact absurd (fun _ _ _ _ _ he => by cases he) hw

theorem Serving.outside {g : WeightGlobals} {config : LbcdConfig} {c : ServerCall}
    (h : Serving g config c) : Outside c := by
  cases c with
  | sys c =>
    cases c with
    | write fd bs => exact h.elim id id
    | _ => trivial
  | _ => trivial

theorem handleRequests_outside (e : Endian) (g : WeightGlobals) (config : LbcdConfig) :
    (handleRequests e g config).Meets Outside fun _ => True :=
  (handleRequests_serving e g config).mono (fun _ h => h.outside) fun _ h => h

/-- The daemon down to its system calls. -/
def daemon (e : Endian) (g : WeightGlobals) (config : LbcdConfig) : Prog System Unit :=
  (handleRequests e g config).expand (implement e g)

/-- The globals of a server for ftp. -/
def ftpGlobals : WeightGlobals :=
  ⟨none,some (CStr.lit "ftp"),1,1,some ⟨CStr.lit "ftp",some .ftp⟩,5⟩

def quietConfig : LbcdConfig := ⟨[],false,4330,none,[],false,false⟩

/-- Services that move once, when a connection is made. -/
def scripted (after : Conn) (s : Net) (c : SysCall) (r : c.Reply) : Option Net :=
  if s.admits c r then
    match c,r with
    | .networkConnect _,some fd => some (s.set fd (some after))
    | c,r => some (s.effect c r)
  else none

theorem moves_refl (s : Net) : Moves s s := by
  refine ⟨rfl,fun fd => ?_⟩
  cases s.conns fd with
  | none => exact .none
  | some c => exact .some .refl

theorem moves_set {s : Net} {fd : Fd} {c c' : Conn}
    (h : Relation.ReflTransGen PeerMove c c') : Moves (s.set fd (some c)) (s.set fd (some c')) := by
  refine ⟨rfl,fun fd' => ?_⟩
  by_cases hf : fd'=fd
  · subst hf
    simp only [Net.set,Function.update_self]
    exact .some h
  · simp only [Net.set,Function.update_of_ne hf]
    exact (moves_refl s).conns fd'

theorem scripted_step {after : Conn} (h : Relation.ReflTransGen PeerMove .fresh after) (s : Net)
    (c : SysCall) (r : c.Reply) (s' : Net) (hs : scripted after s c r=some s') :
    peers.step s c r s' := by
  unfold scripted at hs
  split_ifs at hs with ha
  refine ⟨ha,?_⟩
  cases c with
  | networkConnect ai =>
    cases r with
    | none =>
      cases hs
      exact moves_refl _
    | some fd =>
      have hset : s.set fd (some after)=s' := Option.some.inj hs
      rw [← hset]
      exact moves_set h
  | _ =>
    cases hs
    exact moves_refl _

/-- A host with one request waiting and a service that takes connections, where reads get
this answer. -/
def hostAnswering (got : (n : ℕ) → ReadReply n) : Oracle System := Oracle.const fun c =>
  match c with
  | .sigaction _ _ => some true
  | .sdListenFds => some 1
  | .sdNotify => some 0
  | .fuel => some 1
  | .exitSignaled => some false
  | .networkWaitAny _ => some (.ready 3)
  | .recvfrom _ => some (some ⟨[0,2,0,7,0,1,0,0],[127,0,0,1]⟩)
  | .stackReply => some default
  | .stackLocals => some ⟨0,0,0,0⟩
  | .fopen _ => some false
  | .message _ => some ()
  | .time => some 0
  | .stat _ => some none
  | .utmpRecords => some []
  | .chdir _ => some false
  | .access _ => some false
  | .getaddrinfo _ _ _ => some (some [])
  | .networkConnect _ => some (some 5)
  | .malloc n => some (some ⟨List.replicate n 0,List.length_replicate⟩)
  | .select _ _ => some 1
  | .read _ n => some (got n)
  | _ => none

/-- In every run in which each read is as it should be, no write raises SIGPIPE. -/
theorem intact_runs_survive (e : Endian) (g : WeightGlobals) (config : LbcdConfig) {s : Net}
    {c : SysCall} {k : c.Reply → Prog System Unit}
    (hr : Run (peers.restrict Intact) .start (daemon e g config) s (.call c k)) :
    NoSigpipe s c := by
  have hkeep : ∀ (c : ServerCall) (t : Net),True → Outside c →
      (implement e g c).Safe intactPeers NoSigpipe (fun _ _ => True) t :=
    fun c t _ hc => implement_safe e g c t hc
  have hsafe := (handleRequests_outside e g config).expand hkeep (s := .start) trivial
  exact (hsafe.run hr).1

/-- A service that closes the connection is told quit, and nothing happens. -/
theorem intact_runs_survive_close :
    ∃ s k,Run (peers.restrict Intact) .start (daemon .little ftpGlobals quietConfig) s
        (Prog.call (I := System) (.write 5 (CStr.lit "quit\r\n").bytes) k) ∧
      NoSigpipe s (.write 5 (CStr.lit "quit\r\n").bytes) := by
  let next : (s : Net) → (c : SysCall) → c.Reply → Option Net := fun s c r =>
    if Intact s c then scripted ⟨[],true,false,false,false⟩ s c r else none
  have hmove : Relation.ReflTransGen PeerMove .fresh ⟨[],true,false,false,false⟩ :=
    .single (.close .fresh rfl rfl)
  have hnext : ∀ s c r s',next s c r=some s' → (peers.restrict Intact).step s c r s' := by
    intro s c r s' hs
    by_cases hi : Intact s c
    · have hs : scripted _ s c r=some s' := (if_pos hi).symm.trans hs
      exact ⟨hi,scripted_step hmove s c r s' hs⟩
    · cases (if_neg hi).symm.trans hs
  have hr := Prog.run_walk hnext 29 (hostAnswering fun _ => some ⟨[],Nat.zero_le _⟩) .start
    (daemon .little ftpGlobals quietConfig)
  have hend : ∃ s k,(daemon .little ftpGlobals quietConfig).walk next 29
      (hostAnswering fun _ => some ⟨[],Nat.zero_le _⟩) .start=
        (s,Prog.call (I := System) (.write 5 (CStr.lit "quit\r\n").bytes) k) := ⟨_,_,rfl⟩
  obtain ⟨s,k,hw⟩ := hend
  rw [hw] at hr
  exact ⟨s,k,hr,intact_runs_survive .little ftpGlobals quietConfig hr⟩

/-- A service that resets the connection before its banner is read: the read reports the
reset, and the farewell is written all the same. -/
theorem quit_after_reset :
    lbcdWeightInit .initial none (some (CStr.lit "ftp")) 5=.ok ftpGlobals ∧
      ¬∀ (s : Net) (c : SysCall) (k : c.Reply → Prog System Unit),
        Run peers .start (daemon .little ftpGlobals quietConfig) s (.call c k) →
          NoSigpipe s c := by
  refine ⟨rfl,fun h => ?_⟩
  have hmove : Relation.ReflTransGen PeerMove .fresh ⟨[],false,true,false,false⟩ :=
    .single (.reset .fresh rfl rfl)
  have hr := Prog.run_walk (scripted_step hmove) 29 (hostAnswering fun _ => none) .start
    (daemon .little ftpGlobals quietConfig)
  have hend : ∃ s k,(daemon .little ftpGlobals quietConfig).walk
      (scripted ⟨[],false,true,false,false⟩) 29 (hostAnswering fun _ => none) .start=
        (s,Prog.call (I := System) (.write 5 (CStr.lit "quit\r\n").bytes) k) ∧
      s.conns 5=some ⟨[],false,false,true,false⟩ ∧ s.disposition .pipe=.dfl :=
    ⟨_,_,rfl,rfl,rfl⟩
  obtain ⟨s,k,hw,hc,hd⟩ := hend
  rw [hw] at hr
  have hwrite := h s (.write 5 (CStr.lit "quit\r\n").bytes) k hr
  exact hwrite _ hc ⟨rfl,hd⟩

end Lbcd
