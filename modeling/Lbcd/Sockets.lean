import Lbcd.Connect

namespace Lbcd

open Interaction CText ByteOrder

/-- How far the connection of a socket has come. -/
inductive Link where
  | idle
  | pending (peer : SockAddr)
  | writable (peer : SockAddr)
  | up (peer : SockAddr)
  deriving DecidableEq

structure Sock where
  family : AddrFamily
  nonblocking : Bool
  source : Option InAddr
  link : Link

def Sock.new (family : AddrFamily) : Sock := ⟨family,false,none,.idle⟩

/-- A pending connection is up once the socket is writable and has no error. -/
def Link.settle : Link → Link
  | .pending peer => .writable peer
  | link => link

def Link.establish : Link → Link
  | .writable peer => .up peer
  | link => link

/-- The descriptors, the sockets among them, and whether an fcntl has failed. -/
structure Sockets where
  table : FdTable
  socks : Fd → Sock
  stuck : Bool

namespace Sockets

def set (s : Sockets) (fd : Fd) (k : Sock) : Sockets :=
  { s with socks := Function.update s.socks fd k }

/-- What the calls do with the sockets; parse is how an address is read. -/
def Step (parse : AddrFamily → CStr → Option InAddr) (s : Sockets) :
    (c : ConnectCall) → c.Reply → Sockets → Prop
  | .sys c,r,t => ∃ table,s.table.Step c r table ∧ t={ s with table := table }
  | .socket _ _ _,.error _,t => t=s
  | .socket family _ _,.ok fd,t =>
    fd∉s.table.opened ∧ t={ s.set fd (.new family) with table := s.table.add fd }
  | .inetAton text,addr,t => addr.map .v4=parse .inet text ∧ t=s
  | .inetPton6 text,addr,t => addr.map .v6=parse .inet6 text ∧ t=s
  | .bindSource fd addr,.ok _,t => t=s.set fd { s.socks fd with source := some addr }
  | .connect fd peer,.ok _,t => t=s.set fd { s.socks fd with link := .up peer }
  | .connect fd peer,.error .einprogress,t => t=s.set fd { s.socks fd with link := .pending peer }
  | .selectWrite fd _,.ready,t =>
    t=s.set fd { s.socks fd with link := (s.socks fd).link.settle }
  | .sockError fd,.ok none,t =>
    t=s.set fd { s.socks fd with link := (s.socks fd).link.establish }
  | .getfl _,none,t => t={ s with stuck := true }
  | .getfl fd,some mode,t => (mode &&& oNonblock≠0 ↔ (s.socks fd).nonblocking=true) ∧ t=s
  | .setfl _ _,false,t => t={ s with stuck := true }
  | .setfl fd mode,true,t =>
    t=s.set fd { s.socks fd with nonblocking := mode &&& oNonblock≠0 }
  | .close fd,_,t => t={ s with table := s.table.drop fd }
  | _,_,t => t=s

/-- The source address that a socket has to be bound to. -/
def wanted (parse : AddrFamily → CStr → Option InAddr) (family : AddrFamily)
    (source : Option CStr) : Option InAddr :=
  source.bind fun text => if anySource text then none else parse family text

/-- The descriptor is the only one that is open beyond those of before. -/
structure Own (before : FdTable) (s : Sockets) (fd : Fd) : Prop where
  fresh : fd∉before.opened
  table : s.table=before.add fd

/-- A call in order: a socket is made when no other of these is open, and is connected once
it is bound as wanted, in the mode that goes with the timeout unless an fcntl has failed. -/
def Proper (parse : AddrFamily → CStr → Option InAddr) (source : Option CStr) (timeout : ℤ)
    (before : FdTable) (s : Sockets) : ConnectCall → Prop
  | .socket _ _ _ => s.table=before
  | .bindSource fd _ => Own before s fd ∧ (s.socks fd).link=.idle
  | .connect fd _ => Own before s fd ∧ (s.socks fd).link=.idle ∧
    (s.socks fd).source=wanted parse (s.socks fd).family source ∧
    ((s.socks fd).nonblocking=decide (timeout≠0) ∨ s.stuck=true)
  | .selectWrite fd limit =>
    Own before s fd ∧ limit=timeout ∧ ∃ peer,(s.socks fd).link=.pending peer
  | .sockError fd => Own before s fd ∧ ∃ peer,(s.socks fd).link=.writable peer
  | .getfl fd => Own before s fd
  | .setfl fd _ => Own before s fd
  | .close fd => Own before s fd
  | .inetAton _ => ∃ fd,Own before s fd
  | .inetPton6 _ => ∃ fd,Own before s fd
  | .sys c => c=.outOfFuel ∨ c=.fuel ∧ ∃ fd,Own before s fd
  | .getaddrinfo _ _ => s.table=before
  | _ => False

/-- Nothing is open that was not, and nothing has changed about what was. -/
structure Undisturbed (s t : Sockets) : Prop where
  table : t.table=s.table
  socks : ∀ fd∈s.table.opened,t.socks fd=s.socks fd

/-- A new socket is all that is open beyond what was. -/
structure Gained (s t : Sockets) (fd : Fd) : Prop where
  own : Own s.table t fd
  socks : ∀ fd'∈s.table.opened,t.socks fd'=s.socks fd'

/-- It is connected to this address, from the source that was wanted. -/
structure LinkedTo (parse : AddrFamily → CStr → Option InAddr) (source : Option CStr)
    (s t : Sockets) (ai : Remote) (fd : Fd) : Prop where
  gained : Gained s t fd
  link : (t.socks fd).link=.up ai.addr
  family : (t.socks fd).family=ai.family
  source : (t.socks fd).source=wanted parse ai.family source
  blocking : (t.socks fd).nonblocking=false ∨ t.stuck=true

/-- A state with one new socket. -/
def own (s : Sockets) (fd : Fd) (k : Sock) (stuck : Bool) : Sockets :=
  ⟨s.table.add fd,Function.update s.socks fd k,stuck⟩

@[simp] theorem own_socks (s : Sockets) (fd : Fd) (k : Sock) (stuck : Bool) :
    (s.own fd k stuck).socks fd=k := by
  change Function.update s.socks fd k fd=k
  rw [Function.update_self]

@[simp] theorem own_set (s : Sockets) (fd : Fd) (k k' : Sock) (stuck : Bool) :
    (s.own fd k stuck).set fd k'=s.own fd k' stuck := by
  rw [own,set,Function.update_idem,own]

/-- A step that changes a new socket only. -/
theorem own_stepped {s t : Sockets} {fd : Fd} {k : Sock} {stuck : Bool} {f : Sock → Sock}
    (ht : t=(s.own fd k stuck).set fd (f ((s.own fd k stuck).socks fd))) :
    t=s.own fd (f k) stuck := by
  rw [ht,own_socks,own_set]

theorem own_own {s : Sockets} {fd : Fd} (hfd : fd∉s.table.opened) (k : Sock) (stuck : Bool) :
    Own s.table (s.own fd k stuck) fd := ⟨hfd,rfl⟩

theorem own_gained {s : Sockets} {fd : Fd} (hfd : fd∉s.table.opened) (k : Sock) (stuck : Bool) :
    Gained s (s.own fd k stuck) fd where
  own := own_own hfd k stuck
  socks fd' h := by
    change Function.update s.socks fd k fd'=s.socks fd'
    rw [Function.update_of_ne (ne_of_mem_of_not_mem h hfd)]

theorem Undisturbed.refl (s : Sockets) : Undisturbed s s := ⟨rfl,fun _ _ => rfl⟩

theorem Undisturbed.trans {s t u : Sockets} (h : Undisturbed s t) (h' : Undisturbed t u) :
    Undisturbed s u where
  table := h'.table.trans h.table
  socks fd hfd := by
    rw [h'.socks fd (h.table ▸ hfd),h.socks fd hfd]

theorem Undisturbed.linkedTo {parse : AddrFamily → CStr → Option InAddr} {source : Option CStr}
    {s t u : Sockets} (h : Undisturbed s t) {ai : Remote} {fd : Fd}
    (h' : LinkedTo parse source t u ai fd) : LinkedTo parse source s u ai fd where
  gained := ⟨h.table ▸ h'.gained.own,fun fd' hfd' => by
    rw [h'.gained.socks fd' (h.table ▸ hfd'),h.socks fd' hfd']⟩
  link := h'.link
  family := h'.family
  source := h'.source
  blocking := h'.blocking

end Sockets

def sockets (parse : AddrFamily → CStr → Option InAddr) : World Connecting Sockets :=
  ⟨Sockets.Step parse⟩

open Sockets FdTable

/-- A connect is done, or pending, or nothing has come of it. -/
theorem connect_stepped {parse : AddrFamily → CStr → Option InAddr} {s : Sockets} {fd : Fd}
    {k : Sock} {stuck : Bool} {addr : SockAddr} {r : Except Errno Unit} {t : Sockets}
    (h : (sockets parse).step (s.own fd k stuck) (.connect fd addr) r t) :
    ∃ link,t=s.own fd { k with link := link } stuck ∧ (r=.ok () → link=.up addr) ∧
      (r=.error .einprogress → link=.pending addr) := by
  cases r with
  | ok _ =>
    exact ⟨_,own_stepped (f := fun k => { k with link := .up addr }) h,fun _ => rfl,
      fun h => by cases h⟩
  | error errno =>
    by_cases hpending : errno=.einprogress
    · subst hpending
      exact ⟨_,own_stepped (f := fun k => { k with link := .pending addr }) h,
        (fun h => by cases h),fun _ => rfl⟩
    · have ht : t=s.own fd k stuck := by
        cases errno with
        | einprogress => exact absurd rfl hpending
        | _ => exact h
      refine ⟨k.link,ht,(fun h => by cases h),fun h => ?_⟩
      exact absurd (Except.error.inj h) hpending

/-- Programs whose calls are in order, over the descriptors of before. -/
abbrev Dialing {α : Type} (parse : AddrFamily → CStr → Option InAddr) (source : Option CStr)
    (timeout : ℤ) (before : FdTable) (p : Prog Connecting α) (post : Sockets → α → Prop)
    (s : Sockets) : Prop :=
  p.Safe (sockets parse) (Proper parse source timeout before) post s

section

variable {parse : AddrFamily → CStr → Option InAddr} {source : Option CStr} {timeout : ℤ}
  {s : Sockets} {fd : Fd} (hfd : fd∉s.table.opened)

include hfd

/-- The mode is as asked for, or an fcntl has failed. -/
theorem fdflagNonblocking_safe (k : Sock) (stuck flag : Bool) :
    Dialing parse source timeout s.table (fdflagNonblocking fd flag) (fun t _ =>
      ∃ nonblocking stuck',t=s.own fd { k with nonblocking := nonblocking } stuck' ∧
        (nonblocking=flag ∨ stuck'=true)) (s.own fd k stuck) := by
  have hown := own_own hfd k stuck
  refine ⟨hown,fun mode t hstep => ?_⟩
  cases mode with
  | none =>
    have ht : t=s.own fd k true := hstep
    exact ⟨k.nonblocking,true,ht,Or.inr rfl⟩
  | some mode =>
    obtain ⟨hmode,rfl⟩ := hstep
    refine ⟨hown,fun set t hstep => ?_⟩
    cases set with
    | false =>
      have ht : t=s.own fd k true := hstep
      exact ⟨k.nonblocking,true,ht,Or.inr rfl⟩
    | true =>
      exact ⟨_,stuck,own_stepped (f := fun k => { k with nonblocking := _ }) hstep,
        Or.inl (nonblock_mode mode flag)⟩

/-- A socket that is ready is bound to the source that is wanted. -/
theorem networkSource_safe (family : AddrFamily) (stuck : Bool) :
    Dialing parse source timeout s.table (networkSource fd family source) (fun t r =>
      ∃ addr,t=s.own fd { Sock.new family with source := addr } stuck ∧
        (r=.ok () → addr=wanted parse family source)) (s.own fd (.new family) stuck) := by
  have hbind (text : CStr) (addr : Option InAddr) (haddr : addr=parse family text)
      (hwanted : wanted parse family source=parse family text) :
      Dialing parse source timeout s.table (bindToSource fd addr) (fun t r =>
        ∃ addr,t=s.own fd { Sock.new family with source := addr } stuck ∧
          (r=.ok () → addr=wanted parse family source)) (s.own fd (.new family) stuck) := by
    cases addr with
    | none => exact ⟨none,rfl,fun h => by cases h⟩
    | some addr =>
      have hidle : ((s.own fd (.new family) stuck).socks fd).link=.idle := by
        rw [own_socks]
        rfl
      refine ⟨⟨own_own hfd _ stuck,hidle⟩,fun r t hstep => ?_⟩
      cases r with
      | error errno =>
        have ht : t=s.own fd (.new family) stuck := hstep
        exact ⟨none,ht,fun h => by cases h⟩
      | ok _ =>
        refine ⟨some addr,own_stepped (f := fun k => { k with source := some addr }) hstep,?_⟩
        intro _
        rw [hwanted,haddr]
  cases hs : source with
  | none => exact ⟨none,rfl,fun _ => rfl⟩
  | some text =>
    have hwanted (h : ¬anySource text) : wanted parse family source=parse family text := by
      rw [hs]
      exact if_neg h
    change Prog.Safe _ _ _ (if anySource text then _ else _) _
    split_ifs with hany
    · exact ⟨none,rfl,fun _ => (if_pos hany).symm⟩
    · rw [← hs]
      cases family with
      | inet =>
        refine ⟨⟨fd,own_own hfd _ stuck⟩,fun addr t hstep => ?_⟩
        obtain ⟨haddr,rfl⟩ := hstep
        exact hbind text _ haddr (hwanted hany)
      | inet6 =>
        refine ⟨⟨fd,own_own hfd _ stuck⟩,fun addr t hstep => ?_⟩
        obtain ⟨haddr,rfl⟩ := hstep
        exact hbind text _ haddr (hwanted hany)
      | other => exact ⟨none,rfl,fun h => by cases h⟩

/-- Only a pending connection is waited for, until its socket is writable. -/
theorem connectSelect_safe {k : Sock} {addr : SockAddr} (hk : k.link=.pending addr)
    (stuck : Bool) (fuel : ℕ) :
    Dialing parse source timeout s.table (connectSelect fd timeout fuel) (fun t r =>
      ∃ link,t=s.own fd { k with link := link } stuck ∧ (r=.ready → link=.writable addr))
      (s.own fd k stuck) := by
  induction fuel with
  | zero => exact ⟨Or.inl rfl,fun r => r.elim⟩
  | succ fuel ih =>
    have hpending : ((s.own fd k stuck).socks fd).link=.pending addr := by
      rw [own_socks,hk]
    refine ⟨⟨own_own hfd k stuck,rfl,addr,hpending⟩,fun status t hstep => ?_⟩
    change Prog.Safe _ _ _ (if status=.failed .eintr then _ else _) _
    cases status with
    | failed errno =>
      have ht : t=s.own fd k stuck := hstep
      rw [ht]
      split_ifs
      · exact ih
      · exact ⟨k.link,rfl,fun h => by cases h⟩
    | timedOut =>
      have ht : t=s.own fd k stuck := hstep
      rw [if_neg (by simp)]
      exact ⟨k.link,ht,fun h => by cases h⟩
    | ready =>
      rw [if_neg (by simp)]
      refine ⟨_,own_stepped (f := fun k => { k with link := k.link.settle }) hstep,fun _ => ?_⟩
      rw [hk]
      rfl

theorem connectWait_safe {k : Sock} {addr : SockAddr} (hk : k.link=.pending addr)
    (stuck : Bool) :
    Dialing parse source timeout s.table (connectWait fd timeout) (fun t r =>
      ∃ link,t=s.own fd { k with link := link } stuck ∧ (r=.ok () → link=.up addr))
      (s.own fd k stuck) := by
  refine ⟨Or.inr ⟨rfl,fd,own_own hfd k stuck⟩,fun fuel t hstep => ?_⟩
  obtain ⟨table,htable,rfl⟩ := hstep
  have hsame : table=s.table.add fd := htable
  rw [hsame]
  apply (connectSelect_safe hfd hk stuck fuel).bind
  intro t status ht
  obtain ⟨link,rfl,hready⟩ := ht
  cases status with
  | failed errno => exact ⟨link,rfl,fun h => by cases h⟩
  | timedOut => exact ⟨link,rfl,fun h => by cases h⟩
  | ready =>
    have hlink := hready rfl
    have hwritable : ((s.own fd { k with link := link } stuck).socks fd).link=.writable addr := by
      rw [own_socks,hlink]
    refine ⟨⟨own_own hfd _ stuck,addr,hwritable⟩,fun err t hstep => ?_⟩
    rcases err with errno|_|errno
    · have ht : t=s.own fd { k with link := link } stuck := hstep
      exact ⟨link,ht,fun h => by cases h⟩
    · have ht : t=s.own fd { k with link := link.establish } stuck :=
        own_stepped (f := fun k => { k with link := k.link.establish }) hstep
      refine ⟨_,ht,fun _ => ?_⟩
      rw [hlink]
      rfl
    · have ht : t=s.own fd { k with link := link } stuck := hstep
      exact ⟨link,ht,fun h => by cases h⟩

theorem inProgress_safe {k : Sock} {addr : SockAddr} {status : Except Errno Unit}
    (hup : status=.ok () → k.link=.up addr)
    (hpending : status=.error .einprogress → k.link=.pending addr) (stuck : Bool) :
    Dialing parse source timeout s.table (inProgress fd timeout status) (fun t r =>
      ∃ link,t=s.own fd { k with link := link } stuck ∧ (r=.ok () → link=.up addr))
      (s.own fd k stuck) := by
  unfold inProgress
  split_ifs with hstatus
  · exact connectWait_safe hfd (hpending hstatus) stuck
  · exact ⟨k.link,rfl,hup⟩

/-- A socket that is bound as wanted is connected, and is blocking again. -/
theorem startConnect_safe {k : Sock} (hidle : k.link=.idle) (hblocking : k.nonblocking=false)
    (hsource : k.source=wanted parse k.family source) (addr : SockAddr) (stuck : Bool) :
    Dialing parse source timeout s.table (startConnect fd addr timeout) (fun t r =>
      ∃ nonblocking link stuck',
        t=s.own fd { k with nonblocking := nonblocking, link := link } stuck' ∧
          (nonblocking=false ∨ stuck'=true) ∧ (r=.ok () → link=.up addr))
      (s.own fd k stuck) := by
  have hproper (nonblocking stuck' : Bool)
      (hmode : nonblocking=decide (timeout≠0) ∨ stuck'=true) :
      Proper parse source timeout s.table
        (s.own fd { k with nonblocking := nonblocking } stuck') (.connect fd addr) := by
    refine ⟨own_own hfd _ stuck',?_⟩
    rw [own_socks]
    exact ⟨hidle,hsource,hmode⟩
  rw [startConnect]
  split_ifs with htimeout
  · have hmode : k.nonblocking=decide (timeout≠0) := by
      rw [hblocking,htimeout]
      rfl
    refine ⟨hproper k.nonblocking stuck (Or.inl hmode),fun r t hstep => ?_⟩
    obtain ⟨link,rfl,hup,-⟩ := connect_stepped hstep
    exact ⟨k.nonblocking,link,stuck,rfl,Or.inl hblocking,hup⟩
  · apply (fdflagNonblocking_safe hfd k stuck true).bind
    intro t _ ht
    obtain ⟨nonblocking,stuck',rfl,hmode⟩ := ht
    have hmode' : nonblocking=decide (timeout≠0) ∨ stuck'=true := by
      rw [decide_eq_true htimeout]
      exact hmode
    refine ⟨hproper nonblocking stuck' hmode',fun status t hstep => ?_⟩
    obtain ⟨link,rfl,hup,hpending⟩ := connect_stepped hstep
    apply (inProgress_safe hfd hup hpending stuck').bind
    intro t status' ht
    obtain ⟨link',rfl,hup'⟩ := ht
    apply (fdflagNonblocking_safe hfd _ stuck' false).bind
    intro t _ ht
    obtain ⟨nonblocking',stuck'',rfl,hblocking'⟩ := ht
    exact ⟨nonblocking',link',stuck'',rfl,hblocking',hup'⟩

/-- A failed socket is closed, and everything is as it was before it was made. -/
theorem closeFailed_safe (k : Sock) (stuck : Bool) (errno : Errno) {done : Sockets → Fd → Prop} :
    Dialing parse source timeout s.table (closeFailed (some fd,errno)) (fun t =>
      Concluded (Undisturbed s t) (done t)) (s.own fd k stuck) := by
  refine ⟨own_own hfd k stuck,fun _ t hstep => ?_⟩
  have ht : t={ s.own fd k stuck with table := (s.own fd k stuck).table.drop fd } := hstep
  rw [ht]
  exact ⟨FdTable.drop_add hfd,(own_gained hfd k stuck).socks⟩

end

section

variable {parse : AddrFamily → CStr → Option InAddr} {source : Option CStr} {timeout : ℤ}

/-- A new socket that is bound as wanted, and then one that is connected. -/
theorem attempt_safe (s : Sockets) (ai : Remote) :
    Dialing parse source timeout s.table (attempt source timeout ai) (fun t =>
      Concluded (Undisturbed s t) (LinkedTo parse source s t ai)) s := by
  refine ⟨rfl,fun opened t hstep => ?_⟩
  cases opened with
  | error errno =>
    have ht : t=s := hstep
    rw [ht]
    exact ⟨rfl,fun _ _ => rfl⟩
  | ok fd =>
    obtain ⟨hfd,ht⟩ := hstep
    have hnew : t=s.own fd (.new ai.family) s.stuck := ht
    rw [hnew]
    have hdial : Dialing parse source timeout s.table (dial fd source timeout ai) (fun t r =>
        ∃ k stuck,t=s.own fd k stuck ∧ (r=.ok () → LinkedTo parse source s t ai fd))
        (s.own fd (.new ai.family) s.stuck) := by
      apply (networkSource_safe hfd ai.family s.stuck).bind
      intro t bound ht
      obtain ⟨addr,rfl,hbound⟩ := ht
      cases bound with
      | error errno => exact ⟨_,s.stuck,rfl,fun h => by cases h⟩
      | ok _ =>
        have hsource := hbound rfl
        apply (startConnect_safe hfd (k := { Sock.new ai.family with source := addr }) rfl rfl
          hsource ai.addr s.stuck).mono
        intro t r ht
        obtain ⟨nonblocking,link,stuck,rfl,hmode,hup⟩ := ht
        refine ⟨_,stuck,rfl,fun hr => ⟨own_gained hfd _ stuck,?_,?_,?_,?_⟩⟩
        · rw [own_socks]
          exact hup hr
        · rw [own_socks]
          rfl
        · rw [own_socks]
          exact hsource
        · rw [own_socks]
          exact hmode
    apply hdial.bind
    intro t status ht
    obtain ⟨k,stuck,rfl,hup⟩ := ht
    cases status with
    | error errno => exact closeFailed_safe hfd k stuck errno
    | ok _ => exact hup rfl

theorem networkConnect_dialing (s : Sockets) (ai : List Remote) (errno : Errno) :
    Dialing parse source timeout s.table (networkConnect ai source timeout errno) (fun t =>
      Concluded (Undisturbed s t) fun fd => ∃ x∈ai,LinkedTo parse source s t x fd) s := by
  rw [networkConnect_eq]
  refine Prog.Safe.firstOk ?_ errno (Undisturbed.refl s)
  intro x _ t ht
  rw [← ht.table]
  apply (attempt_safe t x).mono
  intro u r hu
  cases r with
  | error errno => exact ht.trans hu
  | ok fd => exact ht.linkedTo hu

/-- The addresses of a host that getaddrinfo has returned. -/
def resolved : Except Errno (List Remote) → List Remote
  | .error _ => []
  | .ok ai => ai

/-- The host is looked up once, and the addresses of the reply are tried. -/
theorem networkConnectHost_dialing (s : Sockets) (host : CStr) (port : UInt16) (errno : Errno) :
    ∃ k,networkConnectHost host port source timeout errno=
        Prog.call (I := Connecting) (.getaddrinfo host port) k ∧
      ∀ found : Except Errno (List Remote),Dialing parse source timeout s.table (k found)
        (fun t => Concluded (Undisturbed s t) fun fd =>
          ∃ x∈resolved found,LinkedTo parse source s t x fd) s := by
  refine ⟨_,rfl,fun found => ?_⟩
  cases found with
  | error errno => exact .refl s
  | ok ai => exact networkConnect_dialing s ai errno

/-- A socket that is yet to be connected. -/
theorem networkClientCreate_dialing (s : Sockets) (domain : AddrFamily) (type : ℤ) :
    Dialing parse source timeout s.table (networkClientCreate domain type source) (fun t =>
      Concluded (Undisturbed s t) fun fd => Gained s t fd ∧
        (t.socks fd).source=wanted parse domain source ∧ (t.socks fd).link=.idle) s := by
  refine ⟨rfl,fun opened t hstep => ?_⟩
  cases opened with
  | error errno =>
    have ht : t=s := hstep
    rw [ht]
    exact .refl s
  | ok fd =>
    obtain ⟨hfd,ht⟩ := hstep
    have hnew : t=s.own fd (.new domain) s.stuck := ht
    rw [hnew]
    apply (networkSource_safe hfd domain s.stuck).bind
    intro t bound ht
    obtain ⟨addr,rfl,hbound⟩ := ht
    cases bound with
    | error errno => exact closeFailed_safe hfd _ s.stuck errno
    | ok _ =>
      refine ⟨own_gained hfd _ s.stuck,?_⟩
      rw [own_socks]
      exact ⟨hbound rfl,rfl⟩

end

/-- What network_connect, network_connect_host and network_client_create do with sockets. Every
call is in its order, whatever the replies. A failure leaves everything as it was. On success a
new socket is all that is open beyond what was, and nothing has changed about the others. The
first two have connected it to one of the addresses they were given or have looked up, the
third one has not connected it. -/
structure SocketLaw (parse : AddrFamily → CStr → Option InAddr) (source : Option CStr)
    (timeout : ℤ) (s : Sockets) : Prop where
  list : ∀ ai errno,Dialing parse source timeout s.table
    (networkConnect ai source timeout errno)
    (fun t => Concluded (Undisturbed s t) fun fd => ∃ x∈ai,LinkedTo parse source s t x fd) s
  lookup : ∀ host port,Proper parse source timeout s.table s (.getaddrinfo host port)
  host : ∀ host port errno,∃ k,
    networkConnectHost host port source timeout errno=
      Prog.call (I := Connecting) (.getaddrinfo host port) k ∧
    ∀ found : Except Errno (List Remote),Dialing parse source timeout s.table (k found)
      (fun t => Concluded (Undisturbed s t) fun fd =>
        ∃ x∈resolved found,LinkedTo parse source s t x fd) s
  client : ∀ domain type,Dialing parse source timeout s.table
    (networkClientCreate domain type source)
    (fun t => Concluded (Undisturbed s t) fun fd => Gained s t fd ∧
      (t.socks fd).source=wanted parse domain source ∧ (t.socks fd).link=.idle) s

theorem socket_law (parse : AddrFamily → CStr → Option InAddr) (source : Option CStr)
    (timeout : ℤ) (s : Sockets) : SocketLaw parse source timeout s where
  list := networkConnect_dialing s
  lookup _ _ := rfl
  host := networkConnectHost_dialing s
  client := networkClientCreate_dialing s

/-- The system calls with network_connect replaced by its code, as tcp_connect calls it. -/
def linkConnect (remote : AddrInfo → Remote) (errno : Errno) :
    (c : SysCall) → Prog Connecting c.Reply
  | .networkConnect ai => do
    let r ← networkConnect (ai.map remote) none 0 errno
    return r.toOption
  | c => ccall (.sys c)

section

variable (parse : AddrFamily → CStr → Option InAddr) (remote : AddrInfo → Remote) (errno : Errno)

/-- The code does with the descriptors what the call stands for. -/
theorem linkConnect_step {s t : Sockets} {c : SysCall} {r : c.Reply}
    (h : Run (sockets parse) s (linkConnect remote errno c) t (.ret r)) :
    s.table.Step c r t.table := by
  cases c with
  | networkConnect ai =>
    have hsafe : Dialing parse none 0 s.table (linkConnect remote errno (.networkConnect ai))
        (fun t r => s.table.Opens r t.table) s := by
      apply (networkConnect_dialing s (ai.map remote) errno).bind
      intro t r ht
      cases r with
      | error errno => exact ht.table
      | ok fd =>
        obtain ⟨x,-,hx⟩ := ht
        exact ⟨hx.gained.own.fresh,hx.gained.own.table⟩
    exact hsafe.run h
  | _ =>
    cases h with
    | step hs rest =>
      cases rest
      obtain ⟨table,htable,rfl⟩ := hs
      exact htable

/-- The sockets of a linked world are those of the one with the call. -/
def linked : World System Sockets := (sockets parse).over (linkConnect remote errno)

variable (e : Endian) (g : WeightGlobals)

/-- With network_connect's own code, a request and any number of turns of the main loop leave
the open descriptors as they were exactly if no fork and no fdopen failed. -/
structure LinkedLaw (config : LbcdConfig) : Prop where
  request : ∀ cache fd s t cache',
    Run (sockets parse) s (((serveOne e g config cache fd).expand (implement e g)).expand
      (linkConnect remote errno)) t (.ret cache') →
      (t.table.opened=s.table.opened ↔ t.table.failures=s.table.failures)
  turns : ∀ fds fuel cache s t q,
    Run (served (linked parse remote errno) e g) s (serveLoop e g config fds fuel cache) t q →
      (t.table.opened=s.table.opened ↔ t.table.failures=s.table.failures)

theorem linked_law (config : LbcdConfig) : LinkedLaw parse remote errno e g config where
  request := by
    intro cache fd s t cache' hr
    have hview : Run descriptors s.table ((serveOne e g config cache fd).expand (implement e g))
        t.table (.ret cache') :=
      hr.collapse.project Sockets.table fun _ _ _ _ => linkConnect_step parse remote errno
    have hkept : Kept s.table t.table :=
      (turning_holding (serveOne_turning e g config cache fd) s.table).run hview
    exact hkept.same
  turns := by
    intro fds fuel cache s t q hr
    have hview : Run (served descriptors e g) s.table (serveLoop e g config fds fuel cache)
        t.table q := by
      refine hr.project Sockets.table fun s c r t hs => ?_
      exact hs.project Sockets.table fun _ _ _ _ => linkConnect_step parse remote errno
    have hsafe := (turning_safe (serveLoop_turning e g config fds fuel cache) s.table).run hview
    cases q with
    | ret a =>
      have hkept : Kept s.table t.table := hsafe
      exact hkept.same
    | call c k => exact hsafe.1.1.same

end

end Lbcd
