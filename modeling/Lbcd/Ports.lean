import Lbcd.Interaction.Layers
import Lbcd.Footprint
import Lbcd.WeightInit

namespace Lbcd

open Interaction CText ByteOrder

/-- The ports that were tried so far, and whether the last lookup gave no address. -/
structure Dialed where
  ports : List ℕ
  missed : Bool
  deriving DecidableEq

/-- What getaddrinfo gives: a port in digits is that port, and http is port 80. -/
def Resolves (service : CStr) (numericserv : Bool) (ai : Option (List AddrInfo)) : Prop :=
  ∀ addrs,ai=some addrs → ∀ a∈addrs,
    (numericserv=true → service.bytes.all isdigit=true → digitsValue service.bytes < 65536 →
      a.port.toNat=digitsValue service.bytes) ∧
    (numericserv=false → service=CStr.lit "http" → a.port.toNat=80)

/-- Lookups and connections; any call can fail. -/
inductive DialStep (e : Endian) : Dialed → (c : SysCall) → c.Reply → Dialed → Prop where
  | lookup (s : Dialed) {host service : CStr} {numericserv : Bool} {ai : Option (List AddrInfo)}
      (h : Resolves service numericserv ai) :
      DialStep e s (.getaddrinfo host service numericserv) ai
        { s with missed := (ai.getD []).isEmpty }
  | tcp (s : Dialed) (ai : List AddrInfo) (r : Option Fd) :
      DialStep e s (.networkConnect ai) r
        { s with ports := s.ports++ai.map fun a => a.port.toNat }
  | udp (s : Dialed) (fd : Fd) (addr : UInt32) (port : UInt16) (r : Bool) :
      DialStep e s (.connect fd addr port) r { s with ports := s.ports++[(ntohs e port).toNat] }
  | other (s : Dialed) {c : SysCall} (r : c.Reply)
      (hl : ∀ host service numericserv,c≠.getaddrinfo host service numericserv)
      (ht : ∀ ai,c≠.networkConnect ai) (hu : ∀ fd addr port,c≠.connect fd addr port) :
      DialStep e s c r s

def dialing (e : Endian) : World System Dialed := ⟨DialStep e⟩

def Dialed.start : Dialed := ⟨[],false⟩

/-- In every run the only port tried is this one; it is tried in every run that returns,
unless the last lookup gives no address. -/
def ConnectsTo (e : Endian) (port : ℕ) (p : Prog System (LbcdReply × ℤ)) : Prop :=
  ∀ s q,Run (dialing e) .start p s q → (∀ n∈s.ports,n=port) ∧
    ∀ r,q=.ret r → s.missed=true ∨ port∈s.ports

/-- Every run fails, and no port is tried. -/
def Refuses (e : Endian) (p : Prog System (LbcdReply × ℤ)) : Prop :=
  ∀ s q,Run (dialing e) .start p s q → s.ports=[] ∧ ∀ r,q=.ret r → r.2=-1

/-- A service runs a weight function that has a property, whatever reply it works on. -/
def Probed (e : Endian) (g : WeightGlobals) (service : CStr)
    (P : Prog System (LbcdReply × ℤ) → Prop) : Prop :=
  ∃ f portarg,probeOf g service=some (f,portarg) ∧
    ∀ slot lb,P (weightFunction e g f slot g.lbcdTimeout portarg lb)

/-- The service with this name and port. -/
def serviceAt (name text : CStr) : CStr :=
  ⟨name.bytes++colon :: text.bytes,fun h => by
    rcases List.mem_append.mp h with h|h
    · exact name.nulFree h
    · rcases List.mem_cons.mp h with h|h
      · cases h
      · exact text.nulFree h⟩

/-- Where a text of digits names a port, http and tcp connect to it; else tcp fails, and http
is port 80. -/
structure PortLaw (e : Endian) (g : WeightGlobals) (text : CStr) : Prop where
  http : Probed e g (serviceAt (CStr.lit "http") text)
    (ConnectsTo e (if 1 ≤ digitsValue text.bytes ∧ digitsValue text.bytes ≤ 65535 then
      digitsValue text.bytes else 80))
  tcp : 1 ≤ digitsValue text.bytes → digitsValue text.bytes ≤ 65535 →
    Probed e g (serviceAt (CStr.lit "tcp") text) (ConnectsTo e (digitsValue text.bytes))
  refused : digitsValue text.bytes=0 ∨ 65535 < digitsValue text.bytes →
    Probed e g (serviceAt (CStr.lit "tcp") text) (Refuses e)

/-- The low 16 bits are the number, or are no positive signed number. -/
def GoodPort (p : ℕ) : Prop := p ≤ 32767 ∨ (65535 < p ∧ (p%65536=0 ∨ 32768 ≤ p%65536))

/-- Calls that neither look a host up nor connect. -/
def Undialed : SysCall → Prop
  | .getaddrinfo _ _ _ => False
  | .networkConnect _ => False
  | .connect _ _ _ => False
  | _ => True

section

variable {e : Endian}

theorem undialed_step {s s' : Dialed} {c : SysCall} {r : c.Reply} (hc : Undialed c)
    (h : DialStep e s c r s') : s'=s := by
  cases h with
  | lookup h => exact hc.elim
  | tcp ai r => exact hc.elim
  | udp fd addr port r => exact hc.elim
  | other r hl ht hu => rfl

/-- What follows the connection keeps what was dialed. -/
theorem undialed_safe {α : Type} {p : Prog System α} {ok : Dialed → Prop} {s : Dialed}
    (h : p.Meets Undialed fun _ => True) (hs : ok s) :
    p.Safe (dialing e) (fun t _ => ok t) (fun t _ => t=s) s := by
  have hok : ∀ (t : Dialed) (c : SysCall),t=s → Undialed c → ok t := by
    intro t c ht _
    rw [ht]
    exact hs
  have hkeep : ∀ (t : Dialed) (c : SysCall) (r : c.Reply) (t' : Dialed),t=s → Undialed c →
      (dialing e).step t c r t' → t'=s :=
    fun t c r t' ht hc hstep => (undialed_step hc hstep).trans ht
  exact (h.safe hok hkeep rfl).mono fun _ _ h => h.1

/-- Only one port was tried. -/
def Dialed.Only (port : ℕ) (s : Dialed) : Prop := ∀ n∈s.ports,n=port

/-- It was tried, unless no address was found. -/
def Dialed.Tried (port : ℕ) (s : Dialed) : Prop :=
  s.Only port ∧ (s.missed=true ∨ port∈s.ports)

/-- A program that only ever connects to one port. -/
abbrev Dials {α : Type} (e : Endian) (port : ℕ) (p : Prog System α) (s : Dialed)
    (post : Dialed → α → Prop) : Prop :=
  p.Safe (dialing e) (fun t _ => t.Only port) post s

theorem connectsTo_of_dials {port : ℕ} {p : Prog System (LbcdReply × ℤ)}
    (h : Dials e port p .start fun t _ => t.Tried port) : ConnectsTo e port p := by
  intro s q hr
  have hq := h.run hr
  cases q with
  | ret a => exact ⟨hq.1,fun _ _ => hq.2⟩
  | call c k => exact ⟨hq.1,fun r hret => by cases hret⟩

/-- A connection to addresses with one port. -/
theorem networkConnect_dials {port : ℕ} {ai : Option (List AddrInfo)} {s : Dialed}
    (hs : s.Only port) (hm : (ai.getD []).isEmpty=true → s.missed=true)
    (hai : ∀ addrs,ai=some addrs → ∀ a∈addrs,a.port.toNat=port) :
    Dials e port (tcpLink ai) s fun t _ => t.Tried port := by
  cases ai with
  | none => exact ⟨hs,Or.inl (hm rfl)⟩
  | some ai =>
    refine ⟨hs,fun r s' hstep => ?_⟩
    cases hstep with
    | tcp ai r =>
      have hports := hai ai rfl
      refine ⟨?_,?_⟩
      · intro n hn
        rcases List.mem_append.mp hn with hn|hn
        · exact hs n hn
        · obtain ⟨a,ha,rfl⟩ := List.mem_map.mp hn
          exact hports a ha
      · cases ai with
        | nil => exact Or.inl (hm rfl)
        | cons a ai =>
          right
          apply List.mem_append_right
          exact List.mem_cons.mpr (Or.inl (hports a List.mem_cons_self).symm)
    | other r hl ht hu => exact absurd rfl (ht ai)

/-- The second lookup is for the port in digits. -/
theorem tcpFallback_dials {port : ℕ} (h0 : port≠0) (hp : port < 65536) (host : CStr)
    {ai : Option (List AddrInfo)} {s : Dialed} (hs : s.Only port)
    (hm : ai≠none → s.missed=(ai.getD []).isEmpty)
    (hai : ∀ addrs,ai=some addrs → ∀ a∈addrs,a.port.toNat=port) :
    Dials e port (tcpFallback host port ai) s fun t _ => t.Tried port := by
  cases ai with
  | some ai =>
    have hm := hm (Option.some_ne_none ai)
    apply networkConnect_dials hs _ hai
    intro hempty
    rw [hm,hempty]
  | none =>
    have hcond : (none : Option (List AddrInfo))=none ∧ (port : ℤ)≠0 := ⟨rfl,by omega⟩
    obtain ⟨hall,hvalue⟩ := CStr.lit_toString port
    rw [tcpFallback,if_pos hcond]
    refine ⟨hs,fun r s' hstep => ?_⟩
    cases hstep with
    | lookup hr =>
      have hs : Dialed.Only port { s with missed := (r.getD []).isEmpty } := hs
      apply networkConnect_dials hs id
      intro addrs haddrs a ha
      rw [(hr addrs haddrs a ha).1 rfl hall (by omega),hvalue]
    | other r hl ht hu => exact absurd rfl (hl _ _ _)

/-- Without a name there is only the lookup of the port. -/
theorem tcpConnect_port {port : ℕ} (h0 : port≠0) (host : CStr) :
    tcpConnect host none port=
      Prog.call (I := System) (.getaddrinfo host (CStr.lit (toString (port : ℤ))) true)
        tcpLink := by
  have hcond : (none : Option (List AddrInfo))=none ∧ (port : ℤ)≠0 := ⟨rfl,by omega⟩
  change tcpFallback host port none=_
  rw [tcpFallback,if_pos hcond]
  rfl

theorem tcpConnect_dials {port : ℕ} (h0 : port≠0) (hp : port < 65536) (host : CStr)
    {protocol : Option CStr} (hname : ∀ name,protocol=some name → name=CStr.lit "http" ∧ port=80)
    {s : Dialed} (hs : s.Only port) :
    Dials e port (tcpConnect host protocol port) s fun t _ => t.Tried port := by
  cases protocol with
  | none => exact tcpFallback_dials h0 hp host hs (fun h => absurd rfl h) fun _ h => by cases h
  | some name =>
    obtain ⟨rfl,rfl⟩ := hname name rfl
    refine ⟨hs,fun r s' hstep => ?_⟩
    cases hstep with
    | lookup hr =>
      have hs : Dialed.Only 80 { s with missed := (r.getD []).isEmpty } := hs
      apply tcpFallback_dials h0 hp host hs (fun _ => rfl)
      intro addrs haddrs a ha
      exact (hr addrs haddrs a ha).2 rfl rfl
    | other r hl ht hu => exact absurd rfl (hl _ _ _)

theorem StreamCall.undialed {c : SysCall} (h : StreamCall c) : Undialed c := by
  cases c with
  | getaddrinfo host service numericserv => exact h.elim
  | networkConnect ai => exact h.elim
  | connect fd addr port => exact h.elim
  | _ => trivial

/-- What is said over a connection dials nothing. -/
theorem tcpProbe_dials {port : ℕ} (h0 : port≠0) (hp : port < 65536) (host : CStr)
    {service : Option CStr}
    (hname : ∀ name,service=some name → name=CStr.lit "http" ∧ port=80)
    {exchange : Fd → Prog System ℤ} (hx : ∀ sd,(exchange sd).Meets StreamCall fun _ => True) :
    Dials e port (tcpConnect host service port >>= afterConnect exchange) .start
      fun t _ => t.Tried port := by
  have honly : Dialed.start.Only port := fun n hn => by cases hn
  apply (tcpConnect_dials h0 hp _ hname honly).bind
  intro t sd ht
  have hafter : (afterConnect exchange sd).Meets Undialed fun _ => True :=
    afterConnect_calls (fun sd => (hx sd).mono (fun _ hc => hc.undialed) fun _ h => h)
      (fun _ => trivial) sd
  exact (undialed_safe hafter ht.1).mono fun u _ hu => hu ▸ ht

theorem probeTcp_dials {port : ℕ} (h0 : port≠0) (hp : port < 65536) (host : Option CStr)
    (timeout : ℤ) :
    Dials e port (probeTcp host none port none timeout) .start fun t _ => t.Tried port := by
  rw [probeTcp_eq]
  exact tcpProbe_dials h0 hp _ (fun _ h => by cases h) (tcpExchange_calls none timeout)

theorem probeHttp_dials {port : ℕ} (h0 : port≠0) (hp : port < 65536) (host : Option CStr)
    (timeout : ℤ) {portarg service : Option CStr} (harg : httpPort portarg=((port : ℤ),service))
    (hname : ∀ name,service=some name → name=CStr.lit "http" ∧ port=80) :
    Dials e port (probeHttp host timeout portarg) .start fun t _ => t.Tried port := by
  rw [probeHttp_eq,harg]
  exact tcpProbe_dials h0 hp _ hname (httpExchange_calls timeout)

theorem probeWeight_dials {port : ℕ} {probe : Prog System ℤ} (slot : Slot) (lb : LbcdReply)
    (h : Dials e port probe .start fun t _ => t.Tried port) :
    ConnectsTo e port (probeWeight slot lb probe) :=
  connectsTo_of_dials (h.bind fun _ _ ht => ht)

/-- A program that fails at once connects nowhere. -/
theorem refuses_ret (lb : LbcdReply) : Refuses e (.ret (lb,-1)) := by
  intro s q hr
  cases hr with
  | refl s p =>
    refine ⟨rfl,fun r hret => ?_⟩
    cases hret
    rfl

theorem not_connectsTo_ret (port : ℕ) (lb : LbcdReply) : ¬ConnectsTo e port (.ret (lb,-1)) := by
  intro h
  rcases (h _ _ (.refl _ _)).2 _ rfl with hm|hp
  · cases hm
  · cases hp

/-- A probe of a port can get as far as to connect. -/
theorem not_refuses_probeTcp {port : ℕ} (h0 : port≠0) (hp : port < 65536) (host : Option CStr)
    (timeout : ℤ) (slot : Slot) (lb : LbcdReply) :
    ¬Refuses e (probeWeight slot lb (probeTcp host none port none timeout)) := by
  intro h
  have hfound : Resolves (CStr.lit (toString (port : ℤ))) true
      (some [⟨0,UInt16.ofNat port⟩]) := by
    intro addrs haddrs a ha
    cases haddrs
    rw [List.mem_singleton.mp ha]
    refine ⟨fun _ _ _ => ?_,fun hn => by cases hn⟩
    rw [(CStr.lit_toString port).2,UInt16.toNat_ofNat']
    exact Nat.mod_eq_of_lt hp
  have hrun : ∃ q,Run (dialing e) .start
      (probeWeight slot lb (probeTcp host none port none timeout))
      ⟨[(UInt16.ofNat port).toNat],false⟩ q := by
    rw [probeWeight,probeTcp,tcpConnect_port h0]
    apply Exists.intro
    apply Run.step (DialStep.lookup .start hfound)
    apply Run.step (DialStep.tcp _ [⟨0,UInt16.ofNat port⟩] none)
    exact .refl _ _
  obtain ⟨q,hq⟩ := hrun
  cases (h _ _ hq).1

end

/-- The low 16 bits of a number are a positive signed one. -/
def Positive16 (p : ℕ) : Prop := 1 ≤ p%65536 ∧ p%65536 < 32768

instance (p : ℕ) : Decidable (Positive16 p) :=
  inferInstanceAs (Decidable (1 ≤ p%65536 ∧ p%65536 < 32768))

/-- A good port is one that the short variable takes for a port exactly if it is one. -/
theorem goodPort_iff (p : ℕ) : GoodPort p ↔ (Positive16 p ↔ 1 ≤ p ∧ p ≤ 65535) := by
  unfold GoodPort Positive16
  omega

/-- The short variable after atoi. -/
theorem short_atoi {text : CStr} (h : text.bytes.all isdigit=true) :
    (Positive16 (digitsValue text.bytes) →
      wrapInt 16 text.atoi=((digitsValue text.bytes%65536 : ℕ) : ℤ)) ∧
    (¬Positive16 (digitsValue text.bytes) → wrapInt 16 text.atoi < 1) := by
  rw [CStr.atoi_digits h,wrapInt_wrapInt _ (by decide),wrapInt_16]
  unfold Positive16
  refine ⟨fun hp => if_pos hp.2,fun hn => ?_⟩
  split_ifs <;> omega

theorem serviceAt_cutAt {name : CStr} (h : colon∉name.bytes) (text : CStr) :
    (serviceAt name text).cutAt colon=name := by
  have hpos : ∀ b∈name.bytes,decide (b≠colon)=true := by
    intro b hb
    have hne : b≠colon := fun he => h (he ▸ hb)
    simpa using hne
  ext1
  change (name.bytes++colon :: text.bytes).takeWhile (fun b => decide (b≠colon))=name.bytes
  rw [List.takeWhile_append_of_pos hpos]
  simp

theorem serviceAt_port {name : CStr} (h : colon∉name.bytes) (text : CStr) :
    ((serviceAt name text).strchr colon).map CStr.next=some text := by
  have hmem : colon∈(serviceAt name text).bytes :=
    List.mem_append_right name.bytes List.mem_cons_self
  obtain ⟨t,ht,-,hb⟩ := CStr.eq_cutAt_append hmem
  rw [serviceAt_cutAt h] at hb
  have hnext : t.next=text := CStr.ext (List.cons.inj (List.append_cancel_left hb)).2.symm
  rw [ht,Option.map_some,hnext]

theorem probeOf_serviceAt (g : WeightGlobals) {name : CStr} {f : WeightFunc}
    (hm : ⟨name,some f⟩∈serviceTable) (hb : name.bytes≠[]) (text : CStr) :
    probeOf g (serviceAt name text)=some (f,some text) := by
  obtain ⟨hcolon,-,-⟩ := serviceTable_name hm
  have hne : serviceAt name text≠defaultName := by
    intro he
    have hc : colon∈defaultName.bytes := by
      rw [← he]
      exact List.mem_append_right name.bytes List.mem_cons_self
    exact absurd hc (by decide)
  have hs := serviceToFunc_entry g hm hb (serviceAt_cutAt hcolon text).symm
  simp only [probeOf,hs,Option.map_some,if_neg hne,serviceAt_port hcolon]

theorem probed_iff {e : Endian} {g : WeightGlobals} {service : CStr} {f : WeightFunc}
    {portarg : Option CStr} (h : probeOf g service=some (f,portarg))
    (P : Prog System (LbcdReply × ℤ) → Prop) :
    Probed e g service P ↔ ∀ slot lb,P (weightFunction e g f slot g.lbcdTimeout portarg lb) := by
  constructor
  · intro hp
    obtain ⟨f',portarg',hp',hall⟩ := hp
    rw [h] at hp'
    cases hp'
    exact hall
  · intro hall
    exact ⟨f,portarg,h,hall⟩

section

variable {e : Endian} {g : WeightGlobals} {text : CStr} (slot : Slot) (timeout : ℤ)
  (lb : LbcdReply)

/-- http connects to the positive signed number, or to port 80. -/
theorem http_connects (hd : text.bytes.all isdigit=true) :
    ConnectsTo e (if Positive16 (digitsValue text.bytes) then digitsValue text.bytes%65536
      else 80) (weightFunction e g .http slot timeout (some text) lb) := by
  obtain ⟨hpos,hneg⟩ := short_atoi hd
  apply probeWeight_dials
  by_cases hp : Positive16 (digitsValue text.bytes)
  · have harg : httpPort (some text)=(((digitsValue text.bytes%65536 : ℕ) : ℤ),none) := by
      have hlt : ¬wrapInt 16 text.atoi < 1 := by
        rw [hpos hp]
        unfold Positive16 at hp
        omega
      rw [httpPort,if_neg hlt,hpos hp]
    rw [if_pos hp]
    unfold Positive16 at hp
    exact probeHttp_dials (by omega) (by omega) _ timeout harg fun _ h => by cases h
  · have harg : httpPort (some text)=(((80 : ℕ) : ℤ),some (CStr.lit "http")) := by
      rw [httpPort]
      exact if_pos (hneg hp)
    rw [if_neg hp]
    exact probeHttp_dials (by omega) (by omega) _ timeout harg fun _ h => by
      cases h
      exact ⟨rfl,rfl⟩

theorem tcp_positive (hd : text.bytes.all isdigit=true)
    (hp : Positive16 (digitsValue text.bytes)) :
    weightFunction e g .tcp slot timeout (some text) lb=
      probeWeight slot lb (probeTcp (some localhost) none
        ((digitsValue text.bytes%65536 : ℕ) : ℤ) none timeout) := by
  have hport := (short_atoi hd).1 hp
  have hlt : ¬wrapInt 16 text.atoi < 1 := by
    rw [hport]
    unfold Positive16 at hp
    omega
  change lbcdTcpWeight slot timeout (some text) lb=_
  rw [lbcdTcpWeight]
  dsimp only
  rw [if_pos hd,if_neg hlt,hport]

theorem tcp_other (hd : text.bytes.all isdigit=true)
    (hp : ¬Positive16 (digitsValue text.bytes)) :
    weightFunction e g .tcp slot timeout (some text) lb=.ret (lb,-1) := by
  change lbcdTcpWeight slot timeout (some text) lb=_
  rw [lbcdTcpWeight]
  dsimp only
  rw [if_pos hd,if_pos ((short_atoi hd).2 hp)]
  rfl

end

theorem PortLaw.good {e : Endian} {g : WeightGlobals} {text : CStr}
    (hd : text.bytes.all isdigit=true) (h : PortLaw e g text) :
    GoodPort (digitsValue text.bytes) := by
  have tcp := probeOf_serviceAt g (f := .tcp) (by decide : ⟨CStr.lit "tcp",_⟩∈serviceTable)
    (by decide) text
  rw [goodPort_iff]
  constructor
  · intro hp
    by_contra hno
    have hrefused := (probed_iff tcp _).mp (h.refused (by omega)) 0 default
    rw [tcp_positive 0 _ default hd hp] at hrefused
    unfold Positive16 at hp
    exact not_refuses_probeTcp (by omega) (by omega) _ _ 0 default hrefused
  · intro hport
    by_contra hp
    have hconnects := (probed_iff tcp _).mp (h.tcp hport.1 hport.2) 0 default
    rw [tcp_other 0 _ default hd hp] at hconnects
    exact not_connectsTo_ret _ default hconnects

/-- The port that is tried is the one of the text exactly if its low 16 bits are the number,
or no positive signed number where the text names no port. -/
theorem portLaw_iff (e : Endian) (g : WeightGlobals) {text : CStr}
    (hd : text.bytes.all isdigit=true) :
    PortLaw e g text ↔ GoodPort (digitsValue text.bytes) := by
  have http := probeOf_serviceAt g (f := .http) (by decide : ⟨CStr.lit "http",_⟩∈serviceTable)
    (by decide) text
  have tcp := probeOf_serviceAt g (f := .tcp) (by decide : ⟨CStr.lit "tcp",_⟩∈serviceTable)
    (by decide) text
  constructor
  · exact PortLaw.good hd
  · intro hgood
    have hiff := (goodPort_iff _).mp hgood
    refine ⟨?_,fun h1 h2 => ?_,fun hno => ?_⟩
    · apply (probed_iff http _).mpr
      intro slot lb
      have hport : (if Positive16 (digitsValue text.bytes) then digitsValue text.bytes%65536
          else 80)=if 1 ≤ digitsValue text.bytes ∧ digitsValue text.bytes ≤ 65535 then
            digitsValue text.bytes else 80 := by
        by_cases hp : Positive16 (digitsValue text.bytes)
        · have hport := hiff.mp hp
          rw [if_pos hp,if_pos hport,Nat.mod_eq_of_lt (by omega)]
        · rw [if_neg hp,if_neg fun h => hp (hiff.mpr h)]
      rw [← hport]
      exact http_connects slot g.lbcdTimeout lb hd
    · apply (probed_iff tcp _).mpr
      intro slot lb
      have hmod : digitsValue text.bytes%65536=digitsValue text.bytes :=
        Nat.mod_eq_of_lt (by omega)
      rw [tcp_positive slot g.lbcdTimeout lb hd (hiff.mpr ⟨h1,h2⟩),hmod]
      exact probeWeight_dials slot lb (probeTcp_dials (by omega) (by omega) _ _)
    · apply (probed_iff tcp _).mpr
      intro slot lb
      have hp : ¬Positive16 (digitsValue text.bytes) := by
        intro hp
        have hport := hiff.mp hp
        omega
      rw [tcp_other slot g.lbcdTimeout lb hd hp]
      exact refuses_ret lb

theorem portLaw_iff_8080 :
    PortLaw .little .initial (CStr.lit "8080") ↔ GoodPort (digitsValue (CStr.lit "8080").bytes) :=
  portLaw_iff .little .initial (by decide)

/-- A port of 32768 or more is a negative signed one, and tcp does not try it. -/
theorem port_40000_refused : ¬PortLaw .little .initial (CStr.lit "40000") := by
  intro h
  have hgood := h.good (by decide)
  rw [show digitsValue (CStr.lit "40000").bytes=40000 by decide,GoodPort] at hgood
  omega

end Lbcd
