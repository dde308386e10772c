import Lbcd.Indeterminate
import Lbcd.Options

namespace Lbcd

open Interaction CText ByteOrder Pack

/-- A line of the services that lbcd_test prints. -/
structure ServiceRow where
  weight : UInt32
  increment : UInt32
  name : CStr
  deriving DecidableEq

/-- What lbcd_test prints. -/
structure TestReport where
  protocol : UInt16
  l1 : UInt16
  l5 : UInt16
  l15 : UInt16
  currentTime : UInt32
  bootTime : UInt32
  userMtime : UInt32
  totUsers : UInt16
  uniqUsers : UInt16
  onConsole : UInt8
  tmpFull : UInt8
  tmpdirFull : UInt8
  services : UInt8
  rows : List ServiceRow
  deriving DecidableEq

/-- The protocol version that the arguments ask for: v2 in front means version 2. -/
def testVersion : List CStr → UInt16
  | [] => lbcdVersion
  | arg :: _ => if arg=CStr.lit "v2" then 2 else lbcdVersion

/-- The services that the arguments ask for; in version 2 there are none. -/
def testServices (argv : List CStr) : List CStr :=
  if testVersion argv=3 then argv.take maxServices else []

/-- The name of a row. The names of the query packet are read, but nothing is ever stored
there. -/
def rowName (names : List UInt8) : ℕ → Prog Server CStr
  | 0 => return defaultName
  | i+1 =>
    let name := names.drop (i*nameSize)
    if 0∈name then return CStr.ofBuffer name else fault (.overread names.length)

/-- The loop that prints the services: how many are left, and the next one's number. -/
def printRows (e : Endian) (lb : LbcdReply) (names : List UInt8) :
    ℕ → ℕ → Prog Server (List ServiceRow)
  | 0,_ => return []
  | n+1,i =>
    if h : i < maxServices+1 then do
      let w := lb.slot ⟨i,h⟩
      let name ← rowName names i
      let rows ← printRows e lb names n (i+1)
      return ⟨ntohl e w.hostWeight,ntohl e w.hostIncr,name⟩ :: rows
    else fault (.badSlot i)

def reportOf (e : Endian) (lb : LbcdReply) (rows : List ServiceRow) : TestReport where
  protocol := lb.h.version
  l1 := ntohs e lb.l1
  l5 := ntohs e lb.l5
  l15 := ntohs e lb.l15
  currentTime := ntohl e lb.currentTime
  bootTime := ntohl e lb.bootTime
  userMtime := ntohl e lb.userMtime
  totUsers := ntohs e lb.totUsers
  uniqUsers := ntohs e lb.uniqUsers
  onConsole := lb.onConsole
  tmpFull := lb.tmpFull
  tmpdirFull := lb.tmpdirFull
  services := lb.services
  rows := rows

def printReport (e : Endian) (lb : LbcdReply) (names : List UInt8) : Prog Server TestReport := do
  let rows ← printRows e lb names (lb.services.toNat+1) 0
  return reportOf e lb rows

/-- The header that lbcd_test makes, all of it in host order. -/
def testHeader (argv : List CStr) : LbcdHeader :=
  ⟨testVersion argv,0,opLbinfo,LbcdStatus.request.code⟩

def lbcdTest (e : Endian) (g : WeightGlobals) (argv : List CStr) : Prog Server TestReport := do
  let lb : LbcdReply ← ssys .stackReply
  let names : { bs : List UInt8 // bs.length=maxServices*nameSize } ←
    ssys (.stackBuffer (maxServices*nameSize))
  let lb := { lb with h := testHeader argv }
  let (lb,_) ← lbcdPackInfo e g lb (testVersion argv) (testServices argv) false .initial
  printReport e lb names.val

theorem testServices_length (argv : List CStr) : (testServices argv).length ≤ maxServices := by
  unfold testServices
  split_ifs
  · exact List.length_take_le _ _
  · exact Nat.zero_le _

/-- The report's values in the order of the packet. -/
def TestReport.values (report : TestReport) : List ℕ :=
  [report.bootTime.toNat,report.currentTime.toNat,report.userMtime.toNat,report.l1.toNat,
    report.l5.toNat,report.l15.toNat,report.totUsers.toNat,report.uniqUsers.toNat,
    report.onConsole.toNat,report.tmpFull.toNat,report.tmpdirFull.toNat,report.services.toNat]

/-- The template of a reply up to its weights. -/
def replyItems : List Item :=
  [.short,.short,.short,.short,.long,.long,.long,.short,.short,.short,.short,.short,.byte,.skip,
    .byte,.byte,.skip,.byte]

/-- The report has the values of a packet in host order, and its rows after the first have
these names. -/
structure Shows (packet : List UInt8) (names : List CStr) (report : TestReport) : Prop where
  fields : ∃ id op status,
    unpack replyItems packet=some (report.protocol.toNat :: id :: op :: status :: report.values)
  pairs : ∀ i row,report.rows[i]?=some row →
    pairOf packet i=some [row.weight.toNat,row.increment.toNat]
  names : report.rows.map ServiceRow.name=defaultName :: names

theorem unpack_reply (e : Endian) (lb : LbcdReply) (n : ℕ) :
    unpack replyItems ((lb.bytes e).take (44+8*n))=
      some ((ntohs e lb.h.version).toNat :: (ntohs e lb.h.id).toNat :: (ntohs e lb.h.op).toNat ::
        (ntohs e lb.h.status).toNat :: bodyValues e lb) := by
  rw [bytes_take,fixedBytes_eq]
  simp only [replyItems,bodyBytes,List.append_assoc,List.cons_append,List.nil_append,unpack_long,
    unpack_short,unpack_byte,unpack_skip,unpack_nil,Option.map_some]
  rfl

/-- What a report of one reply must have in common with the packet of another. -/
theorem shows_iff (e : Endian) (t s : LbcdReply) (n : ℕ) (names : List CStr)
    (rows : List ServiceRow) :
    Shows ((s.bytes e).take (44+8*n)) names (reportOf e t rows) ↔
      t.h.version=ntohs e s.h.version ∧ bodyValues e t=bodyValues e s ∧
        (∀ i row,rows[i]?=some row →
          pairOf ((s.bytes e).take (44+8*n)) i=some [row.weight.toNat,row.increment.toNat]) ∧
        rows.map ServiceRow.name=defaultName :: names := by
  constructor
  · intro h
    obtain ⟨id,op,status,hf⟩ := h.fields
    rw [unpack_reply] at hf
    have hlist := Option.some.inj hf
    simp only [List.cons.injEq] at hlist
    obtain ⟨hv,-,-,-,hbody⟩ := hlist
    exact ⟨(UInt16.toNat_inj.mp hv).symm,hbody.symm,h.pairs,h.names⟩
  · rintro ⟨hv,hbody,hpairs,hnames⟩
    refine ⟨⟨(ntohs e s.h.id).toNat,(ntohs e s.h.op).toNat,(ntohs e s.h.status).toNat,?_⟩,
      hpairs,hnames⟩
    rw [unpack_reply,← hv,← hbody]
    rfl

/-- The names of the rows, when every name in the query packet has an end. -/
def rowLabel (names : List UInt8) : ℕ → CStr
  | 0 => defaultName
  | i+1 => CStr.ofBuffer (names.drop (i*nameSize))

theorem printRows_names (e : Endian) (lb : LbcdReply) {names : List UInt8}
    (hz : ∀ i < maxServices,0∈names.drop (i*nameSize)) {n i : ℕ} (h : i+n ≤ maxServices+1) :
    ∃ rows,printRows e lb names n i=Prog.ret rows ∧
      rows.map ServiceRow.name=(List.range' i n).map (rowLabel names) := by
  induction n generalizing i with
  | zero => exact ⟨[],rfl,rfl⟩
  | succ n ih =>
    have hi : i < maxServices+1 := by omega
    obtain ⟨rows,hrows,hmap⟩ := ih (i := i+1) (by omega)
    have hname : rowName names i=Prog.ret (rowLabel names i) := by
      cases i with
      | zero => rfl
      | succ i => exact if_pos (hz i (by omega))
    refine ⟨⟨ntohl e (lb.slot ⟨i,hi⟩).hostWeight,ntohl e (lb.slot ⟨i,hi⟩).hostIncr,
      rowLabel names i⟩ :: rows,?_,?_⟩
    · rw [printRows,dif_pos hi,hname,hrows]
      rfl
    · rw [List.map_cons,hmap,List.range'_succ,List.map_cons]

/-- The header of a reply to a request for information. -/
def replyHeader (e : Endian) (protocol id : UInt16) : LbcdHeader :=
  replyHead e ⟨[],protocol,id,opLbinfo,[]⟩

/-- What a buffer of each size holds before anything is stored to it. -/
abbrev Buffers := (n : ℕ) → { bs : List UInt8 // bs.length=n }

/-- A string of at most one character. -/
def textBuffer (c : UInt8) : Buffers := fun n => ⟨(c :: List.replicate n 0).take n,by simp⟩

namespace Host

variable {e : Endian} {g : WeightGlobals} (h : Host e g)

/-- The same host, with other contents of the reply buffer and of the variables of
lbcd_pack_info. -/
def withJunk (lb : LbcdReply) (locals : PackLocals) : Host e g :=
  { h with junkReply := lb, junkLocals := locals }

theorem Filled.withLocals {h : Host e g} {lb q a : LbcdReply} {l : PackLocals}
    {services : List CStr} (hq : (h.withJunk a l).Filled lb services q) :
    (h.withLocals l).Filled lb services q :=
  ⟨hq.scalars,hq.default,hq.requested,hq.unused⟩

/-- What the host answers in test mode, where the query packet is on the stack too. -/
def testAnswer (buffer : Buffers) : (c : ServerCall) → Option c.Reply
  | .sys (.stackBuffer n) => some (buffer n)
  | c => h.answer c

/-- What lbcd_test prints on this host, unless it crashes. -/
def tested (buffer : Buffers) (argv : List CStr) : Option TestReport :=
  (lbcdTest e g argv).result (Oracle.const (h.testAnswer buffer))

/-- Test mode prints the values of every reply of the daemon with the same options to a
request for the same version and services, whatever the memory of the two processes holds
that they never stored to. -/
def TestAgrees (executable : CStr → Bool) (opts : List MainOption) (argv : List CStr) : Prop :=
  ∀ st,mainStart executable (withoutTest opts)=.ok (.serve st g) →
    ∀ a b l m buffer addr id cache fd report packet,
      (h.withJunk a l).tested buffer argv=some report →
      packet∈(h.withJunk b m).sent st.config cache
        ⟨addr,testVersion argv,id,opLbinfo,testServices argv⟩ fd →
      Shows packet (testServices argv) report

theorem testAnswer_building (buffer : Buffers) {c : ServerCall} (hc : Building c) :
    h.testAnswer buffer c=h.answer c := by
  cases c with
  | sys c =>
    cases c with
    | stackBuffer n => exact hc.elim
    | _ => rfl
  | _ => rfl

/-- The reply's memory when lbcd_test calls lbcd_pack_info. -/
def testHeaded (argv : List CStr) : LbcdReply := { h.junkReply with h := testHeader argv }

/-- Test mode prints the reply that lbcd_pack_info makes. -/
theorem tested_of_report {buffer : Buffers} {argv : List CStr} {r : LbcdReply × UserCache}
    {report : TestReport}
    (hr : (lbcdPackInfo e g (h.testHeaded argv) (testVersion argv) (testServices argv) false
      .initial).result h.oracle=some r)
    (hp : printReport e r.1 (buffer (maxServices*nameSize)).val=Prog.ret report) :
    h.tested buffer argv=some report := by
  have hmeets := lbcdPackInfo_packing e g (h.testHeaded argv) (testVersion argv)
    (testServices_length argv) false .initial
  have hpacked : (lbcdPackInfo e g (h.testHeaded argv) (testVersion argv) (testServices argv) false
      .initial).result (Oracle.const (h.testAnswer buffer))=some r := by
    rw [← hr]
    exact hmeets.result_congr fun n c hc => h.testAnswer_building buffer hc.building
  have hrun : (lbcdPackInfo e g (h.testHeaded argv) (testVersion argv) (testServices argv) false
      .initial >>= fun p => printReport e p.1 (buffer (maxServices*nameSize)).val).result
        (Oracle.const (h.testAnswer buffer))=some report := by
    rw [Prog.result_bind,hpacked,Option.bind_some,hp]
    rfl
  exact hrun

/-- The weight of the default service, 0 where there is none. -/
def defaultWeight : UInt32 :=
  if h.sentinel then maxWeight
  else
    match probeOf g defaultName with
    | none => 0
    | some (f,portarg) => (h.stored f portarg (h.measured h.junkReply [])).weight.getD 0

/-- The adjustment for version 2 leaves everything as it is: the loads are the weight of the
default service, and nobody is logged in. -/
structure Unadjusted : Prop where
  l1 : h.loads.l1.map loadField=some (saturate16 h.defaultWeight)
  l5 : h.loads.l5.map loadField=some (saturate16 h.defaultWeight)
  l15 : h.loads.l15.map loadField=some (saturate16 h.defaultWeight)
  total : UInt16.ofInt h.users.total=0
  uniq : UInt16.ofInt h.users.uniq=0

/-- A reply without services depends on nothing but measurements, and -S makes no difference
to it. -/
structure Reportable (protocol : UInt16) (simple : Bool) : Prop where
  settled : h.Settled protocol [] simple
  assigned : h.sentinel=true ∨
    ∀ f portarg,probeOf g defaultName=some (f,portarg) → Assigned f portarg
  unadjusted : simple=true → protocol < 3 → h.Unadjusted

section

variable {h} {protocol : UInt16} {simple : Bool} {l m : PackLocals} {a b q q' : LbcdReply}
  (hd : HasProbe g defaultName) (hq : (h.withLocals l).Filled a [] q)

include hd hq

theorem Settled.weight (hs : h.Settled protocol [] simple)
    (ha : h.sentinel=true ∨ ∀ f portarg,probeOf g defaultName=some (f,portarg) →
      Assigned f portarg) : ntohl e (q.slot 0).hostWeight=h.defaultWeight := by
  obtain ⟨p,hp⟩ := Option.ne_none_iff_exists'.mp hd
  obtain ⟨f,portarg⟩ := p
  have hnone : ([] : List CStr).length ≤ maxServices := by decide
  obtain ⟨q₀,hq₀,-⟩ := h.packInfo_withLocals hd hnone h.junkLocals h.junkReply protocol simple
    .initial
  rw [hs.default hd ha hq hq₀,hq₀.default_weight hp,defaultWeight,hp]
  change (if h.sentinel then _ else (h.stored f portarg (h.measured h.junkReply [])).weight.getD _)=
    if h.sentinel then _ else (h.stored f portarg (h.measured h.junkReply [])).weight.getD _
  by_cases hsent : h.sentinel=true
  · rw [if_pos hsent,if_pos hsent]
  rw [if_neg hsent,if_neg hsent]
  apply getD_junk
  right
  intro hunset
  exact (h.stored_assigned f portarg _).mp hunset (ha.resolve_left hsent f portarg hp)

variable (hr : h.Reportable protocol simple) (hq' : (h.withLocals m).Filled b [] q')

include hr hq'

theorem Reportable.slot : q.slot 0=q'.slot 0 := by
  obtain ⟨p,hp⟩ := Option.ne_none_iff_exists'.mp hd
  obtain ⟨f,portarg⟩ := p
  have hweight := hr.settled.default hd hr.assigned hq hq'
  have hincr : ntohl e (q.slot 0).hostIncr=ntohl e (q'.slot 0).hostIncr := by
    rw [hq.default_incr hp,hq'.default_incr hp]
    change (h.stored f portarg _).incr.getD _=(h.stored f portarg _).incr.getD _
    rw [h.stored_incr f portarg]
  exact service_ext (congrArg (ntohl e) hweight) hincr

theorem Reportable.values :
    bodyValues e (convertReply e protocol false q)=
      bodyValues e (convertReply e protocol simple q') := by
  obtain ⟨hbt,hcond⟩ := hr.settled hd
  have hbt' := getD_junk (a := l.bt) (b := m.bt) (Or.inr hbt)
  by_cases hp : protocol < 3
  · rw [convertReply,if_pos ⟨rfl,hp⟩,hq.adjusted,hr.settled.weight hd hq hr.assigned]
    cases simple with
    | false =>
      rw [convertReply,if_pos ⟨rfl,hp⟩,hq'.adjusted,hr.settled.weight hd hq' hr.assigned]
      simp only [withLocals,hbt']
    | true =>
      have hunadjusted := hr.unadjusted rfl hp
      have hload {x : Option ℚ} {w : UInt16} (junk : ℚ) (hx : x.map loadField=some w) :
          loadField (x.getD junk)=w := by
        obtain ⟨v,rfl,hv⟩ := Option.map_eq_some_iff.mp hx
        exact hv
      rw [convertReply,if_neg (fun hc => by cases hc.1),hq'.values]
      simp only [withLocals,hbt',hload _ hunadjusted.l1,hload _ hunadjusted.l5,
        hload _ hunadjusted.l15,hunadjusted.total,hunadjusted.uniq]
      rfl
  · have hcv : ¬(simple=false ∧ protocol < 3) := fun hc => hp hc.2
    rw [if_neg hcv] at hcond
    have hl1 := getD_junk (a := l.l1) (b := m.l1) (Or.inr hcond.1)
    have hl5 := getD_junk (a := l.l5) (b := m.l5) (Or.inr hcond.2.1)
    have hl15 := getD_junk (a := l.l15) (b := m.l15) (Or.inr hcond.2.2)
    rw [convertReply,if_neg (fun hc => hp hc.2),convertReply,if_neg hcv,hq.values,hq'.values]
    simp only [withLocals,hbt',hl1,hl5,hl15]

end

/-- The row of the default service. -/
def defaultRow (e : Endian) (w : LbcdService) : ServiceRow :=
  ⟨ntohl e w.hostWeight,ntohl e w.hostIncr,defaultName⟩

theorem printReport_plain (e : Endian) {lb : LbcdReply} (hs : lb.services=0)
    (names : List UInt8) :
    printReport e lb names=Prog.ret (reportOf e lb [defaultRow e (lb.slot 0)]) := by
  rw [printReport,hs]
  rfl

/-- Where every name in the query packet has an end, test mode prints a row for the default
service and each one requested. -/
theorem tested_rows (hd : HasProbe g defaultName) (a : LbcdReply) (l : PackLocals)
    (argv : List CStr) {buffer : Buffers}
    (hz : ∀ i < maxServices,0∈(buffer (maxServices*nameSize)).val.drop (i*nameSize)) :
    ∃ lb rows,(h.withJunk a l).tested buffer argv=some (reportOf e lb rows) ∧
      rows.map ServiceRow.name=(List.range' 0 ((testServices argv).length+1)).map
        (rowLabel (buffer (maxServices*nameSize)).val) := by
  have hl := testServices_length argv
  obtain ⟨q,hq,hres⟩ := (h.withJunk a l).lbcdPackInfo_host hd (fun name _ => hasProbe_all hd name)
    hl ((h.withJunk a l).testHeaded argv) (testVersion argv) false .initial
  let lb := convertReply e (testVersion argv) false q
  have hcount : lb.services.toNat=(testServices argv).length := by
    have h5 : (testServices argv).length ≤ 5 := hl
    rw [(convertReply_keeps e _ _ q).2.2.2,hq.zeros.2.2,UInt8.toNat_ofNat']
    omega
  obtain ⟨rows,hrows,hnames⟩ := printRows_names e lb hz (n := (testServices argv).length+1)
    (i := 0) (by omega)
  refine ⟨lb,rows,?_,hnames⟩
  apply (h.withJunk a l).tested_of_report hres
  change printReport e lb _=_
  rw [printReport,hcount,hrows]
  rfl

section

variable (hd : HasProbe g defaultName) {argv : List CStr} (hn : testServices argv=[])

include hd hn

/-- Without services test mode prints the default service's row. -/
theorem tested_plain (a : LbcdReply) (l : PackLocals) :
    ∃ q,(h.withLocals l).Filled { a with h := testHeader argv } [] q ∧
      ∀ buffer,(h.withJunk a l).tested buffer argv=some
        (reportOf e (convertReply e (testVersion argv) false q) [defaultRow e (q.slot 0)]) := by
  obtain ⟨q,hq,hres⟩ := (h.withJunk a l).lbcdPackInfo_host hd
    (fun name _ => hasProbe_all hd name) (testServices_length argv)
    ((h.withJunk a l).testHeaded argv) (testVersion argv) false .initial
  have hq' : (h.withJunk a l).Filled { a with h := testHeader argv } [] q := hn ▸ hq
  have hservices : (convertReply e (testVersion argv) false q).services=0 := by
    rw [(convertReply_keeps e _ _ q).2.2.2,hq'.zeros.2.2]
    rfl
  refine ⟨q,hq'.withLocals,fun buffer => ?_⟩
  apply (h.withJunk a l).tested_of_report hres
  have hreport := printReport_plain e hservices (buffer (maxServices*nameSize)).val
  rw [convertReply_slot] at hreport
  exact hreport

omit hn

theorem sent_plain (config : LbcdConfig) (cache : UserCache) (addr : SockAddr)
    (protocol id : UInt16) (fd : Fd) (b : LbcdReply) (m : PackLocals) :
    ∃ q,(h.withLocals m).Filled { b with h := replyHeader e protocol id } [] q ∧
      (h.withJunk b m).sent config cache ⟨addr,protocol,id,opLbinfo,[]⟩ fd=
        [((convertReply e protocol config.simple q).bytes e).take (44+8*0)] := by
  have hnone : ([] : List CStr).length ≤ maxServices := by decide
  obtain ⟨q,hq,hsent⟩ := (h.withJunk b m).sent_filled hd hnone config cache addr protocol id
    opLbinfo fd
  exact ⟨q,hq.withLocals,hsent⟩

end

/-- Without services a report shows a packet if the values and the default pair agree. -/
theorem shows_plain {l m : PackLocals} {a b q q' : LbcdReply} {argv : List CStr} {id : UInt16}
    (simple : Bool) (hq : (h.withLocals l).Filled { a with h := testHeader argv } [] q)
    (hq' : (h.withLocals m).Filled { b with h := replyHeader e (testVersion argv) id } [] q') :
    Shows (((convertReply e (testVersion argv) simple q').bytes e).take (44+8*0)) []
        (reportOf e (convertReply e (testVersion argv) false q) [defaultRow e (q.slot 0)]) ↔
      bodyValues e (convertReply e (testVersion argv) false q)=
          bodyValues e (convertReply e (testVersion argv) simple q') ∧
        q.slot 0=q'.slot 0 := by
  have hversion : (convertReply e (testVersion argv) false q).h.version=
      ntohs e (convertReply e (testVersion argv) simple q').h.version := by
    rw [(convertReply_keeps e _ _ q).1,(convertReply_keeps e _ _ q').1,hq.header,hq'.header]
    exact (ntohs_htons e _).symm
  have hpair := pairOf_take e (convertReply e (testVersion argv) simple q') (n := 0) (i := 0)
    (Nat.zero_le _)
  rw [convertReply_slot] at hpair
  rw [shows_iff]
  constructor
  · rintro ⟨-,hbody,hpairs,-⟩
    have hshown := (hpairs 0 (defaultRow e (q.slot 0)) rfl).symm.trans hpair
    simp only [defaultRow,Option.some.injEq,List.cons.injEq,UInt32.toNat_inj,and_true] at hshown
    exact ⟨hbody,service_ext hshown.1 hshown.2⟩
  · rintro ⟨hbody,hslot⟩
    refine ⟨hversion,hbody,fun i row hrow => ?_,rfl⟩
    cases i with
    | zero =>
      cases hrow
      rw [← hslot] at hpair
      exact hpair
    | succ i => cases hrow

section

variable {h} {executable : CStr → Bool} {opts : List MainOption} {argv : List CStr} {st : MainState}
  (ht : h.TestAgrees executable opts argv)
  (hst : mainStart executable (withoutTest opts)=.ok (.serve st g)) (hd : HasProbe g defaultName)

include ht hst hd

/-- One run in test mode agrees with the replies from every memory of the daemon. -/
theorem TestAgrees.plain (hn : testServices argv=[]) :
    ∃ q,(h.withLocals ⟨0,0,0,0⟩).Filled { (default : LbcdReply) with h := testHeader argv } [] q ∧
      ∀ (b : LbcdReply) (m : PackLocals),∃ q',
        (h.withLocals m).Filled { b with h := replyHeader e (testVersion argv) 0 } [] q' ∧
        bodyValues e (convertReply e (testVersion argv) false q)=
          bodyValues e (convertReply e (testVersion argv) st.config.simple q') ∧
        q.slot 0=q'.slot 0 := by
  obtain ⟨q,hq,htested⟩ := h.tested_plain hd hn default ⟨0,0,0,0⟩
  refine ⟨q,hq,fun b m => ?_⟩
  obtain ⟨q',hq',hsent⟩ := h.sent_plain hd st.config .initial [] (testVersion argv) 0 0 b m
  have hshows := ht st hst default b ⟨0,0,0,0⟩ m (textBuffer 0) [] 0 .initial 0 _ _
    (htested (textBuffer 0)) (by rw [hn,hsent]; exact List.mem_singleton_self _)
  rw [hn] at hshows
  exact ⟨q',hq',(h.shows_plain st.config.simple hq hq').mp hshows⟩

theorem TestAgrees.alike (hn : testServices argv=[]) :
    h.RepliesAlike (replyHeader e (testVersion argv) 0) (testVersion argv) []
      st.config.simple := by
  intro a b l m
  obtain ⟨q,-,hall⟩ := ht.plain hst hd hn
  obtain ⟨q₁,hq₁,hv₁,hs₁⟩ := hall a l
  obtain ⟨q₂,hq₂,hv₂,hs₂⟩ := hall b m
  refine ⟨q₁,q₂,hq₁,hq₂,⟨?_,fun slot hslot => ?_⟩⟩
  · obtain ⟨hh₁,hr₁,hp₁,-⟩ := convertReply_keeps e (testVersion argv) st.config.simple q₁
    obtain ⟨hh₂,hr₂,hp₂,-⟩ := convertReply_keeps e (testVersion argv) st.config.simple q₂
    apply fixedBytes_of_values _ _ _ (hv₁.symm.trans hv₂)
    · rw [hh₁,hh₂,hq₁.header,hq₂.header]
    · rw [hr₁,hr₂,hq₁.zeros.1,hq₂.zeros.1]
    · rw [hp₁,hp₂,hq₁.zeros.2.1,hq₂.zeros.2.1]
  · have hzero : slot=0 := by
      obtain ⟨name,portarg,hname,-⟩ := hslot
      have hlt := (List.getElem?_eq_some_iff.mp hname).1
      exact Fin.ext (Nat.lt_one_iff.mp hlt)
    rw [convertReply_slot,convertReply_slot,hzero,← hs₁,← hs₂]

theorem TestAgrees.assigned (hn : testServices argv=[]) : h.sentinel=true ∨
    ∀ f portarg,probeOf g defaultName=some (f,portarg) → Assigned f portarg := by
  by_cases hsent : h.sentinel=true
  · exact Or.inl hsent
  refine Or.inr fun f portarg hp => ?_
  by_contra hna
  let one : LbcdReply := (default : LbcdReply).setWeight 0 1
  obtain ⟨q,-,hall⟩ := ht.plain hst hd hn
  obtain ⟨q₁,hq₁,-,hs₁⟩ := hall default ⟨0,0,0,0⟩
  obtain ⟨q₂,hq₂,-,hs₂⟩ := hall one ⟨0,0,0,0⟩
  have hnone := fun lb => ((h.withLocals ⟨0,0,0,0⟩).stored_assigned f portarg lb).mpr hna
  have hs₀ : (h.withLocals ⟨0,0,0,0⟩).sentinel≠true := hsent
  have hw₁ := hq₁.default_weight hp
  have hw₂ := hq₂.default_weight hp
  rw [hnone,if_neg hs₀,← hs₁] at hw₁
  rw [hnone,if_neg hs₀,← hs₂,hw₁] at hw₂
  change (0 : UInt32)=1 at hw₂
  exact absurd hw₂ (by decide)

theorem TestAgrees.unadjusted (hn : testServices argv=[]) (hsimple : st.config.simple=true)
    (hp : testVersion argv < 3) : h.Unadjusted := by
  have hsettled := (ht.alike hst hd hn).settled
  obtain ⟨q,hq,hall⟩ := ht.plain hst hd hn
  obtain ⟨q',hq',hv,-⟩ := hall default ⟨0,0,0,0⟩
  have hcv : ¬(st.config.simple=false ∧ testVersion argv < 3) := by
    intro hc
    rw [hsimple] at hc
    cases hc.1
  have hknown := (hsettled hd).2
  rw [if_neg hcv] at hknown
  obtain ⟨v₁,h₁⟩ := Option.ne_none_iff_exists'.mp hknown.1
  obtain ⟨v₅,h₅⟩ := Option.ne_none_iff_exists'.mp hknown.2.1
  obtain ⟨v₁₅,h₁₅⟩ := Option.ne_none_iff_exists'.mp hknown.2.2
  rw [convertReply,if_pos ⟨rfl,hp⟩,convertReply,if_neg hcv,hq.adjusted,hq'.values,
    hsettled.weight hd hq (ht.assigned hst hd hn)] at hv
  simp only [withLocals,h₁,h₅,h₁₅,Option.getD_some,List.cons.injEq,UInt16.toNat_inj] at hv
  obtain ⟨-,-,-,e₁,e₅,e₁₅,htot,huniq,-⟩ := hv
  refine ⟨?_,?_,?_,?_,?_⟩
  · rw [h₁,Option.map_some,e₁]
  · rw [h₅,Option.map_some,e₅]
  · rw [h₁₅,Option.map_some,e₁₅]
  · exact UInt16.toNat_inj.mp htot.symm
  · exact UInt16.toNat_inj.mp huniq.symm

/-- The first service's row is labelled by the stack. -/
theorem TestAgrees.label {name : CStr} {names : List CStr} (hs : testServices argv=name :: names)
    (buffer : Buffers)
    (hz : ∀ i < maxServices,0∈(buffer (maxServices*nameSize)).val.drop (i*nameSize)) :
    rowLabel (buffer (maxServices*nameSize)).val 1=name := by
  obtain ⟨lb,rows,htested,hrows⟩ := h.tested_rows hd default ⟨0,0,0,0⟩ argv hz
  obtain ⟨q,-,hsent⟩ := (h.withJunk default ⟨0,0,0,0⟩).sent_filled hd (testServices_length argv)
    st.config .initial [] (testVersion argv) 0 opLbinfo 0
  have hshows := ht st hst default default ⟨0,0,0,0⟩ ⟨0,0,0,0⟩ buffer [] 0 .initial 0 _ _ htested
    (by rw [hsent]; exact List.mem_singleton_self _)
  have hnames := hrows.symm.trans hshows.names
  rw [hs,List.length_cons,List.range'_succ,List.range'_succ,List.map_cons,List.map_cons] at hnames
  exact (List.cons.inj (List.cons.inj hnames).2).1

/-- Two contents of the stack give two labels, so no service may be requested. -/
theorem TestAgrees.noNames : testServices argv=[] := by
  cases hs : testServices argv with
  | nil => rfl
  | cons name names =>
    exfalso
    have hempty := ht.label hst hd hs (textBuffer 0) (by decide)
    have hx := ht.label hst hd hs (textBuffer 120) (by decide)
    rw [← hempty] at hx
    exact absurd hx (by decide)

theorem TestAgrees.reportable : h.Reportable (testVersion argv) st.config.simple := by
  have hn := ht.noNames hst hd
  exact ⟨(ht.alike hst hd hn).settled,ht.assigned hst hd hn,ht.unadjusted hst hd hn⟩

end

theorem testAgrees_of_reportable {executable : CStr → Bool} {opts : List MainOption}
    {argv : List CStr} (hr : ∀ st,mainStart executable (withoutTest opts)=.ok (.serve st g) →
      HasProbe g defaultName →
        testServices argv=[] ∧ h.Reportable (testVersion argv) st.config.simple) :
    h.TestAgrees executable opts argv := by
  intro st hst a b l m buffer addr id cache fd report packet htested hsent
  by_cases hd : HasProbe g defaultName
  · obtain ⟨hn,hr⟩ := hr st hst hd
    obtain ⟨q,hq,hreport⟩ := h.tested_plain hd hn a l
    obtain ⟨q',hq',hpackets⟩ := h.sent_plain hd st.config cache addr (testVersion argv) id fd b m
    rw [hreport] at htested
    rw [hn,hpackets] at hsent
    cases htested
    cases List.mem_singleton.mp hsent
    rw [hn]
    exact (h.shows_plain st.config.simple hq hq').mpr
      ⟨hr.values hd hq hq',hr.slot hd hq hq'⟩
  · have hnone := (h.withJunk b m).lbcdPackInfo_noDefault hd (testServices argv)
      ((h.withJunk b m).headed ⟨addr,testVersion argv,id,opLbinfo,testServices argv⟩)
      (testVersion argv) st.config.simple cache
    rw [(h.withJunk b m).sent_eq (testServices_length argv),hnone] at hsent
    cases hsent

end Host

/-- Test mode shows the daemon's reply exactly if no service is requested, -S changes nothing
in it and nothing in it is left unassigned. -/
theorem testAgrees_iff {executable : CStr → Bool} {opts : List MainOption} {g : WeightGlobals}
    (hm : mainStart executable opts=.ok (.test g)) {e : Endian} (h : Host e g)
    (argv : List CStr) :
    h.TestAgrees executable opts argv ↔ (HasProbe g defaultName →
      testServices argv=[] ∧ h.Reportable (testVersion argv) (MainOption.simple∈opts)) := by
  obtain ⟨st,hst,hsimple⟩ := mainStart_test executable hm
  have hflag : st.config.simple=decide (MainOption.simple∈opts) := by
    rw [Bool.eq_iff_iff,hsimple,decide_eq_true_iff]
  constructor
  · intro ht hd
    rw [← hflag]
    exact ⟨ht.noNames hst hd,ht.reportable hst hd⟩
  · intro hr
    apply h.testAgrees_of_reportable
    intro st' hst' hd
    rw [hst] at hst'
    cases hst'
    rw [hflag]
    exact hr hd

theorem testAgrees_iff_named :
    ∃ g,mainStart (fun _ => true) [.allowedService (CStr.lit "rr"),.simple,.testmode]=
        .ok (.test g) ∧
      ((Host.idle .little g).TestAgrees (fun _ => true)
          [.allowedService (CStr.lit "rr"),.simple,.testmode] [CStr.lit "v2",CStr.lit "rr"] ↔
        (HasProbe g defaultName → testServices [CStr.lit "v2",CStr.lit "rr"]=[] ∧
          (Host.idle .little g).Reportable (testVersion [CStr.lit "v2",CStr.lit "rr"])
            (MainOption.simple∈
              [MainOption.allowedService (CStr.lit "rr"),.simple,.testmode]))) :=
  ⟨_,rfl,testAgrees_iff rfl (Host.idle .little _) [CStr.lit "v2",CStr.lit "rr"]⟩

/-- With -a rr -t rr the first row has no name that was requested. -/
theorem rr_unnamed :
    ∃ g st,mainStart (fun _ => true) [.allowedService (CStr.lit "rr"),.testmode]=.ok (.test g) ∧
      mainStart (fun _ => true)
        (withoutTest [.allowedService (CStr.lit "rr"),.testmode])=.ok (.serve st g) ∧
      serviceAllowed st.config (CStr.lit "rr")=true ∧
      ¬(Host.idle .little g).TestAgrees (fun _ => true)
        [.allowedService (CStr.lit "rr"),.testmode] [CStr.lit "rr"] := by
  apply Exists.intro
  apply Exists.intro
  refine ⟨rfl,rfl,by decide,?_⟩
  intro ht
  have hnames := ht.noNames rfl (Option.some_ne_none _)
  exact absurd hnames (by decide)

end Lbcd
