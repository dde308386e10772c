import Lbcd.Indeterminate

namespace Lbcd

open Interaction CText ByteOrder

/-- The bytes of one pair of a packet. -/
def slotBytes (packet : List UInt8) (i : ℕ) : List UInt8 :=
  (packet.drop (36+i*serviceSize)).take serviceSize

theorem slotBytes_take (e : Endian) (lb : LbcdReply) {n : ℕ} {i : Slot} (hn : (i : ℕ) ≤ n) :
    slotBytes ((lb.bytes e).take (44+8*n)) i=(lb.slot i).bytes e := packet_slot e lb hn

/-- The number of services is the last byte before the pairs. -/
theorem fixedBytes_services (e : Endian) (lb : LbcdReply) (n : UInt8) :
    LbcdReply.fixedBytes e { lb with services := n }=(lb.fixedBytes e).take 35++[n] := by
  cases e <;> rfl

/-- A store into one pair changes no other byte. -/
theorem bytes_setSlot (e : Endian) (lb : LbcdReply) (slot : Slot) (w : LbcdService) {n : ℕ}
    (hn : n < 36+8*slot ∨ 44+8*slot ≤ n) :
    ((lb.setSlot slot w).bytes e)[n]?=(lb.bytes e)[n]? := by
  have hfixed := LbcdReply.fixedBytes_length e lb
  have hset : ((lb.setSlot slot w).bytes e)=
      lb.fixedBytes e++(lb.weights.toList.set slot w).flatMap (LbcdService.bytes e) := by
    rw [LbcdReply.bytes,LbcdReply.setSlot,Vector.toList_set]
    rfl
  rw [hset,LbcdReply.bytes]
  by_cases hlt : n < 36
  · rw [List.getElem?_append_left (by omega),List.getElem?_append_left (by omega)]
  · rw [List.getElem?_append_right (by omega),List.getElem?_append_right (by omega),hfixed]
    apply Pack.getElem?_flatMap_set (LbcdReply.serviceBytes_length e)
    unfold serviceSize
    omega

/-- A service whose weight function assigns its weight. -/
def AssignsWeight (g : WeightGlobals) (name : CStr) : Prop :=
  ∀ f portarg,probeOf g name=some (f,portarg) → Assigned f portarg

/-- The pairs of a reply do not depend on each other. -/
structure SlotLaw {e : Endian} {g : WeightGlobals} (h : Host e g) : Prop where
  alone : ∀ (config config' : LbcdConfig) (cache cache' : UserCache) (addr addr' : SockAddr)
    (id id' op op' : UInt16) (fd fd' : Fd) (names : List CStr) (packet : List UInt8),
    names.length ≤ maxServices → h.sent config cache ⟨addr,3,id,op,names⟩ fd=[packet] →
    ∀ k name,names[k]?=some name → AssignsWeight g name →
      ∃ single,h.sent config' cache' ⟨addr',3,id',op',[name]⟩ fd'=[single] ∧
        slotBytes packet (k+1)=slotBytes single 1
  rearranged : ∀ (config : LbcdConfig) (cache : UserCache) (addr : SockAddr) (id op : UInt16)
    (fd : Fd) (names names' : List CStr) (packet packet' : List UInt8),
    names.length ≤ maxServices → names'.length ≤ maxServices →
    h.sent config cache ⟨addr,3,id,op,names⟩ fd=[packet] →
    h.sent config cache ⟨addr,3,id,op,names'⟩ fd=[packet'] →
    (∀ k k' name,names[k]?=some name → names'[k']?=some name → AssignsWeight g name →
      slotBytes packet (k+1)=slotBytes packet' (k'+1)) ∧
    slotBytes packet 0=slotBytes packet' 0 ∧ packet.take 35=packet'.take 35 ∧
    packet[35]?=some (UInt8.ofNat names.length) ∧ packet.length=44+8*names.length
  stored : ∀ (lb : LbcdReply) (slot : Slot) (name : CStr) (o : Oracle System) (r : LbcdReply),
    (setweightRun e g lb slot name).result o=some r →
    ∀ n : ℕ,n < 36+8*(slot : ℕ) ∨ 44+8*(slot : ℕ) ≤ n → (r.bytes e)[n]?=(lb.bytes e)[n]?
  read : ∀ (lb : LbcdReply) (slot : Slot) (name : CStr),∃ p : Prog System Stored,
    ∀ lb',SameScalars lb' lb → setweightRun e g lb' slot name=
      p >>= fun s => Prog.ret (s.into (lb'.setIncr slot g.defaultIncrement) slot)

/-- Which null pointer is met depends on the name only. -/
theorem lbcdSetweight_fault {g : WeightGlobals} {name : CStr} (h : probeOf g name=none) :
    ∃ f : Fault,∀ (lb : LbcdReply) (slot : Slot),lbcdSetweight g lb slot name=fault f := by
  have hnone := lbcdSetweight_of_none h default 0
  unfold lbcdSetweight at hnone ⊢
  cases hs : serviceToFunc g (some name) with
  | error d =>
    rw [hs] at hnone
    rcases hnone with hnone|hnone
    · cases hnone
    · cases hnone
  | ok entry =>
    cases entry with
    | none => exact ⟨.nullEntry,fun lb slot => dif_pos slot.isLt⟩
    | some functab =>
      cases hf : functab.function with
      | none =>
        refine ⟨.nullFunction,fun lb slot => ?_⟩
        rw [dif_pos slot.isLt]
        dsimp only
        rw [hf]
      | some f => simp [probeOf,hs,hf] at h

/-- What lbcd_setweight does depends on the scalar fields only, as does what it stores. -/
theorem setweightRun_read (e : Endian) (g : WeightGlobals) (lb : LbcdReply) (slot : Slot)
    (name : CStr) : ∃ p : Prog System Stored,∀ lb',SameScalars lb' lb →
      setweightRun e g lb' slot name=
        p >>= fun s => Prog.ret (s.into (lb'.setIncr slot g.defaultIncrement) slot) := by
  cases hp : probeOf g name with
  | none =>
    obtain ⟨f,hf⟩ := lbcdSetweight_fault hp
    refine ⟨Prog.call (I := System) (.fault f) Empty.elim,fun lb' _ => ?_⟩
    rw [setweightRun,hf]
    exact congrArg (Prog.call (I := System) (.fault f)) (funext fun r => r.elim)
  | some p =>
    refine ⟨stores e g p.1 g.lbcdTimeout p.2 lb,fun lb' hs => ?_⟩
    rw [setweightRun_of_probe e hp,
      stores_congr g p.1 g.lbcdTimeout p.2 (loadWeight_congr e hs)]

theorem setweightRun_stored {e : Endian} {g : WeightGlobals} {lb r : LbcdReply} {slot : Slot}
    {name : CStr} {o : Oracle System} (h : (setweightRun e g lb slot name).result o=some r)
    {n : ℕ} (hn : n < 36+8*slot ∨ 44+8*slot ≤ n) : (r.bytes e)[n]?=(lb.bytes e)[n]? := by
  obtain ⟨p,hp⟩ := setweightRun_read e g lb slot name
  rw [hp lb rfl,Prog.result_bind] at h
  obtain ⟨s,-,hs⟩ := Option.bind_eq_some_iff.mp h
  rw [Prog.result_ret,Stored.into_incr] at hs
  rw [← Option.some.inj hs]
  exact bytes_setSlot e lb slot _ hn

namespace Host

variable {e : Endian} {g : WeightGlobals} (h : Host e g)

/-- The names and the header are not read. -/
theorem filled_measured (lb lb' : LbcdReply) (names names' : List CStr) (name : CStr)
    (old : LbcdService) :
    h.filled (h.measured lb names) name old=h.filled (h.measured lb' names') name old := by
  unfold filled
  cases hp : probeOf g name with
  | none => rfl
  | some p =>
    have hload : loadWeight e (h.measured lb names)=loadWeight e (h.measured lb' names') := rfl
    have hstored : h.stored p.1 p.2 (h.measured lb names)=
        h.stored p.1 p.2 (h.measured lb' names') := by
      simp only [stored,stores_congr g p.1 g.lbcdTimeout p.2 hload]
    simp only [hstored]

/-- An assigned pair does not depend on what its slot held. -/
theorem filled_assigned {name : CStr} (hp : HasProbe g name) (ha : AssignsWeight g name)
    (lb : LbcdReply) (old old' : LbcdService) :
    h.filled lb name old=h.filled lb name old' := by
  obtain ⟨⟨f,portarg⟩,hp⟩ := Option.ne_none_iff_exists'.mp hp
  have hweight : (h.stored f portarg lb).weight≠none := fun hn =>
    (h.stored_assigned f portarg lb).mp hn (ha f portarg hp)
  rw [h.filled_probe hp,h.filled_probe hp,getD_junk (Or.inr hweight)]

/-- A served request, by the reply it gets. -/
theorem served_filled {config : LbcdConfig} {cache : UserCache} {addr : SockAddr}
    {id op : UInt16} {fd : Fd} {names : List CStr} {packet : List UInt8}
    (hl : names.length ≤ maxServices)
    (hsent : h.sent config cache ⟨addr,3,id,op,names⟩ fd=[packet]) :
    HasProbe g defaultName ∧ ∃ q,h.Filled (h.headed ⟨addr,3,id,op,names⟩) names q ∧
      packet=(q.bytes e).take (44+8*names.length) := by
  have hd : HasProbe g defaultName := by
    by_contra hd
    rw [h.sent_eq hl,h.lbcdPackInfo_noDefault hd] at hsent
    exact List.cons_ne_nil _ _ hsent.symm
  obtain ⟨q,hq,hs⟩ := h.sent_filled hd hl config cache addr 3 id op fd
  rw [if_neg (fun hlt => absurd hlt.2 (by decide)),hsent] at hs
  exact ⟨hd,q,hq,List.singleton_inj.mp hs⟩

/-- The pair of a name on this host, in network order. -/
theorem slotBytes_served {names : List CStr} {lb q : LbcdReply} (hq : h.Filled lb names q)
    (hl : names.length ≤ maxServices) {k : ℕ} {name : CStr} (hk : names[k]?=some name)
    (hd : HasProbe g defaultName) (ha : AssignsWeight g name) :
    slotBytes ((q.bytes e).take (44+8*names.length)) (k+1)=
      ((h.filled (h.measured default []) name default).net e).bytes e := by
  obtain ⟨hlt,-⟩ := List.getElem?_eq_some_iff.mp hk
  have hi : k+1 < maxServices+1 := by omega
  have hslot : slotBytes ((q.bytes e).take (44+8*names.length)) (k+1)=
      (q.slot ⟨k+1,hi⟩).bytes e := slotBytes_take e q (i := ⟨k+1,hi⟩) hlt
  rw [hslot,hq.requested k name hk hi,h.filled_assigned (hasProbe_all hd name) ha _ _ default,
    h.filled_measured lb default names []]

theorem slots_alone {config config' : LbcdConfig} {cache cache' : UserCache}
    {addr addr' : SockAddr} {id id' op op' : UInt16} {fd : Fd} (fd' : Fd) {names : List CStr}
    {packet : List UInt8} (hl : names.length ≤ maxServices)
    (hsent : h.sent config cache ⟨addr,3,id,op,names⟩ fd=[packet]) {k : ℕ} {name : CStr}
    (hk : names[k]?=some name) (ha : AssignsWeight g name) :
    ∃ single,h.sent config' cache' ⟨addr',3,id',op',[name]⟩ fd'=[single] ∧
      slotBytes packet (k+1)=slotBytes single 1 := by
  obtain ⟨hd,q,hq,rfl⟩ := h.served_filled hl hsent
  have hone : [name].length ≤ maxServices := by
    rw [List.length_singleton]
    decide
  obtain ⟨q',hq',hsent'⟩ := h.sent_filled hd hone config' cache' addr' 3 id' op' fd'
  rw [if_neg (fun hlt => absurd hlt.2 (by decide))] at hsent'
  refine ⟨_,hsent',?_⟩
  rw [h.slotBytes_served hq hl hk hd ha]
  exact (h.slotBytes_served hq' hone (k := 0) rfl hd ha).symm

/-- The fixed part of a reply, but for the number of services. -/
theorem Filled.head {h : Host e g} {names : List CStr} {lb q : LbcdReply}
    (hq : h.Filled lb names q) :
    q.fixedBytes e=((h.measured lb []).fixedBytes e).take 35++[UInt8.ofNat names.length] :=
  (hq.scalars.fixedBytes e).trans (fixedBytes_services e (h.measured lb []) _)

theorem slots_rearranged {config : LbcdConfig} {cache : UserCache} {addr : SockAddr}
    {id op : UInt16} {fd : Fd} {names names' : List CStr} {packet packet' : List UInt8}
    (hl : names.length ≤ maxServices) (hl' : names'.length ≤ maxServices)
    (hsent : h.sent config cache ⟨addr,3,id,op,names⟩ fd=[packet])
    (hsent' : h.sent config cache ⟨addr,3,id,op,names'⟩ fd=[packet']) :
    (∀ k k' name,names[k]?=some name → names'[k']?=some name → AssignsWeight g name →
      slotBytes packet (k+1)=slotBytes packet' (k'+1)) ∧
    slotBytes packet 0=slotBytes packet' 0 ∧ packet.take 35=packet'.take 35 ∧
    packet[35]?=some (UInt8.ofNat names.length) ∧ packet.length=44+8*names.length := by
  obtain ⟨hd,q,hq,rfl⟩ := h.served_filled hl hsent
  obtain ⟨-,q',hq',rfl⟩ := h.served_filled hl' hsent'
  have hcut {names : List CStr} {q : LbcdReply}
      (hq : h.Filled (h.headed ⟨addr,3,id,op,names⟩) names q) :
      (q.bytes e).take (44+8*names.length)=
        ((h.measured (h.headed ⟨addr,3,id,op,[]⟩) []).fixedBytes e).take 35++
          (UInt8.ofNat names.length :: (q.weights.toList.take (names.length+1)).flatMap
            (LbcdService.bytes e)) := by
    rw [bytes_take,hq.head,List.append_assoc]
    rfl
  have hlen : (((h.measured (h.headed ⟨addr,3,id,op,[]⟩) []).fixedBytes e).take 35).length=35 := by
    rw [List.length_take,LbcdReply.fixedBytes_length]
    rfl
  refine ⟨fun k k' name hk hk' ha => ?_,?_,?_,?_,?_⟩
  · rw [h.slotBytes_served hq hl hk hd ha,h.slotBytes_served hq' hl' hk' hd ha]
  · have hzero {n : ℕ} (q : LbcdReply) :
        slotBytes ((q.bytes e).take (44+8*n)) 0=(q.slot 0).bytes e :=
      slotBytes_take e q (i := 0) (Nat.zero_le n)
    rw [hzero,hzero,hq.default,hq'.default,
      h.filled_measured (h.headed ⟨addr,3,id,op,names⟩) (h.headed ⟨addr,3,id,op,names'⟩) names
        names']
    rfl
  · rw [hcut hq,hcut hq',List.take_left' hlen,List.take_left' hlen]
  · rw [hcut hq,List.getElem?_append_right hlen.le,hlen]
    rfl
  · rw [List.length_take,LbcdReply.bytes_length]
    unfold maxServices replySize at *
    omega

end Host

/-- No name's pair depends on the other names of the request, their number or their order. -/
theorem replies_independent {e : Endian} {g : WeightGlobals} (h : Host e g) : SlotLaw h where
  alone := fun _ _ _ _ _ _ _ _ _ _ _ fd' _ _ hl hsent _ _ hk ha =>
    h.slots_alone fd' hl hsent hk ha
  rearranged := fun _ _ _ _ _ _ _ _ _ _ hl hl' hsent hsent' =>
    h.slots_rearranged hl hl' hsent hsent'
  stored := fun _ _ _ _ _ hr _ hn => setweightRun_stored hr hn
  read := setweightRun_read e g

/-- The pair of rr after load and that of rr alone, with load as the default service. -/
theorem replies_independent_rr :
    let g : WeightGlobals := { WeightGlobals.initial with
      lbcdDefaultFunctab := some ⟨CStr.lit "load",some .load⟩ }
    let h := Host.idle .little g
    let config : LbcdConfig := ⟨[],false,4330,none,[],false,false⟩
    ∃ packet single,
      h.sent config .initial ⟨[],3,0,1,[CStr.lit "load",CStr.lit "rr"]⟩ 3=[packet] ∧
      h.sent config .initial ⟨[],3,0,1,[CStr.lit "rr"]⟩ 3=[single] ∧
      slotBytes packet 2=slotBytes single 1 := by
  intro g h config
  have hd : HasProbe g defaultName := by
    unfold HasProbe
    decide
  have hl : [CStr.lit "load",CStr.lit "rr"].length ≤ maxServices := by decide
  obtain ⟨q,-,hsent⟩ := h.sent_filled hd hl config .initial [] 3 0 1 3
  have hrr : probeOf g (CStr.lit "rr")=some (.rr,none) := by decide
  have ha : AssignsWeight g (CStr.lit "rr") := by
    intro f portarg hp htcp
    rw [hrr] at hp
    cases hp
    cases htcp
  obtain ⟨single,hs,hslot⟩ := (replies_independent h).alone config config .initial .initial [] []
    0 0 1 1 3 3 _ _ hl hsent 1 (CStr.lit "rr") rfl ha
  exact ⟨_,single,hsent,hs,hslot⟩

end Lbcd
