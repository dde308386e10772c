import Lbcd.Increments
import Lbcd.Lookups

namespace Lbcd

open Interaction CText ByteOrder Pack

/-- A number in decimal, of one digit or more. -/
structure Decimal where
  digits : List UInt8
  nonempty : digits≠[]
  decimal : digits.all isdigit=true

def Decimal.value (d : Decimal) : ℕ := digitsValue d.digits

/-- A weight and an increment as -w takes them. -/
structure WeightPair where
  weight : Decimal
  increment : Decimal

def WeightPair.text (p : WeightPair) : List UInt8 :=
  p.weight.digits++colon :: p.increment.digits

/-- The slot with this number is one of the default service or of rr. -/
def DefaultOrRr (g : WeightGlobals) (names : List CStr) (i : ℕ) : Prop :=
  (defaultName :: names)[i]?=some defaultName ∨ Answered g names i .rr

/-- The sentinel file has not been found. -/
def NoSentinel (h : List (Event Server)) : Prop :=
  (⟨.sys (.access .sentinel),some true⟩ : Event Server)∉h

/-- Without the sentinel file some slots hold these two numbers in whatever lbcd_pack_info
makes and in every reply of every run. -/
structure PairsFixed (e : Endian) (g : WeightGlobals) (asked : List CStr → ℕ → Prop)
    (weight increment : ℕ) : Prop where
  packed : ∀ lb protocol names simple cache h r,names.length ≤ maxServices →
    Run (records e g) [] (lbcdPackInfo e g lb protocol names simple cache) h (.ret r) →
    NoSentinel h → ∀ slot : Slot,asked names slot →
      (ntohl e (r.1.slot slot).hostWeight).toNat=weight ∧
        (ntohl e (r.1.slot slot).hostIncr).toNat=increment
  sent : ∀ config h fd packet addr k,
    Run (records e g) [] (handleRequests e g config) h (.call (.sys (.sendto fd packet addr)) k) →
    InReply config.services h fun request mid => NoSentinel mid →
      ∀ i,asked request.services i → pairOf packet i=some [weight,increment]

/-- What an option -w with this string does. -/
structure WeightOption (s : CStr) : Prop where
  accepted : isWeights (some s)=0 ↔ ∃ p : WeightPair,p.text=s.bytes
  unique : ∀ p q : WeightPair,p.text=s.bytes → q.text=s.bytes → p=q
  fixed : ∀ p : WeightPair,p.text=s.bytes →
    p.weight.value ≤ 2147483647 → p.increment.value ≤ 2147483647 →
    ∀ g cmd timeout,∃ g',lbcdWeightInit g cmd (some s) timeout=.ok g' ∧
      ∀ e,PairsFixed e g' (DefaultOrRr g') p.weight.value p.increment.value
  ones : isWeights (some s)≠0 → ∀ g timeout,
    ∃ g',lbcdWeightInit g none (some s) timeout=.ok g' ∧
      g'.defaultWeight=1 ∧ g'.defaultIncrement=1 ∧
      ∀ e,PairsFixed e g' (fun names i => Answered g' names i .rr) 1 1

theorem Decimal.colon_notMem (d : Decimal) : colon∉d.digits := by
  intro hc
  have hdigit := List.all_eq_true.mp d.decimal colon hc
  cases hdigit

/-- atoi of a number that an int holds. -/
theorem Decimal.atoi {d : Decimal} {s : CStr} (h : s.bytes=d.digits)
    (hd : d.value ≤ 2147483647) : (UInt32.ofInt s.atoi).toNat=d.value := by
  have hall : s.bytes.all isdigit=true := by
    rw [h]
    exact d.decimal
  have hvalue : s.atoi=(d.value : ℤ) := by
    rw [CStr.atoi_digits hall,h]
    change wrapInt 32 (d.value : ℤ)=d.value
    exact wrapInt_of_lt (Int.natCast_nonneg _) (by omega)
  have hword := uint32_ofInt_toNat (Int.natCast_nonneg d.value) (by omega)
  rw [hvalue]
  exact Int.ofNat_inj.mp hword

/-- The parts of a pair are what its text has around its colon. -/
theorem WeightPair.text_parts {p : WeightPair} {w i : List UInt8} (h : p.text=w++colon :: i) :
    p.weight.digits=w ∧ p.increment.digits=i := by
  obtain ⟨hw,-,hi⟩ := (List.append_cons_inj_of_notMem p.weight.colon_notMem
    p.increment.colon_notMem).mp h
  exact ⟨hw,hi⟩

theorem WeightPair.text_injective {p q : WeightPair} (h : p.text=q.text) : p=q := by
  obtain ⟨hw,hi⟩ := WeightPair.text_parts h
  obtain ⟨⟨w,_,_⟩,⟨i,_,_⟩⟩ := p
  obtain ⟨⟨w',_,_⟩,⟨i',_,_⟩⟩ := q
  cases hw
  cases hi
  rfl

/-- The checks of is_weights. The empty string fails the first of them. -/
theorem isWeights_checks (s : CStr) :
    isWeights (some s)=0 ↔ s.bytes.head?.any isdigit=true ∧ s.bytes.getLast?.any isdigit=true ∧
      (∀ b∈s.bytes,b=colon ∨ isdigit b=true) ∧ s.bytes.count colon=1 := by
  obtain ⟨bytes,hnul⟩ := s
  cases bytes with
  | nil => exact iff_of_false (by decide : (-1 : ℤ)≠0) fun h => Bool.false_ne_true h.1
  | cons b bs =>
    have hlast : (b :: bs).getLast?=some ((b :: bs).getLast (List.cons_ne_nil b bs)) :=
      List.getLast?_eq_some_getLast _
    have hchar (c : UInt8) : (c≠colon && !isdigit c)=false ↔ c=colon ∨ isdigit c=true := by
      by_cases hc : c=colon <;> simp [hc]
    have hloop : (b :: bs).any (fun c => c≠colon && !isdigit c)=false ↔
        ∀ c∈b :: bs,c=colon ∨ isdigit c=true := by
      rw [List.any_eq_false]
      exact forall₂_congr fun c _ => Bool.not_eq_true _ ▸ hchar c
    rw [hlast,← hloop]
    change (if _ then (-1 : ℤ) else if _ then -1 else if _ then -1 else if _ then -1 else 0)=0 ↔
      isdigit b=true ∧ isdigit ((b :: bs).getLast (List.cons_ne_nil b bs))=true ∧ _
    split_ifs with hb hl ha hn
    · exact iff_of_false (by decide) fun h => by rw [hb] at h; cases h.1
    · exact iff_of_false (by decide) fun h => by rw [hl] at h; cases h.2.1
    · exact iff_of_false (by decide) fun h => by rw [ha] at h; cases h.2.2.1
    · exact iff_of_false (by decide) fun h => hn h.2.2.2
    · exact iff_of_true rfl ⟨eq_true_of_ne_false hb,eq_true_of_ne_false hl,
        eq_false_of_ne_true ha,not_not.mp hn⟩

/-- is_weights accepts the texts of pairs and no others. -/
theorem isWeights_iff (s : CStr) : isWeights (some s)=0 ↔ ∃ p : WeightPair,p.text=s.bytes := by
  have hcolon : isdigit colon=false := by decide
  rw [isWeights_checks,← separated_iff hcolon]
  constructor
  · intro h
    obtain ⟨hfirst,hlast,w,i,hw,hi,hs⟩ := h
    have hwne : w≠[] := by
      intro he
      rw [hs,he] at hfirst
      cases hfirst
    have hine : i≠[] := by
      intro he
      rw [hs,he,List.getLast?_concat] at hlast
      cases hlast
    exact ⟨⟨⟨w,hwne,hw⟩,⟨i,hine,hi⟩⟩,hs.symm⟩
  · intro h
    obtain ⟨⟨⟨w,hwne,hw⟩,⟨i,hine,hi⟩⟩,hs⟩ := h
    rw [← hs]
    refine ⟨?_,?_,w,i,hw,hi,rfl⟩
    · obtain ⟨b,w,rfl⟩ := List.exists_cons_of_ne_nil hwne
      exact List.all_eq_true.mp hw b List.mem_cons_self
    · have hlast : (w++colon :: i).getLast?=some (i.getLast hine) := by
        rw [List.getLast?_append,List.getLast?_cons,List.getLast?_eq_some_getLast hine]
        rfl
      change Option.any isdigit (w++colon :: i).getLast?=true
      rw [hlast]
      exact List.all_eq_true.mp hi _ (List.getLast_mem hine)

/-- The two strings that are left of a pair cut at its colon. -/
theorem WeightPair.cut {p : WeightPair} {s : CStr} (h : p.text=s.bytes) :
    (s.cutAt colon).bytes=p.weight.digits ∧
      ((s.strchr colon).getD (CStr.lit "")).next.bytes=p.increment.digits := by
  have hm : colon∈s.bytes := by
    rw [← h]
    exact List.mem_append_right _ List.mem_cons_self
  obtain ⟨t,ht,-,hs⟩ := CStr.eq_cutAt_append hm
  rw [ht,Option.getD_some]
  obtain ⟨hw,hi⟩ := WeightPair.text_parts (h.trans hs)
  exact ⟨hw.symm,hi.symm⟩

/-- With a pair the default service is rr, whether there is a helper or not. -/
theorem lbcdWeightInit_pair {p : WeightPair} {s : CStr} (h : p.text=s.bytes)
    (hw : p.weight.value ≤ 2147483647) (hi : p.increment.value ≤ 2147483647)
    (g : WeightGlobals) (cmd : Option CStr) (timeout : ℤ) :
    ∃ g',lbcdWeightInit g cmd (some s) timeout=.ok g' ∧ probeOf g' defaultName=some (.rr,none) ∧
      g'.defaultWeight.toNat=p.weight.value ∧ g'.defaultIncrement.toNat=p.increment.value := by
  have haccept : isWeights (some s)=0 := (isWeights_iff s).mpr ⟨p,h⟩
  obtain ⟨hweight,hincr⟩ := WeightPair.cut h
  unfold lbcdWeightInit
  rw [if_pos haccept]
  exact ⟨_,rfl,rfl,Decimal.atoi hweight hw,Decimal.atoi hincr hi⟩

/-- A helper that is not asked, and zeros in front of the numbers. -/
example : ∃ g,lbcdWeightInit .initial (some (CStr.lit "/bin/helper")) (some (CStr.lit "007:20")) 5=
    .ok g ∧ g.defaultWeight=7 ∧ g.defaultIncrement=20 :=
  ⟨_,rfl,by decide,by decide⟩

/-- Without a pair and a helper the defaults are one, whatever the service is. -/
theorem lbcdWeightInit_ones {s : CStr} (h : isWeights (some s)≠0) (g : WeightGlobals)
    (timeout : ℤ) : ∃ g',lbcdWeightInit g none (some s) timeout=.ok g' ∧
      g'.defaultWeight=1 ∧ g'.defaultIncrement=1 := by
  have hfound (g : WeightGlobals) : ∃ entry,serviceToFunc g (some s)=.ok entry := by
    by_cases hd : s=defaultName
    · rw [hd]
      exact ⟨_,rfl⟩
    · obtain ⟨entry,hentry,-⟩ := serviceToFunc_usable g hd
      exact ⟨entry,hentry⟩
  unfold lbcdWeightInit
  rw [if_neg h]
  obtain ⟨entry,hentry⟩ := hfound ⟨none,some s,1,1,g.lbcdDefaultFunctab,timeout⟩
  refine ⟨⟨none,some s,1,1,entry,timeout⟩,?_,rfl,rfl⟩
  change (serviceToFunc _ (some s) >>= _)=_
  exact hentry ▸ rfl

theorem forced_false (i : ℕ) (w : UInt32) : forced false i w=w :=
  if_neg fun h => Bool.false_ne_true h.1

/-- The answer of a sentinel file that has not been found. -/
theorem NoSentinel.absent {h : List (Event Server)} (hn : NoSentinel h) {sentinel : Bool}
    (hm : (⟨.sys (.access .sentinel),some sentinel⟩ : Event Server)∈h) : sentinel=false := by
  cases sentinel with
  | true => exact absurd hm hn
  | false => rfl

/-- What rr answers is the two defaults, up to the bytes that are sent. -/
theorem pairsFixed_rr (e : Endian) {g : WeightGlobals} {asked : List CStr → ℕ → Prop}
    (hasked : ∀ names i,asked names i → Answered g names i .rr) :
    PairsFixed e g asked g.defaultWeight.toNat g.defaultIncrement.toNat where
  packed := by
    intro lb protocol names simple cache h r hl hrun hno slot hslot
    obtain ⟨tr,rfl,hpossible⟩ := hrun.possible
    have hsafe : (lbcdPackInfo e g lb protocol names simple cache).Safe (records e g)
        (fun _ _ => True) _ [] :=
      lbcdPackInfo_safe (fun _ _ _ => trivial) hl lb protocol simple cache []
    obtain ⟨tr',rfl,-,hpacked⟩ := hsafe.run hrun
    obtain ⟨sentinel,hm,hslots⟩ := hpacked.slots.answered
    obtain ⟨name,portarg,hname,hp⟩ := hasked names slot hslot
    obtain ⟨w,hw,hnet⟩ := hslots slot name hname
    rw [hnet,hno.absent hm,forced_false,weighed_rr hpossible hp hw]
    exact ⟨congrArg _ (ntohl_htonl e _),congrArg _ (ntohl_htonl e _)⟩
  sent := by
    intro config h fd packet addr k hrun
    apply (reply_pairs hrun).mono
    intro d request mid _ hpairs hno i hi
    obtain ⟨sentinel,hm,hrr,-⟩ := hpairs
    rw [hrr i (hasked request.services i hi),hno.absent hm,forced_false]

/-- The two numbers of -w are those of every slot of the default service and of rr; any
other string leaves one and one. -/
theorem weight_option (s : CStr) : WeightOption s where
  accepted := isWeights_iff s
  unique := fun p q hp hq => WeightPair.text_injective (hp.trans hq.symm)
  fixed := by
    intro p h hw hi g cmd timeout
    obtain ⟨g',hg,hd,hweight,hincr⟩ := lbcdWeightInit_pair h hw hi g cmd timeout
    refine ⟨g',hg,fun e => ?_⟩
    have hrr : ∀ names i,DefaultOrRr g' names i → Answered g' names i .rr := by
      intro names i hslot
      rcases hslot with hname|hslot
      · exact ⟨defaultName,none,hname,hd⟩
      · exact hslot
    rw [← hweight,← hincr]
    exact pairsFixed_rr e hrr
  ones := by
    intro h g timeout
    obtain ⟨g',hg,hweight,hincr⟩ := lbcdWeightInit_ones h g timeout
    refine ⟨g',hg,hweight,hincr,fun e => ?_⟩
    have hfixed := pairsFixed_rr e (g := g') fun names i (h : Answered g' names i .rr) => h
    rw [hweight,hincr] at hfixed
    exact hfixed

end Lbcd
