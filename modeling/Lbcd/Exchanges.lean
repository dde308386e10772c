import Lbcd.Interaction.World
import Lbcd.Replies

namespace Lbcd

open Interaction CText ByteOrder

/-- Replies that the server's calls can get from the host. -/
def Possible (e : Endian) (g : WeightGlobals) (c : ServerCall) (r : c.Reply) : Prop :=
  ∃ o,(implement e g c).result o=some r

/-- Runs of the server against any host, with the events so far as the state. -/
abbrev records (e : Endian) (g : WeightGlobals) : World Server (List (Event Server)) :=
  World.history (Possible e g)

theorem lower_possible {e : Endian} {g : WeightGlobals} (hosts : ℕ → Oracle System) (n : ℕ)
    (c : ServerCall) (r : c.Reply)
    (hr : Oracle.lower (I := Server) (implement e g) hosts n c=some r) : Possible e g c r :=
  ⟨hosts n,hr⟩

/-- Every call of a run of the server is in order after the events before it. -/
theorem safe_records {α : Type} {e : Endian} {g : WeightGlobals}
    {ok : List (Event Server) → ServerCall → Prop} {post : List (Event Server) → α → Prop}
    {p : Prog Server α} (h : p.Safe (records e g) ok post []) (hosts : ℕ → Oracle System)
    (i : Fin (p.trace (Oracle.lower (implement e g) hosts)).length) :
    ok ((p.trace (Oracle.lower (implement e g) hosts)).take i)
      (p.trace (Oracle.lower (implement e g) hosts))[i].call := by
  have hi := h.trace (Oracle.lower (implement e g) hosts) (lower_possible hosts) i
  rw [List.nil_append] at hi
  exact hi

theorem possible_weight {e : Endian} {g : WeightGlobals} {f : WeightFunc} {slot : Slot}
    {timeout : ℤ} {portarg : Option CStr} {lb : LbcdReply} {r : LbcdReply × ℤ}
    (h : Possible e g (.weight f slot timeout portarg lb) r) :
    ∃ s : Stored,r.1=s.into lb slot := by
  obtain ⟨o,ho⟩ := h
  change (weightFunction e g f slot timeout portarg lb).result o=some r at ho
  have hrun := congrArg (Prog.result o) (weightFunction_stores e g f slot timeout portarg lb)
  rw [Prog.result_bind,Prog.result_bind,ho] at hrun
  obtain ⟨s,-,hs⟩ := Option.bind_eq_some_iff.mp hrun.symm
  exact ⟨s,(Option.some.inj hs).symm⟩

theorem possible_tmpFull {e : Endian} {g : WeightGlobals} {path : TmpDir} {v : ℤ}
    (h : Possible e g (.tmpFull path) v) : (UInt8.ofInt v).toNat ≤ 100 := by
  obtain ⟨o,ho⟩ := h
  obtain ⟨h0,h100⟩ := (tmpFull_bounds path).result o ho
  rw [uint8_ofInt_toNat h0 (by omega)]
  omega

/-- The weight function of a service ran for a slot and left this pair there. -/
def Weighed (g : WeightGlobals) (tr : List (Event Server)) (name : CStr) (slot : Slot)
    (w : LbcdService) : Prop :=
  ∃ f portarg lb,∃ r : LbcdReply × ℤ,probeOf g name=some (f,portarg) ∧
    (⟨.weight f slot g.lbcdTimeout portarg lb,some r⟩ : Event Server)∈tr ∧ r.1.slot slot=w

theorem Weighed.mono {g : WeightGlobals} {tr tr' : List (Event Server)} {name : CStr}
    {slot : Slot} {w : LbcdService} (h : Weighed g tr name slot w) (hs : tr⊆tr') :
    Weighed g tr' name slot w := by
  obtain ⟨f,portarg,lb,r,hp,hm,hw⟩ := h
  exact ⟨f,portarg,lb,r,hp,hs hm,hw⟩

/-- The pairs of a reply belong to the services that were asked for. -/
structure Slots (e : Endian) (g : WeightGlobals) (services : List CStr)
    (tr : List (Event Server)) (lb : LbcdReply) : Prop where
  default : ∃ w,∃ sentinel : Bool,Weighed g tr defaultName 0 w ∧
    (⟨.sys (.access .sentinel),some sentinel⟩ : Event Server)∈tr ∧
    lb.slot 0=LbcdService.net e (if sentinel then { w with hostWeight := maxWeight } else w)
  requested : ∀ k name,services[k]?=some name → ∀ hk : k+1 < maxServices+1,
    ∃ w,Weighed g tr name ⟨k+1,hk⟩ w ∧ lb.slot ⟨k+1,hk⟩=w.net e

/-- A reply as lbcd_pack_info leaves it, over the header that was there. -/
structure Packed (e : Endian) (g : WeightGlobals) (names : List CStr) (head : LbcdHeader)
    (tr : List (Event Server)) (lb : LbcdReply) : Prop where
  header : lb.h=head
  reserved : lb.reserved=0
  tmpFull : lb.tmpFull.toNat ≤ 100
  tmpdirFull : lb.tmpdirFull.toNat ≤ 100
  pad : lb.pad=0
  services : lb.services=UInt8.ofNat names.length
  slots : Slots e g names tr lb

theorem Packed.mono {e : Endian} {g : WeightGlobals} {names : List CStr} {head : LbcdHeader}
    {tr tr' : List (Event Server)} {lb : LbcdReply} (h : Packed e g names head tr lb)
    (hs : tr⊆tr') : Packed e g names head tr' lb := by
  obtain ⟨w,sentinel,hw,hm,h0⟩ := h.slots.default
  refine { h with slots := ⟨⟨w,sentinel,hw.mono hs,hs hm,h0⟩,fun k name hk hlt => ?_⟩ }
  obtain ⟨w',hw',hslot⟩ := h.slots.requested k name hk hlt
  exact ⟨w',hw'.mono hs,hslot⟩

theorem Packed.proto2 {e : Endian} {g : WeightGlobals} {names : List CStr} {head : LbcdHeader}
    {tr : List (Event Server)} {lb : LbcdReply} (h : Packed e g names head tr lb) :
    Packed e g names head tr (lbcdProto2Convert e lb) :=
  ⟨h.header,h.reserved,h.tmpFull,h.tmpdirFull,h.pad,h.services,⟨h.slots.default,h.slots.requested⟩⟩

section Building

variable {e : Endian} {g : WeightGlobals} {ok : List (Event Server) → ServerCall → Prop}
  (hok : ∀ h c,Building c → ok h c)

include hok

theorem lbcdSetweight_safe (lb : LbcdReply) {i : ℕ} (hi : i < maxServices+1) (service : CStr)
    (h : List (Event Server)) :
    (lbcdSetweight g lb i service).Safe (records e g) ok
      (fun h' lb' => ∃ tr w,h'=h++tr ∧ (∀ ev∈tr,Building ev.call) ∧
        Weighed g tr service ⟨i,hi⟩ w ∧ lb'=lb.setSlot ⟨i,hi⟩ w) h := by
  cases hp : probeOf g service with
  | none =>
    have hnone := lbcdSetweight_of_none hp lb ⟨i,hi⟩
    change lbcdSetweight g lb i service=_ ∨ lbcdSetweight g lb i service=_ at hnone
    rcases hnone with hf|hf
    · rw [hf]
      exact ⟨hok _ _ trivial,fun r => r.elim⟩
    · rw [hf]
      exact ⟨hok _ _ trivial,fun r => r.elim⟩
  | some p =>
    have hset := lbcdSetweight_of_probe hp lb ⟨i,hi⟩
    change lbcdSetweight g lb i service=_ at hset
    rw [hset]
    refine ⟨hok _ _ trivial,?_⟩
    intro r h' hstep
    obtain ⟨hr,rfl⟩ := hstep
    obtain ⟨s,hs⟩ := possible_weight hr
    rw [Stored.into_incr] at hs
    refine ⟨_,_,rfl,?_,⟨p.1,p.2,_,r,hp,List.mem_singleton_self _,rfl⟩,?_⟩
    · exact List.forall_mem_singleton.mpr trivial
    · rw [hs,LbcdReply.slot_setSlot_self]

theorem setRequested_safe {names : List CStr} {i : ℕ} (hi : i+names.length ≤ maxServices+1)
    (lb : LbcdReply) (h : List (Event Server)) :
    (setRequested e g i names lb).Safe (records e g) ok
      (fun h' lb' => ∃ tr,h'=h++tr ∧ (∀ ev∈tr,Building ev.call) ∧ SameScalars lb' lb ∧
        (∀ j : Slot,(j : ℕ) < i → lb'.slot j=lb.slot j) ∧
        ∀ k name,names[k]?=some name → ∀ hk : i+k < maxServices+1,
          ∃ w,Weighed g tr name ⟨i+k,hk⟩ w ∧ lb'.slot ⟨i+k,hk⟩=w.net e) h := by
  induction names generalizing i lb h with
  | nil =>
    refine ⟨[],(List.append_nil h).symm,fun ev hev => ?_,rfl,fun j hj => rfl,fun k name hk => ?_⟩
    · cases hev
    · cases hk
  | cons name names ih =>
    rw [List.length_cons] at hi
    have hlt : i < maxServices+1 := by omega
    apply (lbcdSetweight_safe hok lb hlt name h).bind
    intro h' lb' hset
    obtain ⟨tr,w,rfl,hbuild,hw,rfl⟩ := hset
    have hnet := hostToNetwork_eq e (lb.setSlot ⟨i,hlt⟩ w) ⟨i,hlt⟩
    rw [LbcdReply.slot_setSlot_self,LbcdReply.setSlot_setSlot] at hnet
    change hostToNetwork e _ i=_ at hnet
    rw [hnet,Prog.ret_bind]
    apply (ih (by omega) (lb.setSlot ⟨i,hlt⟩ (w.net e)) (h++tr)).mono
    intro h' lb' hrest
    obtain ⟨tr',rfl,hbuild',hsame,hout,hin⟩ := hrest
    refine ⟨tr++tr',List.append_assoc h tr tr',List.forall_mem_append.mpr ⟨hbuild,hbuild'⟩,
      hsame.trans (sameScalars_setSlot lb _ _),fun j hj => ?_,fun k name' hk hlt' => ?_⟩
    · rw [hout j (by omega),LbcdReply.slot_setSlot,if_neg]
      intro he
      have hij : i=j := congrArg Fin.val he
      omega
    · cases k with
      | zero =>
        cases hk
        refine ⟨w,hw.mono (List.subset_append_left tr tr'),?_⟩
        rw [hout ⟨i+0,hlt'⟩ (Nat.lt_succ_self i)]
        exact LbcdReply.slot_setSlot_self lb _ _
      | succ k =>
        have hkk : i+1+k < maxServices+1 := by omega
        have hidx : (⟨i+(k+1),hlt'⟩ : Slot)=⟨i+1+k,hkk⟩ := Fin.ext (by dsimp only; omega)
        obtain ⟨w',hw',hslot⟩ := hin k name' hk hkk
        rw [hidx]
        exact ⟨w',hw'.mono (List.subset_append_right tr tr'),hslot⟩

theorem lbcdSetLoad_safe {services : List CStr} (hl : services.length ≤ maxServices)
    (lb : LbcdReply) (h : List (Event Server)) :
    (lbcdSetLoad e g lb services).Safe (records e g) ok
      (fun h' lb' => ∃ tr,h'=h++tr ∧ (∀ ev∈tr,Building ev.call) ∧
        SameScalars lb' { lb with pad := 0,services := UInt8.ofNat services.length } ∧
        Slots e g services tr lb') h := by
  have hpos : 0 < maxServices+1 := by decide
  apply (lbcdSetweight_safe hok _ hpos defaultName h).bind
  intro h' lb' hset
  obtain ⟨tr,w,rfl,hbuild,hw,rfl⟩ := hset
  refine ⟨hok _ _ trivial,?_⟩
  intro sentinel h' hstep
  obtain ⟨-,rfl⟩ := hstep
  let m : LbcdReply := { lb with pad := 0,services := UInt8.ofNat services.length }
  let v : LbcdService := if sentinel then { w with hostWeight := maxWeight } else w
  change Prog.Safe _ _ _ (hostToNetwork e (if sentinel then (m.setSlot 0 w).setWeight 0
    (UInt32.ofInt (-1)) else m.setSlot 0 w) 0 >>= fun lb => setRequested e g 1 services lb) _
  rw [hostToNetwork_drain,Prog.ret_bind]
  apply (setRequested_safe hok (by omega) (m.setSlot 0 (v.net e)) _).mono
  intro h' lb' hrest
  obtain ⟨tr',rfl,hbuild',hsame,hout,hin⟩ := hrest
  let asked : Event Server := ⟨.sys (.access .sentinel),some sentinel⟩
  have hbefore : ∀ ev∈tr++[asked],Building ev.call :=
    List.forall_mem_append.mpr ⟨hbuild,List.forall_mem_singleton.mpr trivial⟩
  refine ⟨tr++[asked]++tr',by simp only [List.append_assoc,asked],
    List.forall_mem_append.mpr ⟨hbefore,hbuild'⟩,
    hsame.trans (sameScalars_setSlot m _ _),⟨⟨w,sentinel,?_,?_,?_⟩,fun k name hk hlt => ?_⟩⟩
  · exact hw.mono fun ev hev => List.mem_append_left tr' (List.mem_append_left [asked] hev)
  · exact List.mem_append_left tr' (List.mem_append_right tr (List.mem_singleton_self asked))
  · rw [hout 0 Nat.one_pos,LbcdReply.slot_setSlot_self]
  · have hlt' : 1+k < maxServices+1 := by omega
    have hidx : (⟨k+1,hlt⟩ : Slot)=⟨1+k,hlt'⟩ := Fin.ext (Nat.add_comm k 1)
    obtain ⟨w',hw',hslot⟩ := hin k name hk hlt'
    rw [hidx]
    exact ⟨w',hw'.mono (List.subset_append_right _ _),hslot⟩

theorem packServices_safe {services : List CStr} (hl : services.length ≤ maxServices)
    {lb : LbcdReply} (hres : lb.reserved=0) (htmp : lb.tmpFull.toNat ≤ 100)
    (htmpdir : lb.tmpdirFull.toNat ≤ 100) (protocol : UInt16) (simple : Bool) (cache : UserCache)
    (h : List (Event Server)) :
    (packServices e g protocol services simple cache lb).Safe (records e g) ok
      (fun h' p => ∃ tr,h'=h++tr ∧ (∀ ev∈tr,Building ev.call) ∧
        Packed e g services lb.h tr p.1) h := by
  apply (lbcdSetLoad_safe hok hl lb h).bind
  intro h' lb' hload
  obtain ⟨tr,rfl,hbuild,hsame,hslots⟩ := hload
  have field {α : Type} (f : LbcdReply → α) := congrArg f hsame
  have htf : lb'.tmpFull=lb.tmpFull := field LbcdReply.tmpFull
  have htd : lb'.tmpdirFull=lb.tmpdirFull := field LbcdReply.tmpdirFull
  have hpacked : Packed e g services lb.h tr lb' := by
    refine ⟨?_,?_,?_,?_,?_,?_,hslots⟩
    · exact field LbcdReply.h
    · exact (field LbcdReply.reserved).trans hres
    · rwa [htf]
    · rwa [htd]
    · exact field LbcdReply.pad
    · exact field LbcdReply.services
  split_ifs
  · exact ⟨tr,rfl,hbuild,hpacked.proto2⟩
  · exact ⟨tr,rfl,hbuild,hpacked⟩

theorem lbcdPackInfo_safe {services : List CStr} (hl : services.length ≤ maxServices)
    (lb : LbcdReply) (protocol : UInt16) (simple : Bool) (cache : UserCache)
    (h : List (Event Server)) :
    (lbcdPackInfo e g lb protocol services simple cache).Safe (records e g) ok
      (fun h' p => ∃ tr,h'=h++tr ∧ (∀ ev∈tr,Building ev.call) ∧
        Packed e g services lb.h tr p.1) h := by
  rw [lbcdPackInfo_eq]
  refine ⟨hok _ _ trivial,?_⟩
  intro locals h1 hstep
  obtain ⟨-,rfl⟩ := hstep
  refine ⟨hok _ _ trivial,?_⟩
  intro bt h2 hstep
  obtain ⟨-,rfl⟩ := hstep
  refine ⟨hok _ _ trivial,?_⟩
  intro ct h3 hstep
  obtain ⟨-,rfl⟩ := hstep
  refine ⟨hok _ _ trivial,?_⟩
  intro loads h4 hstep
  obtain ⟨-,rfl⟩ := hstep
  refine ⟨hok _ _ trivial,?_⟩
  intro users h5 hstep
  obtain ⟨-,rfl⟩ := hstep
  refine ⟨hok _ _ trivial,?_⟩
  intro tmp h6 hstep
  obtain ⟨htmp,rfl⟩ := hstep
  refine ⟨hok _ _ trivial,?_⟩
  intro tmpdir h7 hstep
  obtain ⟨htmpdir,rfl⟩ := hstep
  have hfields : (packedFields e lb locals bt ct loads users.1 tmp tmpdir).h=lb.h := rfl
  apply (packServices_safe hok hl rfl (possible_tmpFull htmp) (possible_tmpFull htmpdir) protocol
    simple users.2 _).mono
  intro h' p hpack
  obtain ⟨tr,rfl,hbuild,hpacked⟩ := hpack
  rw [hfields] at hpacked
  let first : List (Event Server) := [⟨.sys .stackLocals,some locals⟩,⟨.kernelGetboottime,some bt⟩,
    ⟨.sys .time,some ct⟩,⟨.kernelGetload,some loads⟩,⟨.getUserStats cache,some users⟩,
    ⟨.tmpFull .tmp,some tmp⟩,⟨.tmpFull .pTmpdir,some tmpdir⟩]
  have hfirst : ∀ ev∈first,Building ev.call := by
    simp only [first,List.forall_mem_cons]
    exact ⟨trivial,trivial,trivial,trivial,trivial,trivial,trivial,fun ev hev => by cases hev⟩
  refine ⟨first++tr,by simp [first],?_,hpacked.mono (List.subset_append_right first tr)⟩
  intro ev hev
  exact (List.mem_append.mp hev).elim (hfirst ev) (hbuild ev)

end Building
end Lbcd
