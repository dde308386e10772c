import Lbcd.Replies
import Lbcd.Sentinel

namespace Lbcd

open Interaction CText ByteOrder

/-- What a version 2 reply has to do with a version 3 reply without names. -/
structure Version2 (e : Endian) (simple : Bool) (r2 r3 : LbcdReply) : Prop where
  version2 : ntohs e r2.h.version=2
  version3 : ntohs e r3.h.version=3
  header : { r2.h with version := r3.h.version }=r3.h
  default : r2.slot 0=r3.slot 0
  plain : simple=true → { r2 with h := r3.h,weights := r3.weights }=r3
  custom : simple=false →
    { r2 with
      h := r3.h
      l1 := r3.l1
      l5 := r3.l5
      l15 := r3.l15
      totUsers := r3.totUsers
      uniqUsers := r3.uniqUsers
      weights := r3.weights }=r3
  users : simple=false → r2.totUsers=0 ∧ r2.uniqUsers=0
  loads : simple=false →
    (ntohs e r2.l1).toNat=min (ntohl e (r3.slot 0).hostWeight).toNat 65535 ∧
      r2.l5=r2.l1 ∧ r2.l15=r2.l1

theorem saturate16_toNat (w : UInt32) : (saturate16 w).toNat=min w.toNat 65535 := by
  unfold saturate16
  split_ifs with h
  · rw [min_eq_right (by omega)]
    rfl
  · rw [min_eq_left (by omega),UInt16.toNat_ofNat']
    omega

/-- A reply without requested names carries one pair. -/
theorem bytes_default (e : Endian) (r : LbcdReply) :
    (r.bytes e).take (44+8*([] : List CStr).length)=r.fixedBytes e++(r.slot 0).bytes e := by
  have hfirst : r.weights.toList.take 1=[r.slot 0] := by
    apply List.ext_getElem
    · rw [List.length_take,Vector.length_toList]
      rfl
    · intro i h1 h2
      have hi : i=0 := by
        rw [List.length_singleton] at h2
        omega
      subst hi
      rw [List.getElem_take,Vector.getElem_toList]
      rfl
  rw [bytes_take,List.length_nil,hfirst,List.flatMap_singleton]

namespace Host

variable {e : Endian} {g : WeightGlobals}

theorem getD_junk {α : Type} {x : Option α} {a b : α} (h : a=b ∨ x≠none) :
    x.getD a=x.getD b := by
  cases x with
  | none => exact h.resolve_right fun hn => hn rfl
  | some v => rfl

theorem stored_congr (h : Host e g) (f : WeightFunc) (portarg : Option CStr) {a b : LbcdReply}
    (hab : loadWeight e a=loadWeight e b) : h.stored f portarg a=h.stored f portarg b := by
  apply Option.some.inj
  rw [Host.stored,Host.stored,Option.some_get,Option.some_get,
    stores_congr g f g.lbcdTimeout portarg hab]

theorem Filled.header {h : Host e g} {lb q : LbcdReply} {services : List CStr}
    (hq : h.Filled lb services q) : q.h=lb.h := by
  have hs := hq.scalars
  unfold SameScalars at hs
  have hh := congrArg LbcdReply.h hs
  exact hh

theorem sent_filled {services : List CStr} (h : Host e g) (hd : HasProbe g defaultName)
    (hl : services.length ≤ maxServices) (config : LbcdConfig) (cache : UserCache)
    (addr : SockAddr) (protocol id op : UInt16) (fd : Fd) :
    ∃ q,h.Filled (h.headed ⟨addr,protocol,id,op,services⟩) services q ∧
      h.sent config cache ⟨addr,protocol,id,op,services⟩ fd=
        [((if config.simple=false ∧ protocol < 3 then lbcdProto2Convert e q else q).bytes e).take
          (44+8*services.length)] := by
  obtain ⟨q,hq,hr⟩ := h.lbcdPackInfo_host hd (fun name _ => hasProbe_all hd name) hl
    (h.headed ⟨addr,protocol,id,op,services⟩) protocol config.simple cache
  refine ⟨q,hq,?_⟩
  rw [h.sent_eq hl,hr]
  rfl

end Host

/-- The weight of a service of a reply, in host order. -/
def weightOf (e : Endian) (r : LbcdReply) (i : Slot) : ℕ := (ntohl e (r.slot i).hostWeight).toNat

end Lbcd
