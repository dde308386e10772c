import Lbcd.Host
import Lbcd.LoadWeight

namespace Lbcd

open Interaction CText ByteOrder

/-- Calls made while a reply is built; the null pointers are those of a default service
that stands for no table entry. -/
def Building : ServerCall → Prop
  | .sys .stackLocals => True
  | .sys .time => True
  | .sys (.access .sentinel) => True
  | .sys (.fault .nullEntry) => True
  | .sys (.fault .nullFunction) => True
  | .sys _ => False
  | _ => True

/-- Calls made while the reply to a request for some names is built. A weight function is
that of the default service or of one of the names, and finds the default increment in
its slot. -/
def Packing (g : WeightGlobals) (names : List CStr) : ServerCall → Prop
  | .weight f slot timeout portarg lb =>
    timeout=g.lbcdTimeout ∧ (lb.slot slot).hostIncr=g.defaultIncrement ∧
      ∃ name∈defaultName :: names,probeOf g name=some (f,portarg)
  | c => Building c

theorem Packing.building {g : WeightGlobals} {names : List CStr} {c : ServerCall}
    (h : Packing g names c) : Building c := by
  cases c with
  | weight f slot timeout portarg lb => trivial
  | _ => exact h

section

variable (e : Endian) (g : WeightGlobals) {names : List CStr}

theorem lbcdSetweight_packing (lb : LbcdReply) {i : ℕ} (hi : i < maxServices+1) {service : CStr}
    (hs : service∈defaultName :: names) :
    (lbcdSetweight g lb i service).Meets (Packing g names) fun _ => HasProbe g service := by
  cases hp : probeOf g service with
  | none =>
    have h := lbcdSetweight_of_none hp lb ⟨i,hi⟩
    change lbcdSetweight g lb i service=_ ∨ lbcdSetweight g lb i service=_ at h
    rcases h with h|h
    · rw [h]
      exact ⟨trivial,fun r => r.elim⟩
    · rw [h]
      exact ⟨trivial,fun r => r.elim⟩
  | some p =>
    have h := lbcdSetweight_of_probe hp lb ⟨i,hi⟩
    change lbcdSetweight g lb i service=_ at h
    rw [h]
    have hincr := congrArg LbcdService.hostIncr
      (LbcdReply.slot_setIncr_self lb ⟨i,hi⟩ g.defaultIncrement)
    exact ⟨⟨rfl,hincr,service,hs,hp⟩,fun r => Option.ne_none_iff_exists'.mpr ⟨_,hp⟩⟩

theorem hostToNetwork_packing (lb : LbcdReply) {i : ℕ} (hi : i < maxServices+1) :
    (hostToNetwork e lb i).Meets (Packing g names) fun _ => True := by
  have h := hostToNetwork_eq e lb ⟨i,hi⟩
  change hostToNetwork e lb i=_ at h
  rw [h]
  trivial

theorem setRequested_packing {services : List CStr} (hs : ∀ s∈services,s∈defaultName :: names)
    {i : ℕ} (hi : i+services.length ≤ maxServices+1) (lb : LbcdReply) :
    (setRequested e g i services lb).Meets (Packing g names) fun _ => True := by
  induction services generalizing i lb with
  | nil => trivial
  | cons service services ih =>
    rw [List.length_cons] at hi
    apply (lbcdSetweight_packing g lb (by omega) (hs service List.mem_cons_self)).bind
    intro lb _
    apply (hostToNetwork_packing e g lb (by omega)).bind
    intro lb _
    exact ih (fun s hm => hs s (List.mem_cons_of_mem service hm)) (by omega) lb

/-- Only with a default service a reply is ever finished. -/
theorem lbcdSetLoad_packing (lb : LbcdReply) (hl : names.length ≤ maxServices) :
    (lbcdSetLoad e g lb names).Meets (Packing g names) fun _ => HasProbe g defaultName := by
  apply (lbcdSetweight_packing g _ (by decide) List.mem_cons_self).bind
  intro lb hd
  refine ⟨trivial,fun sentinel => ?_⟩
  apply (hostToNetwork_packing e g _ (by decide)).bind
  intro lb _
  have hrest : (setRequested e g 1 names lb).Meets (Packing g names) fun _ => True :=
    setRequested_packing e g (fun s hm => List.mem_cons_of_mem _ hm) (by omega) lb
  exact hrest.mono (fun _ hc => hc) fun _ _ => hd

theorem lbcdPackInfo_packing (lb : LbcdReply) (protocol : UInt16) (hl : names.length ≤ maxServices)
    (simple : Bool) (cache : UserCache) :
    (lbcdPackInfo e g lb protocol names simple cache).Meets (Packing g names)
      fun _ => HasProbe g defaultName := by
  refine ⟨trivial,fun locals => ⟨trivial,fun bt => ⟨trivial,fun ct => ⟨trivial,fun loads => ?_⟩⟩⟩⟩
  refine ⟨trivial,fun users => ⟨trivial,fun tmp => ⟨trivial,fun tmpdir => ?_⟩⟩⟩
  apply (lbcdSetLoad_packing e g _ hl).bind
  intro lb hd
  split_ifs
  · exact hd
  · exact hd

end

/-- The unsigned computation of the reply's size never wraps around. -/
theorem replySize_eq {n : ℕ} (hn : n ≤ maxServices) :
    (UInt64.ofNat replySize-(UInt64.ofNat maxServices-UInt64.ofNat n)*
      UInt64.ofNat serviceSize).toNat=44+8*n := by
  have hall : ∀ n ≤ 5,(UInt64.ofNat replySize-(UInt64.ofNat maxServices-UInt64.ofNat n)*
      UInt64.ofNat serviceSize).toNat=44+8*n := by decide
  exact hall n hn

/-- The end of handle_lb_request: send what lbcd_pack_info made. -/
def transmit (e : Endian) (request : Request) (fd : Fd) (p : LbcdReply × UserCache) :
    Prog Server UserCache := do
  let size := 44+8*request.services.length
  let result : Option ℕ ← ssys (.sendto fd ((p.1.bytes e).take size) request.addr)
  if result≠some size then
    message .cannotSend
    return p.2
  else return p.2

/-- The reply's header in network order. -/
def replyHead (e : Endian) (request : Request) : LbcdHeader :=
  ⟨htons e request.protocol,htons e request.id,htons e request.operation,
    htons e LbcdStatus.ok.code⟩

theorem sendReply_eq (e : Endian) (g : WeightGlobals) (config : LbcdConfig) (cache : UserCache)
    {request : Request} (hl : request.services.length ≤ maxServices) (fd : Fd) :
    sendReply e g config cache request fd=
      Prog.call (I := Server) (.sys .stackReply) fun reply : LbcdReply =>
        lbcdPackInfo e g { reply with h := replyHead e request } request.protocol
          request.services config.simple cache >>= transmit e request fd := by
  have hle : ¬44+8*request.services.length > replySize := by
    have h5 : request.services.length ≤ 5 := hl
    unfold replySize
    omega
  refine congrArg (Prog.call _) (funext fun reply => ?_)
  refine congrArg (_ >>= ·) (funext fun p => ?_)
  dsimp only
  rw [replySize_eq hl,if_neg hle]
  rfl

/-- Bytes of a packet that is sent. -/
def sentPacket : ServerCall → Option (List UInt8)
  | .sys (.sendto _ packet _) => some packet
  | _ => none

theorem sentPacket_building {c : ServerCall} (h : Building c) : sentPacket c=none := by
  cases c with
  | sys c =>
    cases c with
    | sendto fd packet addr => exact h.elim
    | _ => rfl
  | _ => rfl

/-- The part of a reply that is sent for a number of names. -/
theorem bytes_take (e : Endian) (lb : LbcdReply) (n : ℕ) :
    (lb.bytes e).take (44+8*n)=
      lb.fixedBytes e++(lb.weights.toList.take (n+1)).flatMap (LbcdService.bytes e) := by
  have hf := LbcdReply.fixedBytes_length e lb
  have hsize : 44+8*n-36=serviceSize*(n+1) := by
    unfold serviceSize
    omega
  rw [LbcdReply.bytes,List.take_append,hf,hsize,List.take_of_length_le (by rw [hf]; omega),
    Pack.take_flatMap_block (LbcdReply.serviceBytes_length e)]

namespace Host

variable {e : Endian} {g : WeightGlobals} (h : Host e g)

/-- The packets sent while a request is handled on this host. -/
def sent (config : LbcdConfig) (cache : UserCache) (request : Request) (fd : Fd) :
    List (List UInt8) :=
  ((handleLbRequest e g config cache request fd).trace h.oracle).filterMap
    fun ev => sentPacket ev.call

/-- The reply's memory when lbcd_pack_info is called. -/
def headed (request : Request) : LbcdReply :=
  { h.junkReply with
    h := ⟨htons e request.protocol,htons e request.id,htons e request.operation,
      htons e LbcdStatus.ok.code⟩ }

theorem sent_sendReply (config : LbcdConfig) (cache : UserCache) (request : Request) (fd : Fd) :
    h.sent config cache request fd=
      ((sendReply e g config cache request fd).trace h.oracle).filterMap
        fun ev => sentPacket ev.call := by
  rw [sent,handleLbRequest]
  split_ifs
  · rfl
  · rfl

theorem sent_eq {services : List CStr} (hl : services.length ≤ maxServices) (config : LbcdConfig)
    (cache : UserCache) (addr : SockAddr) (protocol id op : UInt16) (fd : Fd) :
    h.sent config cache ⟨addr,protocol,id,op,services⟩ fd=
      (((lbcdPackInfo e g (h.headed ⟨addr,protocol,id,op,services⟩) protocol services
        config.simple cache).result h.oracle).map
          fun p => (p.1.bytes e).take (44+8*services.length)).toList := by
  have hquiet : ∀ o : Oracle Server,∀ lb,
      ((lbcdPackInfo e g lb protocol services config.simple cache).trace o).filterMap
        (fun ev => sentPacket ev.call)=[] := by
    intro o lb
    apply List.filterMap_eq_nil_iff.mpr
    intro ev hev
    have hpack := (lbcdPackInfo_packing e g lb protocol hl config.simple cache).trace o ev hev
    exact sentPacket_building hpack.building
  rw [sent_sendReply,sendReply_eq e g config cache hl,Prog.trace_call]
  change List.filterMap (fun ev => sentPacket ev.call) (_ :: Prog.trace h.oracle
    (lbcdPackInfo e g (h.headed ⟨addr,protocol,id,op,services⟩) protocol services
      config.simple cache >>= transmit e ⟨addr,protocol,id,op,services⟩ fd))=_
  rw [List.filterMap_cons_none rfl,Prog.trace_bind,List.filterMap_append,hquiet,List.nil_append]
  cases (lbcdPackInfo e g (h.headed ⟨addr,protocol,id,op,services⟩) protocol services
      config.simple cache).result h.oracle with
  | none => rfl
  | some p => rfl

end Host
end Lbcd
