import Lbcd.InetAton

namespace Lbcd

open CText ByteOrder Masks

/-- strtoul in base 10, with an unsigned long of 64 bits: the number, and the text after it. -/
def strtoul (s : CStr) : ℕ × List UInt8 :=
  match scanInt s.bytes with
  | none => (0,s.bytes)
  | some (v,rest) => (if v.natAbs > 2^64-1 then 2^64-1 else (v % 2^64).toNat,rest)

/-- The width that a CIDR mask stands for. -/
def cidrWidth (limit : ℕ) (mask : CStr) : Option ℕ :=
  let (cidr,rest) := strtoul mask
  if cidr > limit ∨ rest≠[] then none else some cidr

abbrev In6Addr := { bs : List UInt8 // bs.length=16 }

/-- The loop over the bytes of two IPv6 addresses, with the number of the next ones. -/
def equalBits (cidr : ℕ) : ℕ → List UInt8 → List UInt8 → Bool
  | i,a :: as,b :: bs =>
    if i*8 < cidr then
      if (i+1)*8 ≤ cidr then if a≠b then false else equalBits cidr (i+1) as bs
      else
        let addrMask := topBits 8 (cidr % 8)
        if a.toNat &&& addrMask≠b.toNat &&& addrMask then false
        else equalBits cidr (i+1) as bs
    else true
  | _,_,_ => true

section

-- inet_aton, and inet_pton of AF_INET6
variable (e : Endian) (aton : CStr → Option UInt32) (pton : CStr → Option In6Addr)

/-- The mask of an IPv4 match in network order. -/
def addrMask : Option CStr → Option UInt32
  | none => some (htonl e 0xffffffff)
  | some mask =>
    if 46∉mask.bytes then
      (cidrWidth 32 mask).map fun cidr => htonl e (UInt32.ofNat (topBits 32 cidr))
    else aton mask

/-- The match of what is no IPv4 address. -/
def addrMatch6 (a b : CStr) (mask : Option CStr) : Bool :=
  match pton a,pton b with
  | some a6,some b6 =>
    match mask.elim (some 128) (cidrWidth 128) with
    | none => false
    | some cidr => equalBits cidr 0 a6.val b6.val
  | _,_ => false

def networkAddrMatch (a b : CStr) (mask : Option CStr) : Bool :=
  if a.bytes=[] ∨ b.bytes=[] then false
  else
    match aton a,aton b with
    | some a4,some b4 =>
      match addrMask e aton mask with
      | none => false
      | some mask => a4 &&& mask=b4 &&& mask
    | _,_ => addrMatch6 pton a b mask

end

/-- A socket address by its family. -/
inductive Sockaddr where
  | inet (addr : UInt32) (port : UInt16)
  | inet6 (addr : In6Addr) (port : UInt16)
  | other

/-- IN6_IS_ADDR_V4MAPPED -/
def v4mapped (addr : In6Addr) : Bool := addr.val.take 12=[0,0,0,0,0,0,0,0,0,0,255,255]

/-- memcpy of the bytes of an address. -/
def loadAddr (e : Endian) : List UInt8 → UInt32
  | [p,q,r,t] => load32 e p q r t
  | _ => 0

/-- The IPv4 address in the last four bytes. -/
def embedded (e : Endian) (addr : In6Addr) : UInt32 := loadAddr e (addr.val.drop 12)

def networkSockaddrEqual (e : Endian) (a b : Sockaddr) : Bool :=
  let (a,b) := match a,b with
    | .inet _ _,.inet6 _ _ => (b,a)
    | _,_ => (a,b)
  match a,b with
  | .inet6 a6 _,.inet6 b6 _ => a6=b6
  | .inet6 a6 _,.inet b4 _ => if !v4mapped a6 then false else embedded e a6=b4
  | .inet a4 _,.inet b4 _ => a4=b4
  | _,_ => false

/-- The text of an address; ntop6 is inet_ntop of AF_INET6. -/
def networkSockaddrSprint (e : Endian) (ntop6 : In6Addr → ℕ → Option CStr) (size : ℕ) :
    Sockaddr → Option CStr
  | .inet6 addr _ =>
    if v4mapped addr then (inetNtop e afInet (embedded e addr) size).toOption
    else ntop6 addr size
  | .inet addr _ => (inetNtop e afInet addr size).toOption
  | .other => none

/-- The first n of the bits of two addresses agree. -/
def SameNet (w n a b : ℕ) : Prop := a/2^(w-n)=b/2^(w-n)

/-- The number that an address is, from its bytes in network order. -/
def addrNumber : List UInt8 → ℕ
  | [] => 0
  | b :: bs => b.toNat*2^(8*bs.length)+addrNumber bs

/-- What a mask lets pass: a CIDR mask the addresses with the same first bits, and another
mask those with the same bits where it has ones. -/
inductive SameMasked (e : Endian) (aton : CStr → Option UInt32) (a b : UInt32) :
    Option CStr → Prop where
  | whole (h : a=b) : SameMasked e aton a b none
  | cidr {mask : CStr} {n : ℕ} (hdot : 46∉mask.bytes) (hmask : cidrWidth 32 mask=some n)
      (h : SameNet 32 n (ntohl e a).toNat (ntohl e b).toNat) : SameMasked e aton a b (some mask)
  | dotted {mask : CStr} {m : UInt32} (hdot : 46∈mask.bytes) (hmask : aton mask=some m)
      (h : ∀ j,(ntohl e m).toNat.testBit j=true →
        (ntohl e a).toNat.testBit j=(ntohl e b).toNat.testBit j) :
      SameMasked e aton a b (some mask)

inductive SameMasked6 (a b : In6Addr) : Option CStr → Prop where
  | whole (h : a=b) : SameMasked6 a b none
  | cidr {mask : CStr} {n : ℕ} (hmask : cidrWidth 128 mask=some n)
      (h : SameNet 128 n (addrNumber a.val) (addrNumber b.val)) : SameMasked6 a b (some mask)

theorem cidrWidth_iff {limit n : ℕ} {mask : CStr} :
    cidrWidth limit mask=some n ↔ strtoul mask=(n,[]) ∧ n ≤ limit := by
  rw [cidrWidth]
  rcases strtoul mask with ⟨cidr,rest⟩
  change (if cidr > limit ∨ rest≠[] then none else some cidr)=some n ↔ _
  by_cases hbad : cidr > limit ∨ rest≠[]
  · rw [if_pos hbad]
    constructor
    · intro h
      cases h
    · rintro ⟨h,hn⟩
      cases h
      rcases hbad with hlarge|hrest
      · omega
      · exact absurd rfl hrest
  · obtain ⟨hsmall,hrest⟩ := not_or.mp hbad
    rw [if_neg hbad,not_not.mp hrest]
    constructor
    · intro h
      cases h
      exact ⟨rfl,Nat.le_of_not_lt hsmall⟩
    · rintro ⟨h,-⟩
      cases h
      rfl

theorem addrNumber_lt (bs : List UInt8) : addrNumber bs < 2^(8*bs.length) := by
  induction bs with
  | nil => exact Nat.one_pos
  | cons b bs ih =>
    have hb : b.toNat < 2^8 := b.toNat_lt
    have hmul := Nat.mul_le_mul_right (2^(8*bs.length)) (Nat.le_sub_one_of_lt hb)
    rw [List.length_cons,Nat.mul_succ,Nat.add_comm,Nat.pow_add,addrNumber]
    omega

/-- The loop finds whether the bits that are left of the width agree. -/
theorem equalBits_iff (cidr : ℕ) {as bs : List UInt8} (hlen : as.length=bs.length) (i : ℕ)
    (hc : cidr ≤ 8*(i+as.length)) :
    equalBits cidr i as bs=true ↔
      SameNet (8*as.length) (cidr-8*i) (addrNumber as) (addrNumber bs) := by
  induction as generalizing bs i with
  | nil =>
    obtain rfl := List.length_eq_zero_iff.mp hlen.symm
    simp [equalBits,SameNet]
  | cons a as ih =>
    obtain ⟨b,bs,rfl⟩ := List.exists_cons_of_length_pos (l := bs) (by simp at hlen; omega)
    have hlen' : as.length=bs.length := by simpa using hlen
    have hla := addrNumber_lt as
    have hlb := addrNumber_lt bs
    rw [← hlen'] at hlb
    have hih := ih hlen' (i+1) (by rw [List.length_cons] at hc; omega)
    rw [equalBits]
    simp only [SameNet,addrNumber,List.length_cons,← hlen'] at hih ⊢
    by_cases hi : i*8 < cidr
    · rw [if_pos hi]
      by_cases hfull : (i+1)*8 ≤ cidr
      · -- a whole byte
        have hw : 8*(as.length+1)-(cidr-8*i)=8*as.length-(cidr-8*(i+1)) := by omega
        rw [if_pos hfull,hw,append_div_eq_iff hla hlb (by simp at hc; omega),UInt8.toNat_inj,
          ← hih]
        by_cases hab : a=b
        · simp [hab]
        · simp [hab]
      · -- the first bits of the last byte
        have hmod : cidr % 8=cidr-8*i := by omega
        have hw : 8*(as.length+1)-(cidr-8*i)=8-(cidr-8*i)+8*as.length := by omega
        have hmask := and_topBits_eq_iff (w := 8) (n := cidr-8*i) (by omega) a.toNat_lt b.toNat_lt
        have hrest : equalBits cidr (i+1) as bs=true := by
          rw [hih,show cidr-8*(i+1)=0 by omega,Nat.sub_zero,Nat.div_eq_of_lt hla,
            Nat.div_eq_of_lt hlb]
        rw [if_neg hfull,hw,append_div_high hla,append_div_high hlb,hrest,hmod,← hmask]
        simp
    · -- no bit is left
      have hzero : 8*(as.length+1)-(cidr-8*i)=8+8*as.length := by omega
      have hsmall : ∀ c : UInt8,c.toNat/2^8=0 := fun c => Nat.div_eq_of_lt c.toNat_lt
      rw [if_neg hi,hzero,append_div_high hla,append_div_high hlb,hsmall,hsmall]
      simp

theorem addrNumber_injective {as bs : List UInt8} (hlen : as.length=bs.length)
    (h : addrNumber as=addrNumber bs) : as=bs := by
  induction as generalizing bs with
  | nil => exact (List.length_eq_zero_iff.mp hlen.symm).symm
  | cons a as ih =>
    obtain ⟨b,bs,rfl⟩ := List.exists_cons_of_length_pos (l := bs) (by simp at hlen; omega)
    have hlen' : as.length=bs.length := by simpa using hlen
    have hla := addrNumber_lt as
    have hlb := addrNumber_lt bs
    rw [← hlen'] at hlb
    have hparts := append_div_eq_iff (x := a.toNat) (y := b.toNat) hla hlb (Nat.le_refl _)
    rw [Nat.sub_self,Nat.pow_zero,Nat.div_one,Nat.div_one,Nat.div_one,Nat.div_one] at hparts
    rw [addrNumber,addrNumber,← hlen'] at h
    obtain ⟨hab,hrest⟩ := hparts.mp h
    rw [UInt8.toNat_inj.mp hab,ih hlen' hrest]

section

variable {e : Endian} {aton : CStr → Option UInt32} {pton : CStr → Option In6Addr}

/-- Words in network order agree under a mask exactly if they do in host order. -/
theorem masked_iff (a b m : UInt32) :
    a &&& m=b &&& m ↔
      (ntohl e a).toNat &&& (ntohl e m).toNat=(ntohl e b).toNat &&& (ntohl e m).toNat := by
  rw [← UInt32.toNat_and,← UInt32.toNat_and,UInt32.toNat_inj]
  change _ ↔ htonl e a &&& htonl e m=htonl e b &&& htonl e m
  rw [← htonl_and,← htonl_and]
  exact (htonl_injective e).eq_iff.symm

theorem sameNet_masked {n : ℕ} (hn : n ≤ 32) (a b : UInt32) :
    a &&& htonl e (UInt32.ofNat (topBits 32 n))=b &&& htonl e (UInt32.ofNat (topBits 32 n)) ↔
      SameNet 32 n (ntohl e a).toNat (ntohl e b).toNat := by
  have hmask : (UInt32.ofNat (topBits 32 n)).toNat=topBits 32 n :=
    UInt32.toNat_ofNat_of_lt' (topBits_lt hn)
  rw [masked_iff (e := e),ntohl_htonl,hmask]
  exact and_topBits_eq_iff hn (ntohl e a).toNat_lt (ntohl e b).toNat_lt

theorem dotted_masked (a b m : UInt32) :
    a &&& m=b &&& m ↔ ∀ j,(ntohl e m).toNat.testBit j=true →
      (ntohl e a).toNat.testBit j=(ntohl e b).toNat.testBit j := by
  rw [masked_iff (e := e)]
  constructor
  · intro h j hj
    have hbit := congrArg (fun x => Nat.testBit x j) h
    simpa [Nat.testBit_and,hj] using hbit
  · intro h
    apply Nat.eq_of_testBit_eq
    intro j
    rw [Nat.testBit_and,Nat.testBit_and]
    cases hj : (ntohl e m).toNat.testBit j with
    | true => rw [h j hj]
    | false => rw [Bool.and_false,Bool.and_false]

/-- No mask is the mask of all ones. -/
theorem whole_masked (a b : UInt32) :
    a &&& htonl e 0xffffffff=b &&& htonl e 0xffffffff ↔ a=b := by
  have hones : (0xffffffff : UInt32)=UInt32.ofNat (topBits 32 32) := by decide
  rw [hones,sameNet_masked (Nat.le_refl 32),SameNet,Nat.sub_self,Nat.pow_zero,Nat.div_one,
    Nat.div_one,UInt32.toNat_inj]
  exact (htonl_injective e).eq_iff

theorem addrMask_iff (a b : UInt32) (mask : Option CStr) :
    (∃ m,addrMask e aton mask=some m ∧ a &&& m=b &&& m) ↔ SameMasked e aton a b mask := by
  cases mask with
  | none =>
    constructor
    · rintro ⟨m,hm,h⟩
      cases hm
      exact .whole ((whole_masked a b).mp h)
    · intro h
      cases h with
      | whole h => exact ⟨_,rfl,(whole_masked a b).mpr h⟩
  | some mask =>
    rw [addrMask]
    by_cases hdot : 46∈mask.bytes
    · rw [if_neg (not_not.mpr hdot)]
      constructor
      · rintro ⟨m,hm,h⟩
        exact .dotted hdot hm ((dotted_masked a b m).mp h)
      · intro h
        cases h with
        | cidr hdot' => exact absurd hdot hdot'
        | dotted _ hm h => exact ⟨_,hm,(dotted_masked a b _).mpr h⟩
    · rw [if_pos hdot]
      constructor
      · rintro ⟨m,hm,h⟩
        obtain ⟨n,hn,rfl⟩ := Option.map_eq_some_iff.mp hm
        exact .cidr hdot hn ((sameNet_masked (cidrWidth_iff.mp hn).2 a b).mp h)
      · intro h
        cases h with
        | cidr _ hn h =>
          exact ⟨_,by rw [hn]; rfl,(sameNet_masked (cidrWidth_iff.mp hn).2 a b).mpr h⟩
        | dotted hdot' => exact absurd hdot' hdot

theorem equalBits_masked (a b : In6Addr) (mask : Option CStr) :
    (∃ cidr,mask.elim (some 128) (cidrWidth 128)=some cidr ∧
      equalBits cidr 0 a.val b.val=true) ↔ SameMasked6 a b mask := by
  have hlen : a.val.length=b.val.length := a.property.trans b.property.symm
  have hbits {cidr : ℕ} (hc : cidr ≤ 128) : equalBits cidr 0 a.val b.val=true ↔
      SameNet 128 cidr (addrNumber a.val) (addrNumber b.val) := by
    have h := equalBits_iff cidr hlen 0 (by rw [a.property]; omega)
    rwa [a.property] at h
  cases mask with
  | none =>
    change (∃ cidr,some 128=some cidr ∧ _) ↔ _
    constructor
    · rintro ⟨cidr,hc,h⟩
      cases hc
      have hsame := (hbits (Nat.le_refl 128)).mp h
      rw [SameNet,Nat.sub_self,Nat.pow_zero,Nat.div_one,Nat.div_one] at hsame
      exact .whole (Subtype.ext (addrNumber_injective hlen hsame))
    · intro h
      cases h with
      | whole h => exact ⟨128,rfl,(hbits (Nat.le_refl 128)).mpr (by rw [h]; rfl)⟩
  | some mask =>
    change (∃ cidr,cidrWidth 128 mask=some cidr ∧ _) ↔ _
    constructor
    · rintro ⟨cidr,hc,h⟩
      exact .cidr hc ((hbits (cidrWidth_iff.mp hc).2).mp h)
    · intro h
      cases h with
      | cidr hc h => exact ⟨_,hc,(hbits (cidrWidth_iff.mp hc).2).mpr h⟩

/-- Addresses match if both are IPv4 addresses that agree under the mask, or they are IPv6
addresses and do. -/
structure AddrMatches (e : Endian) (aton : CStr → Option UInt32) (pton : CStr → Option In6Addr)
    (a b : CStr) (mask : Option CStr) : Prop where
  left : a.bytes≠[]
  right : b.bytes≠[]
  same : (∃ a4 b4,aton a=some a4 ∧ aton b=some b4 ∧ SameMasked e aton a4 b4 mask) ∨
    (aton a=none ∨ aton b=none) ∧
      ∃ a6 b6,pton a=some a6 ∧ pton b=some b6 ∧ SameMasked6 a6 b6 mask

theorem match4_iff {a b : CStr} {a4 b4 : UInt32} (ha : aton a=some a4) (hb : aton b=some b4)
    (hna : a.bytes≠[]) (hnb : b.bytes≠[]) (mask : Option CStr) :
    networkAddrMatch e aton pton a b mask=true ↔ SameMasked e aton a4 b4 mask := by
  rw [networkAddrMatch,if_neg (by simp [hna,hnb]),ha,hb,← addrMask_iff]
  cases addrMask e aton mask with
  | none => simp
  | some m => simp

theorem match6_iff {a b : CStr} (hnone : aton a=none ∨ aton b=none) (hna : a.bytes≠[])
    (hnb : b.bytes≠[]) (mask : Option CStr) :
    networkAddrMatch e aton pton a b mask=true ↔
      ∃ a6 b6,pton a=some a6 ∧ pton b=some b6 ∧ SameMasked6 a6 b6 mask := by
  have hsix : networkAddrMatch e aton pton a b mask=addrMatch6 pton a b mask := by
    rw [networkAddrMatch,if_neg (by simp [hna,hnb])]
    rcases hnone with h|h
    · rw [h]
    · rw [h]
      cases aton a <;> rfl
  rw [hsix,addrMatch6]
  cases pton a with
  | none => simp
  | some a6 =>
    cases pton b with
    | none => simp
    | some b6 =>
      have hbits := equalBits_masked a6 b6 mask
      simp only [Option.some.injEq,↓existsAndEq,true_and]
      rw [← hbits]
      cases mask.elim (some 128) (cidrWidth 128) with
      | none => simp
      | some cidr => simp

theorem networkAddrMatch_iff (a b : CStr) (mask : Option CStr) :
    networkAddrMatch e aton pton a b mask=true ↔ AddrMatches e aton pton a b mask := by
  by_cases hempty : a.bytes=[] ∨ b.bytes=[]
  · constructor
    · intro h
      rw [networkAddrMatch,if_pos hempty] at h
      cases h
    · intro h
      rcases hempty with ha|hb
      · exact absurd ha h.left
      · exact absurd hb h.right
  obtain ⟨hna,hnb⟩ := not_or.mp hempty
  cases ha : aton a with
  | none =>
    rw [match6_iff (Or.inl ha) hna hnb]
    constructor
    · intro h
      exact ⟨hna,hnb,Or.inr ⟨Or.inl ha,h⟩⟩
    · intro h
      rcases h.same with ⟨a4,_,ha4,-⟩|⟨-,h⟩
      · rw [ha] at ha4
        cases ha4
      · exact h
  | some a4 =>
    cases hb : aton b with
    | none =>
      rw [match6_iff (Or.inr hb) hna hnb]
      constructor
      · intro h
        exact ⟨hna,hnb,Or.inr ⟨Or.inr hb,h⟩⟩
      · intro h
        rcases h.same with ⟨_,b4,-,hb4,-⟩|⟨-,h⟩
        · rw [hb] at hb4
          cases hb4
        · exact h
    | some b4 =>
      rw [match4_iff ha hb hna hnb]
      constructor
      · intro h
        exact ⟨hna,hnb,Or.inl ⟨a4,b4,ha,hb,h⟩⟩
      · intro h
        rcases h.same with ⟨a4',b4',ha',hb',h⟩|⟨hnone,-⟩
        · rw [ha] at ha'
          rw [hb] at hb'
          cases ha'
          cases hb'
          exact h
        · simp [ha,hb] at hnone

end

theorem SameNet.wider {w n n' a b : ℕ} (h : SameNet w n' a b) (hn : n ≤ n') (hw : n' ≤ w) :
    SameNet w n a b := by
  have hexp : w-n=w-n'+(n'-n) := by omega
  rw [SameNet,hexp,Nat.pow_add,← Nat.div_div_eq_div_mul,← Nat.div_div_eq_div_mul,h]

theorem SameMasked.symm {e : Endian} {aton : CStr → Option UInt32} {a b : UInt32}
    {mask : Option CStr} (h : SameMasked e aton a b mask) : SameMasked e aton b a mask := by
  cases h with
  | whole h => exact .whole h.symm
  | cidr hdot hm h => exact .cidr hdot hm (Eq.symm h)
  | dotted hdot hm h => exact .dotted hdot hm fun j hj => (h j hj).symm

theorem SameMasked6.symm {a b : In6Addr} {mask : Option CStr} (h : SameMasked6 a b mask) :
    SameMasked6 b a mask := by
  cases h with
  | whole h => exact .whole h.symm
  | cidr hm h => exact .cidr hm (Eq.symm h)

theorem AddrMatches.symm {e : Endian} {aton : CStr → Option UInt32}
    {pton : CStr → Option In6Addr} {a b : CStr} {mask : Option CStr}
    (h : AddrMatches e aton pton a b mask) : AddrMatches e aton pton b a mask := by
  refine ⟨h.right,h.left,?_⟩
  rcases h.same with ⟨a4,b4,ha,hb,h⟩|⟨hnone,a6,b6,ha,hb,h⟩
  · exact Or.inl ⟨b4,a4,hb,ha,h.symm⟩
  · exact Or.inr ⟨hnone.symm,b6,a6,hb,ha,h.symm⟩

/-- A shorter CIDR mask lets pass what a longer one does. -/
theorem AddrMatches.wider {e : Endian} {aton : CStr → Option UInt32}
    {pton : CStr → Option In6Addr} {a b m m' : CStr} {n n' : ℕ} (hm : strtoul m=(n,[]))
    (hm' : strtoul m'=(n',[])) (hdot : 46∉m.bytes) (hdot' : 46∉m'.bytes) (hn : n ≤ n')
    (h : AddrMatches e aton pton a b (some m')) : AddrMatches e aton pton a b (some m) := by
  have hwidth {limit k : ℕ} (hk : cidrWidth limit m'=some k) :
      k=n' ∧ n' ≤ limit ∧ cidrWidth limit m=some n := by
    obtain ⟨hs,hle⟩ := cidrWidth_iff.mp hk
    rw [hm'] at hs
    cases hs
    exact ⟨rfl,hle,cidrWidth_iff.mpr ⟨hm,Nat.le_trans hn hle⟩⟩
  refine ⟨h.left,h.right,?_⟩
  rcases h.same with ⟨a4,b4,ha,hb,h⟩|⟨hnone,a6,b6,ha,hb,h⟩
  · left
    refine ⟨a4,b4,ha,hb,?_⟩
    cases h with
    | cidr _ hk h =>
      obtain ⟨rfl,hle,hw⟩ := hwidth hk
      exact .cidr hdot hw (h.wider hn hle)
    | dotted hd => exact absurd hd hdot'
  · right
    refine ⟨hnone,a6,b6,ha,hb,?_⟩
    cases h with
    | cidr hk h =>
      obtain ⟨rfl,hle,hw⟩ := hwidth hk
      exact .cidr hw (h.wider hn hle)

/-- network_addr_match compares the bits of two addresses that their mask is about. It does not
depend on their order, and a shorter CIDR mask lets more pass. -/
structure MatchLaw (e : Endian) (aton : CStr → Option UInt32) (pton : CStr → Option In6Addr) :
    Prop where
  agree : ∀ a b mask,networkAddrMatch e aton pton a b mask=true ↔ AddrMatches e aton pton a b mask
  symm : ∀ a b mask,networkAddrMatch e aton pton a b mask=networkAddrMatch e aton pton b a mask
  wider : ∀ a b m m' n n',strtoul m=(n,[]) → strtoul m'=(n',[]) → 46∉m.bytes → 46∉m'.bytes →
    n ≤ n' → networkAddrMatch e aton pton a b (some m')=true →
      networkAddrMatch e aton pton a b (some m)=true

theorem match_law (e : Endian) (aton : CStr → Option UInt32) (pton : CStr → Option In6Addr) :
    MatchLaw e aton pton where
  agree := networkAddrMatch_iff
  symm a b mask := by
    rw [Bool.eq_iff_iff,networkAddrMatch_iff,networkAddrMatch_iff]
    exact ⟨AddrMatches.symm,AddrMatches.symm⟩
  wider a b m m' n n' hm hm' hdot hdot' hn h := by
    rw [networkAddrMatch_iff] at h ⊢
    exact h.wider hm hm' hdot hdot' hn

/-- The address of a socket address, where an IPv4 address stands for the IPv6 address that it
is mapped to. -/
def plainAddr (e : Endian) : Sockaddr → Option (UInt32 ⊕ In6Addr)
  | .inet addr _ => some (.inl addr)
  | .inet6 addr _ => if v4mapped addr then some (.inl (embedded e addr)) else some (.inr addr)
  | .other => none

theorem store32_loadAddr (e : Endian) {bs : List UInt8} (h : bs.length=4) :
    store32 e (loadAddr e bs)=bs := by
  rcases bs with _|⟨p,_|⟨q,_|⟨r,_|⟨t,_|⟨x,bs⟩⟩⟩⟩⟩
  · cases h
  · cases h
  · cases h
  · cases h
  · exact store32_load32 e p q r t
  · simp at h

theorem embedded_bytes (e : Endian) (addr : In6Addr) :
    store32 e (embedded e addr)=addr.val.drop 12 :=
  store32_loadAddr e (by rw [List.length_drop,addr.property])

theorem embedded_injective {e : Endian} {a b : In6Addr} (ha : v4mapped a=true)
    (hb : v4mapped b=true) (h : embedded e a=embedded e b) : a=b := by
  have hlow : a.val.drop 12=b.val.drop 12 := by
    rw [← embedded_bytes e a,← embedded_bytes e b,h]
  have hhigh : a.val.take 12=b.val.take 12 := by
    rw [of_decide_eq_true ha,of_decide_eq_true hb]
  apply Subtype.ext
  rw [← List.take_append_drop 12 a.val,hhigh,hlow,List.take_append_drop]

theorem networkSockaddrEqual_iff (e : Endian) (a b : Sockaddr) :
    networkSockaddrEqual e a b=true ↔ ∃ x,plainAddr e a=some x ∧ plainAddr e b=some x := by
  have hmixed (a6 : In6Addr) (b4 : UInt32) :
      (if !v4mapped a6 then false else decide (embedded e a6=b4))=true ↔
        (if v4mapped a6 then some (.inl (embedded e a6)) else some (.inr a6))=
          some (Sum.inl (β := In6Addr) b4) := by
    cases v4mapped a6 <;> simp
  cases a with
  | inet a4 p =>
    cases b with
    | inet b4 q => simp [networkSockaddrEqual,plainAddr,eq_comm]
    | inet6 b6 q =>
      refine (hmixed b6 a4).trans ?_
      simp [plainAddr]
    | other => simp [networkSockaddrEqual,plainAddr]
  | inet6 a6 p =>
    cases b with
    | inet b4 q =>
      refine (hmixed a6 b4).trans ?_
      simp [plainAddr]
    | inet6 b6 q =>
      have hsix : networkSockaddrEqual e (.inet6 a6 p) (.inet6 b6 q)=true ↔ a6=b6 := by
        simp [networkSockaddrEqual]
      rw [hsix,plainAddr,plainAddr]
      by_cases hab : v4mapped a6=v4mapped b6
      · rw [← hab]
        cases ha : v4mapped a6 with
        | false => simp [eq_comm]
        | true =>
          have hinj : embedded e a6=embedded e b6 ↔ a6=b6 :=
            ⟨embedded_injective ha (hab ▸ ha),congrArg (embedded e)⟩
          simp [← hinj,eq_comm]
      · have hne : a6≠b6 := fun h => hab (congrArg v4mapped h)
        cases ha : v4mapped a6 with
        | false =>
          have hb : v4mapped b6=true := by simpa [ha] using hab
          simp [hb,hne]
        | true =>
          have hb : v4mapped b6=false := by simpa [ha] using hab
          simp [hb,hne]
    | other => simp [networkSockaddrEqual,plainAddr]
  | other =>
    cases b with
    | _ => simp [networkSockaddrEqual,plainAddr]

theorem sprint_plain {e : Endian} (ntop6 : In6Addr → ℕ → Option CStr) {a : Sockaddr} {x : UInt32}
    (ha : plainAddr e a=some (.inl x)) {size : ℕ} (hsize : 16 ≤ size) :
    networkSockaddrSprint e ntop6 size a=some (inetNtoa e x) := by
  have htext : inetNtop e afInet x size=.ok (inetNtoa e x) :=
    (inetNtop_ok e x afInet size _).mpr ⟨rfl,hsize,rfl⟩
  cases a with
  | inet addr port =>
    cases ha
    rw [networkSockaddrSprint,htext]
    rfl
  | inet6 addr port =>
    rw [plainAddr] at ha
    by_cases hmapped : v4mapped addr=true
    · rw [if_pos hmapped] at ha
      cases ha
      rw [networkSockaddrSprint,if_pos hmapped,htext]
      rfl
    · rw [if_neg hmapped] at ha
      cases ha
  | other => cases ha

theorem inetNtoa_ne_nil (e : Endian) (addr : UInt32) : (inetNtoa e addr).bytes≠[] := by
  obtain ⟨p,q,r,t,hbytes,-⟩ := inetNtoa_text e addr
  rw [hbytes]
  simp

/-- The mask of a width has the same effect as a number and as an address. -/
theorem maskForms (e : Endian) (pton : CStr → Option In6Addr) {a b mask : CStr} {a4 b4 : UInt32}
    {n : ℕ} (ha : inetAton e a=some a4) (hb : inetAton e b=some b4) (hdot : 46∉mask.bytes)
    (hmask : strtoul mask=(n,[])) (hn : n ≤ 32) :
    networkAddrMatch e (inetAton e) pton a b (some mask)=
      networkAddrMatch e (inetAton e) pton a b
        (some (inetNtoa e (htonl e (UInt32.ofNat (topBits 32 n))))) := by
  have hdotted : 46∈(inetNtoa e (htonl e (UInt32.ofNat (topBits 32 n)))).bytes := by
    obtain ⟨p,q,r,t,hbytes,-⟩ := inetNtoa_text e (htonl e (UInt32.ofNat (topBits 32 n)))
    rw [hbytes]
    simp
  have hsame : addrMask e (inetAton e) (some mask)=
      addrMask e (inetAton e) (some (inetNtoa e (htonl e (UInt32.ofNat (topBits 32 n))))) := by
    rw [addrMask,addrMask,if_pos hdot,if_neg (not_not.mpr hdotted),
      cidrWidth_iff.mpr ⟨hmask,hn⟩,inetAton_inetNtoa]
    rfl
  rw [networkAddrMatch,networkAddrMatch,ha,hb,hsame]

/-- Two socket addresses are equal if they are of the same address, by itself or mapped to IPv6.
Both kinds of an IPv4 address have the same text, and two of these texts match exactly if the
addresses are equal. -/
structure SockaddrLaw (e : Endian) (ntop6 : In6Addr → ℕ → Option CStr)
    (pton : CStr → Option In6Addr) : Prop where
  equal : ∀ a b,networkSockaddrEqual e a b=true ↔
    ∃ x,plainAddr e a=some x ∧ plainAddr e b=some x
  printed : ∀ a x size,plainAddr e a=some (.inl x) → 16 ≤ size →
    networkSockaddrSprint e ntop6 size a=some (inetNtoa e x)
  matched : ∀ a b x y size,plainAddr e a=some (.inl x) → plainAddr e b=some (.inl y) →
    16 ≤ size → ∃ s t,networkSockaddrSprint e ntop6 size a=some s ∧
      networkSockaddrSprint e ntop6 size b=some t ∧
        networkAddrMatch e (inetAton e) pton s t none=networkSockaddrEqual e a b
  forms : ∀ a b mask a4 b4 n,inetAton e a=some a4 → inetAton e b=some b4 → 46∉mask.bytes →
    strtoul mask=(n,[]) → n ≤ 32 →
      networkAddrMatch e (inetAton e) pton a b (some mask)=
        networkAddrMatch e (inetAton e) pton a b
          (some (inetNtoa e (htonl e (UInt32.ofNat (topBits 32 n)))))

theorem sockaddr_law (e : Endian) (ntop6 : In6Addr → ℕ → Option CStr)
    (pton : CStr → Option In6Addr) : SockaddrLaw e ntop6 pton where
  equal := networkSockaddrEqual_iff e
  printed _ _ _ ha hsize := sprint_plain ntop6 ha hsize
  matched := by
    intro a b x y size ha hb hsize
    refine ⟨_,_,sprint_plain ntop6 ha hsize,sprint_plain ntop6 hb hsize,?_⟩
    rw [Bool.eq_iff_iff,networkSockaddrEqual_iff,match4_iff (inetAton_inetNtoa e x)
      (inetAton_inetNtoa e y) (inetNtoa_ne_nil e x) (inetNtoa_ne_nil e y),ha,hb]
    constructor
    · intro h
      cases h with
      | whole h => exact ⟨.inl x,rfl,by rw [h]⟩
    · rintro ⟨z,hx,hy⟩
      rw [← hx] at hy
      cases hy
      exact .whole rfl
  forms _ _ _ _ _ _ ha hb hdot hmask hn := maskForms e pton ha hb hdot hmask hn

end Lbcd
