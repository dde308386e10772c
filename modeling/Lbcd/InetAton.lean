import Lbcd.Interaction.Numerals
import Lbcd.Interaction.Masks
import Lbcd.Interaction.CText

namespace Lbcd

open CText ByteOrder Numerals

/-- The switch over the characters of a number. -/
def atonDigit (c : UInt8) : Option ℕ :=
  if 48 ≤ c.toNat ∧ c.toNat ≤ 57 then some (c.toNat-48)
  else if 65 ≤ c.toNat ∧ c.toNat ≤ 70 then some (c.toNat-55)
  else if 97 ≤ c.toNat ∧ c.toNat ≤ 102 then some (c.toNat-87)
  else none

/-- The loop over one part up to a period or the end; unsigned long has 64 bits. -/
def atonSegment (base : ℕ) : List UInt8 → ℕ → Option (ℕ × List UInt8)
  | [],octet => some (octet,[])
  | c :: p,octet =>
    if c=46 then some (octet,c :: p)
    else if 0xffffffff/base < octet then none
    else
      match atonDigit c with
      | none => none
      | some i => if base ≤ i then none else atonSegment base p ((octet*base+i) % 2^64)

/-- The base of a part, and what is left of it then. -/
def atonBase : List UInt8 → ℕ × List UInt8
  | 48 :: 120 :: p => (16,p)
  | 48 :: p => (8,p)
  | p => (10,p)

def atonPart (p : List UInt8) : Option (ℕ × List UInt8) :=
  let (base,p) := atonBase p
  if p.head?=some 46 ∧ base≠8 then none else atonSegment base p 0

/-- The loop over the parts, of which a number is still allowed. -/
def atonParts : ℕ → List UInt8 → Option (List ℕ)
  | _,[] => some []
  | 0,_ :: _ => none
  | n+1,c :: p => do
    let (octet,rest) ← atonPart (c :: p)
    match rest with
    | [] => return [octet]
    | [_] => none
    | _ :: rest => do
      let octets ← atonParts n rest
      return octet :: octets

/-- The last two loops. There is no octet at all only where inet_aton has returned before. -/
def atonAddress : ℕ → ℕ → List ℕ → Option ℕ
  | _,_,[] => none
  | i,address,[octet] => if 0xffffffff >>> (i*8) < octet then none else some (address ||| octet)
  | i,address,octet :: octets =>
    if 0xff < octet then none
    else atonAddress (i+1) (address ||| octet <<< (8*(3-i))) octets

/-- The address in network order. -/
def inetAton (e : Endian) (s : CStr) : Option UInt32 := do
  let octets ← atonParts 4 s.bytes
  if octets=[] then none
  else
    let address ← atonAddress 0 0 octets
    return htonl e (UInt32.ofNat address)

/-- What %u prints of a byte. -/
def byteText (b : UInt8) : List UInt8 :=
  let n := b.toNat
  if n < 10 then [UInt8.ofNat (48+n)]
  else if n < 100 then [UInt8.ofNat (48+n/10),UInt8.ofNat (48+n % 10)]
  else [UInt8.ofNat (48+n/100),UInt8.ofNat (48+n/10 % 10),UInt8.ofNat (48+n % 10)]

/-- The bytes of the address in memory. -/
def inetNtoa (e : Endian) (addr : UInt32) : CStr :=
  CStr.ofBuffer ([46].intercalate ((store32 e addr).map byteText))

inductive NtopError where
  | afNoSupport
  | noSpace

def afInet : ℕ := 2

/-- snprintf cuts the text to a buffer of the given size. -/
def inetNtop (e : Endian) (af : ℕ) (src : UInt32) (size : ℕ) : Except NtopError CStr :=
  if af≠afInet then .error .afNoSupport
  else if size < 16 then .error .noSpace
  else .ok ((inetNtoa e src).strlcpy size)

/-- A number as C writes it; only the last one may be 0x with no digit after it. -/
inductive PartText (last : Bool) : List UInt8 → ℕ → Prop where
  | decimal {c : UInt8} {text : List UInt8} {v : ℕ} (hc : c≠48)
      (h : value atonDigit 10 (c :: text) 0=some v) : PartText last (c :: text) v
  | octal {text : List UInt8} {v : ℕ} (h : value atonDigit 8 text 0=some v) :
      PartText last (48 :: text) v
  | hex {text : List UInt8} {v : ℕ} (hne : text≠[] ∨ last=true)
      (h : value atonDigit 16 text 0=some v) : PartText last (48 :: 120 :: text) v

/-- Numbers with periods between them. -/
inductive AddressText : List UInt8 → List ℕ → Prop where
  | last {text : List UInt8} {v : ℕ} (h : PartText true text v) : AddressText text [v]
  | dot {text rest : List UInt8} {v : ℕ} {octets : List ℕ} (h : PartText false text v)
      (hrest : AddressText rest octets) : AddressText (text++46 :: rest) (v :: octets)

/-- All numbers but the last are bytes of the address from its highest one on; the last one is
the rest of it. -/
def AddressValue (octets : List ℕ) (address : ℕ) : Prop :=
  ∃ bytes last high,octets=bytes++[last] ∧ bytes.length < 4 ∧ value some 256 bytes 0=some high ∧
    last < 256^(4-bytes.length) ∧ address=high*256^(4-bytes.length)+last

theorem atonDigit_period : atonDigit 46=none := by decide

theorem period_notMem {base n v : ℕ} {text : List UInt8}
    (h : value atonDigit base text n=some v) : 46∉text := by
  intro hm
  obtain ⟨i,hi,-⟩ := digit_lt h 46 hm
  rw [atonDigit_period] at hi
  cases hi

theorem atonSegment_sound {base : ℕ} {p rest : List UInt8} {octet v : ℕ} (hbase : base ≤ 16)
    (hpos : 0 < base) (h : atonSegment base p octet=some (v,rest)) :
    ∃ text,p=text++rest ∧ value atonDigit base text octet=some v ∧
      (rest=[] ∨ ∃ r,rest=46 :: r) := by
  induction p generalizing octet with
  | nil =>
    cases h
    exact ⟨[],rfl,rfl,Or.inl rfl⟩
  | cons c p ih =>
    rw [atonSegment] at h
    by_cases hc : c=46
    · rw [if_pos hc] at h
      cases h
      exact ⟨[],rfl,rfl,Or.inr ⟨p,by rw [hc]⟩⟩
    rw [if_neg hc] at h
    by_cases hlarge : 0xffffffff/base < octet
    · rw [if_pos hlarge] at h
      cases h
    rw [if_neg hlarge] at h
    cases hd : atonDigit c with
    | none =>
      rw [hd] at h
      cases h
    | some i =>
      rw [hd] at h
      by_cases hi : base ≤ i
      · simp [hi] at h
      have hmul : octet*base ≤ 0xffffffff :=
        Nat.le_trans (Nat.mul_le_mul_right base (Nat.le_of_not_lt hlarge))
          (Nat.div_mul_le_self _ _)
      have hmod : (octet*base+i) % 2^64=octet*base+i := Nat.mod_eq_of_lt (by omega)
      simp only [hi,if_false,hmod] at h
      obtain ⟨text,rfl,hv,hrest⟩ := ih h
      exact ⟨c :: text,rfl,value_cons.mpr ⟨i,hd,Nat.lt_of_not_le hi,hv⟩,hrest⟩

theorem atonSegment_complete {base : ℕ} {text rest : List UInt8} {octet v : ℕ}
    (hbase : base ≤ 16) (hpos : 0 < base) (h : value atonDigit base text octet=some v)
    (hv : v ≤ 0xffffffff) (hrest : rest=[] ∨ ∃ r,rest=46 :: r) :
    atonSegment base (text++rest) octet=some (v,rest) := by
  induction text generalizing octet with
  | nil =>
    cases h
    rcases hrest with rfl|⟨r,rfl⟩
    · rfl
    · simp [atonSegment]
  | cons c text ih =>
    have hc : c≠46 := fun hc => period_notMem h (by simp [hc])
    have hmul := Nat.le_trans (mul_le_value hpos h) hv
    obtain ⟨i,hd,hi,h⟩ := value_cons.mp h
    have hsmall : ¬0xffffffff/base < octet := by
      rw [Nat.not_lt]
      exact (Nat.le_div_iff_mul_le hpos).mpr hmul
    have hmod : (octet*base+i) % 2^64=octet*base+i := Nat.mod_eq_of_lt (by omega)
    rw [List.cons_append,atonSegment,if_neg hc,if_neg hsmall,hd]
    simp only [Nat.not_le.mpr hi,if_false,hmod]
    exact ih h

theorem atonBase_octal {p : List UInt8} (h : p.head?≠some 120) : atonBase (48 :: p)=(8,p) := by
  rw [atonBase]
  intro q hq
  exact h (by rw [hq]; rfl)

theorem atonBase_decimal {c : UInt8} {p : List UInt8} (hc : c≠48) :
    atonBase (c :: p)=(10,c :: p) := by
  rw [atonBase]
  · intro q hq
    exact hc (List.cons.inj hq).1
  · intro q hq
    exact hc (List.cons.inj hq).1

theorem atonPart_sound {p rest : List UInt8} {v : ℕ} (hp : p≠[])
    (h : atonPart p=some (v,rest)) :
    ∃ text,p=text++rest ∧ PartText rest.isEmpty text v ∧ (rest=[] ∨ ∃ r,rest=46 :: r) := by
  have hsegment {base : ℕ} {q : List UInt8} (hb : base=8 ∨ base=10 ∨ base=16)
      (hq : (if q.head?=some 46 ∧ base≠8 then none else atonSegment base q 0)=some (v,rest)) :
      ¬(q.head?=some 46 ∧ base≠8) ∧ ∃ text,q=text++rest ∧
        value atonDigit base text 0=some v ∧ (rest=[] ∨ ∃ r,rest=46 :: r) := by
    by_cases hdot : q.head?=some 46 ∧ base≠8
    · rw [if_pos hdot] at hq
      cases hq
    · rw [if_neg hdot] at hq
      exact ⟨hdot,atonSegment_sound (by omega) (by omega) hq⟩
  obtain ⟨c,p,rfl⟩ := List.exists_cons_of_ne_nil hp
  rw [atonPart] at h
  by_cases hc : c=48
  · subst hc
    rcases p with _|⟨d,p⟩
    · obtain ⟨-,text,htext,hv,hrest⟩ := hsegment (q := []) (Or.inl rfl) h
      obtain ⟨rfl,rfl⟩ := List.append_eq_nil_iff.mp htext.symm
      exact ⟨[48],rfl,.octal hv,hrest⟩
    · by_cases hd : d=120
      · subst hd
        obtain ⟨hdot,text,rfl,hv,hrest⟩ := hsegment (q := p) (Or.inr (Or.inr rfl)) h
        refine ⟨48 :: 120 :: text,rfl,.hex ?_ hv,hrest⟩
        rcases text with _|⟨a,text⟩
        · rcases hrest with rfl|⟨r,rfl⟩
          · exact Or.inr rfl
          · exact absurd ⟨rfl,by decide⟩ hdot
        · exact Or.inl (List.cons_ne_nil a text)
      · rw [atonBase_octal (by simpa using hd)] at h
        obtain ⟨-,text,htext,hv,hrest⟩ := hsegment (q := d :: p) (Or.inl rfl) h
        exact ⟨48 :: text,by rw [htext]; rfl,.octal hv,hrest⟩
  · rw [atonBase_decimal hc] at h
    obtain ⟨hdot,text,htext,hv,hrest⟩ := hsegment (q := c :: p) (Or.inr (Or.inl rfl)) h
    rcases text with _|⟨a,text⟩
    · rcases hrest with rfl|⟨r,rfl⟩
      · cases htext
      · have hhead : (c :: p).head?=some 46 := by rw [htext]; rfl
        exact absurd ⟨hhead,by decide⟩ hdot
    · have hac : c=a := (List.cons.inj htext).1
      exact ⟨a :: text,htext,.decimal (hac ▸ hc) hv,hrest⟩

theorem PartText.period_notMem {last : Bool} {text : List UInt8} {v : ℕ}
    (h : PartText last text v) : 46∉text ∧ text≠[] := by
  cases h with
  | decimal hc h => exact ⟨Lbcd.period_notMem h,List.cons_ne_nil _ _⟩
  | octal h => simp [Lbcd.period_notMem h]
  | hex hne h => simp [Lbcd.period_notMem h]

theorem atonPart_complete {text rest : List UInt8} {v : ℕ} (h : PartText rest.isEmpty text v)
    (hv : v ≤ 0xffffffff) (hrest : rest=[] ∨ ∃ r,rest=46 :: r) :
    atonPart (text++rest)=some (v,rest) := by
  rw [atonPart]
  cases h with
  | @decimal c text v hc h =>
    have hdot : c≠46 := fun hdot => Lbcd.period_notMem h (by simp [hdot])
    rw [List.cons_append,atonBase_decimal hc]
    change (if (c :: (text++rest)).head?=some 46 ∧ 10≠8 then none
      else atonSegment 10 (c :: (text++rest)) 0)=_
    rw [if_neg (by simp [hdot])]
    exact atonSegment_complete (by omega) (by omega) h hv hrest
  | @octal text v h =>
    have hx : (text++rest).head?≠some 120 := by
      rcases text with _|⟨c,text⟩
      · rcases hrest with rfl|⟨r,rfl⟩ <;> simp
      · obtain ⟨i,hd,-,-⟩ := value_cons.mp h
        rintro hc
        cases hc
        cases hd
    rw [List.cons_append,atonBase_octal hx]
    change (if (text++rest).head?=some 46 ∧ 8≠8 then none else atonSegment 8 (text++rest) 0)=_
    rw [if_neg (fun hdot => hdot.2 rfl)]
    exact atonSegment_complete (by omega) (by omega) h hv hrest
  | @hex text v hne h =>
    have hdot : (text++rest).head?≠some 46 := by
      rcases text with _|⟨c,text⟩
      · rcases hne with hne|hlast
        · exact absurd rfl hne
        · simp [List.isEmpty_iff.mp hlast]
      · rintro hc
        cases hc
        exact Lbcd.period_notMem h List.mem_cons_self
    change (if (text++rest).head?=some 46 ∧ 16≠8 then none else atonSegment 16 (text++rest) 0)=_
    rw [if_neg (fun hd => hdot hd.1)]
    exact atonSegment_complete (by omega) (by omega) h hv hrest

theorem atonParts_sound (n : ℕ) {p : List UInt8} {octets : List ℕ}
    (h : atonParts n p=some octets) (hne : octets≠[]) :
    AddressText p octets ∧ octets.length ≤ n := by
  induction n generalizing p octets with
  | zero =>
    rcases p with _|⟨c,p⟩
    · cases h
      exact absurd rfl hne
    · cases h
  | succ n ih =>
    rcases p with _|⟨c,p⟩
    · cases h
      exact absurd rfl hne
    rw [atonParts] at h
    obtain ⟨⟨octet,rest⟩,hpart,h⟩ := Option.bind_eq_some_iff.mp h
    obtain ⟨text,htext,hp,hrest⟩ := atonPart_sound (List.cons_ne_nil c p) hpart
    rw [htext]
    rcases rest with _|⟨d,_|⟨b,rest⟩⟩
    · cases h
      rw [List.append_nil]
      exact ⟨.last hp,Nat.succ_pos n⟩
    · cases h
    · obtain ⟨more,hmore,h⟩ := Option.bind_eq_some_iff.mp h
      cases h
      have hd : d=46 := by
        rcases hrest with hrest|⟨r,hrest⟩
        · cases hrest
        · exact (List.cons.inj hrest).1
      have hmore' : more≠[] := by
        rintro rfl
        rcases n with _|n
        · cases hmore
        · rw [atonParts] at hmore
          obtain ⟨⟨o,r⟩,-,hmore⟩ := Option.bind_eq_some_iff.mp hmore
          rcases r with _|⟨x,_|⟨y,r⟩⟩
          · cases hmore
          · cases hmore
          · obtain ⟨os,-,hmore⟩ := Option.bind_eq_some_iff.mp hmore
            cases hmore
      obtain ⟨haddr,hlen⟩ := ih hmore hmore'
      rw [hd]
      exact ⟨.dot hp haddr,Nat.succ_le_succ hlen⟩

theorem AddressText.ne_nil {p : List UInt8} {octets : List ℕ} (h : AddressText p octets) :
    p≠[] ∧ octets≠[] := by
  cases h with
  | last h => exact ⟨h.period_notMem.2,List.cons_ne_nil _ _⟩
  | dot h hrest => simp

theorem atonParts_complete {p : List UInt8} {octets : List ℕ} (h : AddressText p octets) {n : ℕ}
    (hn : octets.length ≤ n) (hsmall : ∀ v∈octets,v ≤ 0xffffffff) :
    atonParts n p=some octets := by
  induction h generalizing n with
  | @last text v h =>
    obtain ⟨n,rfl⟩ : ∃ k,n=k+1 := ⟨n-1,by simp at hn; omega⟩
    have hpart : atonPart (text++[])=some (v,[]) :=
      atonPart_complete h (hsmall v (by simp)) (Or.inl rfl)
    rw [List.append_nil] at hpart
    obtain ⟨c,p,rfl⟩ := List.exists_cons_of_ne_nil h.period_notMem.2
    rw [atonParts,hpart]
    rfl
  | @dot text rest v octets h hrest ih =>
    obtain ⟨n,rfl⟩ : ∃ k,n=k+1 := ⟨n-1,by simp at hn; omega⟩
    have hpart : atonPart (text++46 :: rest)=some (v,46 :: rest) :=
      atonPart_complete h (hsmall v (by simp)) (Or.inr ⟨rest,rfl⟩)
    have hmore := ih (n := n) (by simpa using hn) fun w hw => hsmall w (by simp [hw])
    obtain ⟨d,more,rfl⟩ := List.exists_cons_of_ne_nil hrest.ne_nil.1
    obtain ⟨c,p,hp⟩ := List.exists_cons_of_ne_nil (l := text++46 :: d :: more) (by simp)
    rw [hp] at hpart ⊢
    rw [atonParts,hpart]
    simp [hmore]

theorem atonAddress_limit {i : ℕ} (hi : i < 4) (octet : ℕ) :
    0xffffffff >>> (i*8) < octet ↔ 256^(4-i) ≤ octet := by
  have hshift : (0xffffffff >>> (i*8))+1=256^(4-i) := by
    revert i
    decide
  rw [← hshift]
  exact Nat.lt_iff_add_one_le

/-- A number below a power of 256 goes into the zeros under a multiple of it. -/
theorem or_eq_add (a k : ℕ) {b : ℕ} (hb : b < 256^k) : a*256^k ||| b=a*256^k+b := by
  have hpow : 256^k=2^(8*k) := (Nat.pow_mul 2 8 k).symm
  rw [hpow] at hb ⊢
  rw [← Nat.shiftLeft_eq,Nat.shiftLeft_add_eq_or_of_lt hb]

theorem or_next {i : ℕ} (a : ℕ) (hi : i < 3) (octet : ℕ) (hoctet : octet < 256) :
    a*256^(4-i) ||| octet <<< (8*(3-i))=(a*256+octet)*256^(4-(i+1)) := by
  have hexp : 4-i=3-i+1 := by omega
  have hnext : 4-(i+1)=3-i := by omega
  have hpow : 2^(8*(3-i))=256^(3-i) := Nat.pow_mul 2 8 (3-i)
  have hbound : octet*256^(3-i) < 256^(3-i+1) := by
    rw [Nat.pow_succ,Nat.mul_comm]
    exact Nat.mul_lt_mul_of_pos_left hoctet (Nat.pow_pos (by decide))
  rw [Nat.shiftLeft_eq,hpow,hexp,or_eq_add _ _ hbound,hnext,Nat.pow_succ,Nat.add_mul,
    Nat.mul_assoc,Nat.mul_comm 256]

theorem atonAddress_iff {octets : List ℕ} {i a v : ℕ} (hlen : i+octets.length ≤ 4) :
    atonAddress i (a*256^(4-i)) octets=some v ↔
      ∃ bytes last high,octets=bytes++[last] ∧ value some 256 bytes a=some high ∧
        last < 256^(4-i-bytes.length) ∧ v=high*256^(4-i-bytes.length)+last := by
  induction octets generalizing i a with
  | nil => simp [atonAddress]
  | cons octet octets ih =>
    rw [List.length_cons] at hlen
    rcases octets with _|⟨next,octets⟩
    · rw [atonAddress]
      have hlimit := atonAddress_limit (i := i) (by omega) octet
      constructor
      · intro h
        by_cases hlarge : 0xffffffff >>> (i*8) < octet
        · rw [if_pos hlarge] at h
          cases h
        have hsmall : octet < 256^(4-i) := Nat.lt_of_not_le (mt hlimit.mpr hlarge)
        rw [if_neg hlarge,or_eq_add _ _ hsmall] at h
        exact ⟨[],octet,a,rfl,rfl,hsmall,(Option.some.inj h).symm⟩
      · intro h
        obtain ⟨bytes,last,high,hbytes,hhigh,hlast,hv⟩ := h
        rcases bytes with _|⟨b,bytes⟩
        · cases hbytes
          cases hhigh
          have hsmall : octet < 256^(4-i) := hlast
          rw [if_neg (mt hlimit.mp (Nat.not_le.mpr hsmall)),or_eq_add _ _ hsmall,hv]
          rfl
        · simp at hbytes
    · rw [atonAddress]
      · have hnext := or_next (i := i) a (by simp at hlen; omega)
        have hsub {bytes : List ℕ} : 4-i-(octet :: bytes).length=4-(i+1)-bytes.length := by
          rw [List.length_cons]
          omega
        constructor
        · intro h
          by_cases hlarge : 0xff < octet
          · rw [if_pos hlarge] at h
            cases h
          have hoctet : octet < 256 := by omega
          rw [if_neg hlarge,hnext octet hoctet] at h
          obtain ⟨bytes,last,high,hbytes,hhigh,hlast,hv⟩ := (ih (by simp at hlen ⊢; omega)).mp h
          exact ⟨octet :: bytes,last,high,by rw [hbytes]; rfl,
            value_cons.mpr ⟨octet,rfl,hoctet,hhigh⟩,by rwa [hsub],by rwa [hsub]⟩
        · intro h
          obtain ⟨bytes,last,high,hbytes,hhigh,hlast,hv⟩ := h
          rcases bytes with _|⟨b,bytes⟩
          · simp at hbytes
          obtain ⟨rfl,hmore⟩ := List.cons.inj hbytes
          obtain ⟨_,hb,hoctet,hhigh⟩ := value_cons.mp hhigh
          cases hb
          rw [hsub] at hlast hv
          rw [if_neg (by omega),hnext octet hoctet]
          exact (ih (by simp at hlen ⊢; omega)).mpr
            ⟨bytes,last,high,hmore,hhigh,hlast,hv⟩
      · rintro ⟨⟩

theorem AddressValue.le {octets : List ℕ} {v : ℕ} (h : AddressValue octets v) :
    octets.length ≤ 4 ∧ ∀ w∈octets,w ≤ 0xffffffff := by
  obtain ⟨bytes,last,high,rfl,hlen,hhigh,hlast,-⟩ := h
  constructor
  · rw [List.length_append,List.length_singleton]
    exact hlen
  · have hpow : 256^(4-bytes.length) ≤ 256^4 := Nat.pow_le_pow_right (by decide) (Nat.sub_le 4 _)
    intro w hw
    rcases List.mem_append.mp hw with hw|hw
    · obtain ⟨_,hbyte,hlt⟩ := digit_lt hhigh w hw
      cases hbyte
      omega
    · rw [List.mem_singleton.mp hw]
      omega

/-- What inet_aton takes is the C numbers of an address, and their address is what it returns. -/
theorem inetAton_iff (e : Endian) (s : CStr) (a : UInt32) :
    inetAton e s=some a ↔
      ∃ octets v,AddressText s.bytes octets ∧ AddressValue octets v ∧
        a=htonl e (UInt32.ofNat v) := by
  constructor
  · intro h
    obtain ⟨octets,hparts,h⟩ := Option.bind_eq_some_iff.mp h
    by_cases hnil : octets=[]
    · rw [if_pos hnil] at h
      cases h
    rw [if_neg hnil] at h
    obtain ⟨v,haddr,h⟩ := Option.bind_eq_some_iff.mp h
    obtain ⟨htext,hlen⟩ := atonParts_sound 4 hparts hnil
    have hzero : atonAddress 0 (0*256^(4-0)) octets=some v := by rwa [Nat.zero_mul]
    obtain ⟨bytes,last,high,hbytes,hvalue⟩ := (atonAddress_iff (by omega)).mp hzero
    have hshort : bytes.length < 4 := by
      rw [hbytes,List.length_append,List.length_singleton] at hlen
      exact hlen
    exact ⟨octets,v,htext,⟨bytes,last,high,hbytes,hshort,hvalue⟩,(Option.some.inj h).symm⟩
  · intro h
    obtain ⟨octets,v,htext,hvalue,rfl⟩ := h
    obtain ⟨hlen,hsmall⟩ := hvalue.le
    obtain ⟨bytes,last,high,hbytes,hshort,hvalue⟩ := hvalue
    have haddr := (atonAddress_iff (i := 0) (by omega)).mpr ⟨bytes,last,high,hbytes,hvalue⟩
    rw [Nat.zero_mul] at haddr
    rw [inetAton,atonParts_complete htext hlen hsmall]
    simp [htext.ne_nil.2,haddr]

theorem atonDigit_digit {k : ℕ} (hk : k < 10) :
    atonDigit (UInt8.ofNat (48+k))=some k ∧ (UInt8.ofNat (48+k)=48 ↔ k=0) := by
  revert k
  decide

theorem partText_byteText (last : Bool) (b : UInt8) : PartText last (byteText b) b.toNat := by
  have hb := b.toNat_lt
  rw [byteText]
  by_cases hten : b.toNat < 10
  · simp only [if_pos hten]
    obtain ⟨hd,hzero⟩ := atonDigit_digit hten
    by_cases h0 : b.toNat=0
    · rw [hzero.mpr h0,h0]
      exact .octal rfl
    · exact .decimal (mt hzero.mp h0)
        (value_cons.mpr ⟨_,hd,hten,by simp [value]⟩)
  simp only [if_neg hten]
  by_cases hhundred : b.toNat < 100
  · simp only [if_pos hhundred]
    have hhigh : b.toNat/10 < 10 := by omega
    have hlow : b.toNat % 10 < 10 := by omega
    obtain ⟨hd,hzero⟩ := atonDigit_digit hhigh
    have hvalue : (0*10+b.toNat/10)*10+b.toNat % 10=b.toNat := by omega
    exact .decimal (mt hzero.mp (by omega)) (value_cons.mpr ⟨_,hd,hhigh,
      value_cons.mpr ⟨_,(atonDigit_digit hlow).1,hlow,congrArg some hvalue⟩⟩)
  · simp only [if_neg hhundred]
    have hhigh : b.toNat/100 < 10 := by omega
    have hmid : b.toNat/10 % 10 < 10 := by omega
    have hlow : b.toNat % 10 < 10 := by omega
    obtain ⟨hd,hzero⟩ := atonDigit_digit hhigh
    have hvalue : ((0*10+b.toNat/100)*10+b.toNat/10 % 10)*10+b.toNat % 10=b.toNat := by omega
    exact .decimal (mt hzero.mp (by omega)) (value_cons.mpr ⟨_,hd,hhigh,
      value_cons.mpr ⟨_,(atonDigit_digit hmid).1,hmid,
        value_cons.mpr ⟨_,(atonDigit_digit hlow).1,hlow,congrArg some hvalue⟩⟩⟩)

theorem PartText.nulFree {last : Bool} {text : List UInt8} {v : ℕ} (h : PartText last text v) :
    0∉text := by
  have hdigits {base : ℕ} {digits : List UInt8} (h : value atonDigit base digits 0=some v) :
      0∉digits := by
    intro hm
    obtain ⟨i,hi,-⟩ := digit_lt h 0 hm
    cases hi
  cases h with
  | decimal hc h => exact hdigits h
  | octal h => simp [hdigits h]
  | hex hne h => simp [hdigits h]

theorem inetNtoa_bytes (e : Endian) (addr : UInt32) :
    (inetNtoa e addr).bytes=[46].intercalate ((store32 e addr).map byteText) := by
  apply List.takeWhile_eq_self_iff.mpr
  intro c hc
  have hne : c≠0 := by
    rintro rfl
    rw [store32_eq] at hc
    simp [be32,List.intercalate,List.intersperse,(partText_byteText true _).nulFree] at hc
  simpa using hne

theorem byteText_length (b : UInt8) : (byteText b).length ≤ 3 := by
  rw [byteText]
  split_ifs <;> simp

theorem inetNtoa_text (e : Endian) (addr : UInt32) :
    ∃ p q r t : UInt8,(inetNtoa e addr).bytes=
        byteText p++46 :: (byteText q++46 :: (byteText r++46 :: byteText t)) ∧
      (ntohl e addr).toNat=((p.toNat*256+q.toNat)*256+r.toNat)*256+t.toNat := by
  obtain ⟨a,b,c,d,ha,hb,hc,hd,hx⟩ := digits32 (ntohl e addr)
  obtain ⟨-,h1,-,h2,-,h3,-,h4⟩ := bytes32 (ntohl e addr).toNat a b c d ha hb hc hd hx
  have hsum := hx.trans (Masks.horner a b c d)
  rw [← h1,← h2,← h3,← h4,← UInt8.toNat_ofNat',← UInt8.toNat_ofNat',← UInt8.toNat_ofNat',
    ← UInt8.toNat_ofNat'] at hsum
  refine ⟨_,_,_,_,?_,hsum⟩
  rw [inetNtoa_bytes,store32_eq]
  simp [be32,List.intercalate]

theorem inetNtoa_length (e : Endian) (addr : UInt32) : (inetNtoa e addr).bytes.length < 16 := by
  obtain ⟨p,q,r,t,hbytes,-⟩ := inetNtoa_text e addr
  have hp := byteText_length p
  have hq := byteText_length q
  have hr := byteText_length r
  have ht := byteText_length t
  rw [hbytes]
  simp only [List.length_append,List.length_cons]
  omega

theorem inetAton_inetNtoa (e : Endian) (addr : UInt32) :
    inetAton e (inetNtoa e addr)=some addr := by
  obtain ⟨p,q,r,t,hbytes,hsum⟩ := inetNtoa_text e addr
  have htext : AddressText (inetNtoa e addr).bytes [p.toNat,q.toNat,r.toNat,t.toNat] := by
    rw [hbytes]
    exact .dot (partText_byteText _ p) (.dot (partText_byteText _ q)
      (.dot (partText_byteText _ r) (.last (partText_byteText _ t))))
  have hhigh : value some 256 [p.toNat,q.toNat,r.toNat] 0=
      some (((0*256+p.toNat)*256+q.toNat)*256+r.toNat) :=
    value_cons.mpr ⟨_,rfl,p.toNat_lt,value_cons.mpr ⟨_,rfl,q.toNat_lt,
      value_cons.mpr ⟨_,rfl,r.toNat_lt,rfl⟩⟩⟩
  rw [Nat.zero_mul,Nat.zero_add] at hhigh
  have hvalue : AddressValue [p.toNat,q.toNat,r.toNat,t.toNat] (ntohl e addr).toNat :=
    ⟨[p.toNat,q.toNat,r.toNat],t.toNat,_,rfl,Nat.lt_succ_self 3,hhigh,by simpa using t.toNat_lt,
      hsum⟩
  refine (inetAton_iff e _ addr).mpr ⟨_,_,htext,hvalue,?_⟩
  rw [UInt32.ofNat_toNat]
  exact (ntohl_htonl e addr).symm

theorem inetNtop_ok (e : Endian) (addr : UInt32) (af size : ℕ) (dst : CStr) :
    inetNtop e af addr size=.ok dst ↔ af=afInet ∧ 16 ≤ size ∧ dst=inetNtoa e addr := by
  have hcopy (hsize : 16 ≤ size) : (inetNtoa e addr).strlcpy size=inetNtoa e addr := by
    have hlen := inetNtoa_length e addr
    ext1
    exact List.take_of_length_le (by omega)
  rw [inetNtop]
  by_cases haf : af=afInet
  · by_cases hsize : size < 16
    · simp [haf,hsize,Nat.not_le.mpr hsize]
    · simp [haf,hsize,Nat.le_of_not_lt hsize,hcopy (Nat.le_of_not_lt hsize),eq_comm]
  · simp [haf]

/-- inet_aton takes the C numbers of an address and nothing else. What inet_ntoa prints fits
its buffer, is what inet_ntop leaves in any buffer it takes, and is read back by inet_aton. -/
theorem inet_law (e : Endian) :
    (∀ s a,inetAton e s=some a ↔
      ∃ octets v,AddressText s.bytes octets ∧ AddressValue octets v ∧
        a=htonl e (UInt32.ofNat v)) ∧
      ∀ addr,(inetNtoa e addr).bytes.length < 16 ∧ inetAton e (inetNtoa e addr)=some addr ∧
        ∀ af size dst,inetNtop e af addr size=.ok dst ↔
          af=afInet ∧ 16 ≤ size ∧ dst=inetNtoa e addr :=
  ⟨inetAton_iff e,fun addr =>
    ⟨inetNtoa_length e addr,inetAton_inetNtoa e addr,inetNtop_ok e addr⟩⟩

end Lbcd
