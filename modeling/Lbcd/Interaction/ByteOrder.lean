import Mathlib.Algebra.Group.Nat.Defs
import Mathlib.Tactic.Common

namespace ByteOrder

/-- Order in which the machine stores the bytes of a word. -/
inductive Endian where
  | little
  | big
  deriving DecidableEq

def swap16 (x : UInt16) : UInt16 := UInt16.ofNat (x.toNat%256*256+x.toNat/256)

def swap32 (x : UInt32) : UInt32 :=
  UInt32.ofNat (x.toNat%256*16777216+x.toNat/256%256*65536+x.toNat/65536%256*256+
    x.toNat/16777216)

/-- Host to network order; the same exchange of bytes leads back. -/
def htons : Endian → UInt16 → UInt16
  | .little,x => swap16 x
  | .big,x => x

def htonl : Endian → UInt32 → UInt32
  | .little,x => swap32 x
  | .big,x => x

def ntohs (e : Endian) (x : UInt16) : UInt16 := htons e x

def ntohl (e : Endian) (x : UInt32) : UInt32 := htonl e x

/-- Bytes of a number in network order. -/
def be16 (x : UInt16) : List UInt8 := [UInt8.ofNat (x.toNat/256),UInt8.ofNat x.toNat]

def be32 (x : UInt32) : List UInt8 :=
  [UInt8.ofNat (x.toNat/16777216),UInt8.ofNat (x.toNat/65536),
    UInt8.ofNat (x.toNat/256),UInt8.ofNat x.toNat]

def ofBe16 (a b : UInt8) : UInt16 := UInt16.ofNat (a.toNat*256+b.toNat)

def ofBe32 (a b c d : UInt8) : UInt32 :=
  UInt32.ofNat (a.toNat*16777216+b.toNat*65536+c.toNat*256+d.toNat)

/-- Bytes of a word as the machine lays it out in memory. -/
def store16 : Endian → UInt16 → List UInt8
  | .little,x => [UInt8.ofNat x.toNat,UInt8.ofNat (x.toNat/256)]
  | .big,x => be16 x

def store32 : Endian → UInt32 → List UInt8
  | .little,x => [UInt8.ofNat x.toNat,UInt8.ofNat (x.toNat/256),
      UInt8.ofNat (x.toNat/65536),UInt8.ofNat (x.toNat/16777216)]
  | .big,x => be32 x

def load16 : Endian → UInt8 → UInt8 → UInt16
  | .little,a,b => ofBe16 b a
  | .big,a,b => ofBe16 a b

def load32 : Endian → UInt8 → UInt8 → UInt8 → UInt8 → UInt32
  | .little,a,b,c,d => ofBe32 d c b a
  | .big,a,b,c,d => ofBe32 a b c d

/-- The bytes of a number, most significant first. -/
theorem digits16 (x : UInt16) : ∃ a b : ℕ,a < 256 ∧ b < 256 ∧ x.toNat=a*256+b := by
  have hx := x.toNat_lt
  exact ⟨x.toNat/256,x.toNat%256,by omega,by omega,by omega⟩

theorem digits32 (x : UInt32) : ∃ a b c d : ℕ,a < 256 ∧ b < 256 ∧ c < 256 ∧ d < 256 ∧
    x.toNat=a*16777216+b*65536+c*256+d := by
  have hx := x.toNat_lt
  exact ⟨x.toNat/16777216,x.toNat/65536%256,x.toNat/256%256,x.toNat%256,
    by omega,by omega,by omega,by omega,by omega⟩

theorem bytes16 (n a b : ℕ) (ha : a < 256) (hb : b < 256) (h : n=a*256+b) :
    n/256=a ∧ n/256%2^8=a ∧ n%256=b ∧ n%2^8=b := by
  refine ⟨?_,?_,?_,?_⟩ <;> omega

theorem bytes32 (n a b c d : ℕ) (ha : a < 256) (hb : b < 256) (hc : c < 256) (hd : d < 256)
    (h : n=a*16777216+b*65536+c*256+d) :
    n/16777216=a ∧ n/16777216%2^8=a ∧ n/65536%256=b ∧ n/65536%2^8=b ∧
      n/256%256=c ∧ n/256%2^8=c ∧ n%256=d ∧ n%2^8=d := by
  have h1 : n/256=a*65536+b*256+c := by omega
  have h2 : n/65536=a*256+b := by omega
  have h3 : n/16777216=a := by omega
  rw [h1,h2,h3]
  refine ⟨?_,?_,?_,?_,?_,?_,?_,?_⟩ <;> omega

theorem swap16_digits (x : UInt16) (a b : ℕ) (ha : a < 256) (hb : b < 256)
    (h : x.toNat=a*256+b) : (swap16 x).toNat=b*256+a := by
  obtain ⟨h1,-,h2,-⟩ := bytes16 x.toNat a b ha hb h
  rw [swap16,h1,h2,UInt16.toNat_ofNat']
  omega

theorem swap32_digits (x : UInt32) (a b c d : ℕ) (ha : a < 256) (hb : b < 256) (hc : c < 256)
    (hd : d < 256) (h : x.toNat=a*16777216+b*65536+c*256+d) :
    (swap32 x).toNat=d*16777216+c*65536+b*256+a := by
  obtain ⟨h1,-,h2,-,h3,-,h4,-⟩ := bytes32 x.toNat a b c d ha hb hc hd h
  rw [swap32,h1,h2,h3,h4,UInt32.toNat_ofNat']
  omega

theorem ofBe16_toNat (a b : UInt8) : (ofBe16 a b).toNat=a.toNat*256+b.toNat := by
  have ha := a.toNat_lt
  have hb := b.toNat_lt
  rw [ofBe16,UInt16.toNat_ofNat']
  omega

theorem ofBe32_toNat (a b c d : UInt8) :
    (ofBe32 a b c d).toNat=a.toNat*16777216+b.toNat*65536+c.toNat*256+d.toNat := by
  have ha := a.toNat_lt
  have hb := b.toNat_lt
  have hc := c.toNat_lt
  have hd := d.toNat_lt
  rw [ofBe32,UInt32.toNat_ofNat']
  omega

@[simp] theorem ntohs_htons (e : Endian) (x : UInt16) : ntohs e (htons e x)=x := by
  cases e with
  | big => rfl
  | little =>
    obtain ⟨a,b,ha,hb,hx⟩ := digits16 x
    have hs := swap16_digits x a b ha hb hx
    apply UInt16.toNat_inj.mp
    exact (swap16_digits (swap16 x) b a hb ha hs).trans hx.symm

@[simp] theorem ntohl_htonl (e : Endian) (x : UInt32) : ntohl e (htonl e x)=x := by
  cases e with
  | big => rfl
  | little =>
    obtain ⟨a,b,c,d,ha,hb,hc,hd,hx⟩ := digits32 x
    have hs := swap32_digits x a b c d ha hb hc hd hx
    apply UInt32.toNat_inj.mp
    exact (swap32_digits (swap32 x) d c b a hd hc hb ha hs).trans hx.symm

theorem htonl_injective (e : Endian) : Function.Injective (htonl e) :=
  Function.LeftInverse.injective (ntohl_htonl e)

/-- A word converted to network order is stored most significant byte first on
either kind of machine. -/
@[simp] theorem store16_htons (e : Endian) (x : UInt16) : store16 e (htons e x)=be16 x := by
  cases e with
  | big => rfl
  | little =>
    obtain ⟨a,b,ha,hb,hx⟩ := digits16 x
    obtain ⟨-,h1,-,h2⟩ := bytes16 x.toNat a b ha hb hx
    obtain ⟨-,k1,-,k2⟩ := bytes16 (swap16 x).toNat b a hb ha (swap16_digits x a b ha hb hx)
    simp only [store16,htons,be16,List.cons.injEq,← UInt8.toNat_inj,
      UInt8.toNat_ofNat',h1,h2,k1,k2,and_self]

@[simp] theorem store32_htonl (e : Endian) (x : UInt32) : store32 e (htonl e x)=be32 x := by
  cases e with
  | big => rfl
  | little =>
    obtain ⟨a,b,c,d,ha,hb,hc,hd,hx⟩ := digits32 x
    obtain ⟨-,h1,-,h2,-,h3,-,h4⟩ := bytes32 x.toNat a b c d ha hb hc hd hx
    obtain ⟨-,k1,-,k2,-,k3,-,k4⟩ := bytes32 (swap32 x).toNat d c b a hd hc hb ha
      (swap32_digits x a b c d ha hb hc hd hx)
    simp only [store32,htonl,be32,List.cons.injEq,← UInt8.toNat_inj,
      UInt8.toNat_ofNat',h1,h2,h3,h4,k1,k2,k3,k4,and_self]

/-- The bytes of a word in memory are those of its value in host order, most significant
byte first, when the word is in network order. -/
theorem store16_eq (e : Endian) (x : UInt16) : store16 e x=be16 (ntohs e x) := by
  have h := store16_htons e (ntohs e x)
  rwa [show htons e (ntohs e x)=x from ntohs_htons e x] at h

theorem store32_eq (e : Endian) (x : UInt32) : store32 e x=be32 (ntohl e x) := by
  have h := store32_htonl e (ntohl e x)
  rwa [show htonl e (ntohl e x)=x from ntohl_htonl e x] at h

@[simp] theorem ntohs_load16 (e : Endian) (a b : UInt8) :
    ntohs e (load16 e a b)=ofBe16 a b := by
  cases e with
  | big => rfl
  | little =>
    apply UInt16.toNat_inj.mp
    rw [ofBe16_toNat]
    exact swap16_digits (ofBe16 b a) b.toNat a.toNat b.toNat_lt a.toNat_lt (ofBe16_toNat b a)

theorem ofBe16_be16 (x : UInt16) :
    ofBe16 (UInt8.ofNat (x.toNat/256)) (UInt8.ofNat x.toNat)=x := by
  obtain ⟨a,b,ha,hb,hx⟩ := digits16 x
  obtain ⟨-,h1,-,h2⟩ := bytes16 x.toNat a b ha hb hx
  apply UInt16.toNat_inj.mp
  rw [ofBe16_toNat,UInt8.toNat_ofNat',UInt8.toNat_ofNat',h1,h2,hx]

theorem ofBe32_be32 (x : UInt32) :
    ofBe32 (UInt8.ofNat (x.toNat/16777216)) (UInt8.ofNat (x.toNat/65536))
      (UInt8.ofNat (x.toNat/256)) (UInt8.ofNat x.toNat)=x := by
  obtain ⟨a,b,c,d,ha,hb,hc,hd,hx⟩ := digits32 x
  obtain ⟨-,h1,-,h2,-,h3,-,h4⟩ := bytes32 x.toNat a b c d ha hb hc hd hx
  apply UInt32.toNat_inj.mp
  rw [ofBe32_toNat,UInt8.toNat_ofNat',UInt8.toNat_ofNat',UInt8.toNat_ofNat',
    UInt8.toNat_ofNat',h1,h2,h3,h4,hx]

/-- What is loaded from memory is stored as it was. -/
@[simp] theorem store32_load32 (e : Endian) (a b c d : UInt8) :
    store32 e (load32 e a b c d)=[a,b,c,d] := by
  have hbytes (p q r t : UInt8) := bytes32 (ofBe32 p q r t).toNat p.toNat q.toNat r.toNat t.toNat
    p.toNat_lt q.toNat_lt r.toNat_lt t.toNat_lt (ofBe32_toNat p q r t)
  cases e with
  | big =>
    obtain ⟨-,h1,-,h2,-,h3,-,h4⟩ := hbytes a b c d
    simp only [store32,load32,be32,List.cons.injEq,← UInt8.toNat_inj,UInt8.toNat_ofNat',
      h1,h2,h3,h4,and_self]
  | little =>
    obtain ⟨-,h1,-,h2,-,h3,-,h4⟩ := hbytes d c b a
    simp only [store32,load32,List.cons.injEq,← UInt8.toNat_inj,UInt8.toNat_ofNat',
      h1,h2,h3,h4,and_self]

@[simp] theorem store16_length (e : Endian) (x : UInt16) : (store16 e x).length=2 := by
  cases e <;> rfl

@[simp] theorem store32_length (e : Endian) (x : UInt32) : (store32 e x).length=4 := by
  cases e <;> rfl

@[simp] theorem be16_length (x : UInt16) : (be16 x).length=2 := rfl

end ByteOrder
