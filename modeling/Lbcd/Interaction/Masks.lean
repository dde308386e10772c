import Lbcd.Interaction.ByteOrder

namespace Masks

/-- The highest n bits of a word of w bits, set one after the other. -/
def topBits (w : ℕ) : ℕ → ℕ
  | 0 => 0
  | n+1 => topBits w n ||| 1 <<< (w-1-n)

theorem testBit_topBits {w n : ℕ} (hn : n ≤ w) (j : ℕ) :
    (topBits w n).testBit j=decide (w-n ≤ j ∧ j < w) := by
  induction n with
  | zero =>
    rw [topBits,Nat.zero_testBit]
    symm
    rw [decide_eq_false_iff_not]
    omega
  | succ n ih =>
    rw [topBits,Nat.testBit_or,ih (by omega),Nat.one_shiftLeft,Nat.testBit_two_pow,
      ← Bool.decide_or]
    apply decide_eq_decide.mpr
    omega

theorem topBits_lt {w n : ℕ} (hn : n ≤ w) : topBits w n < 2^w := by
  apply Nat.lt_pow_two_of_testBit
  intro j hj
  rw [testBit_topBits hn,decide_eq_false_iff_not]
  omega

/-- Words under such a mask agree exactly if their highest bits do. -/
theorem and_topBits_eq_iff {w n a b : ℕ} (hn : n ≤ w) (ha : a < 2^w) (hb : b < 2^w) :
    a &&& topBits w n=b &&& topBits w n ↔ a/2^(w-n)=b/2^(w-n) := by
  constructor
  · intro h
    apply Nat.eq_of_testBit_eq
    intro j
    have hj := congrArg (fun x => Nat.testBit x (j+(w-n))) h
    simp only [Nat.testBit_and,testBit_topBits hn] at hj
    rw [Nat.testBit_div_two_pow,Nat.testBit_div_two_pow]
    by_cases hlt : j+(w-n) < w
    · simpa [hlt] using hj
    · have hpow : 2^w ≤ 2^(j+(w-n)) := Nat.pow_le_pow_right (by decide) (Nat.le_of_not_lt hlt)
      rw [Nat.testBit_lt_two_pow (Nat.lt_of_lt_of_le ha hpow),
        Nat.testBit_lt_two_pow (Nat.lt_of_lt_of_le hb hpow)]
  · intro h
    apply Nat.eq_of_testBit_eq
    intro j
    rw [Nat.testBit_and,Nat.testBit_and,testBit_topBits hn]
    by_cases hj : w-n ≤ j ∧ j < w
    · have hbit := congrArg (fun x => Nat.testBit x (j-(w-n))) h
      simp only [Nat.testBit_div_two_pow,Nat.sub_add_cancel hj.1] at hbit
      rw [hbit]
    · rw [decide_eq_false hj,Bool.and_false,Bool.and_false]

/-- The conjunction of words from those of their parts. -/
theorem mul_add_and {k a b c d : ℕ} (hb : b < 2^k) (hd : d < 2^k) :
    (a*2^k+b) &&& (c*2^k+d)=(a &&& c)*2^k+(b &&& d) := by
  have hpos : 0 < 2^k := Nat.two_pow_pos k
  have hdiv {x y : ℕ} (hy : y < 2^k) : (x*2^k+y)/2^k=x := by
    rw [Nat.add_comm,Nat.add_mul_div_right _ _ hpos,Nat.div_eq_of_lt hy,Nat.zero_add]
  have hmod {x y : ℕ} (hy : y < 2^k) : (x*2^k+y) % 2^k=y := by
    rw [Nat.add_comm,Nat.add_mul_mod_self_right,Nat.mod_eq_of_lt hy]
  have hparts := Nat.div_add_mod ((a*2^k+b) &&& (c*2^k+d)) (2^k)
  rw [Nat.and_div_two_pow,Nat.and_mod_two_pow,hdiv hb,hdiv hd,hmod hb,hmod hd,
    Nat.mul_comm] at hparts
  exact hparts.symm

/-- The highest bits of a number of a byte and what follows it. -/
theorem append_div_eq_iff {v x y a b : ℕ} (ha : a < 2^v) (hb : b < 2^v) {m : ℕ} (hm : m ≤ v) :
    (x*2^v+a)/2^(v-m)=(y*2^v+b)/2^(v-m) ↔ x=y ∧ a/2^(v-m)=b/2^(v-m) := by
  have hpow : 2^v=2^m*2^(v-m) := by
    rw [← Nat.pow_add]
    congr 1
    omega
  have hpos : 0 < 2^(v-m) := Nat.two_pow_pos _
  have hsplit (z c : ℕ) : (z*2^v+c)/2^(v-m)=z*2^m+c/2^(v-m) := by
    rw [hpow,← Nat.mul_assoc,Nat.add_comm,Nat.add_mul_div_right _ _ hpos,Nat.add_comm]
  have hlow {c : ℕ} (hc : c < 2^v) : c/2^(v-m) < 2^m := by
    rw [Nat.div_lt_iff_lt_mul hpos,← hpow]
    exact hc
  have hla := hlow ha
  have hlb := hlow hb
  rw [hsplit,hsplit]
  constructor
  · intro h
    have hdiv := congrArg (·/2^m) h
    have hmod := congrArg (·%2^m) h
    simp only [Nat.add_comm _ (_/_),Nat.add_mul_div_right _ _ (Nat.two_pow_pos m),
      Nat.add_mul_mod_self_right,Nat.div_eq_of_lt hla,Nat.div_eq_of_lt hlb,
      Nat.mod_eq_of_lt hla,Nat.mod_eq_of_lt hlb,Nat.zero_add] at hdiv hmod
    exact ⟨hdiv,hmod⟩
  · rintro ⟨rfl,h⟩
    rw [h]

/-- Fewer bits are those of the first part. -/
theorem append_div_high {v x a n : ℕ} (ha : a < 2^v) :
    (x*2^v+a)/2^(n+v)=x/2^n := by
  rw [Nat.add_comm n v,Nat.pow_add,← Nat.div_div_eq_div_mul,Nat.add_comm,
    Nat.add_mul_div_right _ _ (Nat.two_pow_pos v),Nat.div_eq_of_lt ha,Nat.zero_add]

theorem horner (p q r t : ℕ) : p*16777216+q*65536+r*256+t=((p*256+q)*256+r)*256+t := by
  omega

theorem bytes_and {p q r t p' q' r' t' : ℕ} (hq : q < 256) (hr : r < 256) (ht : t < 256)
    (hq' : q' < 256) (hr' : r' < 256) (ht' : t' < 256) :
    (p*16777216+q*65536+r*256+t) &&& (p'*16777216+q'*65536+r'*256+t')=
      (p &&& p')*16777216+(q &&& q')*65536+(r &&& r')*256+(t &&& t') := by
  have h1 := mul_add_and (k := 8) (a := (p*256+q)*256+r) (c := (p'*256+q')*256+r') ht ht'
  have h2 := mul_add_and (k := 8) (a := p*256+q) (c := p'*256+q') hr hr'
  have h3 := mul_add_and (k := 8) (a := p) (c := p') hq hq'
  simp only [Nat.reducePow] at h1 h2 h3
  rw [h2,h3] at h1
  rw [horner,horner,h1,horner]

end Masks

namespace ByteOrder

/-- The exchange of bytes is one of each bit. -/
theorem swap32_and (x y : UInt32) : swap32 (x &&& y)=swap32 x &&& swap32 y := by
  obtain ⟨a,b,c,d,ha,hb,hc,hd,hx⟩ := digits32 x
  obtain ⟨a',b',c',d',ha',hb',hc',hd',hy⟩ := digits32 y
  have hand {n m : ℕ} (hn : n < 256) : n &&& m < 256 := Nat.lt_of_le_of_lt Nat.and_le_left hn
  have hxy : (x &&& y).toNat=
      (a &&& a')*16777216+(b &&& b')*65536+(c &&& c')*256+(d &&& d') := by
    rw [UInt32.toNat_and,hx,hy,Masks.bytes_and hb hc hd hb' hc' hd']
  apply UInt32.toNat_inj.mp
  rw [swap32_digits _ _ _ _ _ (hand ha) (hand hb) (hand hc) (hand hd) hxy,UInt32.toNat_and,
    swap32_digits x a b c d ha hb hc hd hx,swap32_digits y a' b' c' d' ha' hb' hc' hd' hy,
    Masks.bytes_and hc hb ha hc' hb' ha']

theorem htonl_and (e : Endian) (x y : UInt32) : htonl e (x &&& y)=htonl e x &&& htonl e y := by
  cases e with
  | little => exact swap32_and x y
  | big => rfl

end ByteOrder
