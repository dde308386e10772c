import Mathlib.Algebra.Group.Int.Defs
import Mathlib.Algebra.Group.Nat.Defs
import Mathlib.Data.List.TakeWhile
import Mathlib.Data.List.Infix

namespace CText

/-- A C string, by the bytes before its terminating NUL. -/
@[ext] structure CStr where
  bytes : List UInt8
  nulFree : 0∉bytes
  deriving DecidableEq

def isdigit (c : UInt8) : Bool := 48 ≤ c.toNat && c.toNat ≤ 57

def isspace (c : UInt8) : Bool := c.toNat==32 || (9 ≤ c.toNat && c.toNat ≤ 13)

/-- The number that a run of decimal digits denotes. -/
def digitsValue (ds : List UInt8) : ℕ := ds.foldl (fun n d => 10*n+(d.toNat-48)) 0

/-- Two's complement truncation to n bits. -/
def wrapInt (n : ℕ) (v : ℤ) : ℤ := v.bmod (2^n)

/-- Reads an optional sign and decimal digits; none without a digit. -/
def scanInt (bs : List UInt8) : Option (ℤ × List UInt8) :=
  let bs := bs.dropWhile isspace
  let (neg,bs) := match bs with
    | 45 :: t => (true,t)
    | 43 :: t => (false,t)
    | t => (false,t)
  let ds := bs.takeWhile isdigit
  if ds=[] then none
  else some (if neg then -(digitsValue ds : ℤ) else digitsValue ds,bs.dropWhile isdigit)

/-- The suffix of a buffer from the first occurrence of a text on. -/
def strstr (needle : List UInt8) : List UInt8 → Option (List UInt8)
  | [] => if needle=[] then some [] else none
  | b :: bs => if needle<+:b :: bs then some (b :: bs) else strstr needle bs

theorem strstr_cons {needle bs : List UInt8} {b : UInt8} :
    strstr needle (b :: bs)=
      if needle<+:b :: bs then some (b :: bs) else strstr needle bs := rfl

theorem strstr_found {needle bs found : List UInt8} (h : strstr needle bs=some found) :
    found<:+bs ∧ needle<+:found := by
  induction bs with
  | nil =>
    rw [strstr] at h
    split_ifs at h with hn
    cases h
    exact ⟨List.suffix_refl _,hn ▸ List.prefix_refl _⟩
  | cons b bs ih =>
    rw [strstr_cons] at h
    split_ifs at h with hb
    · cases h
      exact ⟨List.suffix_refl _,hb⟩
    · exact ⟨(ih h).1.trans (List.suffix_cons b bs),(ih h).2⟩

/-- Text that follows an occurrence does not change where the first one is. -/
theorem strstr_append_of_some {needle bs found : List UInt8} (h : strstr needle bs=some found)
    (more : List UInt8) : strstr needle (bs++more)=some (found++more) := by
  induction bs with
  | nil =>
    rw [strstr] at h
    split_ifs at h with hn
    cases h
    cases more with
    | nil => rw [hn]; rfl
    | cons b bs => rw [hn,List.nil_append,strstr_cons,if_pos List.nil_prefix]
  | cons b bs ih =>
    rw [strstr_cons] at h
    split_ifs at h with hb
    · cases h
      exact if_pos (hb.trans (List.prefix_append (b :: bs) more))
    · obtain ⟨hsuffix,hbegin⟩ := strstr_found h
      have hlen := hbegin.length_le.trans hsuffix.length_le
      rw [List.cons_append,strstr_cons,if_neg,ih h]
      intro hlong
      refine hb (List.prefix_of_prefix_length_le hlong (List.prefix_append (b :: bs) more) ?_)
      rw [List.length_cons]
      omega

/-- Two different characters do not occur across the end of a text without them. -/
theorem strstr_append_of_none {p q : UInt8} {bs : List UInt8} (hpq : p≠q)
    (h : strstr [p,q] bs=none) (more : List UInt8) :
    strstr [p,q] (bs++p :: q :: more)=some (p :: q :: more) := by
  induction bs with
  | nil => rw [List.nil_append,strstr_cons,if_pos (by simp)]
  | cons b bs ih =>
    rw [strstr_cons] at h
    split_ifs at h with hb
    rw [List.cons_append,strstr_cons,if_neg,ih h]
    cases bs with
    | nil => simp [hpq.symm]
    | cons c bs => simpa using hb

/-- Text on both sides of its only separator, which no character of the text is. -/
theorem separated_iff {p : UInt8 → Bool} {c : UInt8} (hc : p c=false) {bs : List UInt8} :
    (∃ l r,l.all p=true ∧ r.all p=true ∧ bs=l++c :: r) ↔
      (∀ b∈bs,b=c ∨ p b=true) ∧ bs.count c=1 := by
  have hnone {l : List UInt8} (hl : l.all p=true) : c∉l := by
    intro hm
    rw [List.all_eq_true.mp hl c hm] at hc
    cases hc
  constructor
  · intro h
    obtain ⟨l,r,hl,hr,rfl⟩ := h
    refine ⟨fun b hb => ?_,?_⟩
    · rcases List.mem_append.mp hb with hb|hb
      · exact Or.inr (List.all_eq_true.mp hl b hb)
      · rcases List.mem_cons.mp hb with rfl|hb
        · exact Or.inl rfl
        · exact Or.inr (List.all_eq_true.mp hr b hb)
    · rw [List.count_append,List.count_cons_self,List.count_eq_zero.mpr (hnone hl),
        List.count_eq_zero.mpr (hnone hr)]
  · intro h
    obtain ⟨hall,hone⟩ := h
    have hm : c∈bs := List.count_pos_iff.mp (by omega)
    obtain ⟨l,r,rfl,hl⟩ := List.eq_append_cons_of_mem hm
    rw [List.count_append,List.count_cons_self,List.count_eq_zero.mpr hl] at hone
    have hr : c∉r := List.count_eq_zero.mp (by omega)
    have hside {side : List UInt8} (hs : side⊆l++c :: r) (hn : c∉side) : side.all p=true := by
      apply List.all_eq_true.mpr
      intro b hb
      exact (hall b (hs hb)).resolve_left fun he => hn (he ▸ hb)
    refine ⟨l,r,hside (List.subset_append_left _ _) hl,hside ?_ hr,rfl⟩
    exact fun b hb => List.mem_append_right l (List.mem_cons_of_mem c hb)

theorem wrapInt_of_lt {n : ℕ} {v : ℤ} (h0 : 0 ≤ v) (hv : 2*v < 2^n) : wrapInt n v=v := by
  have hcast : ((2^n : ℕ) : ℤ)=2^n := by push_cast; rfl
  unfold wrapInt
  apply Int.bmod_eq_of_le
  · rw [hcast]
    omega
  · rw [hcast]
    omega

theorem wrapInt_neg {v : ℤ} (h : 32768 ≤ v) (hv : v ≤ 65535) : wrapInt 16 v=v-65536 := by
  have hcast : ((2^16 : ℕ) : ℤ)=65536 := rfl
  have hm : v%65536=v := Int.emod_eq_of_lt (by omega) (by omega)
  rw [wrapInt,Int.bmod,hcast,hm,if_neg (by omega)]

/-- A number that is truncated twice. -/
theorem wrapInt_wrapInt (v : ℤ) {m n : ℕ} (h : m ≤ n) :
    wrapInt m (wrapInt n v)=wrapInt m v := by
  apply Int.bmod_bmod_of_dvd
  exact Nat.pow_dvd_pow 2 h

theorem wrapInt_16 (p : ℕ) :
    wrapInt 16 p=if p%65536 < 32768 then ((p%65536 : ℕ) : ℤ) else ((p%65536 : ℕ) : ℤ)-65536 := by
  have hcast : ((2^16 : ℕ) : ℤ)=65536 := rfl
  rw [wrapInt,Int.bmod,hcast]
  split_ifs <;> omega

namespace CStr

/-- The string a buffer holds: its bytes up to the first NUL. -/
def ofBuffer (buf : List UInt8) : CStr :=
  ⟨buf.takeWhile (·≠0),fun h => by simpa using List.mem_takeWhile_imp h⟩

def lit (s : String) : CStr := ofBuffer (s.toList.map fun c => UInt8.ofNat c.toNat)

/-- What strlcpy leaves in a buffer of the given size. -/
def strlcpy (size : ℕ) (s : CStr) : CStr :=
  ⟨s.bytes.take (size-1),fun h => s.nulFree (List.mem_of_mem_take h)⟩

/-- The string cut at the first occurrence of a character. -/
def cutAt (c : UInt8) (s : CStr) : CStr :=
  ⟨s.bytes.takeWhile (·≠c),fun h => s.nulFree ((List.takeWhile_prefix _).subset h)⟩

/-- The rest of the string from the first occurrence of a character on. -/
def strchr (c : UInt8) (s : CStr) : Option CStr :=
  if c∈s.bytes then
    some ⟨s.bytes.dropWhile (·≠c),fun h => s.nulFree ((List.dropWhile_suffix _).subset h)⟩
  else none

/-- The string that starts one character later. -/
def next (s : CStr) : CStr := ⟨s.bytes.tail,fun h => s.nulFree (List.mem_of_mem_tail h)⟩

/-- strncmp finds no difference in the first n characters. -/
def strncmpEq (s t : CStr) (n : ℕ) : Bool := s.bytes.take n=t.bytes.take n

def atoi (s : CStr) : ℤ :=
  match scanInt s.bytes with
  | some (v,_) => wrapInt 32 v
  | none => 0

theorem atoi_digits {s : CStr} (h : s.bytes.all isdigit=true) :
    s.atoi=wrapInt 32 (digitsValue s.bytes) := by
  have htake : s.bytes.takeWhile isdigit=s.bytes :=
    List.takeWhile_eq_self_iff.mpr (List.all_eq_true.mp h)
  cases hs : s.bytes with
  | nil => simp [atoi,hs,scanInt,digitsValue,wrapInt]
  | cons b bs =>
    have hb : isdigit b=true := List.all_eq_true.mp h b (by rw [hs]; exact List.mem_cons_self)
    have hspace : isspace b=false := by
      simp only [isdigit,isspace,Bool.and_eq_true,decide_eq_true_eq] at hb ⊢
      simp
      omega
    have hsign : (match b :: bs with
        | 45 :: t => (true,t)
        | 43 :: t => (false,t)
        | t => (false,t) : Bool × List UInt8)=(false,b :: bs) := by
      split
      next he =>
        obtain ⟨rfl,-⟩ := List.cons.inj he
        exact absurd hb (by decide)
      next he =>
        obtain ⟨rfl,-⟩ := List.cons.inj he
        exact absurd hb (by decide)
      next => rfl
    rw [hs] at htake
    have hscan : scanInt (b :: bs)=
        some ((digitsValue (b :: bs) : ℤ),(b :: bs).dropWhile isdigit) := by
      have hdrop : (b :: bs).dropWhile isspace=b :: bs := by
        rw [List.dropWhile_cons,if_neg (by simp [hspace])]
      unfold scanInt
      simp only [hdrop,hsign,htake]
      rfl
    rw [atoi,hs,hscan]

/-- A text of digits keeps all of them, and denotes what they do. -/
theorem lit_digits {s : String} (h : ∀ c∈s.toList,c.isDigit=true) :
    (lit s).bytes.all isdigit=true ∧ digitsValue (lit s).bytes=Nat.ofDigitChars 10 s.toList 0 := by
  have hdigit : ∀ c : Char,c.isDigit=true → 48 ≤ c.toNat ∧ c.toNat ≤ 57 := by
    intro c hc
    simpa [Char.isDigit,UInt32.le_iff_toNat_le] using hc
  have hchar : ∀ c : Char,c.isDigit=true → (UInt8.ofNat c.toNat).toNat=c.toNat := by
    intro c hc
    have hb := hdigit c hc
    rw [UInt8.toNat_ofNat']
    omega
  have hbytes : (lit s).bytes=s.toList.map fun c => UInt8.ofNat c.toNat := by
    apply List.takeWhile_eq_self_iff.mpr
    intro b hb
    obtain ⟨c,hc,rfl⟩ := List.mem_map.mp hb
    have hne : UInt8.ofNat c.toNat≠0 := by
      intro h0
      have hn := hchar c (h c hc)
      rw [h0] at hn
      have hb := hdigit c (h c hc)
      change 0=c.toNat at hn
      omega
    simpa using hne
  refine ⟨?_,?_⟩
  · rw [hbytes,List.all_map,List.all_eq_true]
    intro c hc
    have hn := hchar c (h c hc)
    have hb := hdigit c (h c hc)
    simp only [Function.comp,isdigit,hn,Bool.and_eq_true,decide_eq_true_eq]
    exact hb
  · rw [hbytes,digitsValue,List.foldl_map,Nat.ofDigitChars_eq_foldl]
    apply List.foldl_ext
    intro n c hc
    rw [hchar c (h c hc)]
    rfl

/-- A number in decimal is a text of digits that denotes the number. -/
theorem lit_toString (n : ℕ) :
    (lit (toString (n : ℤ))).bytes.all isdigit=true ∧
      digitsValue (lit (toString (n : ℤ))).bytes=n := by
  have hchars : (toString (n : ℤ)).toList=Nat.toDigits 10 n := Nat.toList_repr
  have hdigits := lit_digits (s := toString (n : ℤ)) fun c hc => by
    rw [hchars] at hc
    exact Nat.isDigit_of_mem_toDigits (by decide) (by decide) hc
  rw [hchars,Nat.ofDigitChars_ten_toDigits] at hdigits
  exact hdigits

@[simp] theorem ofBuffer_bytes (s : CStr) : ofBuffer s.bytes=s := by
  ext1
  apply List.takeWhile_eq_self_iff.mpr
  intro b hb
  have hne : b≠0 := fun h => s.nulFree (h ▸ hb)
  simpa using hne

/-- A buffer of a string's length and a NUL holds the string if it has its bytes. -/
theorem ofBuffer_concat_zero {bs : List UInt8} {t : CStr} (hlen : bs.length=t.bytes.length) :
    ofBuffer (bs++[0])=t ↔ bs=t.bytes := by
  constructor
  · intro h
    have hbytes : (bs++[0]).takeWhile (fun b => decide (b≠0))=t.bytes := congrArg bytes h
    have hbegin : t.bytes<+:bs++[0] := hbytes ▸ List.takeWhile_prefix _
    have htake := List.prefix_iff_eq_take.mp hbegin
    rw [htake,← hlen,List.take_left]
  · intro h
    have hzero : (0 : UInt8)∉bs := h ▸ t.nulFree
    ext1
    rw [← h]
    change (bs++[0]).takeWhile (fun b => decide (b≠0))=bs
    rw [List.takeWhile_append_of_pos fun b hb => ?_]
    · simp
    · have hne : b≠0 := fun h0 => hzero (h0 ▸ hb)
      simpa using hne

theorem cutAt_of_notMem {c : UInt8} {s : CStr} (h : c∉s.bytes) : s.cutAt c=s := by
  ext1
  apply List.takeWhile_eq_self_iff.mpr
  intro b hb
  have hne : b≠c := fun he => h (he ▸ hb)
  simpa using hne

/-- A string with the character c is its part before c, c and the string after it. -/
theorem eq_cutAt_append {c : UInt8} {s : CStr} (h : c∈s.bytes) :
    ∃ t,s.strchr c=some t ∧ t.bytes=c :: t.next.bytes ∧
      s.bytes=(s.cutAt c).bytes++c :: t.next.bytes := by
  have split := List.takeWhile_append_dropWhile (p := fun b : UInt8 => decide (b≠c)) (l := s.bytes)
  have hd : s.bytes.dropWhile (fun b => decide (b≠c))≠[] := by
    intro he
    have hall := List.dropWhile_eq_nil_iff.mp he c h
    simp at hall
  have hc : s.bytes.dropWhile (fun b => decide (b≠c))=
      c :: (s.bytes.dropWhile (fun b => decide (b≠c))).tail := by
    have hh := List.head_dropWhile_not (fun b => decide (b≠c)) hd
    have he : (s.bytes.dropWhile (fun b => decide (b≠c))).head hd=c := by simpa using hh
    simpa only [he] using (List.cons_head_tail hd).symm
  refine ⟨⟨s.bytes.dropWhile (·≠c),fun hm => s.nulFree ((List.dropWhile_suffix _).subset hm)⟩,
    by simp [strchr,h],hc,?_⟩
  change s.bytes=s.bytes.takeWhile _++c :: (s.bytes.dropWhile (fun b => decide (b≠c))).tail
  rw [← hc]
  exact split.symm

theorem cutAt_strlcpy {c : UInt8} {s : CStr} {size : ℕ}
    (h : (s.cutAt c).bytes.length < size) : (s.strlcpy size).cutAt c=s.cutAt c := by
  ext1
  change (s.bytes.take (size-1)).takeWhile (fun b => decide (b≠c))=
    s.bytes.takeWhile fun b => decide (b≠c)
  rw [← List.take_takeWhile,List.take_of_length_le]
  change (s.cutAt c).bytes.length ≤ size-1
  omega

/-- A short enough part before c of the copy is the string or what it has before c. -/
theorem eq_or_prefix_of_cutAt_strlcpy {c : UInt8} {s t : CStr} {size : ℕ}
    (h : (s.strlcpy size).cutAt c=t) (hl : t.bytes.length+1 < size) :
    s=t ∨ t.bytes++[c]<+:s.bytes := by
  have hb : (s.cutAt c).bytes.take (size-1)=t.bytes := by
    rw [← h]
    exact List.take_takeWhile
  have hlen : (s.cutAt c).bytes.length < size := by
    by_contra hge
    have hlt := congrArg List.length hb
    rw [List.length_take] at hlt
    omega
  have ht : s.cutAt c=t := (cutAt_strlcpy hlen).symm.trans h
  by_cases hc : c∈s.bytes
  · obtain ⟨u,-,-,hu⟩ := eq_cutAt_append hc
    right
    rw [ht] at hu
    exact ⟨u.next.bytes,by rw [hu,List.append_assoc,List.singleton_append]⟩
  · left
    rw [← ht,cutAt_of_notMem hc]

end CStr
end CText
