import Mathlib.Data.List.TakeWhile
import Lbcd.Interaction.ByteOrder

namespace Pack

open ByteOrder

/-- Items of an unpack template: unsigned words of 32 and 16 bits in network order, a
byte, and a byte that is skipped. -/
inductive Item where
  | long
  | short
  | byte
  | skip
  deriving DecidableEq

/-- The values of a template. An item that no data is left for gives no value, and only
skipping beyond the end is an error. -/
def unpack : List Item → List UInt8 → Option (List ℕ)
  | [],_ => some []
  | .long :: items,a :: b :: c :: d :: bs =>
    (unpack items bs).map ((ofBe32 a b c d).toNat :: ·)
  | .short :: items,a :: b :: bs => (unpack items bs).map ((ofBe16 a b).toNat :: ·)
  | .byte :: items,a :: bs => (unpack items bs).map (a.toNat :: ·)
  | .skip :: items,_ :: bs => unpack items bs
  | .skip :: _,[] => none
  | _ :: items,bs => unpack items bs

/-- A string in a field of some size, cut or filled up with NULs. -/
def packString (size : ℕ) (s : List UInt8) : List UInt8 := (s++List.replicate size 0).take size

@[simp] theorem unpack_nil (bs : List UInt8) : unpack [] bs=some [] := by
  cases bs <;> rfl

@[simp] theorem unpack_long (items : List Item) (x : UInt32) (bs : List UInt8) :
    unpack (.long :: items) (be32 x++bs)=(unpack items bs).map (x.toNat :: ·) := by
  have hx := ofBe32_be32 x
  simp only [be32,List.cons_append,List.nil_append,unpack,hx]

@[simp] theorem unpack_short (items : List Item) (x : UInt16) (bs : List UInt8) :
    unpack (.short :: items) (be16 x++bs)=(unpack items bs).map (x.toNat :: ·) := by
  have hx := ofBe16_be16 x
  simp only [be16,List.cons_append,List.nil_append,unpack,hx]

@[simp] theorem unpack_byte (items : List Item) (x : UInt8) (bs : List UInt8) :
    unpack (.byte :: items) (x :: bs)=(unpack items bs).map (x.toNat :: ·) := rfl

@[simp] theorem unpack_skip (items : List Item) (x : UInt8) (bs : List UInt8) :
    unpack (.skip :: items) (x :: bs)=unpack items bs := rfl

@[simp] theorem packString_length (size : ℕ) (s : List UInt8) :
    (packString size s).length=size := by
  rw [packString,List.length_take,List.length_append,List.length_replicate]
  omega

/-- A string without NULs that fits its field is what comes before the first NUL. -/
theorem takeWhile_packString {size : ℕ} {s : List UInt8} (h0 : 0∉s) (hs : s.length ≤ size) :
    (packString size s).takeWhile (·≠0)=s := by
  have hpack : packString size s=s++List.replicate (size-s.length) 0 := by
    rw [packString,List.take_append,List.take_of_length_le hs,List.take_replicate]
    congr 2
    omega
  rw [hpack,List.takeWhile_append_of_pos]
  · simp
  · intro b hb
    rw [decide_eq_true_eq]
    intro he
    exact h0 (he ▸ hb)

/-- One block of a sequence of blocks of one size. -/
theorem block_flatMap {α : Type} {f : α → List UInt8} {size : ℕ}
    (hf : ∀ a,(f a).length=size) {l : List α} {i : ℕ} {a : α} (h : l[i]?=some a) :
    ((l.flatMap f).drop (i*size)).take size=f a := by
  induction l generalizing i with
  | nil => cases h
  | cons b l ih =>
    cases i with
    | zero =>
      cases h
      rw [Nat.zero_mul,List.drop_zero,List.flatMap_cons,List.take_append,hf,Nat.sub_self,
        List.take_zero,List.append_nil,List.take_of_length_le (by rw [hf])]
    | succ i =>
      have hdrop : (i+1)*size=size+i*size := by rw [Nat.succ_mul,Nat.add_comm]
      rw [List.flatMap_cons,hdrop,← List.drop_drop,List.drop_left' (hf b)]
      exact ih h

theorem length_flatMap_block {α : Type} {f : α → List UInt8} {size : ℕ}
    (hf : ∀ a,(f a).length=size) (l : List α) : (l.flatMap f).length=size*l.length := by
  induction l with
  | nil => rfl
  | cons b l ih =>
    rw [List.flatMap_cons,List.length_append,hf,ih,List.length_cons,Nat.mul_succ,Nat.add_comm]

theorem take_flatMap_block {α : Type} {f : α → List UInt8} {size : ℕ}
    (hf : ∀ a,(f a).length=size) (l : List α) (n : ℕ) :
    (l.flatMap f).take (size*n)=(l.take n).flatMap f := by
  induction l generalizing n with
  | nil => simp
  | cons b l ih =>
    cases n with
    | zero => rfl
    | succ n =>
      have hsize : size*(n+1)=size+size*n := by rw [Nat.mul_succ,Nat.add_comm]
      have hrest : size+size*n-size=size*n := Nat.add_sub_cancel_left size _
      rw [List.take_succ_cons,List.flatMap_cons,List.flatMap_cons,hsize,List.take_append,hf,
        hrest,ih]
      congr 1
      exact List.take_of_length_le (by rw [hf]; omega)

/-- Outside of the block that is replaced the sequence is the same. -/
theorem getElem?_flatMap_set {α : Type} {f : α → List UInt8} {size : ℕ}
    (hf : ∀ a,(f a).length=size) (l : List α) {i n : ℕ} (a : α)
    (hn : n < i*size ∨ (i+1)*size ≤ n) : ((l.set i a).flatMap f)[n]?=(l.flatMap f)[n]? := by
  induction l generalizing i n with
  | nil => rfl
  | cons b l ih =>
    cases i with
    | zero =>
      have hle : size ≤ n := by omega
      rw [List.set_cons_zero,List.flatMap_cons,List.flatMap_cons,
        List.getElem?_append_right (by rw [hf]; exact hle),
        List.getElem?_append_right (by rw [hf]; exact hle),hf,hf]
    | succ i =>
      rw [List.set_cons_succ,List.flatMap_cons,List.flatMap_cons]
      by_cases hlt : n < size
      · rw [List.getElem?_append_left (by rw [hf]; exact hlt),
          List.getElem?_append_left (by rw [hf]; exact hlt)]
      · have hsucc : (i+1)*size=i*size+size := Nat.succ_mul i size
        have hsucc' : (i+1+1)*size=(i+1)*size+size := Nat.succ_mul (i+1) size
        rw [List.getElem?_append_right (by rw [hf]; omega),
          List.getElem?_append_right (by rw [hf]; omega),hf]
        exact ih (by omega)

end Pack
