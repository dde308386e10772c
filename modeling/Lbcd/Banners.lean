import Lbcd.Connections

namespace Lbcd

open Interaction CText

/-- What a service sends over a connection: the bytes that arrive within the timeout, whether
it closes the connection after them, and how many of them the first read finds. -/
structure Delivery where
  sent : List UInt8
  closed : Bool
  first : ℕ
  first_pos : 0 < first

/-- A block of memory before anything is stored in it. -/
def block (mem : ℕ → UInt8) (n : ℕ) : List UInt8 := (List.range n).map mem

theorem block_length (mem : ℕ → UInt8) (n : ℕ) : (block mem n).length=n := by
  rw [block,List.length_map,List.length_range]

theorem block_set (mem : ℕ → UInt8) (n : ℕ) : (block mem (n+1)).set n 0=block mem n++[0] := by
  have hlen := block_length mem n
  rw [block,List.range_succ,List.map_append,List.map_singleton,← block]
  rw [List.set_append_right _ _ hlen.le,hlen,Nat.sub_self,List.set_cons_zero]

namespace Delivery

/-- What one read of at most n bytes gets. -/
def got (d : Delivery) (n : ℕ) : List UInt8 := d.sent.take (min n d.first)

theorem got_length (d : Delivery) (n : ℕ) : (d.got n).length ≤ n := by
  rw [got,List.length_take]
  omega

theorem got_prefix (d : Delivery) (n : ℕ) : d.got n<+:d.sent := List.take_prefix _ _

/-- The host answers so, with this in memory that was not written to. -/
def answer (d : Delivery) (mem : ℕ → UInt8) : Oracle System := Oracle.const fun c =>
  match c with
  | .malloc n => some (some ⟨block mem n,block_length mem n⟩)
  | .stackBuffer n => some ⟨block mem n,block_length mem n⟩
  | .select _ _ => some (if d.sent=[] ∧ d.closed=false then 0 else 1)
  | .read _ n => some (some ⟨d.got n,d.got_length n⟩)
  | .getaddrinfo _ _ _ => some (some [⟨0,0⟩])
  | .networkConnect _ => some (some 3)
  | .write _ bytes => some bytes.length
  | .close _ => some ()
  | _ => none

/-- Something can be read, if only the end of the connection. -/
def Ready (d : Delivery) : Prop := ¬(d.sent=[] ∧ d.closed=false)

instance (d : Delivery) : Decidable d.Ready := inferInstanceAs (Decidable (¬(_ ∧ _)))

/-- The rest of a buffer after a read into its beginning. -/
def filled (d : Delivery) (mem : ℕ → UInt8) (n : ℕ) : List UInt8 :=
  d.got n++(block mem n).drop (d.got n).length

theorem filled_length (d : Delivery) (mem : ℕ → UInt8) (n : ℕ) : (d.filled mem n).length=n := by
  have hle := d.got_length n
  rw [filled,List.length_append,List.length_drop,block_length]
  omega

theorem overlay_block (d : Delivery) (mem : ℕ → UInt8) (n : ℕ) :
    overlay (d.got n) ((block mem (n+1)).set n 0)=d.filled mem n++[0] := by
  rw [block_set,overlay,filled,List.append_assoc,
    List.drop_append_of_le_length (by rw [block_length]; exact d.got_length n)]

theorem got_eq_nil {d : Delivery} {n : ℕ} : d.got n=[] ↔ n=0 ∨ d.sent=[] := by
  have hpos := d.first_pos
  have hmin : min n d.first=0 ↔ n=0 := by omega
  rw [got,List.take_eq_nil_iff,hmin]

theorem filled_full {d : Delivery} {mem : ℕ → UInt8} {n : ℕ} (h : (d.got n).length=n) :
    d.filled mem n=d.got n := by
  rw [filled,List.drop_eq_nil_of_le (by rw [block_length,h]),List.append_nil]

/-- Memory can hold what a short read left out of a text. -/
theorem filled_completed {d : Delivery} {bs : List UInt8} (h : d.got bs.length<+:bs) :
    d.filled (fun i => bs.getD i 0) bs.length=bs := by
  have hblock : block (fun i => bs.getD i 0) bs.length=bs := by
    refine List.ext_getElem (block_length _ _) fun i h1 h2 => ?_
    simp [block,h2]
  rw [filled,hblock]
  exact List.prefix_iff_eq_append.mp h

/-- Memory can also hold a NUL there. -/
theorem zero_mem_filled {d : Delivery} {n : ℕ} (h : (d.got n).length < n) :
    0∈d.filled (fun _ => 0) n := by
  have hblock : block (fun _ => 0) n=List.replicate n 0 := by
    rw [block,List.map_const',List.length_range]
  rw [filled,hblock,List.drop_replicate]
  exact List.mem_append_right _ (List.mem_replicate.mpr ⟨by omega,rfl⟩)

end Delivery

theorem checkReply_result (d : Delivery) (mem : ℕ → UInt8) (sd : Fd) (timeout : ℤ)
    (token : CStr) :
    (lbcdCheckReply sd timeout (some token)).result (d.answer mem)=
      some (if d.got token.bytes.length≠[] ∧ d.filled mem token.bytes.length=token.bytes then 0
        else -1) := by
  have hmalloc : d.answer mem 0 (.malloc (token.bytes.length+1))=
      some (some ⟨block mem (token.bytes.length+1),block_length mem _⟩) := rfl
  have hselect : (d.answer mem).drop 1 0 (.select sd timeout)=
      some (if d.sent=[] ∧ d.closed=false then 0 else 1) := rfl
  have hread : ((d.answer mem).drop 1).drop 1 0 (.read sd token.bytes.length)=
      some (some ⟨d.got token.bytes.length,d.got_length _⟩) := rfl
  rw [lbcdCheckReply,sys_bind_result,hmalloc,Option.bind_some]
  dsimp only
  rw [sys_bind_result,hselect,Option.bind_some]
  by_cases hready : d.sent=[] ∧ d.closed=false
  · have hgot : d.got token.bytes.length=[] := Delivery.got_eq_nil.mpr (.inr hready.1)
    rw [if_pos hready,if_neg (lt_irrefl (0 : ℤ)),if_neg fun h => h.1 hgot]
    rfl
  · rw [if_neg hready,if_pos (zero_lt_one (α := ℤ)),sys_bind_result,hread,Option.bind_some]
    dsimp only
    rw [d.overlay_block]
    have heq := CStr.ofBuffer_concat_zero (d.filled_length mem token.bytes.length)
    by_cases hgot : d.got token.bytes.length=[]
    · rw [if_pos hgot,if_neg fun h => h.1 hgot]
      rfl
    · rw [if_neg hgot]
      by_cases htoken : d.filled mem token.bytes.length=token.bytes
      · rw [if_pos (heq.mpr htoken),if_pos ⟨hgot,htoken⟩]
        rfl
      · rw [if_neg fun h => htoken (heq.mp h),if_neg fun h => htoken h.2]
        rfl

/-- The check decides by what the service sends alone. -/
def Decides (token : CStr) (d : Delivery) : Prop :=
  ∀ (mem : ℕ → UInt8) (sd : Fd) (timeout : ℤ),
    (lbcdCheckReply sd timeout (some token)).result (d.answer mem)=
      some (if token.bytes<+:d.sent then 0 else -1)

theorem decides_iff_filled {token : CStr} {d : Delivery} :
    Decides token d ↔ ∀ mem,
      (d.got token.bytes.length≠[] ∧ d.filled mem token.bytes.length=token.bytes) ↔
        token.bytes<+:d.sent := by
  unfold Decides
  refine forall_congr' fun mem => ?_
  simp only [checkReply_result]
  constructor
  · intro h
    have hres := Option.some.inj (h 0 0)
    by_cases h1 : d.got token.bytes.length≠[] ∧ d.filled mem token.bytes.length=token.bytes
    · rw [if_pos h1] at hres
      refine iff_of_true h1 ?_
      by_contra h2
      rw [if_neg h2] at hres
      exact absurd hres (by decide)
    · rw [if_neg h1] at hres
      refine iff_of_false h1 fun h2 => ?_
      rw [if_pos h2] at hres
      exact absurd hres (by decide)
  · intro h _ _
    simp only [h]

/-- The read gets as many bytes as the token has, or bytes that the token does not begin with,
or nothing that arrives in time. -/
def ReadSettles (token : CStr) (d : Delivery) : Prop :=
  d.sent=[] ∨ (d.got token.bytes.length).length=token.bytes.length ∨
    ¬d.got token.bytes.length<+:token.bytes

theorem decides_of_readSettles {token : CStr} {d : Delivery} (hne : token.bytes≠[])
    (h : ReadSettles token d) : Decides token d := by
  rw [decides_iff_filled]
  intro mem
  have hlen : token.bytes.length≠0 := fun h0 => hne (List.length_eq_zero_iff.mp h0)
  have hbegin := d.got_prefix token.bytes.length
  by_cases hsent : d.sent=[]
  · have hgot : d.got token.bytes.length=[] := Delivery.got_eq_nil.mpr (.inr hsent)
    rw [hsent,List.prefix_nil]
    exact iff_of_false (fun h => h.1 hgot) hne
  · have hgot : d.got token.bytes.length≠[] := fun h0 =>
      (Delivery.got_eq_nil.mp h0).elim hlen hsent
    rcases h.resolve_left hsent with hfull|hdiffers
    · rw [Delivery.filled_full hfull]
      refine ⟨fun ⟨_,heq⟩ => heq ▸ hbegin,fun htoken => ⟨hgot,?_⟩⟩
      exact (List.prefix_of_prefix_length_le hbegin htoken hfull.le).eq_of_length hfull
    · have hbegins : d.got token.bytes.length<+:d.filled mem token.bytes.length :=
        List.prefix_append _ _
      refine iff_of_false (fun ⟨_,heq⟩ => hdiffers ?_) fun htoken => hdiffers ?_
      · rwa [heq] at hbegins
      · exact List.prefix_of_prefix_length_le hbegin htoken (d.got_length _)

/-- After a short read that agrees with the token, memory decides. -/
theorem not_decides_of_short {token : CStr} {d : Delivery} (h : ¬ReadSettles token d) :
    ¬Decides token d := by
  intro hdec
  rw [decides_iff_filled] at hdec
  obtain ⟨hsent,hrest⟩ := not_or.mp h
  obtain ⟨hshort,hagree⟩ := not_or.mp hrest
  rw [not_not] at hagree
  have hlt : (d.got token.bytes.length).length < token.bytes.length :=
    lt_of_le_of_ne (d.got_length _) hshort
  have hlen : token.bytes.length≠0 := by omega
  have hgot : d.got token.bytes.length≠[] := fun h0 =>
    (Delivery.got_eq_nil.mp h0).elim hlen hsent
  have hbegins := (hdec fun i => token.bytes.getD i 0).mp
    ⟨hgot,Delivery.filled_completed hagree⟩
  have hzero := ((hdec fun _ => 0).mpr hbegins).2
  exact token.nulFree (hzero ▸ Delivery.zero_mem_filled hlt)

/-- The check decides by the stream alone exactly when its one read settles the question. -/
theorem lbcdCheckReply_decides_iff (token : CStr) (d : Delivery) :
    Decides token d ↔ token.bytes≠[] ∧ ReadSettles token d := by
  refine ⟨fun h => ⟨fun hempty => ?_,?_⟩,fun h => decides_of_readSettles h.1 h.2⟩
  · have hnil : token.bytes<+:d.sent := by
      rw [hempty]
      exact List.nil_prefix
    have hgot := ((decides_iff_filled.mp h fun _ => 0).mpr hnil).1
    exact hgot (Delivery.got_eq_nil.mpr (.inl (by rw [hempty]; rfl)))
  · by_contra hs
    exact not_decides_of_short hs h

/-- A banner of which the first byte comes alone. -/
def slowBanner : Delivery := ⟨[50,50,48,32],false,1,Nat.one_pos⟩

theorem slowBanner_undecided :
    (lbcdCheckReply 3 5 (some (CStr.lit "220"))).result (slowBanner.answer fun _ => 0)=some (-1) ∧
    (lbcdCheckReply 3 5 (some (CStr.lit "220"))).result
      (slowBanner.answer fun i => [50,50,48].getD i 0)=some 0 ∧
    ¬Decides (CStr.lit "220") slowBanner := by
  refine ⟨by decide,by decide,fun h => ?_⟩
  have hres := h (fun _ => 0) 3 5
  exact absurd hres (by decide)

end Lbcd
