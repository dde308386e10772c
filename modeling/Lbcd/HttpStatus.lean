import Lbcd.Banners

namespace Lbcd

open Interaction CText

/-- Whether a digit follows the two characters that were found. -/
def thirdDigit : Option (List UInt8) → Bool
  | some (_ :: _ :: c :: _) => isdigit c
  | _ => false

/-- What strstr and isdigit make of the text that was read. -/
def acceptsText (text : List UInt8) : Bool :=
  thirdDigit ((strstr [50,48] text).or (strstr [51,48] text))

/-- A buffer as text: its bytes before the first NUL. -/
def textOf (buf : List UInt8) : List UInt8 := buf.takeWhile (·≠0)

theorem textOf_append {bs : List UInt8} (h : 0∉bs) (more : List UInt8) :
    textOf (bs++more)=bs++textOf more := by
  refine List.takeWhile_append_of_pos fun b hb => ?_
  have hne : b≠0 := fun h0 => h (h0 ▸ hb)
  simpa using hne

theorem textOf_cons (b : UInt8) (bs : List UInt8) :
    textOf (b :: bs)=if b=0 then [] else b :: textOf bs := by
  rw [textOf,List.takeWhile_cons]
  split_ifs with h h0 h0
  · simp [h0] at h
  · rfl
  · rfl
  · simp [h0] at h

theorem httpAccepts_concat (buf : List UInt8) :
    httpAccepts (buf++[0])=acceptsText (textOf buf) := by
  have htext : (CStr.ofBuffer (buf++[0])).bytes=textOf buf := by
    change (buf++[0]).takeWhile (fun b => decide (b≠0))=buf.takeWhile fun b => decide (b≠0)
    induction buf with
    | nil => rfl
    | cons b buf ih =>
      rw [List.cons_append,List.takeWhile_cons,List.takeWhile_cons,ih]
  rw [httpAccepts,htext]
  rfl

theorem tcpConnect_delivery (d : Delivery) (mem : ℕ → UInt8) (host : CStr)
    (portarg : Option CStr) :
    (tcpConnect host (httpPort portarg).2 (httpPort portarg).1).result (d.answer mem)=
      some (some 3) := by
  have hlink (ai : List AddrInfo) : (tcpLink (some ai)).result (d.answer mem)=some (some 3) := rfl
  have hport : (httpPort portarg).2=none → (httpPort portarg).1≠0 := by
    unfold httpPort
    cases portarg with
    | none =>
      intro h
      cases h
    | some arg =>
      dsimp only
      split_ifs with hlow
      · intro h
        cases h
      · intro _
        dsimp only
        omega
  cases hp : (httpPort portarg).2 with
  | some name =>
    change (tcpFallback host (httpPort portarg).1 (some [⟨0,0⟩])).result (d.answer mem)=_
    rw [tcpFallback,if_neg fun h => absurd h.1 (by simp)]
    exact hlink [⟨0,0⟩]
  | none =>
    change (tcpFallback host (httpPort portarg).1 none).result (d.answer mem)=_
    rw [tcpFallback,if_pos ⟨rfl,hport hp⟩]
    exact hlink [⟨0,0⟩]

/-- The probe reports success. -/
def Succeeds (d : Delivery) (mem : ℕ → UInt8) : Prop :=
  d.got 16≠[] ∧ acceptsText (textOf (d.filled mem 16))=true

instance (d : Delivery) (mem : ℕ → UInt8) : Decidable (Succeeds d mem) :=
  inferInstanceAs (Decidable (_ ∧ _))

/-- The query is sent and one read decides. -/
theorem probeHttp_result (d : Delivery) (mem : ℕ → UInt8) (host : Option CStr) (timeout : ℤ)
    (portarg : Option CStr) :
    (probeHttp host timeout portarg).result (d.answer mem)=
      some (if Succeeds d mem then 0 else -1) := by
  have hclose (sd : Fd) (p : Prog System ℤ) (v : ℤ) (hp : p.result (d.answer mem)=some v) :
      (p >>= fun v => sys (.close sd) >>= fun _ => Prog.ret v).result (d.answer mem)=some v := by
    rw [Prog.result_bind,hp]
    rfl
  have hanswer (buf : { bs : List UInt8 // bs.length=17 }) (hbuf : buf.val=block mem 17) :
      (httpAnswer timeout 3 buf).result (d.answer mem)=
        some (if Succeeds d mem then 0 else -1) := by
    have hselect : d.answer mem 0 (.select 3 timeout)=
        some (if d.sent=[] ∧ d.closed=false then 0 else 1) := rfl
    have hread : (d.answer mem).drop 1 0 (.read 3 16)=
        some (some ⟨d.got 16,d.got_length 16⟩) := rfl
    rw [httpAnswer,sys_bind_result,hselect,Option.bind_some]
    by_cases hready : d.sent=[] ∧ d.closed=false
    · have hgot : d.got 16=[] := Delivery.got_eq_nil.mpr (.inr hready.1)
      rw [if_pos hready,if_neg (lt_irrefl (0 : ℤ)),if_neg fun h => h.1 hgot]
      rfl
    · rw [if_neg hready,if_pos (zero_lt_one (α := ℤ)),sys_bind_result,hread,Option.bind_some]
      dsimp only
      rw [hbuf,d.overlay_block,httpAccepts_concat]
      by_cases hs : Succeeds d mem
      · rw [if_pos (show _ ∧ _ from hs),if_pos hs]
        rfl
      · rw [if_neg (show ¬(_ ∧ _) from hs),if_neg hs]
        rfl
  rw [probeHttp_eq,Prog.result_bind,tcpConnect_delivery,Option.bind_some]
  refine hclose 3 _ _ ?_
  have hbuf : d.answer mem 0 (.stackBuffer 17)=some ⟨block mem 17,block_length mem 17⟩ := rfl
  have hwrite : (d.answer mem).drop 1 0 (.write 3 httpQuery)=some (httpQuery.length : ℤ) := rfl
  rw [httpExchange,sys_bind_result,hbuf,Option.bind_some,sys_bind_result,hwrite,Option.bind_some,
    if_neg (lt_irrefl (httpQuery.length : ℤ))]
  exact hanswer _ rfl

/-- Any buffer that begins with what was read is one that memory can make. -/
theorem exists_filled {d : Delivery} (buf : List UInt8) (hlen : buf.length=16)
    (h : d.got 16<+:buf) : ∃ mem,d.filled mem 16=buf := by
  rw [← hlen] at h
  have hfilled := Delivery.filled_completed h
  rw [hlen] at hfilled
  exact ⟨_,hfilled⟩

theorem textOf_zeros {bs : List UInt8} (h : 0∉bs) (n : ℕ) :
    textOf (bs++List.replicate n 0)=bs := by
  rw [textOf_append h]
  cases n <;> simp [textOf]

theorem acceptsText_20 {text : List UInt8} {c : UInt8} {rest : List UInt8}
    (h : strstr [50,48] text=some (50 :: 48 :: c :: rest)) : acceptsText text=isdigit c := by
  rw [acceptsText,h]
  rfl

theorem acceptsText_cut {text : List UInt8} (h : strstr [50,48] text=some [50,48]) :
    acceptsText text=false := by
  rw [acceptsText,h]
  rfl

/-- Some memory makes the buffer hold a text and then NULs. -/
theorem exists_text {d : Delivery} (more : List UInt8) (hz : 0∉d.got 16++more)
    (hlen : (d.got 16).length+more.length ≤ 16) :
    ∃ mem,textOf (d.filled mem 16)=d.got 16++more := by
  have hbuf : (d.got 16++more++
      List.replicate (16-((d.got 16).length+more.length)) 0).length=16 := by
    simp only [List.length_append,List.length_replicate]
    omega
  obtain ⟨mem,hmem⟩ := exists_filled _ hbuf
    (by rw [List.append_assoc]; exact List.prefix_append _ _)
  exact ⟨mem,by rw [hmem,textOf_zeros hz]⟩

/-- With three bytes of room after a short read, memory makes the probe succeed or fail. -/
theorem memory_decides {d : Delivery} (hgot : d.got 16≠[]) (hz : 0∉d.got 16)
    (hlen : (d.got 16).length ≤ 13)
    (h : strstr [50,48] (d.got 16)=none ∨ strstr [50,48] (d.got 16)=some [50,48]) :
    (∃ mem,Succeeds d mem) ∧ ∃ mem,¬Succeeds d mem := by
  have nulFree {more : List UInt8} (hm : 0∉more) : 0∉d.got 16++more := by
    rw [List.mem_append]
    exact fun hmem => hmem.elim hz hm
  constructor
  · obtain ⟨mem,hmem⟩ := exists_text [50,48,48] (nulFree (by decide))
      (by simp only [List.length_cons,List.length_nil]; omega)
    refine ⟨mem,hgot,?_⟩
    rw [hmem]
    rcases h with hnone|hend
    · exact acceptsText_20 (strstr_append_of_none (by decide) hnone [48])
    · exact acceptsText_20 (strstr_append_of_some hend [50,48,48])
  · rcases h with hnone|hend
    · obtain ⟨mem,hmem⟩ := exists_text [50,48] (nulFree (by decide))
        (by simp only [List.length_cons,List.length_nil]; omega)
      refine ⟨mem,fun hs => ?_⟩
      have hfail := acceptsText_cut (strstr_append_of_none (by decide) hnone [])
      rw [← hmem,hs.2] at hfail
      cases hfail
    · obtain ⟨mem,hmem⟩ := exists_text [] (nulFree (by simp))
        (by simp only [List.length_nil]; omega)
      rw [List.append_nil] at hmem
      refine ⟨mem,fun hs => ?_⟩
      have hfail := acceptsText_cut hend
      rw [← hmem,hs.2] at hfail
      cases hfail

theorem ne_of_isdigit {b c : UInt8} (hb : isdigit b=true) (hc : isdigit c=false) : b≠c := by
  intro h
  rw [h,hc] at hb
  cases hb

/-- Two characters are at the front of a text or further on. -/
theorem strstr_pair (d u v : UInt8) (t : List UInt8) :
    strstr [d,48] (u :: v :: t)=
      if u=d ∧ v=48 then some (u :: v :: t) else strstr [d,48] (v :: t) := by
  have hbegin : [d,48]<+:u :: v :: t ↔ u=d ∧ v=48 := by
    simp [List.cons_prefix_cons,eq_comm]
  rw [strstr_cons]
  simp only [hbegin]

theorem strstr_single (d u : UInt8) : strstr [d,48] [u]=none := by simp [strstr]

/-- The three bytes after the status line that a full read can return. -/
theorem strstr_reason {d : UInt8} (hd : isdigit d=true) (x y z : UInt8) :
    strstr [d,48] (textOf [x,y,z])=
      if x=d ∧ y=48 then some (d :: 48 :: textOf [z])
      else if x≠0 ∧ y=d ∧ z=48 then some [d,48] else none := by
  have h0 := ne_of_isdigit hd (c := 0) (by decide)
  by_cases hx : x=0
  · rw [hx,textOf_cons,if_pos rfl,if_neg fun h => h0 h.1.symm,if_neg fun h => h.1 rfl]
    rfl
  · rw [textOf_cons,if_neg hx]
    by_cases hy : y=0
    · rw [hy,textOf_cons,if_pos rfl,strstr_single,if_neg fun h => absurd h.2 (by decide),
        if_neg fun h => h0 h.2.1.symm]
    · rw [textOf_cons,if_neg hy,strstr_pair]
      by_cases hfirst : x=d ∧ y=48
      · rw [if_pos hfirst,if_pos hfirst,hfirst.1,hfirst.2]
      · rw [if_neg hfirst,if_neg hfirst]
        by_cases hz : z=0
        · rw [hz,textOf_cons,if_pos rfl,strstr_single,if_neg fun h => absurd h.2.2 (by decide)]
        · have htext : textOf [z]=[z] := by
            rw [textOf_cons,if_neg hz]
            rfl
          rw [htext,strstr_pair,strstr_single]
          by_cases hsecond : y=d ∧ z=48
          · rw [if_pos hsecond,if_pos ⟨hx,hsecond⟩,hsecond.1,hsecond.2]
          · rw [if_neg hsecond,if_neg fun h => hsecond h.2]

/-- The digits of a status line. -/
structure Status where
  major : UInt8
  minor : UInt8
  c1 : UInt8
  c2 : UInt8
  c3 : UInt8
  digits : ∀ b∈[major,minor,c1,c2,c3],isdigit b=true

namespace Status

variable (s : Status)

/-- The version of the protocol and a space. -/
def start : List UInt8 := [72,84,84,80,47,s.major,46,s.minor,32]

/-- The status line up to the reason phrase. -/
def line : List UInt8 := s.start++[s.c1,s.c2,s.c3,32]

def Is20 : Prop := s.c1=50 ∧ s.c2=48

def Is30 : Prop := s.c1=51 ∧ s.c2=48

instance : Decidable s.Is20 := inferInstanceAs (Decidable (_ ∧ _))

instance : Decidable s.Is30 := inferInstanceAs (Decidable (_ ∧ _))

/-- The beginning of the reason phrase makes the probe take the code for another: with the
code 20x never, with 30x if it has "20" but no third digit after it, with other codes if it
is "20" or "30" and a digit, unless the code itself ends in these characters. -/
def Misleads (x y z : UInt8) : Prop :=
  ¬s.Is20 ∧ ¬(s.c2=50 ∧ s.c3=48) ∧
  ((s.Is30 ∧ ((x=50 ∧ y=48 ∧ isdigit z=false) ∨ (x≠0 ∧ y=50 ∧ z=48))) ∨
    (¬s.Is30 ∧ isdigit z=true ∧ y=48 ∧ (x=50 ∨ (x=51 ∧ ¬(s.c2=51 ∧ s.c3=48)))))

theorem strstr_start {d : UInt8} (hd : isdigit d=true) (t : List UInt8) :
    strstr [d,48] (s.start++t)=strstr [d,48] t := by
  have h72 := ne_of_isdigit hd (c := 72) (by decide)
  have h84 := ne_of_isdigit hd (c := 84) (by decide)
  have h80 := ne_of_isdigit hd (c := 80) (by decide)
  have h47 := ne_of_isdigit hd (c := 47) (by decide)
  have h46 := ne_of_isdigit hd (c := 46) (by decide)
  have h32 := ne_of_isdigit hd (c := 32) (by decide)
  simp [start,strstr_cons,List.cons_prefix_cons,h72,h84,h80,h47,h46,h32]

theorem strstr_code {d : UInt8} (hd : isdigit d=true) (t : List UInt8) :
    strstr [d,48] (s.c1 :: s.c2 :: s.c3 :: 32 :: t)=
      if s.c1=d ∧ s.c2=48 then some (s.c1 :: s.c2 :: s.c3 :: 32 :: t)
      else if s.c2=d ∧ s.c3=48 then some (s.c2 :: s.c3 :: 32 :: t)
      else strstr [d,48] t := by
  have h32 := ne_of_isdigit hd (c := 32) (by decide)
  have hspace : strstr [d,48] (32 :: t)=strstr [d,48] t := by
    rw [strstr_cons,if_neg (by simp [List.cons_prefix_cons,h32])]
  have hlast : ¬(s.c3=d ∧ (32 : UInt8)=48) := fun h => absurd h.2 (by decide)
  rw [strstr_pair,strstr_pair,strstr_pair,if_neg hlast,hspace]

theorem strstr_line {d : UInt8} (hd : isdigit d=true) (t : List UInt8) :
    strstr [d,48] (s.line++t)=
      if s.c1=d ∧ s.c2=48 then some (s.c1 :: s.c2 :: s.c3 :: 32 :: t)
      else if s.c2=d ∧ s.c3=48 then some (s.c2 :: s.c3 :: 32 :: t)
      else strstr [d,48] t := by
  rw [line,List.append_assoc,s.strstr_start hd]
  exact s.strstr_code hd t

/-- The third digit of a code that begins in the reason phrase. -/
theorem thirdDigit_phrase (d z : UInt8) :
    thirdDigit (some (d :: 48 :: textOf [z]))=isdigit z := by
  rw [textOf_cons]
  split_ifs with hz
  · rw [hz]
    rfl
  · rfl

/-- On a full line without "20" it is "30" that decides. -/
theorem acceptsText_line_30 {x y z : UInt8} (h20 : ¬(s.c1=50 ∧ s.c2=48))
    (hx20 : ¬(s.c2=50 ∧ s.c3=48)) (hxy : ¬(x=50 ∧ y=48)) (hyz : ¬(x≠0 ∧ y=50 ∧ z=48)) :
    (acceptsText (s.line++textOf [x,y,z])=true ↔ s.Is20 ∨ s.Is30) ↔ ¬s.Misleads x y z := by
  have h2 := s.strstr_line (d := 50) (by decide) (textOf [x,y,z])
  have h3 := s.strstr_line (d := 51) (by decide) (textOf [x,y,z])
  rw [strstr_reason (by decide)] at h2 h3
  rw [if_neg h20,if_neg hx20,if_neg hxy,if_neg hyz] at h2
  unfold Misleads Is20 Is30
  by_cases h30 : s.c1=51 ∧ s.c2=48
  · have hres : acceptsText (s.line++textOf [x,y,z])=true := by
      rw [acceptsText,h2,h3,if_pos h30]
      exact s.digits s.c3 (by simp)
    rw [hres]
    have hquiet : ¬((x=50 ∧ y=48 ∧ isdigit z=false) ∨ (x≠0 ∧ y=50 ∧ z=48)) :=
      not_or.mpr ⟨fun h => hxy ⟨h.1,h.2.1⟩,hyz⟩
    refine iff_of_true (iff_of_true rfl (.inr h30)) fun h => ?_
    exact h.2.2.elim (fun hm => hquiet hm.2) fun hm => hm.1 h30
  · rw [if_neg h30] at h3
    have hother : ¬(s.c1=50 ∧ s.c2=48 ∨ s.c1=51 ∧ s.c2=48) := not_or.mpr ⟨h20,h30⟩
    by_cases hx30 : s.c2=51 ∧ s.c3=48
    · have hres : acceptsText (s.line++textOf [x,y,z])=false := by
        rw [acceptsText,h2,h3,if_pos hx30]
        rfl
      rw [hres]
      refine iff_of_true (iff_of_false Bool.false_ne_true hother) fun h => ?_
      rcases h.2.2 with hm|⟨-,-,hy,hx|hx⟩
      · exact h30 hm.1
      · exact hxy ⟨hx,hy⟩
      · exact hx.2 hx30
    · rw [if_neg hx30] at h3
      by_cases hxy3 : x=51 ∧ y=48
      · have hres : acceptsText (s.line++textOf [x,y,z])=isdigit z := by
          rw [acceptsText,h2,h3,if_pos hxy3]
          exact thirdDigit_phrase 51 z
        rw [hres]
        simp [h20,h30,hx20,hx30,hxy3]
      · have hres : acceptsText (s.line++textOf [x,y,z])=false := by
          rw [acceptsText,h2,h3,if_neg hxy3]
          split_ifs <;> rfl
        rw [hres]
        refine iff_of_true (iff_of_false Bool.false_ne_true hother) fun h => ?_
        rcases h.2.2 with hm|⟨-,-,hy,hx|hx⟩
        · exact h30 hm.1
        · exact hxy ⟨hx,hy⟩
        · exact hxy3 ⟨hx.1,hy⟩

/-- On a full line the probe is right unless the reason phrase misleads it. -/
theorem acceptsText_line (x y z : UInt8) :
    (acceptsText (s.line++textOf [x,y,z])=true ↔ s.Is20 ∨ s.Is30) ↔ ¬s.Misleads x y z := by
  by_cases hnone : ¬(s.c1=50 ∧ s.c2=48) ∧ ¬(s.c2=50 ∧ s.c3=48) ∧ ¬(x=50 ∧ y=48) ∧
      ¬(x≠0 ∧ y=50 ∧ z=48)
  · exact s.acceptsText_line_30 hnone.1 hnone.2.1 hnone.2.2.1 hnone.2.2.2
  have h2 := s.strstr_line (d := 50) (by decide) (textOf [x,y,z])
  rw [strstr_reason (by decide)] at h2
  unfold Misleads Is20 Is30
  by_cases h20 : s.c1=50 ∧ s.c2=48
  · have hres : acceptsText (s.line++textOf [x,y,z])=true := by
      rw [acceptsText,h2,if_pos h20]
      exact s.digits s.c3 (by simp)
    rw [hres]
    simp [h20]
  · by_cases hx20 : s.c2=50 ∧ s.c3=48
    · have hres : acceptsText (s.line++textOf [x,y,z])=false := by
        rw [acceptsText,h2,if_neg h20,if_pos hx20]
        rfl
      rw [hres]
      simp [hx20]
    · rw [if_neg h20,if_neg hx20] at h2
      by_cases hxy : x=50 ∧ y=48
      · -- the phrase begins with "20": its third character decides
        have hres : acceptsText (s.line++textOf [x,y,z])=isdigit z := by
          rw [acceptsText,h2,if_pos hxy]
          exact thirdDigit_phrase 50 z
        rw [hres]
        by_cases h30 : s.c1=51 ∧ s.c2=48 <;> simp [h20,hx20,h30,hxy]
      · -- "20" is found too late for a third character
        have hyz : x≠0 ∧ y=50 ∧ z=48 := by
          by_contra hyz
          exact hnone ⟨h20,hx20,hxy,hyz⟩
        have hres : acceptsText (s.line++textOf [x,y,z])=false := by
          rw [acceptsText,h2,if_neg hxy,if_pos hyz]
          rfl
        rw [hres]
        by_cases h30 : s.c1=51 ∧ s.c2=48 <;> simp [h20,hx20,h30,hyz]

theorem start_nulFree : 0∉s.start := by
  have hmajor := ne_of_isdigit (s.digits s.major (by simp)) (c := 0) (by decide)
  have hminor := ne_of_isdigit (s.digits s.minor (by simp)) (c := 0) (by decide)
  simp [start,hmajor.symm,hminor.symm]

theorem code_nulFree : 0∉[s.c1,s.c2,s.c3] := by
  have h1 := ne_of_isdigit (s.digits s.c1 (by simp)) (c := 0) (by decide)
  have h2 := ne_of_isdigit (s.digits s.c2 (by simp)) (c := 0) (by decide)
  have h3 := ne_of_isdigit (s.digits s.c3 (by simp)) (c := 0) (by decide)
  simp [h1.symm,h2.symm,h3.symm]

theorem line_eq : s.line=s.start++[s.c1,s.c2,s.c3]++[32] := by simp [line]

theorem line_nulFree : 0∉s.line := by
  rw [line_eq,List.mem_append,List.mem_append]
  rintro ((h|h)|h)
  · exact s.start_nulFree h
  · exact s.code_nulFree h
  · exact absurd h (by decide)

/-- The reply is this status line and more, and the probe is right about it whatever was in
its buffer. -/
def Right (d : Delivery) : Prop :=
  ∀ (mem : ℕ → UInt8) (host : Option CStr) (timeout : ℤ) (portarg : Option CStr),
    (probeHttp host timeout portarg).result (d.answer mem)=
      some (if s.Is20 ∨ s.Is30 then 0 else -1)

/-- The first read gets the code 20x; or it gets the whole line, and nothing that can stand
in the three bytes after it misleads the probe. -/
def Clear (rest : List UInt8) (m : ℕ) : Prop :=
  (s.Is20 ∧ 12 ≤ m) ∨
  (13 ≤ m ∧ ∀ x y z,rest.take (m-13)<+:[x,y,z] → ¬s.Misleads x y z)

theorem right_iff_succeeds {d : Delivery} :
    s.Right d ↔ ∀ mem,Succeeds d mem ↔ s.Is20 ∨ s.Is30 := by
  refine forall_congr' fun mem => ?_
  simp only [probeHttp_result]
  by_cases h1 : Succeeds d mem <;> by_cases h2 : s.Is20 ∨ s.Is30 <;> simp [h1,h2]

variable {s} {d : Delivery} {rest : List UInt8}

theorem got_eq_take (hd : d.sent=s.line++rest) :
    d.got 16=(s.line++rest).take (d.got 16).length := by
  rw [← hd]
  exact List.prefix_iff_eq_take.mp (d.got_prefix 16)

theorem got_ne_nil (hd : d.sent=s.line++rest) : d.got 16≠[] := by
  intro h
  rcases Delivery.got_eq_nil.mp h with h16|hsent
  · cases h16
  · rw [hd] at hsent
    cases hsent

theorem got_line (hd : d.sent=s.line++rest) (hm : 13 ≤ (d.got 16).length) :
    d.got 16=s.line++rest.take ((d.got 16).length-13) := by
  have hline : s.line.length=13 := rfl
  have htake := got_eq_take hd
  rwa [List.take_append,List.take_of_length_le (by omega),hline] at htake

/-- With the whole line read, the bytes after it decide. -/
theorem succeeds_iff_of_line (hd : d.sent=s.line++rest) {mem : ℕ → UInt8} {x y z : UInt8}
    (hbuf : d.filled mem 16=s.line++[x,y,z]) :
    (Succeeds d mem ↔ s.Is20 ∨ s.Is30) ↔ ¬s.Misleads x y z := by
  rw [← s.acceptsText_line x y z,Succeeds,hbuf,textOf_append s.line_nulFree]
  simp only [got_ne_nil hd,ne_eq,not_false_eq_true,true_and]

theorem right_iff_of_line (hd : d.sent=s.line++rest) (hm : 13 ≤ (d.got 16).length) :
    s.Right d ↔ ∀ x y z,rest.take ((d.got 16).length-13)<+:[x,y,z] → ¬s.Misleads x y z := by
  have hline : s.line.length=13 := rfl
  have hgot := got_line hd hm
  rw [s.right_iff_succeeds]
  constructor
  · intro h x y z hp
    obtain ⟨mem,hmem⟩ := exists_filled (d := d) (s.line++[x,y,z]) rfl
      (by rw [hgot]; exact (List.prefix_append_right_inj s.line).mpr hp)
    exact (succeeds_iff_of_line hd hmem).mp (h mem)
  · intro h mem
    have hbegin : d.got 16<+:d.filled mem 16 := List.prefix_append _ _
    have hlen := d.filled_length mem 16
    rw [hgot] at hbegin
    obtain ⟨tail,htail⟩ := (List.prefix_append s.line _).trans hbegin
    rw [← htail,List.length_append,hline] at hlen
    obtain ⟨x,y,z,rfl⟩ := List.length_eq_three.mp (by omega : tail.length=3)
    rw [← htail] at hbegin
    have hp := (List.prefix_append_right_inj s.line).mp hbegin
    exact (succeeds_iff_of_line hd htail.symm).mpr (h x y z hp)

theorem strstr_cut (s : Status) :
    strstr [50,48] (s.start++[s.c1,s.c2,s.c3])=
      if s.c1=50 ∧ s.c2=48 then some [s.c1,s.c2,s.c3]
      else if s.c2=50 ∧ s.c3=48 then some [s.c2,s.c3] else none := by
  rw [s.strstr_start (by decide),strstr_pair,strstr_pair,strstr_single]

/-- What is read of a line cut within its code does not hold "20" or ends with it. -/
theorem strstr_got_cut (s : Status) {t w : List UInt8} (h : t++w=s.start++[s.c1,s.c2,s.c3])
    (hcut : ¬(s.Is20 ∧ w=[])) :
    strstr [50,48] t=none ∨ strstr [50,48] t=some [50,48] := by
  cases hfound : strstr [50,48] t with
  | none => exact .inl rfl
  | some r =>
    obtain ⟨-,hr⟩ := strstr_found hfound
    have hlen := hr.length_le
    have hwhole := strstr_append_of_some hfound w
    rw [h,s.strstr_cut] at hwhole
    have hshort : r.length ≤ 2 := by
      split_ifs at hwhole with h20 hx20
      · have happ := congrArg List.length (Option.some.inj hwhole)
        have hw : w.length≠0 := fun h0 => hcut ⟨h20,List.length_eq_zero_iff.mp h0⟩
        simp only [List.length_cons,List.length_nil,List.length_append] at happ
        omega
      · have happ := congrArg List.length (Option.some.inj hwhole)
        simp only [List.length_cons,List.length_nil,List.length_append] at happ
        omega
    have heq : [50,48]=r := hr.eq_of_length_le hshort
    exact .inr (congrArg some heq.symm)

/-- A line cut before the space after its code is completed by memory, but for the code 20x. -/
theorem right_iff_of_cut (hd : d.sent=s.line++rest) (hm : (d.got 16).length ≤ 12) :
    s.Right d ↔ s.Is20 ∧ (d.got 16).length=12 := by
  have hlen : (s.start++[s.c1,s.c2,s.c3]).length=12 := rfl
  have hbegin : d.got 16<+:s.start++[s.c1,s.c2,s.c3] := by
    have hlong : s.start++[s.c1,s.c2,s.c3]<+:d.sent := by
      rw [hd,line_eq,List.append_assoc _ [32]]
      exact List.prefix_append _ _
    exact List.prefix_of_prefix_length_le (d.got_prefix 16) hlong (by omega)
  obtain ⟨w,hw⟩ := hbegin
  have hwlen := congrArg List.length hw
  rw [List.length_append,hlen] at hwlen
  rw [s.right_iff_succeeds]
  constructor
  · intro h
    by_contra hcut
    have hz : 0∉d.got 16 := fun h0 => by
      have hmem : 0∈s.start++[s.c1,s.c2,s.c3] := hw ▸ List.mem_append_left w h0
      exact (List.mem_append.mp hmem).elim s.start_nulFree s.code_nulFree
    have hshort : ¬(s.Is20 ∧ w=[]) := by
      rintro ⟨h20,rfl⟩
      exact hcut ⟨h20,hwlen⟩
    obtain ⟨⟨mem,hyes⟩,mem',hno⟩ := memory_decides (got_ne_nil hd) hz (by omega)
      (strstr_got_cut s hw hshort)
    exact hno ((h mem').mpr ((h mem).mp hyes))
  · rintro ⟨h20,h12⟩ mem
    have hwnil : w=[] := List.length_eq_zero_iff.mp (by omega)
    rw [hwnil,List.append_nil] at hw
    have hcut := s.strstr_cut
    rw [if_pos (show s.c1=50 ∧ s.c2=48 from h20),h20.1,h20.2] at hcut
    refine iff_of_true ⟨got_ne_nil hd,?_⟩ (.inl h20)
    have hz : 0∉d.got 16 := fun h0 => by
      rw [hw] at h0
      exact (List.mem_append.mp h0).elim s.start_nulFree s.code_nulFree
    have hcode : d.got 16=s.start++[50,48,s.c3] := by rw [hw,h20.1,h20.2]
    rw [← hcode] at hcut
    rw [Delivery.filled,textOf_append hz]
    have hfound := strstr_append_of_some hcut (textOf ((block mem 16).drop (d.got 16).length))
    exact (acceptsText_20 hfound).trans (s.digits s.c3 (by simp))

theorem right_iff_clear (hd : d.sent=s.line++rest) :
    s.Right d ↔ s.Clear rest (d.got 16).length := by
  by_cases hm : 13 ≤ (d.got 16).length
  · rw [right_iff_of_line hd hm]
    refine ⟨fun h => .inr ⟨hm,h⟩,?_⟩
    rintro (⟨h20,-⟩|⟨-,h⟩)
    · exact fun x y z _ hmis => hmis.1 h20
    · exact h
  · rw [right_iff_of_cut hd (by omega)]
    refine ⟨fun h => .inl ⟨h.1,h.2.ge⟩,?_⟩
    rintro (⟨h20,h12⟩|⟨h13,-⟩)
    · exact ⟨h20,by omega⟩
    · exact absurd h13 hm

end Status

/-- The answer does not depend on what the buffer held before. -/
def Independent (d : Delivery) : Prop :=
  ∀ (mem mem' : ℕ → UInt8) (host : Option CStr) (timeout : ℤ) (portarg : Option CStr),
    (probeHttp host timeout portarg).result (d.answer mem)=
      (probeHttp host timeout portarg).result (d.answer mem')

theorem independent_of_never {d : Delivery} (h : ∀ mem,¬Succeeds d mem) : Independent d := by
  intro mem mem' host timeout portarg
  rw [probeHttp_result,probeHttp_result,if_neg (h mem),if_neg (h mem')]

/-- A first byte that comes alone leaves the rest to memory, unless it is NUL. -/
theorem independent_iff (sent : List UInt8) (closed : Bool) :
    (∀ d : Delivery,d.sent=sent → d.closed=closed → Independent d) ↔
      sent=[] ∨ sent.head?=some 0 := by
  constructor
  · intro h
    cases sent with
    | nil => exact .inl rfl
    | cons b bs =>
      right
      by_contra hb
      have hb0 : b≠0 := fun h0 => hb (congrArg some h0)
      let d : Delivery := ⟨b :: bs,closed,1,Nat.one_pos⟩
      have hgot : d.got 16=[b] := rfl
      obtain ⟨⟨mem,hyes⟩,mem',hno⟩ := memory_decides (d := d) (by simp [hgot])
        (by simp [hgot,hb0.symm]) (by simp [hgot]) (.inl (strstr_single 50 b))
      have hsame := h d rfl rfl mem mem' none 0 none
      rw [probeHttp_result,probeHttp_result,if_pos hyes,if_neg hno] at hsame
      exact absurd hsame (by decide)
  · rintro hsent d rfl -
    refine independent_of_never fun mem hs => ?_
    rcases hsent with hnil|hzero
    · exact hs.1 (Delivery.got_eq_nil.mpr (.inr hnil))
    · have htext : textOf (d.filled mem 16)=[] := by
        obtain ⟨bs,hbs⟩ := List.head?_eq_some_iff.mp hzero
        have hgot : d.got 16=0 :: bs.take (min 16 d.first-1) := by
          have hpos := d.first_pos
          rw [Delivery.got,hbs]
          exact List.take_cons (by omega)
        rw [Delivery.filled,hgot,List.cons_append,textOf_cons,if_pos rfl]
      have haccepts := hs.2
      rw [htext] at haccepts
      exact absurd haccepts (by decide)

/-- The verdict on a status line is right exactly when the first read is clear about the code;
and no reply, but for one without text, is safe from what the buffer held. -/
theorem probeHttp_right_iff (s : Status) (rest sent : List UInt8) (closed : Bool) :
    (∀ d : Delivery,d.sent=s.line++rest →
      (s.Right d ↔ s.Clear rest (d.got 16).length)) ∧
    ((∀ d : Delivery,d.sent=sent → d.closed=closed → Independent d) ↔
      sent=[] ∨ sent.head?=some 0) :=
  ⟨fun _ hd => Status.right_iff_clear hd,independent_iff sent closed⟩

def ok200 : Status := ⟨49,49,50,48,48,List.all_eq_true.mp rfl⟩

def error500 : Status := ⟨49,49,53,48,48,List.all_eq_true.mp rfl⟩

/-- HTTP/1.1 200 OK in one piece. -/
theorem probeHttp_right_iff_ok :
    ok200.Right ⟨ok200.line++(CStr.lit "OK").bytes,false,100,by decide⟩ := by
  refine ((probeHttp_right_iff ok200 (CStr.lit "OK").bytes [] false).1 _ rfl).mpr
    (.inl ⟨?_,by decide⟩)
  exact ⟨rfl,rfl⟩

/-- HTTP/1.1 500 with the reason phrase 200 passes for a success. -/
theorem error_taken_for_success :
    (probeHttp none 5 none).result
      (Delivery.answer ⟨error500.line++(CStr.lit "200").bytes,false,100,by decide⟩ fun _ => 0)=
        some 0 ∧
    ¬error500.Right ⟨error500.line++(CStr.lit "200").bytes,false,100,by decide⟩ ∧
    ¬Independent ⟨ok200.line++(CStr.lit "OK").bytes,false,9,by decide⟩ := by
  refine ⟨by decide,fun h => ?_,fun h => ?_⟩
  · exact absurd (h (fun _ => 0) none 5 none) (by decide)
  · exact absurd (h (fun _ => 0) (fun i => if i=9 then 50 else 48) none 5 none) (by decide)

end Lbcd
