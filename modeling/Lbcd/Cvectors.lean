import Lbcd.Joins

namespace Lbcd

open CHeap CText Pieces

/-- The entries point into strings of others. -/
structure Cvector (ρ : Type) where
  count : ℕ
  strings : List (Option ρ)

namespace Cvector

variable {ρ : Type}

def allocated (v : Cvector ρ) : ℕ := v.strings.length

end Cvector

section

variable {ρ : Type}

def cvectorNew : Cvector ρ := ⟨0,[none]⟩

def cvectorResize (v : Cvector ρ) (size : ℕ) : Cvector ρ :=
  let count := if size < v.count then size else v.count
  let size := if size=0 then 1 else size
  ⟨count,v.strings.take size++List.replicate (size-v.strings.length) none⟩

def cvectorClear (v : Cvector ρ) : Cvector ρ := ⟨0,v.strings⟩

def cvectorReuse (v : Option (Cvector ρ)) : Cvector ρ := v.elim cvectorNew cvectorClear

/-- None where an entry points nowhere. -/
def cvectorJoin (read : ρ → Option CStr) (v : Cvector ρ) (separator : CStr) : Option CStr := do
  let strings ← (v.strings.take v.count).mapM (· >>= read)
  joinStrings 0 strings separator

end

/-- A string that is being cut up, and the table of the offsets of its parts. -/
structure Cutting where
  buffer : List UInt8
  strings : List (Option ℕ)
  i : ℕ

/-- An entry beyond the table is not written. -/
def Cutting.store (f : Cutting) (start : ℕ) : Option Cutting :=
  if f.i < f.strings.length then some ⟨f.buffer,f.strings.set f.i (some start),f.i+1⟩ else none

/-- Nor is a NUL beyond the buffer. -/
def Cutting.terminate (f : Cutting) (p : ℕ) : Option Cutting :=
  if p < f.buffer.length then some ⟨f.buffer.set p 0,f.strings,f.i⟩ else none

/-- The loop of both splits. A separator is overwritten only where a part ends at it. -/
def cutWalk (isSep : UInt8 → Bool) (keepEmpty : Bool) :
    List UInt8 → ℕ → ℕ → Cutting → Option Cutting
  | [],p,start,f => if keepEmpty ∨ start≠p then f.store start else some f
  | c :: rest,p,start,f =>
    if isSep c then
      if keepEmpty ∨ start≠p then do
        let f ← f.terminate p
        let f ← f.store start
        cutWalk isSep keepEmpty rest (p+1) (p+1) f
      else cutWalk isSep keepEmpty rest (p+1) (p+1) f
    else cutWalk isSep keepEmpty rest (p+1) start f

def cvectorRoom (v : Cvector ℕ) (count : ℕ) : Cvector ℕ :=
  if v.allocated < count then cvectorResize v count else v

/-- The buffer is the string with its NUL. -/
def cutInto (isSep : UInt8 → Bool) (keepEmpty : Bool) (count : ℕ) (string : CStr)
    (v : Option (Cvector ℕ)) : Option (List UInt8 × Cvector ℕ) := do
  let v := cvectorRoom (cvectorReuse v) count
  let f ← cutWalk isSep keepEmpty string.bytes 0 0 ⟨string.bytes++[0],v.strings,0⟩
  return (f.buffer,⟨f.i,f.strings⟩)

def cvectorSplit (string : CStr) (separator : UInt8) (v : Option (Cvector ℕ)) :
    Option (List UInt8 × Cvector ℕ) :=
  cutInto (·=separator) true (splitCount string separator) string v

def cvectorSplitMulti (string seps : CStr) (v : Option (Cvector ℕ)) :
    Option (List UInt8 × Cvector ℕ) :=
  cutInto (·∈seps.bytes) false (splitMultiCount string seps) string v

def cvectorSplitSpace (string : CStr) (v : Option (Cvector ℕ)) :
    Option (List UInt8 × Cvector ℕ) :=
  cvectorSplitMulti string spaceTab v

/-- The C string at an offset, none where no NUL follows. -/
def stringAt (buffer : List UInt8) (offset : ℕ) : Option CStr :=
  if 0∈buffer.drop offset then some (CStr.ofBuffer (buffer.drop offset)) else none

/-- Every part is in what the loop has left behind, with its NUL. -/
def Cut (done : List UInt8) (parts : List (ℕ × List UInt8)) : Prop :=
  ∀ x∈parts,0∉x.2 ∧ x.2++[0]<+:done.drop x.1

theorem Cut.mono {done more : List UInt8} {parts : List (ℕ × List UInt8)} (hc : Cut done parts) :
    Cut (done++more) parts := by
  intro x hx
  obtain ⟨hfree,hpre⟩ := hc x hx
  refine ⟨hfree,hpre.trans ?_⟩
  rw [List.drop_append]
  exact List.prefix_append _ _

theorem stringAt_part {buffer part : List UInt8} {offset : ℕ} (hfree : 0∉part)
    (hpre : part++[0]<+:buffer.drop offset) :
    (stringAt buffer offset).map CStr.bytes=some part := by
  obtain ⟨rest,hrest⟩ := hpre
  rw [stringAt,← hrest,if_pos (by simp)]
  refine congrArg some ?_
  change (part++[0]++rest).takeWhile (·≠0)=part
  rw [List.append_assoc,List.takeWhile_append_of_pos]
  · simp
  · intro c hc
    simpa using ne_of_mem_of_not_mem hc hfree

/-- A buffer after nothing but NULs have been written to it. -/
structure NulsOver (old new : List UInt8) : Prop where
  length : new.length=old.length
  bytes : ∀ i : ℕ,new[i]?=old[i]? ∨ new[i]?=some 0

theorem NulsOver.refl (buffer : List UInt8) : NulsOver buffer buffer := ⟨rfl,fun _ => Or.inl rfl⟩

theorem NulsOver.trans {a b c : List UInt8} (h : NulsOver a b) (h' : NulsOver b c) :
    NulsOver a c where
  length := h'.length.trans h.length
  bytes i := by
    rcases h'.bytes i with hi|hi
    · rw [hi]
      exact h.bytes i
    · exact Or.inr hi

theorem Cutting.terminate_eq {f : Cutting} {p : ℕ} (hp : p < f.buffer.length) :
    ∃ buffer,f.terminate p=some ⟨buffer,f.strings,f.i⟩ ∧ buffer=f.buffer.set p 0 ∧
      NulsOver f.buffer buffer := by
  refine ⟨_,if_pos hp,rfl,List.length_set,fun i => ?_⟩
  by_cases hi : p=i
  · right
    rw [← hi,List.getElem?_set_self hp]
  · left
    rw [List.getElem?_set_ne hi]

/-- The buffer is cut up to done; the table has the parts so far. -/
structure Cutting.Has (f : Cutting) (done rest : List UInt8) (ps : List (ℕ × List UInt8)) :
    Prop where
  buffer : f.buffer=done++(rest++[0])
  cut : Cut done ps
  entries : f.strings.take f.i=ps.map fun x => some x.1
  count : f.i=ps.length

theorem Cutting.Has.store {f : Cutting} {done rest more acc : List UInt8}
    {ps : List (ℕ × List UInt8)} (hf : f.Has done rest ps) (hroom : f.i < f.strings.length)
    (hacc : 0∉acc) {buffer : List UInt8} (hbuffer : buffer=done++(acc++(0 :: more))) :
    ∃ f',Cutting.store ⟨buffer,f.strings,f.i⟩ done.length=some f' ∧
      f'.strings.length=f.strings.length ∧ f'.buffer=(done++(acc++[0]))++more ∧
      Cut (done++(acc++[0])) (ps++[(done.length,acc)]) ∧
      f'.strings.take f'.i=(ps++[(done.length,acc)]).map (fun x => some x.1) ∧
      f'.i=(ps++[(done.length,acc)]).length := by
  refine ⟨_,if_pos hroom,List.length_set,?_,?_,?_,?_⟩
  · rw [hbuffer]
    simp
  · intro x hx
    rcases List.mem_append.mp hx with hx|hx
    · exact hf.cut.mono x hx
    · rw [List.mem_singleton.mp hx,List.drop_left]
      exact ⟨hacc,List.prefix_refl _⟩
  · change (f.strings.set f.i _).take (f.i+1)=_
    rw [List.take_add_one,List.take_set_of_le (Nat.le_refl _),hf.entries,
      List.getElem?_set_self hroom,List.map_append]
    rfl
  · rw [List.length_append,← hf.count]
    rfl

variable (isSep : UInt8 → Bool) (keepEmpty : Bool)

theorem cutWalk_parts (rest : List UInt8) {done acc : List UInt8} {f : Cutting}
    {ps : List (ℕ × List UInt8)} (hfree : 0∉acc++rest) (hf : f.Has done (acc++rest) ps)
    (hroom : f.i+(parts isSep keepEmpty acc rest).length ≤ f.strings.length) :
    ∃ f' ps',cutWalk isSep keepEmpty rest (done.length+acc.length) done.length f=some f' ∧
      Cut f'.buffer ps' ∧ f'.strings.take f'.i=ps'.map (fun x => some x.1) ∧
      f'.i=ps'.length ∧ NulsOver f.buffer f'.buffer ∧
      ps'.map Prod.snd=ps.map Prod.snd++parts isSep keepEmpty acc rest := by
  induction rest generalizing done acc f ps with
  | nil =>
    rw [List.append_nil] at hfree hf
    rw [cutWalk,parts_end]
    rw [parts_end] at hroom
    by_cases hkept : kept keepEmpty acc=true
    · rw [if_pos hkept,List.length_singleton] at hroom
      rw [if_pos ((kept_iff keepEmpty done acc).mpr hkept),if_pos hkept]
      have hbuffer : f.buffer=done++(acc++[0]) := hf.buffer
      obtain ⟨f',hstore,-,hb,hcut,hentries,hcount⟩ := hf.store hroom hfree hbuffer
      rw [List.append_nil] at hb
      refine ⟨f',_,hstore,?_,hentries,hcount,?_,List.map_append⟩
      · rw [hb]
        exact hcut
      · rw [hb,hf.buffer]
        exact .refl _
    · rw [if_neg (fun h => hkept ((kept_iff keepEmpty done acc).mp h)),if_neg hkept]
      refine ⟨f,ps,rfl,?_,hf.entries,hf.count,.refl _,(List.append_nil _).symm⟩
      rw [hf.buffer]
      exact hf.cut.mono
  | cons c rest ih =>
    have hrest : 0∉rest := fun hm => hfree (by simp [hm])
    have hacc : 0∉acc := fun hm => hfree (by simp [hm])
    rw [cutWalk]
    by_cases hc : isSep c
    · rw [if_pos hc,parts_sep hc]
      rw [parts_sep hc,List.length_append] at hroom
      by_cases hkept : kept keepEmpty acc=true
      · rw [if_pos hkept,List.length_singleton] at hroom
        rw [if_pos ((kept_iff keepEmpty done acc).mpr hkept),if_pos hkept]
        have hp : done.length+acc.length < f.buffer.length := by
          rw [hf.buffer]
          simp
        obtain ⟨buffer,hcutoff,hset,hnuls⟩ := f.terminate_eq hp
        have hbuffer : buffer=done++(acc++(0 :: (rest++[0]))) := by
          rw [hset,hf.buffer]
          simp
        obtain ⟨f1,hstore,hlen,hb,hcut,hentries,hcount⟩ := hf.store (by omega) hacc hbuffer
        have hf1 : f1.Has (done++(acc++[0])) ([]++rest) (ps++[(done.length,acc)]) :=
          ⟨hb,hcut,hentries,hcount⟩
        have hi : f1.i=f.i+1 := by
          rw [hcount,hf.count,List.length_append]
          rfl
        obtain ⟨f2,ps2,hwalk,hcut2,hentries2,hcount2,hnuls2,hps⟩ := ih hrest hf1 (by omega)
        refine ⟨f2,ps2,?_,hcut2,hentries2,hcount2,?_,?_⟩
        · rw [hcutoff]
          change (Cutting.store _ _ >>= _)=_
          rw [hstore]
          simp only [List.length_append,List.length_cons,List.length_nil] at hwalk
          exact hwalk
        · have hsame : f1.buffer=buffer := by
            rw [hb,hbuffer]
            simp
          rw [hsame] at hnuls2
          exact hnuls.trans hnuls2
        · rw [hps,List.map_append,List.append_assoc]
          rfl
      · have hnil : acc=[] := by
          cases acc with
          | nil => rfl
          | cons a acc => simp [kept] at hkept
        rw [if_neg (fun h => hkept ((kept_iff keepEmpty done acc).mp h)),if_neg hkept]
        rw [if_neg hkept] at hroom
        have hf1 : f.Has (done++[c]) ([]++rest) ps := by
          refine ⟨?_,hf.cut.mono,hf.entries,hf.count⟩
          rw [hf.buffer,hnil]
          simp
        obtain ⟨f2,ps2,hwalk,hrest2⟩ := ih hrest hf1 (by simpa using hroom)
        refine ⟨f2,ps2,?_,hrest2⟩
        simp only [List.length_append,List.length_cons,List.length_nil] at hwalk
        rw [hnil]
        exact hwalk
    · rw [if_neg hc,parts_char hc]
      rw [parts_char hc] at hroom
      have hsplit : acc++c :: rest=(acc++[c])++rest := by simp
      rw [hsplit] at hfree hf
      obtain ⟨f2,ps2,hwalk,hrest2⟩ := ih hfree hf hroom
      refine ⟨f2,ps2,?_,hrest2⟩
      rw [List.length_append] at hwalk
      exact hwalk

/-- What the entries of a cvector are in the string that was cut. -/
def cutTexts (cut : List UInt8 × Cvector ℕ) : Option (List CStr) :=
  (cut.2.strings.take cut.2.count).mapM (· >>= stringAt cut.1)

theorem cutTexts_bytes {buffer : List UInt8} {strings : List (Option ℕ)} {i : ℕ}
    {ps : List (ℕ × List UInt8)} (hcut : Cut buffer ps)
    (hentries : strings.take i=ps.map fun x => some x.1) :
    (cutTexts (buffer,⟨i,strings⟩)).map (List.map CStr.bytes)=some (ps.map Prod.snd) := by
  change ((strings.take i).mapM (· >>= stringAt buffer)).map _=_
  rw [hentries,List.mapM_map]
  clear hentries
  induction ps with
  | nil => rfl
  | cons x ps ih =>
    have hx := hcut x List.mem_cons_self
    obtain ⟨s,hs,hbytes⟩ := Option.map_eq_some_iff.mp (stringAt_part hx.1 hx.2)
    have hps := ih fun y hy => hcut y (List.mem_cons_of_mem _ hy)
    obtain ⟨l,hl,hlb⟩ := Option.map_eq_some_iff.mp hps
    have hfirst : ((· >>= stringAt buffer) ∘ fun x : ℕ × List UInt8 => some x.1) x=some s := hs
    rw [List.mapM_cons,hfirst,hl]
    change some (List.map CStr.bytes (s :: l))=_
    rw [List.map_cons,hbytes,hlb,List.map_cons]

theorem cvectorRoom_fits (v : Cvector ℕ) (count : ℕ) :
    count ≤ (cvectorRoom v count).strings.length := by
  rw [cvectorRoom]
  by_cases hlt : v.allocated < count
  · rw [if_pos hlt]
    simp only [cvectorResize,List.length_append,List.length_take,List.length_replicate]
    split_ifs <;> omega
  · rw [if_neg hlt]
    exact Nat.le_of_not_lt hlt

theorem cutInto_pieces (string : CStr) {v : Option (Cvector ℕ)} {count : ℕ}
    (hcount : count=(pieces isSep keepEmpty string.bytes).length) :
    ∃ cut,cutInto isSep keepEmpty count string v=some cut ∧
      NulsOver (string.bytes++[0]) cut.1 ∧
      (cutTexts cut).map (List.map CStr.bytes)=some (pieces isSep keepEmpty string.bytes) := by
  have hroom := cvectorRoom_fits (cvectorReuse v) count
  unfold cutInto
  generalize cvectorRoom (cvectorReuse v) count=v1 at hroom
  have hstart : Cutting.Has ⟨string.bytes++[0],v1.strings,0⟩ [] ([]++string.bytes) [] :=
    ⟨rfl,(fun _ hx => by cases hx),rfl,rfl⟩
  have hlen : 0+(parts isSep keepEmpty [] string.bytes).length ≤ v1.strings.length := by
    rw [Nat.zero_add,parts_start,← hcount]
    exact hroom
  obtain ⟨f,ps,hwalk,hcut,hentries,hi,hnuls,hps⟩ := cutWalk_parts isSep keepEmpty string.bytes
    string.nulFree hstart hlen
  refine ⟨(f.buffer,⟨f.i,f.strings⟩),?_,hnuls,?_⟩
  · exact congrArg (· >>= fun f : Cutting => some (f.buffer,(⟨f.i,f.strings⟩ : Cvector ℕ))) hwalk
  · rw [cutTexts_bytes hcut hentries,hps]
    rfl

theorem bytes_injective {l l' : List CStr} (h : l.map CStr.bytes=l'.map CStr.bytes) : l=l' :=
  List.map_injective_iff.mpr (fun _ _ => CStr.ext) h

/-- Cutting a string in place gives the strings that copying its parts gives, whatever the
cvector had before; nothing but NULs is written, and nothing beyond the string or the table. -/
theorem split_in_place (h : Strings) (string seps : CStr) (c : UInt8) (v : Option (Cvector ℕ)) :
    (∃ cut texts,cvectorSplit string c v=some cut ∧ splitTexts h string c none=some texts ∧
        cutTexts cut=some texts ∧ NulsOver (string.bytes++[0]) cut.1 ∧
        ∀ hc : c≠0,string.bytes.length < sizeMax →
          cvectorJoin (stringAt cut.1) cut.2 (oneChar c hc)=some string) ∧
      ∃ cut texts,cvectorSplitMulti string seps v=some cut ∧
        (vectorSplitMulti h string seps none >>= fun x => x.2.texts x.1)=some texts ∧
        cutTexts cut=some texts ∧ NulsOver (string.bytes++[0]) cut.1 := by
  have hstart : Place h.cells h none [] := ⟨rfl,Heap.holds_self h⟩
  constructor
  · obtain ⟨cut,hcut,hnuls,hpieces⟩ := cutInto_pieces (·=c) true string
      (v := v) (splitCount_eq string c)
    obtain ⟨l,hl,hlb⟩ := Option.map_eq_some_iff.mp hpieces
    obtain ⟨h',v',owned,hrun,ht,hown⟩ := splitTexts_eq hstart string c
    rw [pieces_all] at hlb
    have hsame : owned.map Prod.snd=l := bytes_injective (hown.trans hlb.symm)
    refine ⟨cut,l,hcut,?_,hl,hnuls,?_⟩
    · rw [splitTexts,hrun,← hsame]
      exact texts_eq ht
    · intro hc hfit
      have hjoined : joined l (oneChar c hc)=string.bytes := by
        rw [joined,hlb]
        exact List.intercalate_splitOn c
      have hjoin := (joinStrings_iff l (oneChar c hc) (Nat.zero_le _)).mpr
        (by rw [hjoined]; exact hfit)
      obtain ⟨s,hs,hsb⟩ := Option.map_eq_some_iff.mp hjoin
      rw [hjoined] at hsb
      rw [cvectorJoin]
      change (cutTexts cut >>= fun strings => joinStrings 0 strings (oneChar c hc))=_
      rw [hl,← CStr.ext hsb]
      exact hs
  · obtain ⟨cut,hcut,hnuls,hpieces⟩ := cutInto_pieces (·∈seps.bytes) false string
      (v := v) (splitMultiCount_eq string seps)
    obtain ⟨l,hl,hlb⟩ := Option.map_eq_some_iff.mp hpieces
    obtain ⟨h',v',owned,hrun,ht,hown⟩ := splitInto_table (·∈seps.bytes) false string
      hstart.reusable
    rw [← splitMultiCount_eq] at hrun
    have hsame : owned.map Prod.snd=l := by
      refine bytes_injective (Eq.trans ?_ hlb.symm)
      rw [List.map_map]
      exact hown
    refine ⟨cut,l,hcut,?_,hl,hnuls⟩
    rw [vectorSplitMulti,hrun,← hsame]
    exact texts_eq ht

end Lbcd
