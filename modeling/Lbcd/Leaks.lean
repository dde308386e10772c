import Lbcd.Memory
import Lbcd.Traffic

namespace Lbcd

open Interaction CText ByteOrder CHeap

/-- Calls other than the question at the top of the main loop. -/
def Untopped (c : ServerCall) : Prop := c≠.sys .exitSignaled

/-- The top of the main loop is only met in order. -/
def AtTop (inv : Memory → Prop) (m : Memory) (c : ServerCall) : Prop :=
  c=.sys .exitSignaled → inv m

section

variable {α β γ : Type} {inv : Memory → Prop} {post : Memory → α → β → Prop} {m m' : Memory}

theorem plain_bind {p : Prog Server γ} {k : γ → Prog Daemon α} {f : γ → Prog Server β}
    (hp : p.Meets Untopped fun _ => True)
    (hk : ∀ a,(k a).Shadows (AtTop inv) post m (f a)) :
    (plain p >>= k).Shadows (AtTop inv) post m (p >>= f) := by
  have hshadows : (plain p).Shadows (AtTop inv) (fun t a b => t=m ∧ a=b ∧ True) m p :=
    (hp.mono (fun _ hc htop => absurd htop hc) fun _ h => h).shadows
  refine hshadows.bind ?_
  rintro t a b ⟨rfl,rfl,-⟩
  exact hk a

theorem plain_shadows {p : Prog Server β} (hp : p.Meets Untopped fun _ => True) :
    (plain p).Shadows (AtTop inv) (fun t _ _ => t=m) m p :=
  (hp.mono (fun _ hc htop => absurd htop hc) fun _ h => h).shadows.mono fun _ _ _ h => h.1

theorem mem_bind {c : MemoryCall} {r : c.Reply} {k : c.Reply → Prog Daemon α}
    {q : Prog Server β} (hr : c.run m=some (r,m'))
    (hk : (k r).Shadows (AtTop inv) post m' q) :
    (mem c >>= k).Shadows (AtTop inv) post m q :=
  Prog.shadows_own hr hk

theorem syscall_bind {c : SysCall} (hc : c≠.exitSignaled) {k : c.Reply → Prog Daemon α}
    {f : c.Reply → Prog Server β} (hk : ∀ r,(k r).Shadows (AtTop inv) post m (f r)) :
    (plain (ssys c) >>= k).Shadows (AtTop inv) post m (ssys c >>= f) :=
  plain_bind ⟨(fun h => hc (ServerCall.sys.inj h)),fun _ => trivial⟩ hk

theorem logged_bind (msg : Message) {k : Unit → Prog Daemon α} {f : Unit → Prog Server β}
    (hk : (k ()).Shadows (AtTop inv) post m (f ())) :
    (plain (message msg) >>= k).Shadows (AtTop inv) post m (message msg >>= f) :=
  syscall_bind (c := .message msg) SysCall.noConfusion fun _ => hk

end

theorem starting_untopped {α : Type} {config : LbcdConfig} {p : Prog Server α}
    (h : p.Meets (Starting config) fun _ => True) : p.Meets Untopped fun _ => True := by
  apply h.mono
  · rintro c hc rfl
    exact hc.elim
  · exact fun _ h => h

theorem message_untopped (msg : Message) : (message msg).Meets Untopped fun _ => True :=
  ⟨(fun h => by cases h),fun _ => trivial⟩

theorem readByte_untopped (raw : List UInt8) (i : ℕ) :
    (readByte raw i).Meets Untopped fun _ => True := by
  rw [readByte]
  cases raw[i]? with
  | none => exact ⟨(fun h => by cases h),fun r => r.elim⟩
  | some b => trivial

theorem readShort_untopped (e : Endian) (raw : List UInt8) (i : ℕ) :
    (readShort e raw i).Meets Untopped fun _ => True :=
  (readByte_untopped raw i).bind fun _ _ => (readByte_untopped raw (i+1)).bind fun _ _ => trivial

theorem xstrndup_untopped (raw : List UInt8) (p size : ℕ) :
    (xstrndup raw p size).Meets Untopped fun _ => True := by
  induction size generalizing p with
  | zero => trivial
  | succ size ih =>
    refine (readByte_untopped raw p).bind fun b _ => ?_
    by_cases hb : b=0
    · rw [if_pos hb]
      trivial
    · rw [if_neg hb]
      exact (ih (p+1)).bind fun _ _ => trivial

theorem lbcdPackInfo_untopped (e : Endian) (g : WeightGlobals) (lb : LbcdReply)
    (protocol : UInt16) {services : List CStr} (hl : services.length ≤ maxServices)
    (simple : Bool) (cache : UserCache) :
    (lbcdPackInfo e g lb protocol services simple cache).Meets Untopped fun _ => True := by
  apply (lbcdPackInfo_packing e g lb protocol hl simple cache).mono
  · rintro c hc rfl
    exact hc.elim
  · intro _ _
    trivial

/-- Only the frames are there. -/
structure Bare (fs : ℕ → Option CStr) (fb : ℕ → Option Block) (m : Memory) : Prop where
  strings : m.strings.cells=fs
  blocks : m.blocks.cells=fb

/-- Beside the frames there are the cells of some owners, and no others. -/
structure Owned {ι κ : Type} (fs : ℕ → Option CStr) (fb : ℕ → Option Block) (m : Memory)
    (strs : ι → List (ℕ × CStr)) (blks : κ → List (ℕ × Block)) : Prop where
  strings : m.strings.Shared fs strs
  blocks : m.blocks.Shared fb blks

/-- The entries of a vector point to these strings, on some heap. -/
def Tabled (v : StringVector) (owned : List (ℕ × CStr)) : Prop := ∃ frame h,Table frame h v owned

section

variable {ι κ : Type} {fs : ℕ → Option CStr} {fb : ℕ → Option Block} {m : Memory}
  {strs : ι → List (ℕ × CStr)} {blks : κ → List (ℕ × Block)}

theorem Bare.owned (hm : Bare fs fb m) :
    Owned fs fb m (fun _ : ι => []) (fun _ : κ => []) := by
  obtain ⟨rfl,rfl⟩ := hm
  exact ⟨Heap.shared_none m.strings,Heap.shared_none m.blocks⟩

theorem Owned.bare (ho : Owned fs fb m strs blks) (hs : ∀ i,strs i=[]) (hb : ∀ i,blks i=[]) :
    Bare fs fb m :=
  ⟨ho.strings.cells_eq hs,ho.blocks.cells_eq hb⟩

theorem Owned.table (ho : Owned fs fb m strs blks) {i : ι} {v : StringVector}
    (ht : Tabled v (strs i)) : Table (m.strings.beside (strs i)) m.strings v (strs i) := by
  obtain ⟨frame,h,ht⟩ := ht
  exact Place.moved (v := some v) ht (ho.strings.one i)

theorem Owned.request (ho : Owned fs fb m strs blks) {i : κ} {p : ℕ} {block : RequestBlock}
    (hi : blks i=[(p,.request block)]) : (MemoryCall.request p).run m=some (block,m) := by
  have hcell : m.blocks.cells p=some (.request block) := ho.blocks.read (i := i) (by simp [hi])
  simp [MemoryCall.run,hcell]

theorem Owned.address (ho : Owned fs fb m strs blks) {i : κ} {p : ℕ} {addr : SockAddr}
    (hi : blks i=[(p,.address addr)]) : (MemoryCall.address (some p)).run m=some (addr,m) := by
  have hcell : m.blocks.cells p=some (.address addr) := ho.blocks.read (i := i) (by simp [hi])
  simp [MemoryCall.run,hcell]

theorem Owned.string (ho : Owned fs fb m strs blks) {i : ι} {p : ℕ} {s : CStr}
    (hi : strs i=[(p,s)]) : (MemoryCall.string (some p)).run m=some (s,m) := by
  have hcell : m.strings.cells p=some s := ho.strings.read (i := i) (by simp [hi])
  simp [MemoryCall.run,hcell]

theorem Owned.vectorAt (ho : Owned fs fb m strs blks) {i : κ} {p : ℕ} {v : StringVector}
    (hi : blks i=[(p,.vector v)]) : m.vectorAt (some p)=some (p,v) := by
  have hcell : m.blocks.cells p=some (.vector v) := ho.blocks.read (i := i) (by simp [hi])
  simp [Memory.vectorAt,hcell]

theorem Owned.texts (ho : Owned fs fb m strs blks) {i : κ} {j : ι} {p : ℕ} {v : StringVector}
    (hi : blks i=[(p,.vector v)]) (ht : Tabled v (strs j)) :
    (MemoryCall.texts (some p)).run m=some ((strs j).map Prod.snd,m) := by
  simp [MemoryCall.run,ho.vectorAt hi,texts_eq (ho.table ht)]

theorem Owned.allocBlock [DecidableEq κ] (ho : Owned fs fb m strs blks) {i : κ}
    (hi : blks i=[]) (b : Block) :
    ∃ p m',m.allocBlock b=(p,m') ∧ Owned fs fb m' strs (Function.update blks i [(p,b)]) :=
  ⟨_,_,rfl,ho.strings,ho.blocks.alloc hi b⟩

theorem Owned.setRequest [DecidableEq κ] (ho : Owned fs fb m strs blks) {i : κ} {p : ℕ}
    {old : RequestBlock} (hi : blks i=[(p,.request old)]) (block : RequestBlock) :
    ∃ m',(MemoryCall.setRequest p block).run m=some ((),m') ∧
      Owned fs fb m' strs (Function.update blks i [(p,.request block)]) := by
  have hcell : m.blocks.cells p=some (.request old) := ho.blocks.read (i := i) (by simp [hi])
  obtain ⟨blocks,hwrite,hblocks⟩ := ho.blocks.write hi (.request block)
  refine ⟨⟨m.strings,blocks⟩,?_,ho.strings,hblocks⟩
  simp [MemoryCall.run,hcell,hwrite]

theorem Owned.setFd [DecidableEq κ] (ho : Owned fs fb m strs blks) {i : κ} {p n : ℕ}
    {entries : List (Option Fd)} (hi : blks i=[(p,.sockets entries)]) (hn : n < entries.length)
    (fd : Option Fd) :
    ∃ m',(MemoryCall.setFd p n fd).run m=some ((),m') ∧
      Owned fs fb m' strs (Function.update blks i [(p,.sockets (entries.set n fd))]) := by
  have hcell : m.blocks.cells p=some (.sockets entries) := ho.blocks.read (i := i) (by simp [hi])
  obtain ⟨blocks,hwrite,hblocks⟩ := ho.blocks.write hi (.sockets (entries.set n fd))
  refine ⟨⟨m.strings,blocks⟩,?_,ho.strings,hblocks⟩
  simp [MemoryCall.run,hcell,hn,hwrite]

theorem Owned.reallocFds [DecidableEq κ] (ho : Owned fs fb m strs blks) {i : κ} {p : ℕ}
    {entries : List (Option Fd)} (hi : blks i=[(p,.sockets entries)]) (n : ℕ) :
    ∃ q m',(MemoryCall.reallocFds p n).run m=some (q,m') ∧
      Owned fs fb m' strs (Function.update blks i
        [(q,.sockets (entries.take n++List.replicate (n-entries.length) none))]) := by
  have hcell : m.blocks.cells p=some (.sockets entries) := ho.blocks.read (i := i) (by simp [hi])
  obtain ⟨blocks,hfree,hblocks⟩ := ho.blocks.free hi
  have hnew := hblocks.alloc (i := i) (by simp)
    (.sockets (entries.take n++List.replicate (n-entries.length) none))
  rw [Function.update_idem] at hnew
  refine ⟨blocks.next,⟨m.strings,(blocks.alloc _).2⟩,?_,ho.strings,hnew⟩
  simp [MemoryCall.run,hcell,hfree,Memory.allocBlock,Heap.alloc]

theorem Owned.strdup [DecidableEq ι] (ho : Owned fs fb m strs blks) {i : ι}
    (hi : strs i=[]) (s : CStr) :
    ∃ p m',(MemoryCall.strdup s).run m=some (p,m') ∧
      Owned fs fb m' (Function.update strs i [(p,s)]) blks :=
  ⟨_,_,rfl,ho.strings.alloc hi s,ho.blocks⟩

theorem Owned.freeString [DecidableEq ι] (ho : Owned fs fb m strs blks) {i : ι} {p : ℕ} {s : CStr}
    (hi : strs i=[(p,s)]) :
    ∃ m',(MemoryCall.freeString (some p)).run m=some ((),m') ∧
      Owned fs fb m' (Function.update strs i []) blks := by
  obtain ⟨strings,hfree,hstrings⟩ := ho.strings.free hi
  refine ⟨⟨strings,m.blocks⟩,?_,hstrings,ho.blocks⟩
  simp [MemoryCall.run,hfree]

theorem Owned.free [DecidableEq κ] (ho : Owned fs fb m strs blks) {i : κ} {p : ℕ} {b : Block}
    (hi : blks i=[(p,b)]) :
    ∃ m',(MemoryCall.free (some p)).run m=some ((),m') ∧
      Owned fs fb m' strs (Function.update blks i []) := by
  obtain ⟨blocks,hfree,hblocks⟩ := ho.blocks.free hi
  refine ⟨⟨m.strings,blocks⟩,?_,ho.strings,hblocks⟩
  simp [MemoryCall.run,hfree]

theorem Owned.vectorAdd [DecidableEq ι] [DecidableEq κ] (ho : Owned fs fb m strs blks) {i : κ}
    {j : ι} {p : ℕ} {v : StringVector} (hi : blks i=[(p,.vector v)]) (ht : Tabled v (strs j))
    (s : CStr) :
    ∃ m' v' q,(MemoryCall.vectorAdd (some p) s).run m=some ((),m') ∧
      Tabled v' (strs j++[(q,s)]) ∧
      Owned fs fb m' (Function.update strs j (strs j++[(q,s)]))
        (Function.update blks i [(p,.vector v')]) := by
  obtain ⟨strings,v',q,hadd,ht'⟩ := vectorAdd_table (ho.table ht) s
  obtain ⟨blocks,hwrite,hblocks⟩ := ho.blocks.write hi (.vector v')
  refine ⟨⟨strings,blocks⟩,v',q,?_,⟨_,_,ht'⟩,ho.strings.update j ht'.holds,hblocks⟩
  simp [MemoryCall.run,ho.vectorAt hi,hadd,hwrite]

theorem Owned.vectorFree [DecidableEq ι] [DecidableEq κ] (ho : Owned fs fb m strs blks) {i : κ}
    {j : ι} {p : ℕ} {v : StringVector} (hi : blks i=[(p,.vector v)]) (ht : Tabled v (strs j)) :
    ∃ m',(MemoryCall.vectorFree (some p)).run m=some ((),m') ∧
      Owned fs fb m' (Function.update strs j []) (Function.update blks i []) := by
  obtain ⟨strings,hfree,hstrings⟩ := vectorFree_table (ho.table ht)
  obtain ⟨blocks,hblock,hblocks⟩ := ho.blocks.free hi
  refine ⟨⟨strings,blocks⟩,?_,ho.strings.update j hstrings,hblocks⟩
  simp [MemoryCall.run,ho.vectorAt hi,hfree,hblock]

end

/-- The frames have a vector with these strings. -/
def Laid (fs : ℕ → Option CStr) (fb : ℕ → Option Block) (p : ℕ) (l : List CStr) : Prop :=
  ∃ v,fb p=some (.vector v) ∧ (v.strings.take v.count).mapM (· >>= fs)=some l

theorem mapM_mono {α β : Type} {f g : α → Option β} (hfg : ∀ a b,f a=some b → g a=some b)
    {xs : List α} {ys : List β} (h : xs.mapM f=some ys) : xs.mapM g=some ys := by
  induction xs generalizing ys with
  | nil => exact h
  | cons x xs ih =>
    rw [List.mapM_cons] at h ⊢
    obtain ⟨y,hy,h⟩ := Option.bind_eq_some_iff.mp h
    obtain ⟨zs,hzs,h⟩ := Option.bind_eq_some_iff.mp h
    rw [hfg x y hy,ih hzs]
    exact h

/-- What is laid in the frames stays there beside anything that is owned. -/
theorem Laid.beside {ι κ : Type} {fs : ℕ → Option CStr} {fb : ℕ → Option Block} {m : Memory}
    {strs : ι → List (ℕ × CStr)} {blks : κ → List (ℕ × Block)} {p : ℕ} {l : List CStr}
    (hl : Laid fs fb p l) (ho : Owned fs fb m strs blks) :
    Laid m.strings.cells m.blocks.cells p l := by
  obtain ⟨v,hv,htexts⟩ := hl
  refine ⟨v,(ho.blocks.cells p _).mpr (Or.inl hv),mapM_mono (fun entry s hs => ?_) htexts⟩
  obtain ⟨q,hq,hs⟩ := Option.bind_eq_some_iff.mp hs
  exact Option.bind_eq_some_iff.mpr ⟨q,hq,(ho.strings.cells q s).mpr (Or.inl hs)⟩

theorem Laid.texts {ι κ : Type} {fs : ℕ → Option CStr} {fb : ℕ → Option Block} {m : Memory}
    {strs : ι → List (ℕ × CStr)} {blks : κ → List (ℕ × Block)} {p : ℕ} {l : List CStr}
    (hl : Laid fs fb p l) (ho : Owned fs fb m strs blks) :
    (MemoryCall.texts (some p)).run m=some (l,m) := by
  obtain ⟨v,hcell,hall⟩ := hl.beside ho
  have hread : v.texts m.strings=some l := hall
  simp [MemoryCall.run,Memory.vectorAt,hcell,hread]

/-- A table of this size is allocated beside the frames, and nothing else; its first entries are
these sockets. -/
def Stocked (fs : ℕ → Option CStr) (fb : ℕ → Option Block) (m : Memory) (table size : ℕ)
    (fds : List Fd) : Prop :=
  ∃ entries,Owned fs fb m (fun _ : Unit => []) (fun _ : Unit => [(table,.sockets entries)]) ∧
    entries.length=size ∧ entries.take fds.length=fds.map some

section

variable {fs : ℕ → Option CStr} {fb : ℕ → Option Block} {m : Memory} {table size : ℕ}
  {fds : List Fd}

theorem Stocked.new (hm : Bare fs fb m) (size : ℕ) :
    ∃ table m',(MemoryCall.callocFds size).run m=some (table,m') ∧
      Stocked fs fb m' table size [] := by
  have h0 : Owned fs fb m (fun _ : Unit => []) (fun _ : Unit => []) := hm.owned
  obtain ⟨table,m',hrun,ho⟩ := h0.allocBlock (i := ()) rfl
    (.sockets (List.replicate size (some 0)))
  rw [Function.update_eq_const_of_subsingleton] at ho
  exact ⟨table,m',congrArg some hrun,_,ho,List.length_replicate,rfl⟩

theorem Stocked.length_le (hf : Stocked fs fb m table size fds) : fds.length ≤ size := by
  obtain ⟨entries,-,hsize,htake⟩ := hf
  have hlen := congrArg List.length htake
  rw [List.length_take,List.length_map] at hlen
  omega

theorem Stocked.setFd (hf : Stocked fs fb m table size fds) (hroom : fds.length < size)
    (fd : Option Fd) : ∃ m',(MemoryCall.setFd table fds.length fd).run m=some ((),m') ∧
      ∀ socket,fd=some socket → Stocked fs fb m' table size (fds++[socket]) := by
  obtain ⟨entries,ho,rfl,htake⟩ := hf
  obtain ⟨m',hrun,ho'⟩ := ho.setFd (i := ()) rfl hroom fd
  rw [Function.update_eq_const_of_subsingleton] at ho'
  refine ⟨m',hrun,?_⟩
  intro socket hsocket
  refine ⟨_,ho',List.length_set,?_⟩
  rw [List.length_append,List.length_singleton,List.take_add_one,List.take_set_of_le (le_refl _),
    htake,hsocket]
  simp [hroom]

theorem Stocked.realloc (hf : Stocked fs fb m table size fds) {n : ℕ} (hn : size ≤ n) :
    ∃ table' m',(MemoryCall.reallocFds table n).run m=some (table',m') ∧
      Stocked fs fb m' table' n fds := by
  have hle := hf.length_le
  obtain ⟨entries,ho,rfl,htake⟩ := hf
  obtain ⟨table',m',hrun,ho'⟩ := ho.reallocFds (i := ()) rfl n
  rw [Function.update_eq_const_of_subsingleton] at ho'
  refine ⟨table',m',hrun,_,ho',?_,?_⟩
  · simp
    omega
  · rw [List.take_of_length_le hn,List.take_append_of_le_length hle,htake]

end

/-- The frame has a table with these sockets. -/
def Seats (fb : ℕ → Option Block) (sockets : SocketTable) (fds : List Fd) : Prop :=
  ∃ entries,fb sockets.fds=some (.sockets entries) ∧ sockets.count=fds.length ∧
    entries.take fds.length=fds.map some

theorem Seats.read {fs : ℕ → Option CStr} {fb : ℕ → Option Block} {m : Memory}
    {sockets : SocketTable} {fds : List Fd} (hseats : Seats fb sockets fds) (hm : Bare fs fb m) :
    (MemoryCall.fds sockets.fds sockets.count).run m=some (fds,m) := by
  obtain ⟨entries,hcell,hcount,htake⟩ := hseats
  have hlen := congrArg List.length htake
  rw [List.length_take,List.length_map] at hlen
  have hfits : fds.length ≤ entries.length := by omega
  have hread : fds.mapM some=some fds := by
    simpa using List.mapM_pure (m := Option) (l := fds) (f := id)
  rw [← hm.blocks] at hcell
  simp [MemoryCall.run,hcell,hcount,hfits,htake,hread]

theorem Stocked.seats {fs : ℕ → Option CStr} {fb : ℕ → Option Block} {m : Memory}
    {sockets : SocketTable} {size : ℕ} {fds : List Fd} (hf : Stocked fs fb m sockets.fds size fds)
    (hcount : sockets.count=fds.length) : Seats m.blocks.cells sockets fds := by
  obtain ⟨entries,ho,-,htake⟩ := hf
  exact ⟨entries,ho.blocks.read (i := ()) (by simp),hcount,htake⟩

inductive StringOwner where
  | source
  | names
  | service
  deriving DecidableEq

inductive BlockOwner where
  | request
  | address
  | names
  deriving DecidableEq

/-- A request is allocated at p, with this service name beside it, and nothing else besides the
frames. -/
structure Carried (fs : ℕ → Option CStr) (fb : ℕ → Option Block) (m : Memory) (p : ℕ)
    (request : Request) (service : List (ℕ × CStr)) (strs : StringOwner → List (ℕ × CStr))
    (blks : BlockOwner → List (ℕ × Block)) (a s w : ℕ) (v : StringVector) : Prop where
  owned : Owned fs fb m strs blks
  requestBlock : blks .request=[(p,.request ⟨some a,some s,some w,request.protocol,request.id,
    request.operation⟩)]
  addressBlock : blks .address=[(a,.address request.addr)]
  vectorBlock : blks .names=[(w,.vector v)]
  sourceText : ∃ text,strs .source=[(s,text)]
  table : Tabled v (strs .names)
  nameTexts : (strs .names).map Prod.snd=request.services
  serviceText : strs .service=service

def Carries (fs : ℕ → Option CStr) (fb : ℕ → Option Block) (m : Memory) (p : ℕ)
    (request : Request) (service : List (ℕ × CStr)) : Prop :=
  ∃ strs blks a s w v,Carried fs fb m p request service strs blks a s w v

section

variable {fs : ℕ → Option CStr} {fb : ℕ → Option Block} {m : Memory} {α β : Type}
  {inv : Memory → Prop} {post : Memory → α → β → Prop}

theorem makeRequest_bind (sprint : SockAddr → CStr) {addr : SockAddr}
    {protocol id operation : UInt16} (hm : Bare fs fb m) {k : ℕ → Prog Daemon α}
    {q : Prog Server β}
    (hk : ∀ m' p,Carries fs fb m' p ⟨addr,protocol,id,operation,[]⟩ [] →
      (k p).Shadows (AtTop inv) post m' q) :
    (makeRequest sprint addr protocol id operation >>= k).Shadows (AtTop inv) post m q := by
  have h0 : Owned fs fb m (fun _ : StringOwner => []) (fun _ : BlockOwner => []) := hm.owned
  obtain ⟨p,m1,hrun1,h1⟩ := h0.allocBlock (i := .request) rfl (.request ⟨none,none,none,0,0,0⟩)
  obtain ⟨s,m2,hrun2,h2⟩ := h1.strdup (i := .source) rfl (sprint addr)
  obtain ⟨a,m3,hrun3,h3⟩ := h2.allocBlock (i := .address) rfl (.address addr)
  obtain ⟨w,m4,hrun4,h4⟩ := h3.allocBlock (i := .names) rfl (.vector (vectorNew m3.strings).2)
  obtain ⟨m5,hrun5,h5⟩ := h4.setRequest (i := .request) (p := p) rfl
    ⟨some a,some s,some w,protocol,id,operation⟩
  rw [makeRequest]
  simp only [bind_assoc,pure_bind]
  refine mem_bind (congrArg some hrun1) (mem_bind hrun2 (mem_bind (congrArg some hrun3)
    (mem_bind (congrArg some hrun4) (mem_bind hrun5 (hk m5 p ?_)))))
  refine ⟨_,_,a,s,w,_,h5,rfl,rfl,rfl,⟨sprint addr,rfl⟩,?_,rfl,rfl⟩
  exact ⟨_,_,vectorNew_table (Heap.holds_self m3.strings)⟩

theorem requestFree_bind {p : ℕ} {request : Request} (hc : Carries fs fb m p request [])
    {k : Unit → Prog Daemon α} {q : Prog Server β}
    (hk : ∀ m',Bare fs fb m' → (k ()).Shadows (AtTop inv) post m' q) :
    (requestFree (some p) >>= k).Shadows (AtTop inv) post m q := by
  obtain ⟨strs,blks,a,s,w,v,hc⟩ := hc
  obtain ⟨text,hsource⟩ := hc.sourceText
  obtain ⟨m1,hrun1,h1⟩ := hc.owned.free hc.addressBlock
  obtain ⟨m2,hrun2,h2⟩ := h1.freeString hsource
  obtain ⟨m3,hrun3,h3⟩ := h2.vectorFree (i := .names) (j := .names) (p := w) (v := v)
    (by simpa using hc.vectorBlock) (by simpa using hc.table)
  obtain ⟨m4,hrun4,h4⟩ := h3.free (i := .request) (by simpa using hc.requestBlock)
  rw [requestFree]
  simp only [bind_assoc]
  refine mem_bind (hc.owned.request hc.requestBlock) (mem_bind hrun1 (mem_bind hrun2
    (mem_bind hrun3 (mem_bind hrun4 (hk m4 ?_)))))
  apply h4.bare
  · intro i
    cases i with
    | source => simp
    | names => simp
    | service => simpa using hc.serviceText
  · intro i
    cases i <;> simp

theorem clientMessage_bind {p : ℕ} {request : Request} {service : List (ℕ × CStr)}
    (hc : Carries fs fb m p request service) (msg : Message) {k : Unit → Prog Daemon α}
    {f : Unit → Prog Server β} (hk : (k ()).Shadows (AtTop inv) post m (f ())) :
    (clientMessage p msg >>= k).Shadows (AtTop inv) post m (message msg >>= f) := by
  obtain ⟨strs,blks,a,s,w,v,hc⟩ := hc
  obtain ⟨text,hsource⟩ := hc.sourceText
  rw [clientMessage]
  simp only [bind_assoc]
  refine mem_bind (hc.owned.request hc.requestBlock) (mem_bind (hc.owned.string hsource) ?_)
  exact logged_bind msg hk

theorem sendStatusTo_bind (e : Endian) {p : ℕ} {request : Request}
    {service : List (ℕ × CStr)} (hc : Carries fs fb m p request service) (fd : Fd)
    (status : LbcdStatus) {k : Unit → Prog Daemon α} {f : Unit → Prog Server β}
    (hk : (k ()).Shadows (AtTop inv) post m (f ())) :
    (sendStatusTo e p fd status >>= k).Shadows (AtTop inv) post m
      (sendStatus e request fd status >>= f) := by
  have hcarries := hc
  obtain ⟨strs,blks,a,s,w,v,hc⟩ := hc
  rw [sendStatusTo,sendStatus]
  simp only [bind_assoc]
  refine mem_bind (hc.owned.request hc.requestBlock)
    (mem_bind (hc.owned.address hc.addressBlock) ?_)
  apply syscall_bind (c := .sendto fd _ request.addr) SysCall.noConfusion
  intro result
  by_cases hsent : result≠some headerSize
  · rw [if_pos hsent,if_pos hsent]
    exact clientMessage_bind hcarries .cannotSend hk
  · rw [if_neg hsent,if_neg hsent]
    exact hk

theorem shadows_ret {a : α} {b : β} (h : post m a b) :
    (pure a : Prog Daemon α).Shadows (AtTop inv) post m (pure b) := ⟨b,rfl,h⟩

theorem sendReplyTo_shadows (e : Endian) (g : WeightGlobals) (config : LbcdConfig)
    (cache : UserCache) {p : ℕ} {request : Request} (hc : Carries fs fb m p request [])
    (hfit : request.services.length ≤ maxServices) (fd : Fd) :
    (sendReplyTo e g config cache p fd).Shadows (AtTop inv) (fun t a b => t=m ∧ a=b) m
      (sendReply e g config cache request fd) := by
  have hcarries := hc
  obtain ⟨strs,blks,a,s,w,v,hc⟩ := hc
  rw [sendReplyTo,sendReply]
  apply syscall_bind (c := .stackReply) SysCall.noConfusion
  intro reply
  rw [requestGiven]
  simp only [bind_assoc,pure_bind]
  refine mem_bind (hc.owned.request hc.requestBlock)
    (mem_bind (hc.owned.address hc.addressBlock)
      (mem_bind (hc.owned.texts hc.vectorBlock hc.table) ?_))
  rw [hc.nameTexts]
  apply plain_bind (lbcdPackInfo_untopped e g _ request.protocol hfit config.simple cache)
  intro packed
  split_ifs with hsize
  · exact ⟨(fun h => by cases h),_,rfl,fun r => r.elim⟩
  · apply syscall_bind (c := .sendto fd _ request.addr) SysCall.noConfusion
    intro result
    split_ifs with hsent
    · exact clientMessage_bind hcarries .cannotSend (shadows_ret ⟨rfl,rfl⟩)
    · exact shadows_ret ⟨rfl,rfl⟩

theorem handleLbRequestAt_shadows (e : Endian) (g : WeightGlobals) (config : LbcdConfig)
    (cache : UserCache) {p : ℕ} {request : Request} (hc : Carries fs fb m p request [])
    (hfit : request.services.length ≤ maxServices) (fd : Fd) :
    (handleLbRequestAt e g config cache p fd).Shadows (AtTop inv) (fun t a b => t=m ∧ a=b) m
      (handleLbRequest e g config cache request fd) := by
  have hreply : (sendReplyTo e g config cache p fd).Shadows (AtTop inv) (fun t a b => t=m ∧ a=b) m
      (sendReply e g config cache request fd) :=
    sendReplyTo_shadows e g config cache hc hfit fd
  rw [handleLbRequestAt,handleLbRequest]
  split_ifs with hlog
  · have hcarries := hc
    obtain ⟨strs,blks,a,s,w,v,hc⟩ := hc
    refine mem_bind (hc.owned.request hc.requestBlock) ?_
    exact clientMessage_bind hcarries (.requestFrom request.protocol) hreply
  · exact hreply

/-- What is left of a packet: nothing, or a request that fits. -/
def Parsed (fs : ℕ → Option CStr) (fb : ℕ → Option Block) (m : Memory) :
    Option ℕ → Option Request → Prop
  | none,none => Bare fs fb m
  | some p,some request => Carries fs fb m p request [] ∧ request.services.length ≤ maxServices
  | _,_ => False

section

variable (e : Endian) (config : LbcdConfig) (vectors : ConfigVectors)
  (hl : Laid fs fb vectors.services config.services)

include hl

theorem serviceAllowedAt_bind {strs : StringOwner → List (ℕ × CStr)}
    {blks : BlockOwner → List (ℕ × Block)} (ho : Owned fs fb m strs blks) {q : ℕ} {name : CStr}
    (hq : strs .service=[(q,name)]) {k : Bool → Prog Daemon α} {f : Prog Server β}
    (hk : (k (serviceAllowed config name)).Shadows (AtTop inv) post m f) :
    (serviceAllowedAt config vectors q >>= k).Shadows (AtTop inv) post m f := by
  rw [serviceAllowedAt]
  simp only [bind_assoc,pure_bind]
  exact mem_bind (hl.texts ho) (mem_bind (ho.string hq) hk)

theorem readServicesInto_shadows (fd : Fd) (raw : List UInt8) {p : ℕ} (n i : ℕ)
    {request : Request} (hc : Carries fs fb m p request [])
    (hfit : request.services.length+n ≤ maxServices) :
    (readServicesInto e config vectors fd raw p n i).Shadows (AtTop inv) (Parsed fs fb) m
      (readServices e config fd raw n i request) := by
  induction n generalizing i m request with
  | zero => exact shadows_ret ⟨hc,hfit⟩
  | succ n ih =>
    rw [readServicesInto,readServices]
    apply plain_bind (xstrndup_untopped raw _ nameSize)
    intro bs
    generalize CStr.ofBuffer bs=name
    obtain ⟨strs,blks,a,s,w,v,hc⟩ := hc
    obtain ⟨q,m1,hrun1,h1⟩ := hc.owned.strdup hc.serviceText name
    have hq : Function.update strs .service [(q,name)] .service=[(q,name)] := by simp
    have hc1 : Carried fs fb m1 p request [(q,name)] _ blks a s w v :=
      ⟨h1,hc.requestBlock,hc.addressBlock,hc.vectorBlock,by simpa using hc.sourceText,
        by simpa using hc.table,by simpa using hc.nameTexts,hq⟩
    refine mem_bind hrun1 (serviceAllowedAt_bind config vectors hl h1 hq ?_)
    refine mem_bind (h1.string hq) ?_
    by_cases hallowed : serviceAllowed config name=true
    · rw [if_pos hallowed,if_pos hallowed]
      obtain ⟨m2,v2,x,hrun2,ht2,h2⟩ := h1.vectorAdd hc1.vectorBlock hc1.table name
      obtain ⟨m3,hrun3,h3⟩ := h2.freeString (i := .service) (p := q) (s := name) (by simp)
      refine mem_bind (h1.request hc1.requestBlock) (mem_bind hrun2 (mem_bind hrun3 ?_))
      apply ih
      · refine ⟨_,_,a,s,w,v2,h3,?_,?_,?_,?_,?_,?_,?_⟩
        · simpa using hc1.requestBlock
        · simpa using hc1.addressBlock
        · simp
        · simpa using hc1.sourceText
        · simpa using ht2
        · simpa using hc1.nameTexts
        · simp
      · simpa [Nat.add_assoc,Nat.add_comm 1 n] using hfit
    · rw [if_neg hallowed,if_neg hallowed]
      apply logged_bind
      refine sendStatusTo_bind e ⟨_,_,a,s,w,v,hc1⟩ fd .error ?_
      obtain ⟨m2,hrun2,h2⟩ := h1.freeString hq
      have hc2 : Carries fs fb m2 p request [] := by
        refine ⟨_,blks,a,s,w,v,h2,hc1.requestBlock,hc1.addressBlock,hc1.vectorBlock,?_,?_,?_,?_⟩
        · simpa using hc1.sourceText
        · simpa using hc1.table
        · simpa using hc1.nameTexts
        · simp
      exact mem_bind hrun2 (requestFree_bind hc2 fun m' hm' => shadows_ret hm')

theorem parseRequestInto_shadows (sprint : SockAddr → CStr) (fd : Fd) (raw : List UInt8)
    (addr : SockAddr) (hm : Bare fs fb m) :
    (parseRequestInto sprint e config vectors fd raw addr).Shadows (AtTop inv) (Parsed fs fb) m
      (parseRequest e config fd raw addr) := by
  rw [parseRequestInto,parseRequest]
  by_cases hshort : raw.length < headerSize
  · rw [if_pos hshort,if_pos hshort]
    exact logged_bind _ (shadows_ret hm)
  rw [if_neg hshort,if_neg hshort]
  apply plain_bind (readShort_untopped e raw 0)
  intro protocol
  apply plain_bind (readShort_untopped e raw 2)
  intro id
  apply plain_bind (readShort_untopped e raw 4)
  intro operation
  apply plain_bind (readShort_untopped e raw 6)
  intro nservices
  by_cases hmany : protocol=3 ∧ nservices.toNat > maxServices
  · rw [if_pos hmany,if_pos hmany]
    exact logged_bind _ (shadows_ret hm)
  rw [if_neg hmany,if_neg hmany]
  dsimp only
  generalize headerSize+(if protocol=3 then nservices.toNat*nameSize else 0)=expected
  by_cases hsize : raw.length≠expected
  · rw [if_pos hsize,if_pos hsize]
    exact logged_bind _ (shadows_ret hm)
  rw [if_neg hsize,if_neg hsize]
  apply makeRequest_bind sprint hm
  intro m' p hc
  by_cases hversion : protocol≠2 ∧ protocol≠3
  · rw [if_pos hversion,if_pos hversion]
    apply logged_bind
    exact sendStatusTo_bind e hc fd .version
      (requestFree_bind hc fun m' hm' => shadows_ret hm')
  rw [if_neg hversion,if_neg hversion]
  by_cases hthree : protocol=3
  · rw [if_pos hthree,if_pos hthree]
    apply readServicesInto_shadows e config vectors hl fd raw nservices.toNat 0 hc
    have hle : nservices.toNat ≤ maxServices := Nat.le_of_not_lt fun hlt => hmany ⟨hthree,hlt⟩
    simpa using hle
  · rw [if_neg hthree,if_neg hthree]
    exact shadows_ret ⟨hc,Nat.zero_le _⟩

theorem requestRecvInto_shadows (sprint : SockAddr → CStr) (fd : Fd) (hm : Bare fs fb m) :
    (requestRecvInto sprint e config vectors fd).Shadows (AtTop inv) (Parsed fs fb) m
      (requestRecv e config fd) := by
  rw [requestRecvInto,requestRecv]
  apply syscall_bind (c := .recvfrom fd) SysCall.noConfusion
  intro got
  cases got with
  | none => exact logged_bind _ (shadows_ret hm)
  | some d =>
    dsimp only
    by_cases hempty : (d.payload.take maxMesg).length=0
    · rw [if_pos hempty,if_pos hempty]
      exact logged_bind _ (shadows_ret hm)
    · rw [if_neg hempty,if_neg hempty]
      exact parseRequestInto_shadows e config vectors hl sprint fd _ d.source hm

/-- A turn leaves nothing behind. -/
theorem serveTurn_shadows (sprint : SockAddr → CStr) (g : WeightGlobals) (cache : UserCache)
    (fd : Fd) (hm : Bare fs fb m) :
    (serveTurn sprint e g config vectors cache fd).Shadows (AtTop inv)
      (fun t a b => Bare fs fb t ∧ a=b) m (serveOne e g config cache fd) := by
  rw [serveTurn,serveOne]
  apply (requestRecvInto_shadows e config vectors hl sprint fd hm).bind
  intro t p? request? hparsed
  rcases p? with _|p
  · rcases request? with _|request
    · exact shadows_ret ⟨hparsed,rfl⟩
    · exact hparsed.elim
  · rcases request? with _|request
    · exact hparsed.elim
    obtain ⟨hcarries,hfit⟩ := hparsed
    have hcarries' := hcarries
    obtain ⟨strs,blks,a,s,w,v,hc⟩ := hcarries'
    rw [dispatch]
    refine mem_bind (hc.owned.request hc.requestBlock) ?_
    by_cases hop : request.operation=opLbinfo
    · rw [if_pos hop,if_pos hop]
      apply (handleLbRequestAt_shadows e g config cache hcarries hfit fd).bind_left
      rintro t' cache' _ ⟨rfl,rfl⟩
      exact requestFree_bind hcarries fun m' hm' => shadows_ret ⟨hm',rfl⟩
    · rw [if_neg hop,if_neg hop]
      refine clientMessage_bind hcarries (.unknownOp request.operation) ?_
      refine sendStatusTo_bind e hcarries fd .unknownOp ?_
      exact requestFree_bind hcarries fun m' hm' => shadows_ret ⟨hm',rfl⟩

theorem serveLoopIn_shadows (sprint : SockAddr → CStr) (g : WeightGlobals)
    {sockets : SocketTable} {fds : List Fd} (hseats : Seats fb sockets fds)
    (hinv : ∀ t,Bare fs fb t → inv t) (fuel : ℕ) (cache : UserCache) (hm : Bare fs fb m) :
    (serveLoopIn sprint e g config vectors sockets fuel cache).Shadows (AtTop inv)
      (fun t _ _ => Bare fs fb t) m (serveLoop e g config fds fuel cache) := by
  induction fuel generalizing m cache with
  | zero => exact ⟨(fun h => by cases h),_,rfl,fun r => r.elim⟩
  | succ fuel ih =>
    rw [serveLoopIn,serveLoop]
    refine ⟨fun _ => hinv m hm,_,rfl,fun exitSignaled => ?_⟩
    cases exitSignaled with
    | true =>
      apply (plain_shadows (message_untopped .exiting)).mono
      intro t _ _ ht
      rw [ht]
      exact hm
    | false =>
      refine mem_bind (hseats.read hm) ?_
      refine ⟨(fun h => by cases h),_,rfl,fun any => ?_⟩
      cases any with
      | interrupted => exact ih cache hm
      | failed => exact ⟨(fun h => by cases h),_,rfl,fun r => r.elim⟩
      | ready fd =>
        apply (serveTurn_shadows e config vectors hl sprint g cache fd hm).bind
        rintro t cache' _ ⟨ht,rfl⟩
        exact ih cache' ht

end

end

/-- Beside the frames there is the table with these sockets, and nothing else. -/
def Seated (fs : ℕ → Option CStr) (fb : ℕ → Option Block) (m : Memory) (sockets : SocketTable)
    (fds : List Fd) : Prop :=
  ∃ size,Stocked fs fb m sockets.fds size fds ∧ sockets.count=fds.length

section

variable {fs : ℕ → Option CStr} {fb : ℕ → Option Block} {m : Memory} {α β : Type}
  {inv : Memory → Prop} {post : Memory → α → β → Prop}

theorem storeFds_bind {table size : ℕ} (fds : List Fd) {l : List Fd}
    (hf : Stocked fs fb m table size l) (hroom : l.length+fds.length ≤ size)
    {k : Unit → Prog Daemon α} {q : Prog Server β}
    (hk : ∀ m',Stocked fs fb m' table size (l++fds) → (k ()).Shadows (AtTop inv) post m' q) :
    (storeFds table l.length fds >>= k).Shadows (AtTop inv) post m q := by
  induction fds generalizing m l with
  | nil =>
    rw [List.append_nil] at hk
    exact hk m hf
  | cons fd fds ih =>
    rw [List.length_cons] at hroom
    obtain ⟨m1,hrun,hnew⟩ := hf.setFd (by omega) (some fd)
    have hf1 := hnew fd rfl
    rw [storeFds,bind_assoc]
    refine mem_bind hrun ?_
    have hrest := ih hf1 (by rw [List.length_append,List.length_singleton]; omega) fun m' hm' =>
      hk m' (by simpa using hm')
    rwa [List.length_append,List.length_singleton] at hrest

theorem collectFds_shadows {table size : ℕ} (fds : List Fd) {l : List Fd}
    (hf : Stocked fs fb m table size l) :
    (collectFds table size l.length fds).Shadows (AtTop inv) (Seated fs fb) m
      (pure (l++fds)) := by
  induction fds generalizing m table size l with
  | nil =>
    rw [List.append_nil]
    exact ⟨l,rfl,size,hf,rfl⟩
  | cons fd fds ih =>
    have hrest {m1 : Memory} {table size : ℕ} (hf1 : Stocked fs fb m1 table size (l++[fd])) :
        (collectFds table size (l.length+1) fds).Shadows (AtTop inv) (Seated fs fb) m1
          (pure (l++fd :: fds)) := by
      have h := ih hf1
      rwa [List.length_append,List.length_singleton,List.append_assoc] at h
    rw [collectFds]
    split_ifs with hfull
    · obtain ⟨table1,m1,hrun1,hf1⟩ := hf.realloc (n := size+2) (by omega)
      obtain ⟨m2,hrun2,hf2⟩ := hf1.setFd (by have hle := hf.length_le; omega) (some fd)
      exact mem_bind hrun1 (mem_bind hrun2 (hrest (hf2 fd rfl)))
    · obtain ⟨m1,hrun1,hf1⟩ := hf.setFd (by omega) (some fd)
      exact mem_bind hrun1 (hrest (hf1 fd rfl))

theorem bindEachInto_shadows (config : LbcdConfig) {table size : ℕ} (addrs : List CStr)
    {l : List Fd} (hf : Stocked fs fb m table size l) (hroom : l.length+addrs.length ≤ size) :
    (bindEachInto config table l.length addrs).Shadows (AtTop inv)
      (fun t _ fds => Stocked fs fb t table size (l++fds) ∧ fds.length=addrs.length) m
      (bindEach config addrs) := by
  induction addrs generalizing m l with
  | nil =>
    refine ⟨[],rfl,?_,rfl⟩
    rw [List.append_nil]
    exact hf
  | cons addr addrs ih =>
    rw [List.length_cons] at hroom
    rw [bindEachInto,bindEach]
    apply syscall_bind (c := .inetPton6 addr) SysCall.noConfusion
    intro v6
    apply syscall_bind (c := .networkBind v6 addr config.port) SysCall.noConfusion
    intro fd
    obtain ⟨m1,hrun,hnew⟩ := hf.setFd (by omega) fd
    refine mem_bind hrun ?_
    cases fd with
    | none => exact ⟨(fun h => by cases h),_,rfl,fun r => r.elim⟩
    | some fd =>
      apply syscall_bind (c := .closeExec fd) SysCall.noConfusion
      intro marked
      cases marked with
      | false => exact ⟨(fun h => by cases h),_,rfl,fun r => r.elim⟩
      | true =>
        have hrest := ih (hnew fd rfl)
          (by rw [List.length_append,List.length_singleton]; omega)
        rw [List.length_append,List.length_singleton] at hrest
        apply hrest.bind_right
        rintro t _ fds ⟨hstocked,hlength⟩
        refine ⟨fd :: fds,rfl,?_,congrArg (·+1) hlength⟩
        rwa [List.append_assoc] at hstocked

theorem bindSocketsInto_shadows (config : LbcdConfig) (vectors : ConfigVectors)
    (hb : Laid fs fb vectors.bindaddrs config.bindaddrs) (hm : Bare fs fb m) :
    (bindSocketsInto config vectors).Shadows (AtTop inv) (Seated fs fb) m
      (bindSockets config) := by
  have ho : Owned fs fb m (fun _ : Unit => []) (fun _ : Unit => []) := hm.owned
  rw [bindSocketsInto,bindSockets]
  apply syscall_bind (c := .sdListenFds) SysCall.noConfusion
  intro status
  by_cases hfailed : status < 0
  · rw [if_pos hfailed,if_pos hfailed]
    exact ⟨(fun h => by cases h),_,rfl,fun r => r.elim⟩
  rw [if_neg hfailed,if_neg hfailed]
  by_cases hpassed : 0 < status
  · rw [if_pos hpassed,if_pos hpassed]
    obtain ⟨table,m1,hrun,hf⟩ := Stocked.new hm status.toNat
    refine mem_bind hrun (storeFds_bind _ hf (by simp) fun m' hm' => ?_)
    exact ⟨_,rfl,status.toNat,hm',by simp⟩
  rw [if_neg hpassed,if_neg hpassed]
  refine mem_bind (hb.texts ho) ?_
  cases hbindaddrs : config.bindaddrs with
  | nil =>
    apply syscall_bind (c := .networkBindAll config.port) SysCall.noConfusion
    intro fds
    cases fds with
    | none => exact ⟨(fun h => by cases h),_,rfl,fun r => r.elim⟩
    | some fds =>
      obtain ⟨table,m1,hrun,hf⟩ := Stocked.new hm 2
      exact mem_bind hrun (collectFds_shadows fds hf)
  | cons addr addrs =>
    obtain ⟨table,m1,hrun,hf⟩ := Stocked.new hm (addr :: addrs).length
    refine mem_bind hrun ?_
    apply (bindEachInto_shadows config (addr :: addrs) hf (by simp)).bind_left
    rintro t _ fds ⟨hstocked,hlength⟩
    exact ⟨fds,rfl,_,hstocked,hlength.symm⟩

theorem startUpIn_shadows (config : LbcdConfig) (vectors : ConfigVectors)
    (hb : Laid fs fb vectors.bindaddrs config.bindaddrs) (hm : Bare fs fb m) :
    (startUpIn config vectors).Shadows (AtTop inv) (Seated fs fb) m (startUp config) := by
  have hset (sig : Signal) (act : Disposition) := setHandler_starting config sig act
  apply plain_bind (starting_untopped (hset .hup .ign))
  intro _
  apply plain_bind (starting_untopped (hset .int .handler))
  intro _
  apply plain_bind (starting_untopped (hset .term .handler))
  intro _
  apply (bindSocketsInto_shadows config vectors hb hm).bind
  intro t sockets fds ht
  apply plain_bind (starting_untopped (createPidFile_starting config))
  intro _
  apply logged_bind
  apply plain_bind (starting_untopped (notifySystemd_starting config))
  intro _
  apply plain_bind (starting_untopped (notifyUpstart_starting config))
  intro _
  exact ⟨fds,rfl,ht⟩

theorem Seated.congr {t : Memory} {sockets : SocketTable} {fds : List Fd}
    (hs : Seated fs fb m sockets fds) (ht : Bare m.strings.cells m.blocks.cells t) :
    Seated fs fb t sockets fds := by
  obtain ⟨size,⟨entries,ho,hrest⟩,hcount⟩ := hs
  exact ⟨size,⟨entries,⟨ho.strings.congr ht.strings,ho.blocks.congr ht.blocks⟩,hrest⟩,hcount⟩

/-- The table is what handle_requests frees. -/
theorem Seated.free {sockets : SocketTable} {fds : List Fd} (hs : Seated fs fb m sockets fds) :
    ∃ m',(MemoryCall.free (some sockets.fds)).run m=some ((),m') ∧ Bare fs fb m' := by
  obtain ⟨size,⟨entries,ho,-⟩,-⟩ := hs
  obtain ⟨m',hrun,ho'⟩ := ho.free (i := ()) rfl
  exact ⟨m',hrun,ho'.bare (fun _ => rfl) fun _ => by simp⟩

theorem handleRequestsIn_shadows (sprint : SockAddr → CStr) (e : Endian) (g : WeightGlobals)
    (config : LbcdConfig) (vectors : ConfigVectors)
    (hb : Laid fs fb vectors.bindaddrs config.bindaddrs)
    (hs : Laid fs fb vectors.services config.services)
    (hinv : ∀ t sockets fds,Seated fs fb t sockets fds → inv t) (hm : Bare fs fb m) :
    (handleRequestsIn sprint e g config vectors).Shadows (AtTop inv)
      (fun t _ _ => Bare fs fb t) m (handleRequests e g config) := by
  rw [handleRequestsIn,handleRequests]
  apply (startUpIn_shadows config vectors hb hm).bind
  intro t sockets fds ht
  -- from here on the table is part of the frame
  have hseats : Seats t.blocks.cells sockets fds := by
    obtain ⟨size,hf,hcount⟩ := ht
    exact hf.seats hcount
  have hservices : Laid t.strings.cells t.blocks.cells vectors.services config.services := by
    obtain ⟨size,⟨entries,ho,-⟩,-⟩ := ht
    exact hs.beside ho
  apply syscall_bind (c := .fuel) SysCall.noConfusion
  intro fuel
  apply (serveLoopIn_shadows e config vectors hservices sprint g hseats
    (fun u hu => hinv u sockets fds (ht.congr hu)) fuel .initial ⟨rfl,rfl⟩).bind
  intro u _ _ hu
  apply plain_bind (starting_untopped (removePidFile_starting config))
  intro _
  refine mem_bind (hseats.read hu) ?_
  apply (plain_shadows (starting_untopped (closeAll_starting config fds))).bind_left
  intro t' _ _ ht'
  rw [ht']
  obtain ⟨m',hrun,hbare⟩ := (ht.congr hu).free
  exact ⟨(),m',hrun,(),rfl,hbare⟩

end

inductive ConfigOwner where
  | bindaddrs
  | services
  deriving DecidableEq

/-- The blocks of the configuration. -/
def configBlocks (vectors : ConfigVectors) (bindaddrs services : StringVector) :
    ConfigOwner → List (ℕ × Block)
  | .bindaddrs => [(vectors.bindaddrs,.vector bindaddrs)]
  | .services => [(vectors.services,.vector services)]

/-- Beside the frames there are the two vectors of the configuration with its strings and the
table with these sockets, and nothing else. -/
def Configured (fs : ℕ → Option CStr) (fb : ℕ → Option Block) (config : LbcdConfig)
    (vectors : ConfigVectors) (sockets : SocketTable) (fds : List Fd) (m : Memory) : Prop :=
  ∃ (strs : ConfigOwner → List (ℕ × CStr)) (bindaddrs services : StringVector)
    (entries : List (Option Fd)),
    Owned fs fb m (Sum.elim strs fun _ : Unit => [])
      (Sum.elim (configBlocks vectors bindaddrs services) fun _ : Unit =>
        [(sockets.fds,.sockets entries)]) ∧
    Tabled bindaddrs (strs .bindaddrs) ∧ Tabled services (strs .services) ∧
    (strs .bindaddrs).map Prod.snd=config.bindaddrs ∧
    (strs .services).map Prod.snd=config.services ∧
    sockets.count=fds.length ∧ entries.take fds.length=fds.map some

section

variable {fs : ℕ → Option CStr} {fb : ℕ → Option Block} {m : Memory} {α β : Type}
  {inv : Memory → Prop} {post : Memory → α → β → Prop}

theorem addEach_bind {ι κ : Type} [DecidableEq ι] [DecidableEq κ]
    {strs : ι → List (ℕ × CStr)} {blks : κ → List (ℕ × Block)} (ho : Owned fs fb m strs blks)
    {i : κ} {j : ι} {p : ℕ} {v : StringVector} (hi : blks i=[(p,.vector v)])
    (ht : Tabled v (strs j)) (l : List CStr) {k : Unit → Prog Daemon α} {q : Prog Server β}
    (hk : ∀ m' v' owned,Owned fs fb m' (Function.update strs j owned)
        (Function.update blks i [(p,.vector v')]) → Tabled v' owned →
      owned.map Prod.snd=(strs j).map Prod.snd++l → (k ()).Shadows (AtTop inv) post m' q) :
    (addEach p l >>= k).Shadows (AtTop inv) post m q := by
  induction l generalizing m strs blks v with
  | nil =>
    apply hk m v (strs j)
    · rw [← hi,Function.update_eq_self,Function.update_eq_self]
      exact ho
    · exact ht
    · exact (List.append_nil _).symm
  | cons s l ih =>
    obtain ⟨m1,v1,x,hrun,ht1,h1⟩ := ho.vectorAdd hi ht s
    rw [addEach,bind_assoc]
    refine mem_bind hrun (ih h1 (v := v1) (by simp) (by simpa using ht1) ?_)
    intro m' v' owned ho' ht' howned
    rw [Function.update_idem,Function.update_idem] at ho'
    apply hk m' v' owned ho' ht'
    simpa using howned

theorem Owned.laid {ι κ : Type} {strs : ι → List (ℕ × CStr)} {blks : κ → List (ℕ × Block)}
    (ho : Owned fs fb m strs blks) {i : κ} {j : ι} {p : ℕ} {v : StringVector}
    (hi : blks i=[(p,.vector v)]) (ht : Tabled v (strs j)) :
    Laid m.strings.cells m.blocks.cells p ((strs j).map Prod.snd) :=
  ⟨v,ho.blocks.read (i := i) (by simp [hi]),texts_eq (ho.table ht)⟩

/-- The whole daemon does what it does without memory of its own, and uses memory rightly. -/
theorem lbcdMain_shadows (sprint : SockAddr → CStr) (e : Endian) (g : WeightGlobals)
    (config : LbcdConfig) (hm : Bare fs fb m) :
    (lbcdMain sprint e g config).Shadows
      (AtTop fun t => ∃ vectors sockets fds,Configured fs fb config vectors sockets fds t)
      (fun t _ _ => Bare fs fb t) m (handleRequests e g config) := by
  have h0 : Owned fs fb m (fun _ : ConfigOwner => []) (fun _ : ConfigOwner => []) := hm.owned
  obtain ⟨b,m1,hrun1,h1⟩ := h0.allocBlock (i := .bindaddrs) rfl (.vector (vectorNew m.strings).2)
  obtain ⟨s,m2,hrun2,h2⟩ := h1.allocBlock (i := .services) rfl (.vector (vectorNew m1.strings).2)
  have hnew (h : Strings) : Tabled (vectorNew h).2 [] :=
    ⟨_,_,vectorNew_table (Heap.holds_self h)⟩
  rw [lbcdMain]
  refine mem_bind (congrArg some hrun1) (mem_bind (congrArg some hrun2) ?_)
  refine addEach_bind h2 (i := .services) (j := .services) rfl (hnew m1.strings) config.services ?_
  intro m3 vs os h3 hts hos
  refine addEach_bind h3 (i := .bindaddrs) (j := .bindaddrs) (by simp) (hnew m.strings)
    config.bindaddrs ?_
  intro m4 vb ob h4 htb hob
  -- what the configuration has is from here on part of the frame
  have hblks : Function.update (Function.update (Function.update (Function.update
      (fun _ : ConfigOwner => []) .bindaddrs [(b,Block.vector (vectorNew m.strings).2)]) .services
      [(s,.vector (vectorNew m1.strings).2)]) .services [(s,.vector vs)]) .bindaddrs
      [(b,.vector vb)]=configBlocks ⟨b,s⟩ vb vs := by
    funext i
    cases i <;> simp [configBlocks]
  rw [hblks] at h4
  have hb : Laid m4.strings.cells m4.blocks.cells b config.bindaddrs := by
    have hlaid := h4.laid (i := .bindaddrs) (j := .bindaddrs) rfl (by simpa using htb)
    simpa [hob] using hlaid
  have hs : Laid m4.strings.cells m4.blocks.cells s config.services := by
    have hlaid := h4.laid (i := .services) (j := .services) rfl (by simpa using hts)
    simpa [hos] using hlaid
  have hconfigured {t : Memory} {sockets : SocketTable} {fds : List Fd}
      (ht : Seated m4.strings.cells m4.blocks.cells t sockets fds) :
      Configured fs fb config ⟨b,s⟩ sockets fds t := by
    obtain ⟨size,⟨entries,ho,-,htake⟩,hcount⟩ := ht
    exact ⟨_,vb,vs,entries,⟨h4.strings.nest ho.strings,h4.blocks.nest ho.blocks⟩,
      by simpa using htb,by simpa using hts,by simpa using hob,by simpa using hos,hcount,htake⟩
  apply (handleRequestsIn_shadows sprint e g config ⟨b,s⟩ hb hs
    (fun t sockets fds ht => ⟨_,sockets,fds,hconfigured ht⟩) ⟨rfl,rfl⟩).bind_left
  intro t _ u ht
  have h5 : Owned fs fb t _ (configBlocks ⟨b,s⟩ vb vs) :=
    ⟨h4.strings.congr ht.strings,h4.blocks.congr ht.blocks⟩
  obtain ⟨m6,hrun6,h6⟩ := h5.vectorFree (i := .bindaddrs) (j := .bindaddrs) rfl (by simpa using htb)
  obtain ⟨m7,hrun7,h7⟩ := h6.vectorFree (i := .services) (j := .services) (p := s) (v := vs)
    (by simp [configBlocks]) (by simpa using hts)
  refine mem_bind hrun6 (mem_bind hrun7 (shadows_ret ?_))
  apply h7.bare
  · intro i
    cases i <;> simp
  · intro i
    cases i <;> simp

end

/-- The daemon, with every request, name, vector and socket table that it allocates, makes the
same calls as the model that has lists instead, whatever the replies. Whatever its surroundings
do, no pointer is used that is null or freed, nothing is freed twice and no entry beyond a table
is used; at the top of the main loop exactly the configuration and the table of sockets are
allocated, and in the end what was allocated before. -/
theorem memory_law (sprint : SockAddr → CStr) (e : Endian) (g : WeightGlobals)
    (config : LbcdConfig) (m0 : Memory) :
    (∀ o,((lbcdMain sprint e g config).handle m0).trace o=(handleRequests e g config).trace o) ∧
      ∀ m p,Run (memoryEffect.world Server) m0 (lbcdMain sprint e g config) m p →
        (∀ c k,p=.call (.inl c) k → (c.run m).isSome) ∧
        (∀ k,p=.call (.inr (.sys .exitSignaled)) k →
          ∃ vectors sockets fds,
            Configured m0.strings.cells m0.blocks.cells config vectors sockets fds m) ∧
        ∀ a,p=.ret a → m.strings.cells=m0.strings.cells ∧ m.blocks.cells=m0.blocks.cells := by
  have hshadows := lbcdMain_shadows sprint e g config (m := m0) ⟨rfl,rfl⟩
  refine ⟨fun o => (hshadows.handled o).1,fun m p hr => ?_⟩
  obtain ⟨q,hp⟩ := hshadows.run hr
  refine ⟨?_,?_,?_⟩
  · rintro c k rfl
    obtain ⟨r,m',hrun,-⟩ := hp
    exact Option.isSome_iff_exists.mpr ⟨(r,m'),hrun⟩
  · rintro k rfl
    exact hp.1 rfl
  · rintro a rfl
    obtain ⟨b,-,hbare⟩ := hp
    exact ⟨hbare.strings,hbare.blocks⟩

end Lbcd
