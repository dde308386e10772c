import Lbcd.Transfers

namespace Lbcd

open Interaction

/-- A file with bytes written over it. -/
def overwrite (file : ℕ → UInt8) (offset : ℕ) (bytes : List UInt8) (i : ℕ) : UInt8 :=
  if offset ≤ i then (bytes[i-offset]?).getD (file i) else file i

theorem overwrite_nil (file : ℕ → UInt8) (offset : ℕ) : overwrite file offset []=file := by
  funext i
  rw [overwrite,List.getElem?_nil,Option.getD_none,ite_self]

/-- What is written behind something is written with it. -/
theorem overwrite_append (file : ℕ → UInt8) (offset : ℕ) (xs ys : List UInt8) :
    overwrite (overwrite file offset xs) (offset+xs.length) ys=overwrite file offset (xs++ys) := by
  funext i
  unfold overwrite
  rw [List.getElem?_append]
  split_ifs with hpast hle hlt hle hlt
  · omega
  · rw [Nat.sub_add_eq,List.getElem?_eq_none (l := xs) (by omega),Option.getD_none]
  · omega
  · rfl
  · omega
  · rfl

/-- What a descriptor has taken and given, the file behind it, how many tries in a row moved
nothing, the times that were read (the last first), its mode and whether an fcntl has failed. -/
structure Channel where
  sent : List UInt8
  received : List UInt8
  file : ℕ → UInt8
  fruitless : ℕ
  times : List ℤ
  nonblocking : Bool
  stuck : Bool

namespace Channel

def tried (s : Channel) (moved : List UInt8) : Channel :=
  { s with fruitless := if moved=[] then s.fruitless+1 else 0 }

def take (s : Channel) (bytes : List UInt8) : Channel :=
  { s.tried bytes with sent := s.sent++bytes }

def give (s : Channel) (bytes : List UInt8) : Channel :=
  { s.tried bytes with received := s.received++bytes }

@[simp] theorem give_nil (s : Channel) : s.give []=s.tried [] := by
  rw [give,List.append_nil]
  rfl

def Step (s : Channel) : (c : ConnectCall) → c.Reply → Channel → Prop
  | .write _ bytes,.ok n,t => t=s.take (bytes.take n.val)
  | .write _ _,.error _,t => t=s.tried []
  | .pwrite _ bytes offset,.ok n,t =>
    t={ s.take (bytes.take n.val) with file := overwrite s.file offset (bytes.take n.val) }
  | .pwrite _ _ _,.error _,t => t=s.tried []
  | .writev _ iov,.ok n,t => t=s.take (iov.flatten.take n.val)
  | .writev _ _,.error _,t => t=s.tried []
  | .read _ _,.ok bytes,t => t=s.give bytes.val
  | .read _ _,.error _,t => t=s.tried []
  | .time,now,t => t={ s with times := now :: s.times }
  | .getfl _,none,t => t={ s with stuck := true }
  | .getfl _,some mode,t => (mode &&& oNonblock≠0 ↔ s.nonblocking=true) ∧ t=s
  | .setfl _ _,false,t => t={ s with stuck := true }
  | .setfl _ mode,true,t => t={ s with nonblocking := mode &&& oNonblock≠0 }
  | _,_,t => t=s

/-- The start of a transfer. -/
def begin (s : Channel) : Channel := { s with fruitless := 0, times := [] }

/-- The time that a wait may take, by what is left of the timeout; a wait of one second is
always made. After the first one there is something left. -/
def Due (timeout : ℤ) (s : Channel) (seconds : ℤ) : Prop :=
  ∃ start now,s.times.getLast?=some start ∧ s.times.head?=some now ∧
    seconds=max 1 (timeout-(now-start)) ∧ (s.times=[start] ∨ now-start < timeout)

end Channel

/-- What is to be written or read, where, and how: limit is for tries in a row that move
nothing. -/
structure Job where
  fd : Fd
  data : List UInt8
  size : ℕ
  offset : ℕ
  limit : Option ℕ
  timeout : ℤ

/-- A call in order: a write offers exactly what has not been taken yet, and a read asks for
exactly what is missing. -/
def Job.Proper (job : Job) (before s : Channel) : ConnectCall → Prop
  | .write fd bytes => fd=job.fd ∧ before.sent++job.data=s.sent++bytes ∧
    (∀ n∈job.limit,s.fruitless < n) ∧ (job.timeout≠0 → s.nonblocking=true ∨ s.stuck=true)
  | .pwrite fd bytes offset => fd=job.fd ∧ before.sent++job.data=s.sent++bytes ∧
    before.sent.length+offset=s.sent.length+job.offset ∧ ∀ n∈job.limit,s.fruitless < n
  | .writev fd iov => fd=job.fd ∧ before.sent++job.data=s.sent++iov.flatten ∧
    ∀ n∈job.limit,s.fruitless < n
  | .read fd n => fd=job.fd ∧ before.received.length+job.size=s.received.length+n ∧
    ∀ n∈job.limit,s.fruitless < n
  | .selectRead fd seconds => fd=job.fd ∧ s.Due job.timeout seconds
  | .selectWrite fd seconds => fd=job.fd ∧ s.Due job.timeout seconds
  | .getfl fd => fd=job.fd
  | .setfl fd _ => fd=job.fd
  | .sys c => c=.fuel ∨ c=.outOfFuel
  | .calloc _ => True
  | .time => True
  | _ => False

def channel : World Connecting Channel := ⟨Channel.Step⟩

open Channel

/-- Programs whose calls are in order for a job. -/
abbrev Doing {α : Type} (job : Job) (before : Channel) (p : Prog Connecting α)
    (post : Channel → α → Prop) (s : Channel) : Prop :=
  p.Safe channel (job.Proper before) post s

/-- What one try has done: it has moved something that fits behind what is moved, or nothing. -/
def Once (step : List UInt8 → Channel → List UInt8 → Channel) (fits : List UInt8 → Prop)
    (moved : List UInt8) (s t : Channel) : Except Errno (List UInt8) → Prop
  | .ok bytes => t=step moved s bytes ∧ fits (moved++bytes)
  | .error _ => t=s.tried []

/-- The states of a transfer from what is moved and how many tries in a row moved nothing. -/
structure Progress (step : List UInt8 → Channel → List UInt8 → Channel) (fits : List UInt8 → Prop)
    (size : ℕ) (after : List UInt8 → ℕ → Channel) : Prop where
  short : ∀ moved,fits moved → moved.length ≤ size
  none : ∀ moved count,step moved (after moved count) []=after moved (count+1)
  tried : ∀ moved count,(after moved count).tried []=after moved (count+1)
  some : ∀ moved count b bs,step moved (after moved count) (b :: bs)=after (moved++b :: bs) 0

theorem prefix_drop {data moved : List UInt8} (h : moved<+:data) :
    moved++data.drop moved.length=data := by
  obtain ⟨rest,rfl⟩ := h
  rw [List.drop_left]

theorem prefix_take {data moved : List UInt8} (h : moved<+:data) (n : ℕ) :
    moved++(data.drop moved.length).take n<+:data := by
  have hrest := List.take_prefix n (data.drop moved.length)
  have hall := (List.prefix_append_right_inj moved).mpr hrest
  rw [prefix_drop h] at hall
  exact hall

section

variable (job : Job) (before : Channel) {step : List UInt8 → Channel → List UInt8 → Channel}
  {fits : List UInt8 → Prop} {size : ℕ} {after : List UInt8 → ℕ → Channel}

/-- A loop that tries again until nothing has moved for so many tries. -/
theorem transfer_safe (hp : Progress step fits size after) (limit : ℕ) (again : List Errno)
    {attempt : List UInt8 → Prog Connecting (Except Errno (List UInt8))} (hnil : fits [])
    (h : ∀ moved count,count < limit → moved.length < size → fits moved →
      Doing job before (attempt moved) (Once step fits moved (after moved count))
        (after moved count)) :
    Doing job before (Prog.transfer limit size (fun moved => retrying again (attempt moved)) [] 0)
      (Transferred (fun moved count t => t=after moved count ∧ fits moved) size) (after [] 0) := by
  refine Prog.Safe.transfer ?_ (Nat.zero_le _) ⟨rfl,hnil⟩
  intro moved count s hlt hcount hs
  obtain ⟨rfl,hfits⟩ := hs
  apply (h moved count hcount hlt hfits).bind
  intro t r hr
  match r with
  | .ok [] =>
    obtain ⟨ht,-⟩ := hr
    exact ⟨ht.trans (hp.none moved count),hfits⟩
  | .ok (b :: bs) =>
    obtain ⟨ht,hfits'⟩ := hr
    exact ⟨hp.short _ hfits',ht.trans (hp.some moved count b bs),hfits'⟩
  | .error errno =>
    have ht : t=after moved (count+1) := hr.trans (hp.tried moved count)
    change Moved _ size moved count t (if errno∈again then .ok [] else .error errno)
    split_ifs
    · exact ⟨ht,hfits⟩
    · exact ⟨count+1,ht,hfits⟩

end

/-- So much has been taken, after so many tries that moved nothing. -/
def Channel.sentSo (s : Channel) (moved : List UInt8) (count : ℕ) : Channel :=
  { s with sent := s.sent++moved, fruitless := count }

/-- The same, and it is written over the file behind the descriptor. -/
def Channel.writtenSo (s : Channel) (offset : ℕ) (moved : List UInt8) (count : ℕ) : Channel :=
  { s.sentSo moved count with file := overwrite s.file offset moved }

def Channel.receivedSo (s : Channel) (moved : List UInt8) (count : ℕ) : Channel :=
  { s with received := s.received++moved, fruitless := count }

theorem sentSo_progress (s : Channel) (data : List UInt8) :
    Progress (fun _ => Channel.take) (·<+:data) data.length s.sentSo where
  short _ h := h.length_le
  none moved count := by
    simp [Channel.take,tried,sentSo]
  tried moved count := rfl
  some moved count b bs := by
    simp [Channel.take,tried,sentSo]

/-- A write at an offset, behind what is written already. -/
def Channel.put (offset : ℕ) (moved : List UInt8) (s : Channel) (bytes : List UInt8) : Channel :=
  { s.take bytes with file := overwrite s.file (offset+moved.length) bytes }

theorem writtenSo_progress (s : Channel) (data : List UInt8) (offset : ℕ) :
    Progress (put offset) (·<+:data) data.length (s.writtenSo offset) where
  short _ h := h.length_le
  none moved count := by
    simp [put,Channel.take,tried,writtenSo,sentSo,overwrite_nil]
  tried moved count := rfl
  some moved count b bs := by
    simp [put,Channel.take,tried,writtenSo,sentSo,overwrite_append]

theorem receivedSo_progress (s : Channel) (size : ℕ) :
    Progress (fun _ => Channel.give) (·.length ≤ size) size s.receivedSo where
  short _ h := h
  none moved count := by
    simp [Channel.give,tried,receivedSo]
  tried moved count := rfl
  some moved count b bs := by
    simp [Channel.give,tried,receivedSo]

section

variable (job : Job) {before t : Channel} {moved : List UInt8}
  (htry : ∀ n∈job.limit,t.fruitless < n)

include htry

theorem writeOnce_safe (hsent : t.sent=before.sent++moved) (hfits : moved<+:job.data)
    (hmode : job.timeout≠0 → t.nonblocking=true ∨ t.stuck=true) :
    Doing job before (writeOnce job.fd job.data moved)
      (Once (fun _ => Channel.take) (·<+:job.data) moved t) t := by
  have hrest : before.sent++job.data=t.sent++job.data.drop moved.length := by
    rw [hsent,List.append_assoc,prefix_drop hfits]
  refine ⟨⟨rfl,hrest,htry,hmode⟩,fun status u hstep => ?_⟩
  cases status with
  | ok n => exact ⟨hstep,prefix_take hfits n.val⟩
  | error errno => exact hstep

theorem pwriteOnce_safe (hsent : t.sent=before.sent++moved) (hfits : moved<+:job.data) :
    Doing job before (pwriteOnce job.fd job.data job.offset moved)
      (Once (put job.offset) (·<+:job.data) moved t) t := by
  have hrest : before.sent++job.data=t.sent++job.data.drop moved.length := by
    rw [hsent,List.append_assoc,prefix_drop hfits]
  have hplace : before.sent.length+(job.offset+moved.length)=t.sent.length+job.offset := by
    rw [hsent,List.length_append]
    omega
  refine ⟨⟨rfl,hrest,hplace,htry⟩,fun status u hstep => ?_⟩
  cases status with
  | ok n => exact ⟨hstep,prefix_take hfits n.val⟩
  | error errno => exact hstep

theorem readOnce_safe (hreceived : t.received=before.received++moved)
    (hfits : moved.length ≤ job.size) :
    Doing job before (readOnce job.fd job.size moved)
      (Once (fun _ => Channel.give) (·.length ≤ job.size) moved t) t := by
  have hmissing : before.received.length+job.size=
      t.received.length+(job.size-moved.length) := by
    rw [hreceived,List.length_append]
    omega
  refine ⟨⟨rfl,hmissing,htry⟩,fun status u hstep => ?_⟩
  cases status with
  | ok bytes =>
    have hu : u=t.give bytes.val := hstep
    have hle := bytes.property
    change Once _ _ moved t u (if bytes.val=[] then .error .epipe else .ok bytes.val)
    split_ifs with hnil
    · rw [hnil,give_nil] at hu
      exact hu
    · have hlength : (moved++bytes.val).length ≤ job.size := by
        rw [List.length_append]
        omega
      exact ⟨hu,hlength⟩
  | error errno => exact hstep

end

/-- The clock of a timed loop: its first time, its last one, and that the loop goes on. -/
def Channel.Clock (timeout start now : ℤ) (t : Channel) : Prop :=
  t.times.getLast?=some start ∧ t.times.head?=some now ∧ (t.times=[start] ∨ now-start < timeout)

/-- What a try of a timed loop keeps. -/
def Tried (inv : List UInt8 → Channel → Prop) (moved : List UInt8) (t : Channel) :
    Except Errno (List UInt8) → Prop
  | .ok bytes => inv (moved++bytes) t
  | .error _ => inv moved t

section

variable {job : Job} {before : Channel} {inv : List UInt8 → Channel → Prop}
  {select : ℤ → Prog Connecting Selected}
  {attempt : List UInt8 → Prog Connecting (Except Errno (List UInt8))}

/-- A timed loop fails with a part only, and its waits go by what was left of the timeout. -/
theorem timedLoop_safe (size : ℕ) (start : ℤ)
    (hselect : ∀ moved t seconds,inv moved t → t.Due job.timeout seconds →
      Doing job before (select seconds) (fun u _ => u=t) t)
    (hattempt : ∀ moved t,inv moved t → Doing job before (attempt moved)
      (fun u r => Tried inv moved u r ∧ u.times=t.times) t)
    (hclock : ∀ moved t now,inv moved t → inv moved { t with times := now :: t.times })
    (fuel : ℕ) {moved : List UInt8} {now : ℤ} {t : Channel} (hinv : inv moved t)
    (ht : t.Clock job.timeout start now) (hpart : moved.length=size → size=0) :
    Doing job before (timedLoop select attempt size job.timeout start fuel moved now)
      (fun u r => inv r.1 u ∧ (size≠0 → (r.2=.ok () ↔ r.1.length=size))) t := by
  induction fuel generalizing moved now t with
  | zero => exact ⟨Or.inr rfl,fun r => r.elim⟩
  | succ fuel ih =>
    have hfailed {errno : Errno} {moved : List UInt8} (hpart : moved.length=size → size=0) :
        size≠0 → ((.error errno : Except Errno Unit)=.ok () ↔ moved.length=size) :=
      fun hsize => ⟨(fun h => by cases h),fun h => absurd (hpart h) hsize⟩
    have hnext {moved : List UInt8} {now : ℤ} {t : Channel} (hinv : inv moved t)
        (hlast : t.times.getLast?=some start) (hhead : t.times.head?=some now)
        (hpart : moved.length=size → size=0) :
        Doing job before (if now-start < job.timeout then
            timedLoop select attempt size job.timeout start fuel moved now
          else return (moved,.error .etimedout))
          (fun u r => inv r.1 u ∧ (size≠0 → (r.2=.ok () ↔ r.1.length=size))) t := by
      split_ifs with hleft
      · exact ih hinv ⟨hlast,hhead,Or.inr hleft⟩ hpart
      · exact ⟨hinv,hfailed hpart⟩
    obtain ⟨hlast,hhead,hon⟩ := ht
    apply (hselect moved t _ hinv ⟨start,now,hlast,hhead,rfl,hon⟩).bind
    rintro t status rfl
    cases status with
    | failed errno =>
      change Prog.Safe _ _ _ (if errno=.eintr then _ else _) t
      split_ifs
      · exact hnext hinv hlast hhead hpart
      · exact ⟨hinv,hfailed hpart⟩
    | timedOut => exact ⟨hinv,hfailed hpart⟩
    | ready =>
      apply (hattempt moved t hinv).bind
      intro u status hu
      obtain ⟨hu,htimes⟩ := hu
      cases status with
      | error errno =>
        change Prog.Safe _ _ _ (if errno=.eintr then _ else _) u
        split_ifs
        · exact hnext hu (htimes ▸ hlast) (htimes ▸ hhead) hpart
        · exact ⟨hu,hfailed hpart⟩
      | ok bytes =>
        change Prog.Safe _ _ _ (if (moved++bytes).length=size then _ else _) u
        split_ifs with hall
        · exact ⟨hu,fun _ => ⟨fun _ => hall,fun _ => rfl⟩⟩
        · refine ⟨trivial,fun now' v hstep => ?_⟩
          have hv : v={ u with times := now' :: u.times } := hstep
          rw [hv]
          refine hnext (hclock _ u now' hu) ?_ rfl fun h => absurd h hall
          change (now' :: u.times).getLast?=some start
          rw [htimes,List.getLast?_cons,hlast]
          rfl

end

/-- What has become of data that was to be written: a part of it from its start was taken,
in its order, and on success all of it. -/
structure Delivered (s : Channel) (data : List UInt8) (t : Channel) (moved : List UInt8)
    (success : Prop) : Prop where
  sent : t.sent=s.sent++moved
  part : moved<+:data
  all : data≠[] → (success ↔ moved=data)
  received : t.received=s.received

/-- What has become of a read: the buffer has what came next, and on success all of it. -/
structure Obtained (s : Channel) (size : ℕ) (t : Channel) (got : List UInt8) (success : Prop) :
    Prop where
  received : t.received=s.received++got
  part : got.length ≤ size
  all : size≠0 → (success ↔ got.length=size)
  sent : t.sent=s.sent
  file : t.file=s.file

theorem prefix_all {data moved : List UInt8} (h : moved<+:data) :
    moved=data ↔ moved.length=data.length :=
  ⟨congrArg List.length,h.eq_of_length⟩

section

variable (s : Channel) (fd : Fd) (data : List UInt8)

/-- A job of writing data. -/
def writeJob (offset : ℕ) (limit : Option ℕ) (timeout : ℤ) : Job :=
  ⟨fd,data,0,offset,limit,timeout⟩

theorem xwrite_safe (offset : ℕ) :
    Doing (writeJob fd data offset (some maxTries) 0) s (xwrite fd data)
      (fun t r => Delivered s data t r.1 (r.2=.ok ()) ∧ t.file=s.file) s.begin := by
  rw [xwrite]
  split_ifs with hlen
  · have hnil : data=[] := List.eq_nil_of_length_eq_zero hlen
    exact ⟨⟨(List.append_nil _).symm,List.nil_prefix,fun h => absurd hnil h,rfl⟩,rfl⟩
  · have hstart : s.begin.sentSo [] 0=s.begin := by
      simp [sentSo,begin]
    have h := transfer_safe (writeJob fd data offset (some maxTries) 0) s
      (sentSo_progress s.begin data) maxTries [.eintr] List.nil_prefix
      fun moved count hcount _ hfits => writeOnce_safe _
        (by intro n hn; cases hn; exact hcount) rfl hfits (fun h => absurd rfl h)
    rw [hstart] at h
    apply h.mono
    intro t r hr
    obtain ⟨⟨count,rfl,hfits⟩,hle,hall⟩ := hr
    refine ⟨⟨rfl,hfits,fun _ => ?_,rfl⟩,rfl⟩
    rw [hall,prefix_all hfits]

theorem xpwrite_safe (offset : ℕ) (timeout : ℤ) :
    Doing (writeJob fd data offset (some maxTries) timeout) s (xpwrite fd data offset)
      (fun t r => Delivered s data t r.1 (r.2=.ok ()) ∧ t.file=overwrite s.file offset r.1)
      s.begin := by
  rw [xpwrite]
  split_ifs with hlen
  · have hnil : data=[] := List.eq_nil_of_length_eq_zero hlen
    exact ⟨⟨(List.append_nil _).symm,List.nil_prefix,fun h => absurd hnil h,rfl⟩,
      (overwrite_nil s.file offset).symm⟩
  · have hstart : s.begin.writtenSo offset [] 0=s.begin := by
      simp [writtenSo,sentSo,begin,overwrite_nil]
    have h := transfer_safe (writeJob fd data offset (some maxTries) timeout) s
      (writtenSo_progress s.begin data offset) maxTries [.eintr] List.nil_prefix
      fun moved count hcount _ hfits => pwriteOnce_safe _
        (by intro n hn; cases hn; exact hcount) rfl hfits
    rw [hstart] at h
    apply h.mono
    intro t r hr
    obtain ⟨⟨count,rfl,hfits⟩,hle,hall⟩ := hr
    refine ⟨⟨rfl,hfits,fun _ => ?_,rfl⟩,rfl⟩
    rw [hall,prefix_all hfits]

end

section

variable (s : Channel) (fd : Fd) (size : ℕ)

/-- A job of reading so much. -/
def readJob (limit : Option ℕ) (timeout : ℤ) : Job := ⟨fd,[],size,0,limit,timeout⟩

theorem socketXread_safe (timeout : ℤ) :
    Doing (readJob fd size (some maxReads) timeout) s (socketXread fd size)
      (fun t r => Obtained s size t r.1 (r.2=.ok ())) s.begin := by
  have hstart : s.begin.receivedSo [] 0=s.begin := by
    simp [receivedSo,begin]
  have h := transfer_safe (readJob fd size (some maxReads) timeout) s
    (receivedSo_progress s.begin size) maxReads [.eintr,.eagain] (Nat.zero_le _)
    fun moved count hcount _ hfits => readOnce_safe _
      (by intro n hn; cases hn; exact hcount) rfl hfits
  rw [hstart] at h
  apply h.bind
  intro t r hr
  obtain ⟨got,status⟩ := r
  obtain ⟨⟨count,rfl,hfits⟩,hle,hall⟩ := hr
  rcases status with errno|_
  · have hshort : got.length≠size := fun h => by cases hall.mpr h
    cases errno with
    | none => exact ⟨rfl,hle,fun _ => ⟨(fun h => by cases h),fun h => absurd h hshort⟩,rfl,rfl⟩
    | some errno =>
      exact ⟨rfl,hle,fun _ => ⟨(fun h => by cases h),fun h => absurd h hshort⟩,rfl,rfl⟩
  · exact ⟨rfl,hle,fun _ => ⟨fun _ => hall.mp rfl,fun _ => rfl⟩,rfl,rfl⟩

/-- The times are read from here on. -/
theorem timed_safe (job : Job) (before : Channel) {s : Channel}
    (inv : List UInt8 → Channel → Prop) (select : ℤ → Prog Connecting Selected)
    (attempt : List UInt8 → Prog Connecting (Except Errno (List UInt8))) (size : ℕ)
    (hselect : ∀ moved t seconds,inv moved t → t.Due job.timeout seconds →
      Doing job before (select seconds) (fun u _ => u=t) t)
    (hattempt : ∀ moved t,inv moved t → Doing job before (attempt moved)
      (fun u r => Tried inv moved u r ∧ u.times=t.times) t)
    (hclock : ∀ moved t now,inv moved t → inv moved { t with times := now :: t.times })
    (hs : s.times=[]) (hinv : inv [] s) :
    Doing job before (timed select attempt size job.timeout)
      (fun u r => inv r.1 u ∧ (size≠0 → (r.2=.ok () ↔ r.1.length=size))) s := by
  refine ⟨trivial,fun (start : ℤ) t hstep => ?_⟩
  have ht : t={ s with times := start :: s.times } := hstep
  rw [ht]
  refine ⟨Or.inl rfl,fun fuel u hstep => ?_⟩
  have hu : u={ s with times := start :: s.times } := hstep
  rw [hu]
  refine timedLoop_safe size start hselect hattempt hclock fuel (hclock [] s start hinv)
    ⟨?_,rfl,Or.inl ?_⟩ fun h => h.symm
  · rw [hs]
    rfl
  · rw [hs]

/-- How a read with a timeout has left the descriptor. -/
structure ReadSoFar (s : Channel) (size : ℕ) (moved : List UInt8) (t : Channel) : Prop where
  received : t.received=s.received++moved
  part : moved.length ≤ size
  sent : t.sent=s.sent
  file : t.file=s.file

theorem networkRead_safe (timeout : ℤ) :
    Doing (readJob fd size (if timeout=0 then some maxReads else none) timeout) s
      (networkRead fd size timeout) (fun t r => Obtained s size t r.1 (r.2=.ok ())) s.begin := by
  rw [networkRead]
  split_ifs with htimeout
  · exact socketXread_safe s fd size timeout
  · have h := timed_safe (readJob fd size none timeout) s (s := s.begin) (ReadSoFar s size)
      (fun seconds => ccall (.selectRead fd seconds)) (readOnce fd size) size
      (fun moved t seconds _ hdue => ⟨⟨rfl,hdue⟩,fun r u hstep => hstep⟩)
      (fun moved t hr => by
        apply (readOnce_safe (readJob fd size none timeout) (by rintro n ⟨⟩) hr.received
          hr.part).mono
        intro u r hu
        cases r with
        | ok bytes =>
          obtain ⟨rfl,hfits⟩ := hu
          refine ⟨⟨?_,hfits,hr.sent,hr.file⟩,rfl⟩
          change t.received++bytes=_
          rw [hr.received,List.append_assoc]
        | error errno =>
          have hu' : u=t.tried [] := hu
          rw [hu']
          exact ⟨⟨hr.received,hr.part,hr.sent,hr.file⟩,rfl⟩)
      (fun moved t now hr => ⟨hr.received,hr.part,hr.sent,hr.file⟩) rfl
      ⟨(List.append_nil _).symm,Nat.zero_le _,rfl,rfl⟩
    apply h.mono
    intro t r hr
    obtain ⟨hr,hall⟩ := hr
    exact ⟨hr.received,hr.part,hall,hr.sent,hr.file⟩

end

section

variable (s : Channel) (fd : Fd) (data : List UInt8)

/-- The mode is as asked for, or an fcntl has failed. -/
theorem fdflagNonblocking_done (job : Job) (before t : Channel) (flag : Bool) :
    Doing job before (fdflagNonblocking job.fd flag) (fun u _ => ∃ nonblocking stuck,
      u={ t with nonblocking := nonblocking, stuck := stuck } ∧
        (nonblocking=flag ∨ stuck=true)) t := by
  refine ⟨rfl,fun mode u hstep => ?_⟩
  cases mode with
  | none => exact ⟨t.nonblocking,true,hstep,Or.inr rfl⟩
  | some mode =>
    obtain ⟨-,rfl⟩ := hstep
    refine ⟨rfl,fun set v hstep => ?_⟩
    cases set with
    | false => exact ⟨u.nonblocking,true,hstep,Or.inr rfl⟩
    | true => exact ⟨_,u.stuck,hstep,Or.inl (nonblock_mode mode flag)⟩

/-- How a write with a timeout has left the descriptor. -/
structure WrittenSoFar (s : Channel) (data moved : List UInt8) (t : Channel) : Prop where
  sent : t.sent=s.sent++moved
  part : moved<+:data
  received : t.received=s.received
  file : t.file=s.file
  mode : t.nonblocking=true ∨ t.stuck=true

theorem networkWrite_safe (offset : ℕ) (timeout : ℤ) :
    Doing (writeJob fd data offset (if timeout=0 then some maxTries else none) timeout) s
      (networkWrite fd data timeout)
      (fun t r => Delivered s data t r.1 (r.2=.ok ()) ∧ t.file=s.file ∧
        (timeout≠0 → t.nonblocking=false ∨ t.stuck=true)) s.begin := by
  rw [networkWrite]
  split_ifs with htimeout
  · rw [htimeout]
    apply (xwrite_safe s fd data offset).mono
    intro t r hr
    exact ⟨hr.1,hr.2,fun h => absurd rfl h⟩
  · let job := writeJob fd data offset none timeout
    apply (fdflagNonblocking_done job s s.begin true).bind
    intro t _ ht
    obtain ⟨nonblocking,stuck,rfl,hmode⟩ := ht
    have htimed := timed_safe job s
      (s := { s.begin with nonblocking := nonblocking, stuck := stuck }) (WrittenSoFar s data)
      (fun seconds => ccall (.selectWrite fd seconds)) (writeOnce fd data) data.length
      (fun moved t seconds _ hdue => ⟨⟨rfl,hdue⟩,fun r u hstep => hstep⟩)
      (fun moved t hw => by
        apply (writeOnce_safe job (by rintro n ⟨⟩) hw.sent hw.part
          fun _ => hw.mode).mono
        intro u r hu
        cases r with
        | ok bytes =>
          obtain ⟨rfl,hfits⟩ := hu
          refine ⟨⟨?_,hfits,hw.received,hw.file,hw.mode⟩,rfl⟩
          change t.sent++bytes=_
          rw [hw.sent,List.append_assoc]
        | error errno =>
          have hu' : u=t.tried [] := hu
          rw [hu']
          exact ⟨⟨hw.sent,hw.part,hw.received,hw.file,hw.mode⟩,rfl⟩)
      (fun moved t now hw => ⟨hw.sent,hw.part,hw.received,hw.file,hw.mode⟩) rfl
      ⟨(List.append_nil _).symm,List.nil_prefix,rfl,rfl,hmode⟩
    apply htimed.bind
    intro t r hr
    obtain ⟨moved,status⟩ := r
    obtain ⟨hw,hall⟩ := hr
    apply (fdflagNonblocking_done job s t false).bind
    intro u _ hu
    obtain ⟨nonblocking',stuck',rfl,hmode'⟩ := hu
    refine ⟨⟨hw.sent,hw.part,fun hne => ?_,hw.received⟩,hw.file,fun _ => hmode'⟩
    have hsize : data.length≠0 := fun h => hne (List.eq_nil_of_length_eq_zero h)
    rw [prefix_all hw.part,← hall hsize]
    cases status with
    | ok _ => exact ⟨fun _ => rfl,fun _ => rfl⟩
    | error errno => exact ⟨(fun h => by cases h),fun h => by cases h⟩

end

end Lbcd
