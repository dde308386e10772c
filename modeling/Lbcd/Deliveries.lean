import Lbcd.Channels

namespace Lbcd

open Interaction Channel

/-- An offset below the end of the data is in one of the vectors. -/
theorem skipWritten_inside (iov : List (List UInt8)) {offset : ℕ}
    (h : offset < iov.flatten.length) :
    ∃ rest v vs,skipWritten offset iov=some (rest,v,vs) ∧ rest < v.length ∧
      (v.drop rest :: vs).flatten=iov.flatten.drop offset := by
  induction iov generalizing offset with
  | nil => exact absurd h (Nat.not_lt_zero _)
  | cons v vs ih =>
    rw [skipWritten]
    split_ifs with hv
    · have hrest : offset-v.length < vs.flatten.length := by
        rw [List.flatten_cons,List.length_append] at h
        omega
      obtain ⟨rest,v',vs',hskip,hlt,hdrop⟩ := ih hrest
      refine ⟨rest,v',vs',hskip,hlt,?_⟩
      rw [hdrop,List.flatten_cons,List.drop_append,List.drop_eq_nil_of_le hv,List.nil_append]
    · refine ⟨offset,v,vs,rfl,not_le.mp hv,?_⟩
      have hzero : offset-v.length=0 := by omega
      rw [List.flatten_cons,List.flatten_cons,List.drop_append,hzero,List.drop_zero]

section

variable (s : Channel) (fd : Fd) (data : List UInt8) (offset : ℕ) (timeout : ℤ)

/-- One writev of what is left. -/
theorem writev_safe {α : Type} {iov : List (List UInt8)} {moved : List UInt8} {count : ℕ}
    (hrest : moved++iov.flatten=data) (hcount : count < maxTries)
    {k : Except Errno { n : ℕ // n ≤ iov.flatten.length } → Prog Connecting α}
    {post : Channel → α → Prop}
    (hnone : ∀ r,(∀ n h,r≠.ok ⟨n+1,h⟩) → Doing (writeJob fd data offset (some maxTries) timeout) s
      (k r) post (s.begin.sentSo moved (count+1)))
    (hsome : ∀ n h,Doing (writeJob fd data offset (some maxTries) timeout) s (k (.ok ⟨n+1,h⟩)) post
      (s.begin.sentSo (moved++iov.flatten.take (n+1)) 0)) :
    Doing (writeJob fd data offset (some maxTries) timeout) s
      (Prog.call (I := Connecting) (.writev fd iov) k) post (s.begin.sentSo moved count) := by
  have hoffered : s.sent++data=(s.sent++moved)++iov.flatten := by
    rw [List.append_assoc,hrest]
  refine ⟨⟨rfl,hoffered,?_⟩,fun r t hstep => ?_⟩
  · intro n hn
    cases hn
    exact hcount
  match r with
  | .error errno =>
    have ht : t=s.begin.sentSo moved (count+1) := hstep
    rw [ht]
    exact hnone _ (by rintro n h ⟨⟩)
  | .ok ⟨0,h⟩ =>
    have ht : t=s.begin.sentSo moved (count+1) :=
      hstep.trans ((sentSo_progress s.begin data).none moved count)
    rw [ht]
    exact hnone _ (by rintro n h ⟨⟩)
  | .ok ⟨n+1,h⟩ =>
    obtain ⟨b,bs,hb⟩ : ∃ b bs,iov.flatten.take (n+1)=b :: bs := by
      cases hf : iov.flatten with
      | nil =>
        rw [hf] at h
        exact absurd h (Nat.not_succ_le_zero n)
      | cons b bs => exact ⟨b,bs.take n,rfl⟩
    have ht : t=(s.begin.sentSo moved count).take (iov.flatten.take (n+1)) := hstep
    rw [ht,hb,(sentSo_progress s.begin data).some moved count b bs,← hb]
    exact hsome n h

theorem writevFirst_safe (count : ℕ) (status : Except Errno ℕ)
    (hstatus : count < maxTries ∨ ∃ errno,status=.error errno) {iov : List (List UInt8)}
    (hdata : iov.flatten=data) :
    Doing (writeJob fd data offset (some maxTries) timeout) s (writevFirst fd iov count status)
      (fun t r => match r.1 with
        | .ok n => t=s.begin.sentSo (data.take n) r.2 ∧ n ≤ data.length
        | .error _ => ∃ count,t=s.begin.sentSo [] count) (s.begin.sentSo [] count) := by
  subst hdata
  induction count,status using writevFirst.induct with
  | case1 count status hlim =>
    rw [writevFirst,if_pos hlim]
    obtain ⟨errno,rfl⟩ := hstatus.resolve_left (by omega)
    exact ⟨count,rfl⟩
  | case2 count status hlim ih =>
    rw [writevFirst,if_neg hlim]
    apply writev_safe s fd iov.flatten offset timeout rfl (by omega)
    · intro r hr
      match r with
      | .error errno =>
        change Prog.Safe _ _ _ (if errno=.eintr then _ else _) _
        split_ifs
        · exact ih errno (Or.inr ⟨errno,rfl⟩)
        · exact ⟨count+1,rfl⟩
      | .ok ⟨0,h⟩ => exact ⟨rfl,Nat.zero_le _⟩
      | .ok ⟨n+1,h⟩ => exact absurd rfl (hr n h)
    · intro n h
      exact ⟨rfl,h⟩

/-- The second loop goes on with what is left, and stays inside the array. -/
theorem writevRest_safe (count skip left : ℕ) (iov : List (List UInt8)) {moved : List UInt8}
    (hrest : moved++iov.flatten.drop skip=data) (hleft : (iov.flatten.drop skip).length=left)
    (hpos : 0 < left) :
    Doing (writeJob fd data offset (some maxTries) timeout) s (writevRest fd count skip left iov)
      (fun t left => ∃ moved count,t=s.begin.sentSo moved count ∧ moved<+:data ∧
        moved.length+left=data.length) (s.begin.sentSo moved count) := by
  have hend {moved rest : List UInt8} (h : moved++rest=data) (count : ℕ) :
      ∃ moved' count',s.begin.sentSo moved count=s.begin.sentSo moved' count' ∧ moved'<+:data ∧
        moved'.length+rest.length=data.length := by
    refine ⟨moved,count,rfl,⟨rest,h⟩,?_⟩
    rw [← h,List.length_append]
  induction count,skip,left,iov using writevRest.induct generalizing moved with
  | case1 count skip left iov hlim =>
    rw [writevRest,if_pos hlim]
    have hleaves := hend hrest count
    rw [hleft] at hleaves
    exact hleaves
  | case2 count skip left iov hlim hskip =>
    rw [List.length_drop] at hleft
    have hlt : skip < iov.flatten.length := by omega
    obtain ⟨rest,v,vs,hinside,-⟩ := skipWritten_inside iov hlt
    rw [hskip] at hinside
    cases hinside
  | case3 count skip left iov hlim rest v vs hskip iov' ih =>
    rename_i ih'
    rw [writevRest,if_neg hlim,hskip]
    have hflat : iov'.flatten=iov.flatten.drop skip := by
      have hlt : skip < iov.flatten.length := by
        rw [List.length_drop] at hleft
        omega
      obtain ⟨rest',v',vs',hinside,-,hdrop⟩ := skipWritten_inside iov hlt
      rw [hskip] at hinside
      cases hinside
      exact hdrop
    have hlength : iov'.flatten.length=left := by rw [hflat,hleft]
    have hwhole : moved++iov'.flatten=data := by rw [hflat,hrest]
    have hagain := ih hwhole hlength hpos
    have hleaves := hend hwhole (count+1)
    rw [hlength] at hleaves
    apply writev_safe s fd data offset timeout hwhole (by omega)
    · intro r hr
      match r with
      | .error errno =>
        change Prog.Safe _ _ _ (if 0 < left ∧ errno=.eintr then _ else _) _
        split_ifs
        · exact hagain
        · exact hleaves
      | .ok ⟨0,h⟩ =>
        change Prog.Safe _ _ _ (if 0 < left then _ else _) _
        rw [if_pos hpos]
        exact hagain
      | .ok ⟨n+1,h⟩ => exact absurd rfl (hr n h)
    · intro n h
      have hsplit : (moved++iov'.flatten.take (n+1))++iov'.flatten.drop (n+1)=data := by
        rw [List.append_assoc,List.take_append_drop,hwhole]
      have hlength' : (iov'.flatten.drop (n+1)).length=left-(n+1) := by
        rw [List.length_drop,hlength]
      change Prog.Safe _ _ _ (if 0 < left-(n+1) then _ else _) _
      split_ifs with hmore
      · exact ih' n hmore hsplit hlength' hmore
      · have hleaves' := hend hsplit 0
        rw [hlength'] at hleaves'
        exact hleaves'

/-- The return value is -1 or all of the length. -/
theorem xwritev_safe (iov : List (List UInt8)) (hdata : iov.flatten=data) :
    Doing (writeJob fd data offset (some maxTries) timeout) s (xwritev fd iov)
      (fun t r => (r=none ∨ r=some data.length) ∧ t.file=s.file ∧
        ∃ moved,Delivered s data t moved (r=some data.length)) s.begin := by
  have hstart : s.begin.sentSo [] 0=s.begin := by
    simp [sentSo,begin]
  have hempty (h : data=[]) : (some 0=none ∨ some 0=some data.length) ∧ s.begin.file=s.file ∧
      ∃ moved,Delivered s data s.begin moved (some 0=some data.length) := by
    rw [h]
    exact ⟨Or.inr rfl,rfl,[],(List.append_nil _).symm,List.nil_prefix,fun h => absurd rfl h,rfl⟩
  have hfailed {moved : List UInt8} (hpart : moved<+:data) (hshort : moved≠data) (count : ℕ) :
      ((none : Option ℕ)=none ∨ none=some data.length) ∧ (s.begin.sentSo moved count).file=s.file ∧
        ∃ moved',Delivered s data (s.begin.sentSo moved count) moved' (none=some data.length) :=
    ⟨Or.inl rfl,rfl,moved,rfl,hpart,fun _ => ⟨(fun h => by cases h),fun h => absurd h hshort⟩,rfl⟩
  have hdone (count : ℕ) : (some data.length=none ∨ some data.length=some data.length) ∧
      (s.begin.sentSo data count).file=s.file ∧
        ∃ moved,Delivered s data (s.begin.sentSo data count) moved
          (some data.length=some data.length) :=
    ⟨Or.inr rfl,rfl,data,rfl,List.prefix_refl _,fun _ => ⟨fun _ => rfl,fun _ => rfl⟩,rfl⟩
  rw [xwritev]
  dsimp only
  split_ifs with hnone hzero
  · rw [List.eq_nil_of_length_eq_zero hnone] at hdata
    exact hempty hdata.symm
  · rw [hdata] at hzero
    exact hempty (List.eq_nil_of_length_eq_zero hzero)
  · subst hdata
    have hfirst := writevFirst_safe s fd iov.flatten offset timeout 0 (.ok 0)
      (Or.inl (by decide)) rfl
    rw [hstart] at hfirst
    apply hfirst.bind
    intro t r hr
    obtain ⟨status,count⟩ := r
    cases status with
    | error errno =>
      obtain ⟨count',rfl⟩ := hr
      exact hfailed List.nil_prefix (fun h => hzero (by rw [← h]; rfl)) count'
    | ok n =>
      obtain ⟨rfl,hn⟩ := hr
      change Prog.Safe _ _ _ (if n=iov.flatten.length then _ else _) _
      split_ifs with hall
      · rw [hall,List.take_length]
        exact hdone count
      · have hmore : n < iov.flatten.length := by omega
        obtain ⟨rest,v,vs,hskip,hlt,hdrop⟩ := skipWritten_inside iov hmore
        have hrest : iov.flatten.take n++(v :: vs).flatten.drop rest=iov.flatten := by
          have hzero : rest-v.length=0 := by omega
          rw [List.flatten_cons,List.drop_append,hzero,List.drop_zero,← List.flatten_cons,hdrop,
            List.take_append_drop]
        have hleft : ((v :: vs).flatten.drop rest).length=iov.flatten.length-n := by
          have hlength := congrArg List.length hrest
          rw [List.length_append,List.length_take,Nat.min_eq_left hn] at hlength
          omega
        have hshort : iov.flatten.take n≠iov.flatten := by
          intro h
          have hlength := congrArg List.length h
          rw [List.length_take,Nat.min_eq_left hn] at hlength
          exact hall hlength
        rw [hskip]
        refine ⟨trivial,fun allocated t hstep => ?_⟩
        have ht : t=s.begin.sentSo (iov.flatten.take n) count := hstep
        rw [ht]
        cases allocated with
        | false => exact hfailed (List.take_prefix n _) hshort count
        | true =>
          apply (writevRest_safe s fd iov.flatten offset timeout count rest _ (v :: vs) hrest hleft
            (by omega)).bind
          intro t left ht
          obtain ⟨moved,count',rfl,hpart,hsum⟩ := ht
          cases left with
          | zero =>
            have hwhole : moved=iov.flatten := hpart.eq_of_length hsum
            rw [hwhole]
            exact hdone count'
          | succ left => exact hfailed hpart (fun h => by rw [h] at hsum; omega) count'

end

/-- What the functions that write do, whatever the system replies: every write offers exactly
what has not been taken yet, and what is taken is the data from its start, in order and once,
all of it exactly on success. They give up after ten tries in a row that write nothing, or by
the timeout; xpwrite changes no more of the file than the place of what was taken, and
network_write leaves the descriptor blocking unless an fcntl has failed. -/
structure WriteLaw (s : Channel) (fd : Fd) (data : List UInt8) : Prop where
  xwrite : Doing (writeJob fd data 0 (some maxTries) 0) s (xwrite fd data)
    (fun t r => Delivered s data t r.1 (r.2=.ok ()) ∧ t.file=s.file) s.begin
  xpwrite : ∀ offset,Doing (writeJob fd data offset (some maxTries) 0) s (xpwrite fd data offset)
    (fun t r => Delivered s data t r.1 (r.2=.ok ()) ∧ t.file=overwrite s.file offset r.1) s.begin
  xwritev : ∀ iov,iov.flatten=data →
    Doing (writeJob fd data 0 (some maxTries) 0) s (xwritev fd iov)
      (fun t r => (r=none ∨ r=some data.length) ∧ t.file=s.file ∧
        ∃ moved,Delivered s data t moved (r=some data.length)) s.begin
  network : ∀ timeout,
    Doing (writeJob fd data 0 (if timeout=0 then some maxTries else none) timeout) s
      (networkWrite fd data timeout)
      (fun t r => Delivered s data t r.1 (r.2=.ok ()) ∧ t.file=s.file ∧
        (timeout≠0 → t.nonblocking=false ∨ t.stuck=true)) s.begin

theorem write_law (s : Channel) (fd : Fd) (data : List UInt8) : WriteLaw s fd data where
  xwrite := xwrite_safe s fd data 0
  xpwrite offset := xpwrite_safe s fd data offset 0
  xwritev iov hdata := xwritev_safe s fd data 0 0 iov hdata
  network timeout := networkWrite_safe s fd data 0 timeout

/-- What network_read does, whatever the system replies: every read asks for exactly what is
missing, and the buffer has what came next, all of it exactly on success. -/
theorem network_read_law (s : Channel) (fd : Fd) (size : ℕ) (timeout : ℤ) :
    Doing (readJob fd size (if timeout=0 then some maxReads else none) timeout) s
      (networkRead fd size timeout) (fun t r => Obtained s size t r.1 (r.2=.ok ())) s.begin :=
  networkRead_safe s fd size timeout

end Lbcd
