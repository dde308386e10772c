import Lbcd.Monlist

namespace Lbcd

open Interaction CText ByteOrder

/-- A response of a time server: the number of its last fragment, and how many items each
fragment has. -/
structure Response where
  last : ℕ
  items : ℕ → ℕ
  last_lt : last < maxPackets

namespace Response

variable (R : Response) (implcode reqcode : UInt8)

/-- One of the fragments, of which only the last lacks the MORE bit. -/
def Part (f : Fragment) : Prop :=
  f.seq ≤ R.last ∧ (f.more=false ↔ f.seq=R.last) ∧ f.items=R.items f.seq

/-- Fragments of the response in any order and any number, among packets that fail a check. -/
def Arrival (rs : List (List UInt8)) : Prop :=
  ∀ pkt∈rs,IsStray implcode reqcode pkt ∨ ∃ f,fragmentOf implcode reqcode pkt=some f ∧ R.Part f

/-- Every fragment has arrived. -/
def Complete (rs : List (List UInt8)) : Prop :=
  ∀ q ≤ R.last,∃ pkt∈rs,∃ f,fragmentOf implcode reqcode pkt=some f ∧ f.seq=q

/-- The items of all fragments, each counted once. -/
def total : ℕ := ∑ q∈Finset.range (R.last+1),R.items q

variable {R implcode reqcode}

theorem complete_iff {rs : List (List UInt8)} :
    R.Complete implcode reqcode rs ↔
      ∀ q ≤ R.last,q∈(counted (fragments implcode reqcode rs)).map Fragment.seq := by
  refine forall₂_congr fun q _ => ?_
  rw [mem_keys_counted,fragments,List.mem_map]
  constructor
  · rintro ⟨pkt,hm,f,hf,hq⟩
    exact ⟨f,List.mem_filterMap.mpr ⟨pkt,hm,hf⟩,hq⟩
  · rintro ⟨f,hm,hq⟩
    obtain ⟨pkt,hp,hf⟩ := List.mem_filterMap.mp hm
    exact ⟨pkt,hp,f,hf,hq⟩

theorem Arrival.part {rs : List (List UInt8)} (h : R.Arrival implcode reqcode rs) :
    ∀ f∈fragments implcode reqcode rs,R.Part f := by
  intro f hm
  obtain ⟨pkt,hp,hf⟩ := List.mem_filterMap.mp hm
  rcases h pkt hp with hstray|⟨g,hg,hpart⟩
  · rw [fragmentOf,classify,if_pos hstray] at hf
    cases hf
  · cases hf.symm.trans hg
    exact hpart

theorem Arrival.no_error {rs : List (List UInt8)} (h : R.Arrival implcode reqcode rs)
    {pkt : List UInt8} (hp : pkt∈rs) (code : ℕ) : classify implcode reqcode pkt≠.error code := by
  intro hc
  rcases h pkt hp with hstray|⟨g,hg,-⟩
  · rw [classify,if_pos hstray] at hc
    cases hc
  · rw [fragmentOf,hc] at hg
    cases hg

/-- Of one fragment for each number, the sum does not depend on the order. -/
theorem itemSum_full {cs : List Fragment} (hpart : ∀ f∈cs,R.Part f)
    (hnd : (cs.map Fragment.seq).Nodup) (hkeys : ∀ q,q∈cs.map Fragment.seq ↔ q ≤ R.last) :
    itemSum cs=R.total := by
  have hitems : cs.map Fragment.items=(cs.map Fragment.seq).map R.items := by
    rw [List.map_map]
    exact List.map_congr_left fun f hf => (hpart f hf).2.2
  have hset : (cs.map Fragment.seq).toFinset=Finset.range (R.last+1) := Finset.ext fun q => by
    rw [List.mem_toFinset,hkeys,Finset.mem_range,Nat.lt_succ_iff]
  rw [itemSum,hitems,total,← hset,List.sum_toFinset R.items hnd]

theorem finished_complete {rs : List (List UInt8)} {n : ℕ}
    (h : R.Arrival implcode reqcode rs) (hf : Finished (fragments implcode reqcode rs) n) :
    R.Complete implcode reqcode rs ∧ n=R.total := by
  have hpart (f : Fragment) (hm : f∈counted (fragments implcode reqcode rs)) : R.Part f :=
    h.part f (counted_subset hm)
  obtain ⟨e,hmem,hseq,hmore⟩ := hf.ended
  have hend : endSeq (counted (fragments implcode reqcode rs))=R.last :=
    hseq.symm.trans ((hpart e hmem).2.1.mp hmore)
  have htally := tally_le (counted (fragments implcode reqcode rs))
  have hlast := hf.last
  have hfull (q : ℕ) : q∈(counted (fragments implcode reqcode rs)).map Fragment.seq ↔
      q ≤ R.last := by
    refine mem_of_full (nodup_keys_counted _) (fun q hq => ?_) (by rw [List.length_map]; omega)
    obtain ⟨f,hm,rfl⟩ := List.mem_map.mp hq
    exact (hpart f hm).1
  exact ⟨complete_iff.mpr fun q hq => (hfull q).mpr hq,
    hf.ritems.trans (itemSum_full hpart (nodup_keys_counted _) hfull)⟩

theorem not_complete_of_tracks {rs : List (List UInt8)} {s : RespState}
    (h : R.Arrival implcode reqcode rs) (ht : Tracks (fragments implcode reqcode rs) s) :
    ¬R.Complete implcode reqcode rs := by
  intro hc
  rw [complete_iff] at hc
  have hpart (f : Fragment) (hm : f∈counted (fragments implcode reqcode rs)) : R.Part f :=
    h.part f (counted_subset hm)
  have hsub : Finset.range R.last⊆
      (((counted (fragments implcode reqcode rs)).filter Fragment.more).map
        Fragment.seq).toFinset := by
    intro q hq
    rw [Finset.mem_range] at hq
    obtain ⟨f,hm,rfl⟩ := List.mem_map.mp (hc q hq.le)
    have hmore : f.more=true := by
      refine Bool.eq_true_of_not_eq_false fun hm' => ?_
      have heq := (hpart f hm).2.1.mp hm'
      omega
    exact List.mem_toFinset.mpr (List.mem_map_of_mem (List.mem_filter.mpr ⟨hm,hmore⟩))
  have hcard := (Finset.card_le_card hsub).trans (List.toFinset_card_le _)
  rw [Finset.card_range,List.length_map] at hcard
  obtain ⟨e,hm,hseq⟩ := List.mem_map.mp (hc R.last le_rfl)
  have hmore : e.more=false := (hpart e hm).2.1.mpr hseq
  have hany : (counted (fragments implcode reqcode rs)).any (fun f => !f.more)=true :=
    List.any_eq_true.mpr ⟨e,hm,by rw [hmore]; rfl⟩
  have hend : endSeq (counted (fragments implcode reqcode rs))=R.last := by
    have hne : endSeq (counted (fragments implcode reqcode rs))≠999 := by
      intro h999
      rw [endSeq_eq_999.mp h999] at hany
      cases hany
    obtain ⟨f,hf,hfseq,hfmore⟩ := endSeq_mem hne
    exact hfseq.symm.trans ((hpart f hf).2.1.mp hfmore)
  have hwait := ht.waiting
  rw [ht.numrecv,ht.last,hend,tally,if_pos hany] at hwait
  omega

/-- A run of getresponse that receives nothing else succeeds exactly with the fragment that
completes the response. -/
theorem getresponse_complete {sd : Fd} {timeout : ℤ} {o : Oracle System}
    (h : R.Arrival implcode reqcode (receivedPackets implcode reqcode sd timeout o)) :
    (∀ n,(getresponse sd implcode reqcode timeout).result o=some (0,n) ↔
      R.Complete implcode reqcode (receivedPackets implcode reqcode sd timeout o) ∧ n=R.total) ∧
    ∀ init,init<+:receivedPackets implcode reqcode sd timeout o →
      init≠receivedPackets implcode reqcode sd timeout o → ¬R.Complete implcode reqcode init := by
  have hreading := getresponse_reading implcode reqcode sd timeout o
  refine ⟨fun n => ⟨fun hres => finished_complete h (getresponse_finished hres),?_⟩,?_⟩
  · rintro ⟨hc,rfl⟩
    rw [hreading.success]
    cases hf : respFold implcode reqcode .start (receivedPackets implcode reqcode sd timeout o) with
    | again s => exact absurd hc (not_complete_of_tracks h (respFold_again implcode reqcode hf))
    | error code =>
      obtain ⟨-,pkt,hp,herr⟩ := respFold_error implcode reqcode hf
      exact absurd herr (h.no_error hp code)
    | done n => rw [(finished_complete h (hreading.finished implcode reqcode hf)).2]
  · intro init hp hne
    obtain ⟨s,hs⟩ := hreading.going init hp hne
    have hinit : R.Arrival implcode reqcode init := fun pkt hm => h pkt (hp.subset hm)
    exact not_complete_of_tracks hinit (respFold_again implcode reqcode hs)

end Response

theorem deliver_drop (fuel : ℕ) (pkts : List Payload) (before : ℕ) :
    (deliver fuel pkts (before+1)).drop 1=deliver fuel pkts before := by
  funext n c
  have hn : n+1-(before+1)=n-before := Nat.add_sub_add_right n 1 before
  simp only [deliver,Oracle.drop,hn]

theorem deliver_next (fuel : ℕ) (pkt : Payload) (pkts : List Payload) :
    (deliver fuel (pkt :: pkts) 0).drop 2=deliver fuel pkts 0 := by
  funext n c
  have hn : (n+2-0)/2=(n-0)/2+1 := by omega
  simp only [deliver,Oracle.drop,hn,List.getElem?_cons_succ,List.length_cons,
    Nat.add_lt_add_iff_right]

/-- With as many turns as there are packets, the loop comes to the end of them. -/
theorem getresponseLoop_deliver (implcode reqcode : UInt8) (sd : Fd) (timeout : ℤ) (fuel' : ℕ)
    (pkts : List Payload) {fuel : ℕ} (hfuel : pkts.length < fuel) (s : RespState) :
    (∀ s',respFold implcode reqcode s (pkts.map Subtype.val)=.again s' →
      (getresponseLoop sd implcode reqcode timeout fuel s).result (deliver fuel' pkts 0)=
        some (-1,s'.ritems)) ∧
    ∀ n,respFold implcode reqcode s (pkts.map Subtype.val)=.done n →
      (getresponseLoop sd implcode reqcode timeout fuel s).result (deliver fuel' pkts 0)=
        some (0,n) := by
  induction pkts generalizing fuel s with
  | nil =>
    obtain ⟨fuel,rfl⟩ := Nat.exists_eq_succ_of_ne_zero (by omega : fuel≠0)
    refine ⟨fun s' hs => ?_,fun n hn => by cases hn⟩
    cases hs
    rw [Nat.succ_eq_add_one,getresponseLoop_succ]
    rfl
  | cons pkt pkts ih =>
    obtain ⟨fuel,rfl⟩ := Nat.exists_eq_succ_of_ne_zero (by omega : fuel≠0)
    have hrun : (getresponseLoop sd implcode reqcode timeout (fuel+1) s).result
        (deliver fuel' (pkt :: pkts) 0)=
        (respTurn implcode reqcode (getresponseLoop sd implcode reqcode timeout fuel) s
          (some pkt)).result (deliver fuel' pkts 0) := by
      have hselect : deliver fuel' (pkt :: pkts) 0 0 (.select sd timeout)=some 1 := by
        simp [deliver]
      have hrecv : (deliver fuel' (pkt :: pkts) 0).drop 1 0 (.recv sd respPktSize)=
          some (some pkt) := by
        simp [deliver,Oracle.drop,pkt.property]
      rw [getresponseLoop_succ,sys_bind_result,hselect,← deliver_next fuel' pkt pkts]
      change Prog.result _ (if (1 : ℤ) < 1 then _ else _)=_
      rw [if_neg (by decide),sys_bind_result,hrecv,Oracle.drop_drop]
      rfl
    rw [Nat.succ_eq_add_one,hrun,respTurn,List.map_cons,respFold_cons]
    have hlen : pkts.length < fuel := by
      rw [List.length_cons] at hfuel
      omega
    cases respStep implcode reqcode s pkt.val with
    | again s' => exact ih hlen s'
    | error code =>
      refine ⟨fun s' hs => ?_,fun n hn => ?_⟩
      · cases hs
      · cases hn
    | done m =>
      refine ⟨fun s' hs => ?_,fun n hn => ?_⟩
      · cases hs
      · cases hn
        rfl

/-- The packets up to the one that ends the loop. -/
theorem respFold_done {implcode reqcode : UInt8} {s : RespState} {rs : List (List UInt8)} {n : ℕ}
    (h : respFold implcode reqcode s rs=.done n) :
    ∃ init,init<+:rs ∧ Reading implcode reqcode s init (some (0,n)) ∧
      respFold implcode reqcode s init=.done n := by
  induction rs generalizing s with
  | nil => cases h
  | cons pkt rs ih =>
    rw [respFold_cons] at h
    cases hs : respStep implcode reqcode s pkt with
    | again s' =>
      rw [hs] at h
      obtain ⟨init,hp,hreading,hd⟩ := ih h
      refine ⟨pkt :: init,List.cons_prefix_cons.mpr ⟨rfl,hp⟩,hreading.cons implcode reqcode hs,?_⟩
      rw [respFold_cons,hs]
      exact hd
    | error code =>
      rw [hs] at h
      cases h
    | done m =>
      rw [hs] at h
      cases h
      refine ⟨[pkt],List.cons_prefix_cons.mpr ⟨rfl,List.nil_prefix⟩,?_,?_⟩
      · exact Reading.last implcode reqcode (by simp [hs])
          (fun code hc => by cases hs.symm.trans hc) fun m hm => by cases hs.symm.trans hm; rfl
      · rw [respFold_cons,hs]

namespace Response

variable {R : Response} {implcode reqcode : UInt8}

theorem getresponse_delivered {sd : Fd} {timeout : ℤ} {pkts : List Payload} {fuel : ℕ}
    (hfuel : pkts.length < fuel) (h : R.Arrival implcode reqcode (pkts.map Subtype.val)) :
    (R.Complete implcode reqcode (pkts.map Subtype.val) →
      (getresponse sd implcode reqcode timeout).result (deliver fuel pkts 1)=some (0,R.total)) ∧
    (¬R.Complete implcode reqcode (pkts.map Subtype.val) →
      ∃ n,(getresponse sd implcode reqcode timeout).result (deliver fuel pkts 1)=
        some (-1,n)) := by
  have hrun : (getresponse sd implcode reqcode timeout).result (deliver fuel pkts 1)=
      (getresponseLoop sd implcode reqcode timeout fuel .start).result (deliver fuel pkts 0) := by
    rw [getresponse,sys_bind_result,deliver_drop]
    rfl
  obtain ⟨hagain,hdone⟩ := getresponseLoop_deliver implcode reqcode sd timeout fuel
    pkts hfuel .start
  rw [hrun]
  cases hf : respFold implcode reqcode .start (pkts.map Subtype.val) with
  | again s =>
    have hopen := not_complete_of_tracks h (respFold_again implcode reqcode hf)
    exact ⟨fun hc => absurd hc hopen,fun _ => ⟨s.ritems,hagain s hf⟩⟩
  | error code =>
    obtain ⟨-,pkt,hp,herr⟩ := respFold_error implcode reqcode hf
    exact absurd herr (h.no_error hp code)
  | done n =>
    obtain ⟨init,hp,hreading,hd⟩ := respFold_done hf
    have hinit : R.Arrival implcode reqcode init := fun pkt hm => h pkt (hp.subset hm)
    obtain ⟨hc,hn⟩ := finished_complete hinit (hreading.finished implcode reqcode hd)
    have hall : R.Complete implcode reqcode (pkts.map Subtype.val) := by
      intro q hq
      obtain ⟨pkt,hm,hfrag⟩ := hc q hq
      exact ⟨pkt,hp.subset hm,hfrag⟩
    rw [hdone n hf,hn]
    exact ⟨fun _ => rfl,fun hopen => absurd hall hopen⟩

end Response

/-- The fragments of a response may arrive in any order, any number of times and among any
packets that fail a check: getresponse succeeds with the one that completes the response, and
counts the items of each fragment once. -/
theorem getresponse_any_order (R : Response) (implcode reqcode : UInt8) (sd : Fd) (timeout : ℤ) :
    (∀ o : Oracle System,
      R.Arrival implcode reqcode (receivedPackets implcode reqcode sd timeout o) →
      (∀ n,(getresponse sd implcode reqcode timeout).result o=some (0,n) ↔
        R.Complete implcode reqcode (receivedPackets implcode reqcode sd timeout o) ∧ n=R.total) ∧
      ∀ init,init<+:receivedPackets implcode reqcode sd timeout o →
        init≠receivedPackets implcode reqcode sd timeout o → ¬R.Complete implcode reqcode init) ∧
    ∀ (pkts : List Payload) (fuel : ℕ),pkts.length < fuel →
      R.Arrival implcode reqcode (pkts.map Subtype.val) →
      (R.Complete implcode reqcode (pkts.map Subtype.val) →
        (getresponse sd implcode reqcode timeout).result (deliver fuel pkts 1)=
          some (0,R.total)) ∧
      (¬R.Complete implcode reqcode (pkts.map Subtype.val) →
        ∃ n,(getresponse sd implcode reqcode timeout).result (deliver fuel pkts 1)=
          some (-1,n)) :=
  ⟨fun _ h => Response.getresponse_complete h,
    fun _ _ hfuel h => Response.getresponse_delivered hfuel h⟩

/-- Two fragments, the last one first and twice, with a query of someone else between. -/
theorem getresponse_any_order_pair :
    (getresponse 3 implXntpd reqMonGetlist 5).result
      (deliver 5 [packet 0x9f 1 3,packet 0x1f 0 0,packet 0x9f 1 3,packet 0xdf 0 2] 1)=
        some (0,5) := by
  let R : Response := ⟨1,fun q => q+2,by decide⟩
  let pkts : List Payload := [packet 0x9f 1 3,packet 0x1f 0 0,packet 0x9f 1 3,packet 0xdf 0 2]
  have hlast : fragmentOf implXntpd reqMonGetlist (packet 0x9f 1 3).val=
      some ⟨1,false,3,by decide⟩ := by decide
  have hfirst : fragmentOf implXntpd reqMonGetlist (packet 0xdf 0 2).val=
      some ⟨0,true,2,by decide⟩ := by decide
  have hpart : R.Part ⟨1,false,3,by decide⟩ := ⟨le_rfl,by decide,rfl⟩
  have hpart' : R.Part ⟨0,true,2,by decide⟩ := ⟨by decide,by decide,rfl⟩
  have harrival : R.Arrival implXntpd reqMonGetlist (pkts.map Subtype.val) := by
    intro pkt hp
    simp only [pkts,List.map_cons,List.map_nil,List.mem_cons,List.not_mem_nil,or_false] at hp
    rcases hp with rfl|rfl|rfl|rfl
    · exact .inr ⟨_,hlast,hpart⟩
    · exact .inl (by decide)
    · exact .inr ⟨_,hlast,hpart⟩
    · exact .inr ⟨_,hfirst,hpart'⟩
  have hcomplete : R.Complete implXntpd reqMonGetlist (pkts.map Subtype.val) := by
    intro q hq
    change q ≤ 1 at hq
    rcases Nat.le_one_iff_eq_zero_or_eq_one.mp hq with rfl|rfl
    · exact ⟨_,by simp [pkts],_,hfirst,rfl⟩
    · exact ⟨_,by simp [pkts],_,hlast,rfl⟩
  exact ((getresponse_any_order R implXntpd reqMonGetlist 3 5).2 pkts 5 (by decide)
    harrival).1 hcomplete

end Lbcd
