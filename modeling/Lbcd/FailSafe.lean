import Lbcd.Probes
import Lbcd.Stores

namespace Lbcd

open Interaction CText ByteOrder

/-- A port argument that lbcd_tcp_weight should be able to use: a service name or the
number of a TCP port. -/
def UsablePort (portarg : Option CStr) : Prop :=
  ∃ arg,portarg=some arg ∧
    (arg.bytes.all isdigit=true → 1 ≤ digitsValue arg.bytes ∧ digitsValue arg.bytes ≤ 65535)

/-- The system calls of a probe show that it was carried out and succeeded. -/
def ProbeOk (f : WeightFunc) (portarg : Option CStr) (tr : List (Event System)) : Prop :=
  match f with
  | .load => True
  | .cmd => ∃ w i,HelperPrinted w i tr
  | .rr => True
  | .unknown => True
  | .ftp => Connected tr ∧ Readable tr ∧ Banner (CStr.lit "220") tr
  | .http => Connected tr ∧ Readable tr ∧ HttpAnswered tr
  | .imap => Connected tr ∧ Readable tr ∧ Banner (CStr.lit "* OK") tr
  | .nntp => Connected tr ∧ Readable tr ∧ Banner (CStr.lit "200") tr
  | .ntp => ∃ n,PeersListed n tr
  | .pop => Connected tr ∧ Readable tr ∧ Banner (CStr.lit "+OK") tr
  | .smtp => Connected tr ∧ Readable tr ∧ Banner (CStr.lit "220") tr
  | .tcp => UsablePort portarg ∧ Connected tr

/-- A call of lbcd_setweight assigns the weight whatever the slot held, and assigns the
maximum if the probe does not succeed. -/
structure FailSafe (e : Endian) (g : WeightGlobals) (slot : Slot) (service : CStr)
    (o : Oracle System) : Prop where
  defined : ∀ lb,(lbcdSetweight g lb slot service).Meets NoFault fun _ => True
  fresh : ∀ lb w,
    ((setweightRun e g (lb.setWeight slot w) slot service).result o).map
        (fun lb => (lb.slot slot).hostWeight)=
      ((setweightRun e g lb slot service).result o).map fun lb => (lb.slot slot).hostWeight
  failed : ∀ lb lb',(setweightRun e g lb slot service).result o=some lb' →
    ∀ f portarg,probeOf g service=some (f,portarg) →
      ¬ProbeOk f portarg ((setweightRun e g lb slot service).trace o) →
        (lb'.slot slot).hostWeight=maxWeight

/-- The service stands for a weight function, and if that is tcp, it has a port which is
not all digits or a number up to 32767. -/
def Probeable (g : WeightGlobals) (service : CStr) : Prop :=
  ∃ f portarg,probeOf g service=some (f,portarg) ∧
    (f=.tcp → ∃ arg,portarg=some arg ∧ (arg.bytes.all isdigit=true →
      1 ≤ digitsValue arg.bytes ∧ digitsValue arg.bytes ≤ 32767))

/-- The weight stored is the maximum or the calls show success. -/
def Sound (f : WeightFunc) (portarg : Option CStr) (tr : List (Event System)) (s : Stored) :
    Prop :=
  ∃ w,s.weight=some w ∧ (w=maxWeight ∨ ProbeOk f portarg tr)

theorem storeProbe_sound {f : WeightFunc} {portarg : Option CStr} {probe : Prog System ℤ}
    {post : List (Event System) → ℤ → Prop} (h : probe.Traced post)
    (hp : ∀ tr v,post tr v → v=-1 ∨ ProbeOk f portarg tr) :
    (storeProbe probe).Traced (Sound f portarg) := by
  apply h.bind
  intro tr v hv
  refine ⟨UInt32.ofInt v,rfl,?_⟩
  rw [List.append_nil]
  rcases hp tr v hv with hv|hv
  · left
    rw [hv]
    rfl
  · exact Or.inr hv

theorem probeTcp_sound {f : WeightFunc} {portarg : Option CStr} {host service : Option CStr}
    {port timeout : ℤ} {token : Option CStr}
    (hf : ∀ tr,Connected tr → (∀ t∈token,Readable tr ∧ Banner t tr) → ProbeOk f portarg tr) :
    (storeProbe (probeTcp host service port token timeout)).Traced (Sound f portarg) := by
  apply storeProbe_sound (probeTcp_traced host service port token timeout)
  intro tr v hv
  rcases hv with hv|⟨-,hc,hb⟩
  · exact Or.inl hv
  · exact Or.inr (hf tr hc hb)

/-- tcp with a port that service_to_func and atoi both take as it is written. -/
theorem tcpWeight_sound (e : Endian) (g : WeightGlobals) {arg : CStr}
    (hd : arg.bytes.all isdigit=true →
      1 ≤ digitsValue arg.bytes ∧ digitsValue arg.bytes ≤ 32767) (lb : LbcdReply) :
    (stores e g .tcp g.lbcdTimeout (some arg) lb).Traced (Sound .tcp (some arg)) := by
  have usable : UsablePort (some arg) := by
    refine ⟨arg,rfl,fun hall => ?_⟩
    have hb := hd hall
    omega
  have sound {service : Option CStr} {port : ℤ} :
      (storeProbe (probeTcp (some localhost) service port none g.lbcdTimeout)).Traced
        (Sound .tcp (some arg)) :=
    probeTcp_sound fun tr hc _ => ⟨usable,hc⟩
  have hport : arg.bytes.all isdigit=true → 1 ≤ wrapInt 16 arg.atoi := by
    intro hall
    have hb := hd hall
    have h32 := wrapInt_of_lt (n := 32) (v := digitsValue arg.bytes) (by omega) (by omega)
    have h16 := wrapInt_of_lt (n := 16) (v := digitsValue arg.bytes) (by omega) (by omega)
    rw [CStr.atoi_digits hall,h32,h16]
    omega
  obtain ⟨service,port,hstores⟩ := stores_tcp_assigned e g g.lbcdTimeout lb hport
  rw [hstores]
  exact sound

theorem stores_sound (e : Endian) {g : WeightGlobals} {service : CStr} {f : WeightFunc}
    {portarg : Option CStr} (hp : probeOf g service=some (f,portarg))
    (h : Probeable g service) (lb : LbcdReply) :
    (stores e g f g.lbcdTimeout portarg lb).Traced (Sound f portarg) := by
  obtain ⟨f',portarg',hp',ht⟩ := h
  rw [hp] at hp'
  cases hp'
  have banner {f : WeightFunc} {host service : Option CStr} {port : ℤ} {token : CStr}
      (hf : ∀ tr,Connected tr ∧ Readable tr ∧ Banner token tr → ProbeOk f portarg tr) :
      (storeProbe (probeTcp host service port (some token) g.lbcdTimeout)).Traced
        (Sound f portarg) :=
    probeTcp_sound fun tr hc hb => hf tr ⟨hc,hb token rfl⟩
  cases f with
  | load =>
    intro nologin
    exact ⟨_,rfl,Or.inr trivial⟩
  | cmd =>
    apply (runCmd_traced g.lbcdCommand).bind
    intro tr r hr
    cases r with
    | none => exact ⟨_,rfl,Or.inl rfl⟩
    | some p =>
      refine ⟨p.1,rfl,Or.inr ⟨p.1,p.2,?_⟩⟩
      rw [List.append_nil]
      exact hr p.1 p.2 rfl
  | rr => exact ⟨_,rfl,Or.inr trivial⟩
  | unknown => exact ⟨_,rfl,Or.inl rfl⟩
  | ftp => exact banner fun tr h => h
  | http =>
    refine storeProbe_sound (probeHttp_traced _ _ portarg) fun tr v hv => ?_
    exact hv.imp_right fun h => h.2
  | imap =>
    refine storeProbe_sound (probeImap_traced _ _) fun tr v hv => ?_
    exact hv.imp_right fun h => h.2
  | nntp => exact banner fun tr h => h
  | ntp =>
    refine storeProbe_sound (probeNtp_traced _ _) fun tr v hv => ?_
    exact hv.imp_right fun ⟨n,_,hok⟩ => ⟨n,hok⟩
  | pop => exact banner fun tr h => h
  | smtp => exact banner fun tr h => h
  | tcp =>
    obtain ⟨arg,rfl,hd⟩ := ht rfl
    exact tcpWeight_sound e g hd lb

theorem setweightRun_result (e : Endian) {g : WeightGlobals} {service : CStr} {f : WeightFunc}
    {portarg : Option CStr} (h : probeOf g service=some (f,portarg)) (lb : LbcdReply)
    (slot : Slot) (o : Oracle System) :
    (setweightRun e g lb slot service).result o=
        ((stores e g f g.lbcdTimeout portarg lb).result o).map
          (fun s => s.into (lb.setIncr slot g.defaultIncrement) slot) ∧
      (setweightRun e g lb slot service).trace o=
        (stores e g f g.lbcdTimeout portarg lb).trace o := by
  rw [setweightRun_of_probe e h,Prog.result_bind,Prog.trace_bind]
  cases (stores e g f g.lbcdTimeout portarg lb).result o with
  | none => exact ⟨rfl,List.append_nil _⟩
  | some s => exact ⟨rfl,List.append_nil _⟩

/-- Every weight function but tcp is fail-safe, and tcp with a port that it can use. -/
theorem failSafe_of_probeable (e : Endian) {g : WeightGlobals} (slot : Slot) {service : CStr}
    (h : Probeable g service) (o : Oracle System) : FailSafe e g slot service o := by
  obtain ⟨f,portarg,hp,-⟩ := id h
  have weight (lb : LbcdReply) (s : Stored) (w : UInt32) (hs : s.weight=some w) :
      ((s.into (lb.setIncr slot g.defaultIncrement) slot).slot slot).hostWeight=w := by
    rw [Stored.into_incr,LbcdReply.slot_setSlot_self,hs]
    rfl
  refine ⟨fun lb => ?_,fun lb w => ?_,fun lb lb' hr f' portarg' hp' hok => ?_⟩
  · rw [lbcdSetweight_of_probe hp]
    exact ⟨fun f => by simp,fun r => trivial⟩
  · rw [(setweightRun_result e hp _ slot o).1,(setweightRun_result e hp _ slot o).1,
      LbcdReply.setWeight,stores_setSlot]
    cases hs : (stores e g f g.lbcdTimeout portarg lb).result o with
    | none => rfl
    | some s =>
      obtain ⟨w',hw',-⟩ := (stores_sound e hp h lb).result o hs
      simp only [Option.map_some,weight _ s w' hw']
  · rw [hp] at hp'
    cases hp'
    rw [(setweightRun_result e hp lb slot o).1] at hr
    rw [(setweightRun_result e hp lb slot o).2] at hok
    obtain ⟨s,hs,hlb⟩ := Option.map_eq_some_iff.mp hr
    obtain ⟨w,hw,hmax⟩ := (stores_sound e hp h lb).result o hs
    rw [← hlb,weight lb s w hw]
    exact hmax.resolve_right hok

/-- Every connection is made at once. -/
def connecting : Oracle System := Oracle.const fun c =>
  match c with
  | .getaddrinfo _ _ _ => some (some [])
  | .networkConnect _ => some (some 3)
  | .close _ => some ()
  | _ => none

theorem probeTcp_connecting (port timeout : ℤ) (h : port≠0) :
    (probeTcp (some localhost) none port none timeout).result connecting=some 0 := by
  have hif : (none : Option (List AddrInfo))=none ∧ port≠0 := ⟨rfl,h⟩
  have hc : (tcpConnect localhost none port).result connecting=some (some 3) := by
    change Prog.result _ (if (none : Option (List AddrInfo))=none ∧ port≠0 then _ else _)=_
    rw [if_pos hif]
    rfl
  rw [probeTcp,Option.getD_some,Prog.result_bind,hc]
  rfl

theorem not_failSafe_unassigned (e : Endian) {g : WeightGlobals} (slot : Slot) {service : CStr}
    {portarg : Option CStr} (hp : probeOf g service=some (.tcp,portarg))
    (h : ∀ arg,portarg=some arg → arg.bytes.all isdigit=true ∧ wrapInt 16 arg.atoi < 1)
    (o : Oracle System) : ¬FailSafe e g slot service o := by
  intro hs
  have hf := hs.fresh ((default : LbcdReply).setWeight slot 0) 1
  rw [(setweightRun_result e hp _ slot o).1,(setweightRun_result e hp _ slot o).1,
    stores_tcp_unassigned e g _ _ h,stores_tcp_unassigned e g _ _ h] at hf
  simp only [Prog.result_ret,Option.map_some,Stored.into_incr,LbcdReply.slot_setSlot_self,
    LbcdReply.slot_setWeight_self,Option.getD_none] at hf
  cases hf

theorem not_failSafe_wrapped (e : Endian) {g : WeightGlobals} (slot : Slot) {service arg : CStr}
    (hp : probeOf g service=some (.tcp,some arg)) (hall : arg.bytes.all isdigit=true)
    (hw : 1 ≤ wrapInt 16 arg.atoi) (hlarge : 65535 < digitsValue arg.bytes) :
    ¬FailSafe e g slot service connecting := by
  intro hs
  have hst : (stores e g .tcp g.lbcdTimeout (some arg) default).result connecting=
      some ⟨some 0,none⟩ := by
    simp only [stores]
    rw [if_pos hall,if_neg (not_lt.mpr hw),storeProbe,Prog.result_bind,
      probeTcp_connecting _ _ (by omega)]
    rfl
  have hr := (setweightRun_result e hp default slot connecting).1
  rw [hst] at hr
  have hmax := hs.failed default _ hr .tcp (some arg) hp fun hok => by
    obtain ⟨⟨arg',harg,hd⟩,-⟩ := hok
    cases harg
    have := (hd hall).2
    omega
  simp only [Stored.into_incr,LbcdReply.slot_setSlot_self] at hmax
  cases hmax

/-- A slot is filled in safely, whatever the calls of the probe give, exactly for a
service that can be probed. -/
theorem fail_safe_iff (e : Endian) (g : WeightGlobals) (slot : Slot) (service : CStr) :
    (∀ o,FailSafe e g slot service o) ↔ Probeable g service := by
  constructor
  · intro hsafe
    cases hp : probeOf g service with
    | none =>
      have hd := (hsafe connecting).defined default
      rcases lbcdSetweight_of_none hp default slot with h|h
      · rw [h] at hd
        exact absurd rfl (hd.1 .nullEntry)
      · rw [h] at hd
        exact absurd rfl (hd.1 .nullFunction)
    | some p =>
      obtain ⟨f,portarg⟩ := p
      refine ⟨f,portarg,hp,fun hf => ?_⟩
      rw [hf] at hp
      by_contra hn
      cases portarg with
      | none =>
        have hbad := not_failSafe_unassigned e slot hp (fun arg h => by cases h) connecting
        exact hbad (hsafe connecting)
      | some arg =>
        have hall : arg.bytes.all isdigit=true := by
          by_contra hd
          exact hn ⟨arg,rfl,fun h => absurd h hd⟩
        have hrange : ¬(1 ≤ digitsValue arg.bytes ∧ digitsValue arg.bytes ≤ 32767) :=
          fun hr => hn ⟨arg,rfl,fun _ => hr⟩
        by_cases hw : 1 ≤ wrapInt 16 arg.atoi
        · have hlarge : 65535 < digitsValue arg.bytes := by
            by_contra hle
            have h32 := wrapInt_of_lt (n := 32) (v := digitsValue arg.bytes) (by omega) (by omega)
            rw [CStr.atoi_digits hall,h32] at hw
            by_cases h0 : digitsValue arg.bytes=0
            · rw [h0] at hw
              exact absurd hw (by decide)
            · rw [wrapInt_neg (by omega) (by omega)] at hw
              omega
          exact not_failSafe_wrapped e slot hp hall hw hlarge (hsafe connecting)
        · refine not_failSafe_unassigned e slot hp (fun arg' h => ?_) _ (hsafe connecting)
          cases h
          exact ⟨hall,not_le.mp hw⟩
  · intro h o
    exact failSafe_of_probeable e slot h o

/-- The service tcp without a port reports what the slot held before. -/
theorem tcp_without_port_stale :
    ∃ g,lbcdWeightInit .initial none none 5=.ok g ∧
      ¬FailSafe .little g 1 (CStr.lit "tcp") connecting := by
  refine ⟨_,rfl,?_⟩
  exact not_failSafe_unassigned .little 1 rfl (fun arg h => by cases h) connecting

end Lbcd
