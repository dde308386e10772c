import Lbcd.Daemon

namespace Lbcd

open CText

/-- What getopt finds on the command line: the options of lbcd with their arguments. -/
inductive MainOption where
  | allowedService (service : CStr)
  | bindAddress (addr : CStr)
  | helper (command : CStr)
  | debugging
  | foreground
  | usage
  | log
  | pidFile (path : CStr)
  | port (number : CStr)
  | roundRobin
  | simple
  | testmode
  | timeout (seconds : CStr)
  | weight (service : CStr)
  | upstart
  | unknown
  deriving DecidableEq

/-- How main ends before it tests or serves. -/
inductive MainExit where
  | usage (status : ℕ)
  | cannotAccess (path : CStr)
  | badTimeout (timeout : ℤ)
  | die (d : Die)
  deriving DecidableEq

/-- The variables of main. -/
structure MainState where
  config : LbcdConfig
  debugging : Bool
  foreground : Bool
  testmode : Bool
  lbcdHelper : Option CStr
  serviceWeight : Option CStr
  serviceTimeout : ℤ
  deriving DecidableEq

/-- LBCD_PORTNUM -/
def lbcdPortnum : UInt16 := 4330

/-- LBCD_TIMEOUT -/
def lbcdTimeout : ℤ := 5

def MainState.initial : MainState where
  config := ⟨[],false,lbcdPortnum,none,[],false,false⟩
  debugging := false
  foreground := false
  testmode := false
  lbcdHelper := none
  serviceWeight := none
  serviceTimeout := lbcdTimeout

/-- One turn of the getopt loop; the parameter tells which files access finds executable. -/
def mainOption (executable : CStr → Bool) (st : MainState) :
    MainOption → Except MainExit MainState
  | .allowedService service =>
    .ok { st with config := { st.config with services := st.config.services++[service] } }
  | .bindAddress addr =>
    .ok { st with config := { st.config with bindaddrs := st.config.bindaddrs++[addr] } }
  | .helper command =>
    if executable command then .ok { st with lbcdHelper := some command }
    else .error (.cannotAccess command)
  | .debugging => .ok { st with debugging := true, foreground := true }
  | .foreground => .ok { st with foreground := true }
  | .usage => .error (.usage 0)
  | .log => .ok { st with config := { st.config with log := true } }
  | .pidFile path => .ok { st with config := { st.config with pidFile := some path } }
  | .port number =>
    .ok { st with config := { st.config with port := UInt16.ofInt number.atoi } }
  | .roundRobin => .ok { st with serviceWeight := some (CStr.lit "rr") }
  | .simple => .ok { st with config := { st.config with simple := true } }
  | .testmode => .ok { st with testmode := true }
  | .timeout seconds =>
    if seconds.atoi < 1 ∨ 300 < seconds.atoi then .error (.badTimeout seconds.atoi)
    else .ok { st with serviceTimeout := seconds.atoi }
  | .weight service =>
    .ok { st with
      serviceWeight := some service
      config := { st.config with services := st.config.services++[service] } }
  | .upstart => .ok { st with config := { st.config with upstart := true } }
  | .unknown => .error (.usage 1)

def mainOptions (executable : CStr → Bool) (st : MainState) :
    List MainOption → Except MainExit MainState
  | [] => .ok st
  | opt :: opts => do
    let st ← mainOption executable st opt
    mainOptions executable st opts

/-- What main goes on to do, with the globals of weight.c. -/
inductive MainMode where
  | test (g : WeightGlobals)
  | serve (st : MainState) (g : WeightGlobals)
  deriving DecidableEq

/-- What follows the getopt loop. -/
def startMode (st : MainState) : Except MainExit MainMode :=
  match lbcdWeightInit .initial st.lbcdHelper st.serviceWeight st.serviceTimeout with
  | .error d => .error (.die d)
  | .ok g => .ok (if st.testmode then .test g else .serve st g)

/-- main up to its choice between test mode and serving. -/
def mainStart (executable : CStr → Bool) (opts : List MainOption) : Except MainExit MainMode := do
  let st ← mainOptions executable .initial opts
  startMode st

/-- The same variables without test mode. -/
def MainState.serving (st : MainState) : MainState := { st with testmode := false }

/-- The command line without its -t. -/
def withoutTest (opts : List MainOption) : List MainOption := opts.filter (·≠.testmode)

section

variable (executable : CStr → Bool)

theorem mainOption_serving (st : MainState) {opt : MainOption} (h : opt≠.testmode) :
    (mainOption executable st opt).map MainState.serving=
      mainOption executable st.serving opt := by
  cases opt with
  | helper command =>
    simp only [mainOption]
    split_ifs
    · rfl
    · rfl
  | timeout seconds =>
    simp only [mainOption]
    split_ifs
    · rfl
    · rfl
  | testmode => exact absurd rfl h
  | _ => rfl

/-- Nothing but test mode depends on -t. -/
theorem mainOptions_serving (st : MainState) (opts : List MainOption) :
    (mainOptions executable st opts).map MainState.serving=
      mainOptions executable st.serving (withoutTest opts) := by
  induction opts generalizing st with
  | nil => rfl
  | cons opt opts ih =>
    by_cases ht : opt=.testmode
    · subst ht
      exact ih { st with testmode := true }
    · have hfilter : withoutTest (opt :: opts)=opt :: withoutTest opts :=
        List.filter_cons_of_pos (by simpa using ht)
      have hstep := mainOption_serving executable st ht
      rw [hfilter,mainOptions,mainOptions,← hstep]
      cases mainOption executable st opt with
      | error exit => rfl
      | ok next => exact ih next

theorem mainOption_simple {st st' : MainState} {opt : MainOption}
    (h : mainOption executable st opt=.ok st') :
    st'.config.simple=true ↔ st.config.simple=true ∨ opt=.simple := by
  cases opt with
  | helper command =>
    simp only [mainOption] at h
    split_ifs at h
    cases h
    simp
  | timeout seconds =>
    simp only [mainOption] at h
    split_ifs at h
    cases h
    simp
  | usage => cases h
  | unknown => cases h
  | _ =>
    cases h
    simp

/-- The adjustment for version 2 is switched off by -S alone. -/
theorem mainOptions_simple {st st' : MainState} {opts : List MainOption}
    (h : mainOptions executable st opts=.ok st') :
    st'.config.simple=true ↔ st.config.simple=true ∨ MainOption.simple∈opts := by
  induction opts generalizing st with
  | nil =>
    cases h
    simp
  | cons opt opts ih =>
    cases hstep : mainOption executable st opt with
    | error exit =>
      rw [mainOptions,hstep] at h
      cases h
    | ok next =>
      rw [mainOptions,hstep] at h
      have hnext := mainOption_simple executable hstep
      rw [ih h,hnext,List.mem_cons,or_assoc,eq_comm (a := opt)]

theorem startMode_ok {st : MainState} {mode : MainMode} :
    startMode st=.ok mode ↔ ∃ g,
      lbcdWeightInit .initial st.lbcdHelper st.serviceWeight st.serviceTimeout=.ok g ∧
        mode=if st.testmode then .test g else .serve st g := by
  unfold startMode
  cases lbcdWeightInit .initial st.lbcdHelper st.serviceWeight st.serviceTimeout with
  | error d =>
    constructor
    · intro h
      cases h
    · rintro ⟨g,hg,-⟩
      cases hg
  | ok g =>
    constructor
    · intro h
      exact ⟨g,rfl,(Except.ok.inj h).symm⟩
    · rintro ⟨g',hg,hmode⟩
      cases hg
      rw [hmode]

theorem mainStart_ok {opts : List MainOption} {mode : MainMode} :
    mainStart executable opts=.ok mode ↔
      ∃ st,mainOptions executable .initial opts=.ok st ∧ startMode st=.ok mode := by
  unfold mainStart
  cases mainOptions executable .initial opts with
  | error exit =>
    constructor
    · intro h
      cases h
    · rintro ⟨st,hst,-⟩
      cases hst
  | ok st =>
    constructor
    · intro h
      exact ⟨st,rfl,h⟩
    · rintro ⟨st',hst,hmode⟩
      cases hst
      exact hmode

/-- Without its -t a command line for test mode serves, with the same service handler. -/
theorem mainStart_test {opts : List MainOption} {g : WeightGlobals}
    (h : mainStart executable opts=.ok (.test g)) :
    ∃ st,mainStart executable (withoutTest opts)=.ok (.serve st g) ∧
      (st.config.simple=true ↔ MainOption.simple∈opts) := by
  obtain ⟨tested,ho,hmode⟩ := (mainStart_ok executable).mp h
  obtain ⟨g',hw,hmode⟩ := startMode_ok.mp hmode
  have hg : g'=g := by
    split_ifs at hmode
    exact (MainMode.test.inj hmode).symm
  have hserving := mainOptions_serving executable .initial opts
  rw [ho] at hserving
  refine ⟨tested.serving,?_,?_⟩
  · apply (mainStart_ok executable).mpr
    refine ⟨tested.serving,hserving.symm,?_⟩
    exact startMode_ok.mpr ⟨g,hg ▸ hw,rfl⟩
  · have hsimple := mainOptions_simple executable ho
    simpa [MainState.initial,MainState.serving] using hsimple

end

end Lbcd
