import Lbcd.WeightInit

namespace Lbcd

open Interaction CText

/-- An entry of service_table with a function. -/
def Usable (entry : Option ServiceMapping) : Prop :=
  ∃ st∈serviceTable,entry=some st ∧ st.function≠none

/-- The end of the process by a service that is not found, and the null pointers of
lbcd_setweight. -/
def LookupFails (c : ServerCall) : Prop :=
  c=.sys (.die .unknownService) ∨ c=.sys (.fault .nullEntry) ∨ c=.sys (.fault .nullFunction)

/-- Every service has an entry that lbcd_setweight can use. -/
structure LooksUp (g : WeightGlobals) : Prop where
  default : Usable g.lbcdDefaultFunctab
  lookup : ∀ service,∃ entry,serviceToFunc g service=.ok entry ∧ Usable entry
  sentinel : ∀ name rows,scanTable name (serviceTable++rows)=scanTable name serviceTable
  setweight : ∀ lb offset service,(lbcdSetweight g lb offset service).Meets
    (fun c => ¬LookupFails c) fun _ => True

/-- A loop that meets an empty name does not look at what comes after it. -/
theorem scanTable_append (name : CStr) {rows : List ServiceMapping}
    (h : ∃ st∈rows,st.service.bytes=[]) (after : List ServiceMapping) :
    scanTable name (rows++after)=scanTable name rows := by
  induction rows with
  | nil =>
    obtain ⟨st,hm,-⟩ := h
    cases hm
  | cons row rows ih =>
    rw [List.cons_append,scanTable,scanTable]
    split_ifs with hb hn
    · rfl
    · rfl
    · apply ih
      obtain ⟨st,hm,hs⟩ := h
      rcases List.mem_cons.mp hm with rfl|hm
      · exact absurd hs hb
      · exact ⟨st,hm,hs⟩

theorem serviceToFunc_usable (g : WeightGlobals) {service : CStr} (h : service≠defaultName) :
    ∃ entry,serviceToFunc g (some service)=.ok entry ∧ Usable entry := by
  obtain ⟨st,hm,hs,hb,-⟩ := serviceToFunc_named g h
  exact ⟨some st,hs,st,hm,rfl,serviceTable_function hm hb⟩

/-- It is enough that the default service has one. -/
theorem looksUp_of_default {g : WeightGlobals} (h : Usable g.lbcdDefaultFunctab) :
    LooksUp g := by
  have hlookup : ∀ service,∃ entry,serviceToFunc g service=.ok entry ∧ Usable entry := by
    intro service
    cases service with
    | none => exact ⟨_,rfl,h⟩
    | some service =>
      by_cases hd : service=defaultName
      · rw [hd]
        exact ⟨_,rfl,h⟩
      · exact serviceToFunc_usable g hd
  refine ⟨h,hlookup,fun name rows => scanTable_append name (by decide) rows,?_⟩
  intro lb offset service
  obtain ⟨entry,hs,st,-,rfl,hne⟩ := hlookup (some service)
  obtain ⟨f,hf⟩ := Option.ne_none_iff_exists'.mp hne
  obtain ⟨portarg,hp⟩ : ∃ portarg,probeOf g service=some (f,portarg) := by
    simp only [probeOf,hs,hf,Option.map_some]
    exact ⟨_,rfl⟩
  by_cases hlt : offset < maxServices+1
  · have hset := lbcdSetweight_of_probe hp lb ⟨offset,hlt⟩
    change lbcdSetweight g lb offset service=_ at hset
    rw [hset]
    exact ⟨by simp [LookupFails],fun _ => trivial⟩
  · rw [lbcdSetweight,dif_neg hlt]
    exact ⟨by simp [LookupFails],fun r => r.elim⟩

/-- Whatever the options, the initialization returns, and the default service is without an
entry exactly if it is to be itself. -/
theorem lbcdWeightInit_usable (cmd service : Option CStr) (timeout : ℤ) :
    ∃ g,lbcdWeightInit .initial cmd service timeout=.ok g ∧
      (Usable g.lbcdDefaultFunctab ↔ ¬(cmd=none ∧ service=some defaultName)) := by
  have hrow (name : CStr) (f : WeightFunc) (hm : ⟨name,some f⟩∈serviceTable) :
      Usable (some ⟨name,some f⟩) := ⟨_,hm,rfl,Option.some_ne_none f⟩
  have hdefault : isWeights (some defaultName)≠0 := by decide
  by_cases hw : isWeights service=0
  · unfold lbcdWeightInit
    rw [if_pos hw]
    refine ⟨_,rfl,iff_of_true (hrow (CStr.lit "rr") .rr (by decide)) ?_⟩
    intro hc
    rw [hc.2] at hw
    exact hdefault hw
  · unfold lbcdWeightInit
    rw [if_neg hw]
    cases cmd with
    | some cmd =>
      refine ⟨_,rfl,iff_of_true (hrow (CStr.lit "cmd") .cmd (by decide)) ?_⟩
      intro hc
      cases hc.1
    | none =>
      by_cases hd : service=some defaultName
      · rw [hd]
        refine ⟨_,rfl,iff_of_false ?_ (not_not.mpr ⟨rfl,rfl⟩)⟩
        intro hu
        obtain ⟨st,-,hst,-⟩ := hu
        cases hst
      · have hname : service.getD (CStr.lit "load")≠defaultName := by
          cases service with
          | none => decide
          | some s => exact fun hs => hd (congrArg some hs)
        obtain ⟨entry,hentry,hu⟩ := serviceToFunc_usable
          ⟨none,service,1,1,none,timeout⟩ hname
        refine ⟨⟨none,service,1,1,entry,timeout⟩,?_,iff_of_true hu fun hc => hd hc.2⟩
        change (serviceToFunc _ (some (service.getD (CStr.lit "load"))) >>= _)=_
        exact hentry ▸ rfl

/-- From the start on every lookup finds an entry with a function and no loop goes past the
last row, unless the service given for the default is default itself. -/
theorem lookups_iff (cmd service : Option CStr) (timeout : ℤ) :
    (∃ g,lbcdWeightInit .initial cmd service timeout=.ok g ∧ LooksUp g) ↔
      ¬(cmd=none ∧ service=some defaultName) := by
  obtain ⟨g,hg,hu⟩ := lbcdWeightInit_usable cmd service timeout
  rw [← hu]
  constructor
  · intro h
    obtain ⟨g',hg',hl⟩ := h
    rw [hg] at hg'
    cases hg'
    exact hl.default
  · intro h
    exact ⟨g,hg,looksUp_of_default h⟩

/-- With the option -w default the first request meets a null pointer. -/
theorem default_of_default :
    ∃ g,lbcdWeightInit .initial none (some (CStr.lit "default")) 5=.ok g ∧ ¬LooksUp g ∧
      ∀ lb,lbcdSetweight g lb 0 defaultName=fault .nullEntry := by
  refine ⟨_,rfl,?_,fun lb => rfl⟩
  intro h
  obtain ⟨st,-,hst,-⟩ := h.default
  cases hst

end Lbcd
