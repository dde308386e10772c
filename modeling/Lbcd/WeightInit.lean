import Lbcd.Runs

namespace Lbcd

open Interaction CText ByteOrder

/-- Function and port argument of a weight function call. -/
def functionAndPort : ServerCall → Option (WeightFunc × Option CStr)
  | .weight f _ _ portarg _ => some (f,portarg)
  | _ => none

theorem serviceTable_scan {st : ServiceMapping} (h : st∈serviceTable)
    (hs : st.service.bytes≠[]) : scanTable st.service serviceTable=some st := by
  revert st
  decide

theorem serviceTable_name {st : ServiceMapping} (h : st∈serviceTable) :
    colon∉st.service.bytes ∧ st.service.bytes.length < nameSize ∧ st.service≠defaultName := by
  revert st
  decide

/-- A service whose part before any colon is in the table stands for that entry. -/
theorem serviceToFunc_entry (g : WeightGlobals) {s : CStr} {st : ServiceMapping}
    (hm : st∈serviceTable) (hb : st.service.bytes≠[]) (hs : st.service=s.cutAt colon) :
    serviceToFunc g (some s)=.ok (some st) := by
  obtain ⟨-,hlen,hd⟩ := serviceTable_name hm
  have hne : ¬defaultName=s := by
    intro he
    rw [← he] at hs
    exact hd (hs.trans (by decide))
  have hcut : (s.strlcpy nameSize).cutAt colon=st.service := by
    rw [hs] at hlen
    rw [CStr.cutAt_strlcpy hlen,hs]
  simp only [serviceToFunc,if_neg hne,hcut,serviceTable_scan hm hb]

/-- Without helper and weights the default service is the entry of the service's name. -/
theorem lbcdWeightInit_entry {s : CStr} {timeout : ℤ} {g : WeightGlobals} {st : ServiceMapping}
    (hw : isWeights (some s)≠0) (hm : st∈serviceTable) (hb : st.service.bytes≠[])
    (hs : st.service=s.cutAt colon)
    (hg : lbcdWeightInit .initial none (some s) timeout=.ok g) :
    g.lbcdDefaultFunctab=some st := by
  unfold lbcdWeightInit at hg
  rw [if_neg hw] at hg
  simp only [Option.getD_some,serviceToFunc_entry _ hm hb hs] at hg
  cases hg
  rfl

theorem lbcdSetweight_functionAndPort {g : WeightGlobals} {service : CStr} {f : WeightFunc}
    {portarg : Option CStr} (h : probeOf g service=some (f,portarg)) (lb : LbcdReply)
    (slot : Slot) (o : Oracle Server) :
    ((lbcdSetweight g lb slot service).trace o).filterMap (fun ev => functionAndPort ev.call)=
      [(f,portarg)] := by
  rw [lbcdSetweight_of_probe h,Prog.trace_call]
  cases o 0 (.weight f slot g.lbcdTimeout portarg (lb.setIncr slot g.defaultIncrement)) <;> rfl

/-- Default service and configured service run one function, the first without a port. -/
theorem probeOf_default {s : CStr} {timeout : ℤ} {g : WeightGlobals}
    (hn : ∃ st∈serviceTable,st.service.bytes≠[] ∧ st.service=s.cutAt colon)
    (hw : isWeights (some s)≠0)
    (hg : lbcdWeightInit .initial none (some s) timeout=.ok g) :
    ∃ f,probeOf g defaultName=some (f,none) ∧
      probeOf g s=some (f,(s.strchr colon).map CStr.next) := by
  obtain ⟨st,hm,hb,hs⟩ := hn
  have hdef := lbcdWeightInit_entry hw hm hb hs hg
  obtain ⟨hcolon,-,hd⟩ := serviceTable_name hm
  obtain ⟨f,hf⟩ := Option.ne_none_iff_exists'.mp (serviceTable_function hm hb)
  have hsd : s≠defaultName := by
    intro he
    rw [he] at hs
    exact hd (hs.trans (by decide))
  have hst : serviceToFunc g (some defaultName)=.ok (some st) := by
    simp [serviceToFunc,hdef]
  refine ⟨f,?_,?_⟩
  · simp only [probeOf,hst,hf,Option.map_some,if_pos,CStr.strchr,if_neg hcolon,Option.map_none]
  · simp only [probeOf,serviceToFunc_entry g hm hb hs,hf,Option.map_some,if_neg hsd]

/-- The default service is probed as the configured one is exactly when that has no port. -/
theorem default_probe_iff {s : CStr} {timeout : ℤ} {g : WeightGlobals}
    (hn : ∃ st∈serviceTable,st.service.bytes≠[] ∧ st.service=s.cutAt colon)
    (hw : isWeights (some s)≠0)
    (hg : lbcdWeightInit .initial none (some s) timeout=.ok g)
    (lb lb' : LbcdReply) (i j : Slot) (o o' : Oracle Server) :
    ((lbcdSetweight g lb i defaultName).trace o).filterMap (fun ev => functionAndPort ev.call)=
      ((lbcdSetweight g lb' j s).trace o').filterMap (fun ev => functionAndPort ev.call) ↔
        colon∉s.bytes := by
  obtain ⟨f,hpd,hps⟩ := probeOf_default hn hw hg
  rw [lbcdSetweight_functionAndPort hpd,lbcdSetweight_functionAndPort hps]
  constructor
  · intro h hc
    obtain ⟨t,ht,-⟩ := CStr.eq_cutAt_append hc
    rw [ht] at h
    cases h
  · intro hc
    rw [CStr.strchr,if_neg hc]
    rfl

theorem default_probe_iff_ftp :
    ∃ g,lbcdWeightInit .initial none (some (CStr.lit "ftp")) 5=.ok g ∧ ∀ lb o,
      (((lbcdSetweight g lb 0 defaultName).trace o).filterMap
          (fun ev => functionAndPort ev.call)=
        ((lbcdSetweight g lb 1 (CStr.lit "ftp")).trace o).filterMap
          (fun ev => functionAndPort ev.call) ↔ colon∉(CStr.lit "ftp").bytes) :=
  ⟨_,rfl,fun lb o => default_probe_iff
    ⟨⟨CStr.lit "ftp",some .ftp⟩,by decide,by decide,by decide⟩ (by decide) rfl lb lb 0 1 o o⟩

/-- The port of a default service is lost: http with port 8080 is probed on port 80. -/
theorem default_probe_http_8080 :
    ∃ g,lbcdWeightInit .initial none (some (CStr.lit "http:8080")) 5=.ok g ∧
      isWeights (some (CStr.lit "http:8080"))≠0 ∧
      (∃ st∈serviceTable,st.service.bytes≠[] ∧
        st.service=(CStr.lit "http:8080").cutAt colon) ∧
      ∀ lb o,
        ((lbcdSetweight g lb 0 defaultName).trace o).filterMap
            (fun ev => functionAndPort ev.call)≠
          ((lbcdSetweight g lb 0 (CStr.lit "http:8080")).trace o).filterMap
            (fun ev => functionAndPort ev.call) := by
  have hn : ∃ st∈serviceTable,st.service.bytes≠[] ∧
      st.service=(CStr.lit "http:8080").cutAt colon :=
    ⟨⟨CStr.lit "http",some .http⟩,by decide,by decide,by decide⟩
  have hw : isWeights (some (CStr.lit "http:8080"))≠0 := by decide
  refine ⟨_,rfl,hw,hn,fun lb o h => ?_⟩
  obtain ⟨f,hpd,hps⟩ := probeOf_default hn hw rfl
  have hd := lbcdSetweight_functionAndPort hpd lb 0 o
  have hs := lbcdSetweight_functionAndPort hps lb 0 o
  have he := hd.symm.trans (h.trans hs)
  cases he

end Lbcd
