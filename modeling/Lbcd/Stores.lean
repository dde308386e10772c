import Lbcd.WeightInit

namespace Lbcd

open Interaction CText ByteOrder

/-- What a weight function stores through its two pointers; none where it stores nothing. -/
structure Stored where
  weight : Option UInt32
  incr : Option UInt32
  deriving DecidableEq

def Stored.into (s : Stored) (lb : LbcdReply) (slot : Slot) : LbcdReply :=
  lb.setSlot slot ⟨s.weight.getD (lb.slot slot).hostWeight,
    s.incr.getD (lb.slot slot).hostIncr⟩

/-- The weight of a slot that cannot be used. -/
def maxWeight : UInt32 := 0xffffffff

def storeProbe (probe : Prog System ℤ) : Prog System Stored := do
  let v ← probe
  return ⟨some (UInt32.ofInt v),none⟩

/-- The stores of a weight function, apart from the slot they go to. -/
def stores (e : Endian) (g : WeightGlobals) (f : WeightFunc) (timeout : ℤ)
    (portarg : Option CStr) (lb : LbcdReply) : Prog System Stored :=
  match f with
  | .load => do
    let nologin : Bool ← sys (.access .nologin)
    return ⟨some (UInt32.ofInt (if nologin then -1 else loadWeight e lb)),some 200⟩
  | .cmd => do
    match ← runCmd g.lbcdCommand with
    | none => return ⟨some (UInt32.ofInt (-1)),some 0⟩
    | some (w,i) => return ⟨some w,some i⟩
  | .rr => return ⟨some g.defaultWeight,some g.defaultIncrement⟩
  | .unknown => return ⟨some (UInt32.ofInt (-1)),some 0⟩
  | .ftp => storeProbe (probeFtp (some localhost) timeout)
  | .http => storeProbe (probeHttp (some localhost) timeout portarg)
  | .imap => storeProbe (probeImap (some localhost) timeout)
  | .nntp => storeProbe (probeNntp (some localhost) timeout)
  | .ntp => storeProbe (probeNtp (some localhost) timeout)
  | .pop => storeProbe (probePop (some localhost) timeout)
  | .smtp => storeProbe (probeSmtp (some localhost) timeout)
  | .tcp =>
    match portarg with
    | none => return ⟨none,none⟩
    | some arg =>
      if arg.bytes.all isdigit then
        let port := wrapInt 16 arg.atoi
        if port < 1 then return ⟨none,none⟩
        else storeProbe (probeTcp (some localhost) none port none timeout)
      else storeProbe (probeTcp (some localhost) (some arg) 0 none timeout)

/-- The exits of lbcd_tcp_weight that leave the weight alone. -/
theorem stores_tcp_unassigned (e : Endian) (g : WeightGlobals) (timeout : ℤ)
    {portarg : Option CStr} (lb : LbcdReply)
    (h : ∀ arg,portarg=some arg → arg.bytes.all isdigit=true ∧ wrapInt 16 arg.atoi < 1) :
    stores e g .tcp timeout portarg lb=Prog.ret ⟨none,none⟩ := by
  cases portarg with
  | none => rfl
  | some arg =>
    obtain ⟨hall,hlt⟩ := h arg rfl
    simp only [stores]
    rw [if_pos hall,if_pos hlt]
    rfl

theorem stores_tcp_assigned (e : Endian) (g : WeightGlobals) (timeout : ℤ) {arg : CStr}
    (lb : LbcdReply) (h : arg.bytes.all isdigit=true → 1 ≤ wrapInt 16 arg.atoi) :
    ∃ service port,stores e g .tcp timeout (some arg) lb=
      storeProbe (probeTcp (some localhost) service port none timeout) := by
  simp only [stores]
  by_cases hall : arg.bytes.all isdigit=true
  · rw [if_pos hall,if_neg (not_lt.mpr (h hall))]
    exact ⟨_,_,rfl⟩
  · rw [if_neg hall]
    exact ⟨_,_,rfl⟩

/-- lbcd_tcp_weight stores nothing or the outcome of a probe. -/
theorem stores_tcp (e : Endian) (g : WeightGlobals) (timeout : ℤ) (portarg : Option CStr)
    (lb : LbcdReply) : stores e g .tcp timeout portarg lb=Prog.ret ⟨none,none⟩ ∨
      ∃ service port,stores e g .tcp timeout portarg lb=
        storeProbe (probeTcp (some localhost) service port none timeout) := by
  by_cases h : ∀ arg,portarg=some arg → arg.bytes.all isdigit=true ∧ wrapInt 16 arg.atoi < 1
  · exact Or.inl (stores_tcp_unassigned e g timeout lb h)
  · push Not at h
    obtain ⟨arg,rfl,hport⟩ := h
    exact Or.inr (stores_tcp_assigned e g timeout lb hport)

theorem Stored.into_incr (s : Stored) (lb : LbcdReply) (slot : Slot) (n : UInt32) :
    s.into (lb.setIncr slot n) slot=
      lb.setSlot slot ⟨s.weight.getD (lb.slot slot).hostWeight,s.incr.getD n⟩ := by
  rw [Stored.into,LbcdReply.slot_setIncr_self,LbcdReply.setIncr,LbcdReply.setSlot_setSlot]

theorem probeWeight_stores (slot : Slot) (lb : LbcdReply) (probe : Prog System ℤ) :
    (probeWeight slot lb probe >>= fun r => Prog.ret r.1)=
      storeProbe probe >>= fun s => Prog.ret (s.into lb slot) := by
  rw [probeWeight,storeProbe,bind_assoc,bind_assoc]
  rfl

/-- A weight function only stores to the slot it is given, and what it stores does not
depend on what the slots hold. -/
theorem weightFunction_stores (e : Endian) (g : WeightGlobals) (f : WeightFunc) (slot : Slot)
    (timeout : ℤ) (portarg : Option CStr) (lb : LbcdReply) :
    (weightFunction e g f slot timeout portarg lb >>= fun r => Prog.ret r.1)=
      stores e g f timeout portarg lb >>= fun s => Prog.ret (s.into lb slot) := by
  cases f with
  | load =>
    refine congrArg (Prog.call _) (funext fun nologin => ?_)
    exact congrArg Prog.ret (lb.setIncr_setWeight slot _ _)
  | cmd =>
    simp only [weightFunction,lbcdCmdWeight,stores,bind_assoc]
    refine congrArg (runCmd g.lbcdCommand >>= ·) (funext fun r => ?_)
    cases r with
    | none => exact congrArg Prog.ret (lb.setIncr_setWeight slot _ _)
    | some p => exact congrArg Prog.ret (lb.setIncr_setWeight slot _ _)
  | rr => exact congrArg Prog.ret (lb.setIncr_setWeight slot _ _)
  | unknown => exact congrArg Prog.ret (lb.setIncr_setWeight slot _ _)
  | ntp =>
    simp only [weightFunction,lbcdNtpWeight,stores,storeProbe,bind_assoc]
    rfl
  | tcp =>
    cases portarg with
    | none => exact congrArg Prog.ret (lb.setSlot_slot slot).symm
    | some arg =>
      simp only [weightFunction,lbcdTcpWeight,stores]
      split_ifs
      · exact congrArg Prog.ret (lb.setSlot_slot slot).symm
      · exact probeWeight_stores slot lb _
      · exact probeWeight_stores slot lb _
  | ftp => exact probeWeight_stores slot lb _
  | http => exact probeWeight_stores slot lb _
  | imap => exact probeWeight_stores slot lb _
  | nntp => exact probeWeight_stores slot lb _
  | pop => exact probeWeight_stores slot lb _
  | smtp => exact probeWeight_stores slot lb _

/-- Two replies agree but for the weights. -/
def SameScalars (a b : LbcdReply) : Prop := { a with weights := b.weights }=b

theorem sameScalars_setSlot (lb : LbcdReply) (slot : Slot) (w : LbcdService) :
    SameScalars (lb.setSlot slot w) lb := rfl

theorem SameScalars.symm {a b : LbcdReply} (h : SameScalars a b) : SameScalars b a := by
  unfold SameScalars at *
  rw [← h]

theorem SameScalars.trans {a b c : LbcdReply} (h : SameScalars a b) (h' : SameScalars b c) :
    SameScalars a c := by
  unfold SameScalars at *
  rw [← h',← h]

theorem loadWeight_congr (e : Endian) {a b : LbcdReply} (h : SameScalars a b) :
    loadWeight e a=loadWeight e b := by
  rw [← h]
  rfl

/-- Of the reply built so far, only what the load function reads matters. -/
theorem stores_congr {e : Endian} (g : WeightGlobals) (f : WeightFunc) (timeout : ℤ)
    (portarg : Option CStr) {a b : LbcdReply} (h : loadWeight e a=loadWeight e b) :
    stores e g f timeout portarg a=stores e g f timeout portarg b := by
  cases f with
  | load => simp only [stores,h]
  | _ => rfl

theorem stores_setSlot (e : Endian) (g : WeightGlobals) (f : WeightFunc) (timeout : ℤ)
    (portarg : Option CStr) (lb : LbcdReply) (slot : Slot) (w : LbcdService) :
    stores e g f timeout portarg (lb.setSlot slot w)=stores e g f timeout portarg lb :=
  stores_congr g f timeout portarg (loadWeight_congr e (sameScalars_setSlot lb slot w))

/-- A call of lbcd_setweight down to the system calls. -/
def setweightRun (e : Endian) (g : WeightGlobals) (lb : LbcdReply) (slot : Slot)
    (service : CStr) : Prog System LbcdReply :=
  (lbcdSetweight g lb slot service).expand (implement e g)

theorem setweightRun_of_probe (e : Endian) {g : WeightGlobals} {service : CStr} {f : WeightFunc}
    {portarg : Option CStr} (h : probeOf g service=some (f,portarg)) (lb : LbcdReply)
    (slot : Slot) :
    setweightRun e g lb slot service=
      stores e g f g.lbcdTimeout portarg lb >>= fun s =>
        Prog.ret (s.into (lb.setIncr slot g.defaultIncrement) slot) := by
  rw [setweightRun,lbcdSetweight_of_probe h]
  have hs := weightFunction_stores e g f slot g.lbcdTimeout portarg
    (lb.setIncr slot g.defaultIncrement)
  rw [LbcdReply.setIncr,stores_setSlot] at hs
  exact hs

end Lbcd
