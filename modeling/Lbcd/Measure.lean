import Mathlib.Algebra.Order.Floor.Ring
import Mathlib.Data.Rat.Floor
import Lbcd.Calls

namespace Lbcd

open Interaction CText

/-- Conversion of a floating value to an integer, towards zero. -/
def truncate (q : ℚ) : ℤ := if 0 ≤ q then ⌊q⌋ else ⌈q⌉

/-- Boot time from /proc/uptime; none where the function leaves its output unset. -/
def kernelGetboottime : Prog System (Option ℤ) := do
  let opened : Bool ← sys (.fopen .uptime)
  if opened then
    let got : { qs : List ℚ // qs.length ≤ 1 } ← sys (.fscanf 1)
    let _ : Unit ← sys .fcloseProc
    match got.val with
    | [] => do
      let _ : Unit ← sys (.message .cannotParse)
      return none
    | uptime :: _ => do
      let curr : ℤ ← sys .time
      return some (truncate (curr-uptime))
  else
    let _ : Unit ← sys (.message .cannotOpen)
    return none

/-- fscanf stores the numbers it could read before it stopped. -/
def kernelGetload : Prog System Loads := do
  let opened : Bool ← sys (.fopen .loadavg)
  if opened then
    let got : { qs : List ℚ // qs.length ≤ 3 } ← sys (.fscanf 3)
    let _ : Unit ← sys .fcloseProc
    let loads : Loads := ⟨got.val[0]?,got.val[1]?,got.val[2]?⟩
    if got.val.length < 3 then
      let _ : Unit ← sys (.message .cannotParse)
      return loads
    else return loads
  else
    let _ : Unit ← sys (.message .cannotOpen)
    return ⟨none,none,none⟩

/-- The divisor of tmp_full: all blocks, or 95% of them. -/
def tmpTotal (info : StatVfs) : ℚ :=
  if (info.fBavail : ℚ) > info.fBlocks*(19/20) then info.fBlocks else info.fBlocks*(19/20)

def tmpPercent (info : StatVfs) : ℤ :=
  truncate ((tmpTotal info-info.fBavail)*100/tmpTotal info+1/2)

def clampPercent (percent : ℤ) : ℤ :=
  let percent := if percent < 0 then 0 else percent
  if percent > 100 then 100 else percent

def tmpFull (path : TmpDir) : Prog System ℤ := do
  let changed : Bool ← sys (.chdir path)
  if changed then
    let info : Option StatVfs ← sys .statvfs
    match info with
    | none => return 0
    | some info =>
      -- without blocks the quotient is not finite and no int represents it
      if info.fBlocks=0 then
        let percent : ℤ ← sys .undefinedInt
        return clampPercent percent
      else return clampPercent (tmpPercent info)
  else return 0

theorem clampPercent_bounds (percent : ℤ) :
    0 ≤ clampPercent percent ∧ clampPercent percent ≤ 100 := by
  unfold clampPercent
  dsimp only
  split_ifs <;> omega

/-- Whatever the file system reports, the percentage is one. -/
theorem tmpFull_bounds (path : TmpDir) :
    (tmpFull path).Meets (fun _ => True) fun v => 0 ≤ v ∧ v ≤ 100 := by
  refine ⟨trivial,fun changed => ?_⟩
  cases changed with
  | false => exact ⟨le_refl _,by decide⟩
  | true =>
    refine ⟨trivial,fun info => ?_⟩
    cases info with
    | none => exact ⟨le_refl _,by decide⟩
    | some info =>
      change Prog.Meets _ _ (if info.fBlocks=0 then _ else _)
      split_ifs with h
      · exact ⟨trivial,fun percent => clampPercent_bounds percent⟩
      · exact clampPercent_bounds (tmpPercent info)

/-- The table hcreate(211) makes: 211 entries are certain to fit, later ones may not. -/
def hashSize : ℕ := 211

/-- One user name: found in the table, or counted and entered if there is room. -/
def uniqAdd (name : CStr) (table users : List CStr) : Prog System (List CStr × List CStr) :=
  if name∈table then return (table,users)
  else if table.length < hashSize then return (name :: table,users++[name])
  else do
    let entered : Bool ← sys (.hsearchEnter table.length)
    return (if entered then name :: table else table,users++[name])

def onConsoleRecord (ut : Utmpx) : Bool :=
  (CStr.ofBuffer ut.utLine).strncmpEq (CStr.lit "console") 7 ||
    (CStr.ofBuffer ut.utHost).strncmpEq (CStr.lit ":0") 2

/-- The scan of the utmp records; it carries the total, the console flag, the hash
table and the users found so far. -/
def scanUtmp : List Utmpx → ℤ → ℤ → List CStr → List CStr → Prog System (ℤ × ℤ × List CStr)
  | [],total,onConsole,_,users => return (total,onConsole,users)
  | ut :: uts,total,onConsole,table,users =>
    if ut.userProcess then do
      let onConsole := if onConsoleRecord ut then 1 else onConsole
      let (table,users) ← uniqAdd (CStr.ofBuffer ut.utUser) table users
      scanUtmp uts (total+1) onConsole table users
    else scanUtmp uts total onConsole table users

def ownedByUser (st : Option FileStat) : Bool :=
  match st with
  | some sbuf => sbuf.stUid≠0
  | none => false

def getUserStats (cache : UserCache) : Prog System (UserStats × UserCache) := do
  let sbuf : Option FileStat ← sys (.stat .utmp)
  let userMtime := match sbuf with
    | some sbuf => sbuf.stMtime
    | none => 0
  if userMtime > 0 ∧ userMtime=cache.lastUserMtime then
    return (⟨cache.lastTotal,cache.lastUniq,cache.lastOnConsole,userMtime⟩,cache)
  else
    let console : Option FileStat ← sys (.stat .console)
    let tty1 : Option FileStat ← sys (.stat .tty1)
    let onConsole : ℤ := if ownedByUser console || ownedByUser tty1 then 1 else 0
    let records : List Utmpx ← sys .utmpRecords
    let (total,onConsole,users) ← scanUtmp records 0 onConsole [] []
    let uniq : ℤ := users.length
    return (⟨total,uniq,onConsole,userMtime⟩,⟨total,uniq,onConsole,userMtime⟩)

end Lbcd
