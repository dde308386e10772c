import Lbcd.Daemon

namespace Lbcd

open Interaction CText

/-- What get_user_stats can see of the host at the moment of a call. -/
structure Moment where
  utmp : Option FileStat
  console : Option FileStat
  tty1 : Option FileStat
  records : List Utmpx
  deriving DecidableEq

/-- Whether one more name fits in a hash table depends on how many it holds. -/
abbrev Room := ℕ → Bool

namespace Moment

def answer (room : Room) (m : Moment) : Oracle System := Oracle.const fun c =>
  match c with
  | .stat .utmp => some m.utmp
  | .stat .console => some m.console
  | .stat .tty1 => some m.tty1
  | .utmpRecords => some m.records
  | .hsearchEnter count => some (room count)
  | _ => none

/-- The modification time of the utmp file, 0 without one. -/
def mtime (m : Moment) : ℤ := m.utmp.elim 0 FileStat.stMtime

/-- A console device belongs to a user other than root. -/
def owned (m : Moment) : Bool := ownedByUser m.console || ownedByUser m.tty1

/-- A utmp record shows a user on console. -/
def recorded (m : Moment) : Bool :=
  m.records.any fun ut => ut.userProcess && onConsoleRecord ut

end Moment

section

variable (room : Room)

theorem uniqAdd_result (name : CStr) (table users : List CStr) :
    ∃ r,∀ m : Moment,(uniqAdd name table users).result (m.answer room)=some r := by
  rw [uniqAdd]
  split_ifs
  · exact ⟨_,fun _ => rfl⟩
  · exact ⟨_,fun _ => rfl⟩
  · exact ⟨_,fun _ => rfl⟩

/-- The records alone decide what the scan counts. -/
theorem scanUtmp_result (records : List Utmpx) (total : ℤ) (table users : List CStr) :
    ∃ total' users',∀ (m : Moment) (onConsole : ℤ),
      (scanUtmp records total onConsole table users).result (m.answer room)=
        some (total',if records.any fun ut => ut.userProcess && onConsoleRecord ut then 1
          else onConsole,users') := by
  induction records generalizing total table users with
  | nil => exact ⟨total,users,fun _ _ => rfl⟩
  | cons ut uts ih =>
    cases hu : ut.userProcess with
    | false =>
      obtain ⟨total',users',h⟩ := ih total table users
      refine ⟨total',users',fun m onConsole => ?_⟩
      rw [scanUtmp,if_neg (by simp [hu]),h]
      simp [hu]
    | true =>
      obtain ⟨r,hr⟩ := uniqAdd_result room (CStr.ofBuffer ut.utUser) table users
      obtain ⟨total',users',h⟩ := ih (total+1) r.1 r.2
      refine ⟨total',users',fun m onConsole => ?_⟩
      rw [scanUtmp,if_pos hu,Prog.result_bind,hr]
      refine (h m _).trans ?_
      cases hc : onConsoleRecord ut <;> simp [hu,hc]

/-- The statics that a call leaves when it scans. -/
def UserCache.of (s : UserStats) : UserCache := ⟨s.total,s.uniq,s.onConsole,s.userMtime⟩

/-- The answer from the statics alone. -/
def UserCache.stats (cache : UserCache) (userMtime : ℤ) : UserStats :=
  ⟨cache.lastTotal,cache.lastUniq,cache.lastOnConsole,userMtime⟩

/-- The flag that the scan finds. -/
def Moment.flag (m : Moment) : ℤ := if m.recorded || m.owned then 1 else 0

/-- A call returns in either way. -/
theorem getUserStats_result (records : List Utmpx) :
    ∃ total uniq : ℤ,∀ (m : Moment) (cache : UserCache),m.records=records →
      (getUserStats cache).result (m.answer room)=
        if m.mtime > 0 ∧ m.mtime=cache.lastUserMtime then some (cache.stats m.mtime,cache)
        else some (⟨total,uniq,m.flag,m.mtime⟩,.of ⟨total,uniq,m.flag,m.mtime⟩) := by
  obtain ⟨total,users,h⟩ := scanUtmp_result room records 0 [] []
  refine ⟨total,users.length,fun m cache hm => ?_⟩
  have hflag : (if m.recorded then (1 : ℤ) else if m.owned then 1 else 0)=m.flag := by
    rw [Moment.flag]
    cases m.recorded <;> rfl
  have hscan := h m (if m.owned then 1 else 0)
  rw [← hm] at hscan
  change _=some (total,if m.recorded then (1 : ℤ) else _,users) at hscan
  rw [hflag] at hscan
  have hscanned (mtime : ℤ) :
      (scanUtmp m.records 0 (if m.owned then 1 else 0) [] [] >>= fun r =>
        (Prog.ret (⟨r.1,r.2.2.length,r.2.1,mtime⟩,⟨r.1,r.2.2.length,r.2.1,mtime⟩) :
          Prog System (UserStats × UserCache))).result (m.answer room)=
        some (⟨total,users.length,m.flag,mtime⟩,.of ⟨total,users.length,m.flag,mtime⟩) := by
    rw [Prog.result_bind,hscan]
    rfl
  have hcase (mtime : ℤ) {p : Prog System (UserStats × UserCache)}
      (hp : p.result (m.answer room)=some (⟨total,users.length,m.flag,mtime⟩,
        .of ⟨total,users.length,m.flag,mtime⟩)) :
      (if mtime > 0 ∧ mtime=cache.lastUserMtime then Prog.ret (cache.stats mtime,cache)
        else p).result (m.answer room)=
      if mtime > 0 ∧ mtime=cache.lastUserMtime then some (cache.stats mtime,cache)
        else some (⟨total,users.length,m.flag,mtime⟩,
          .of ⟨total,users.length,m.flag,mtime⟩) := by
    split_ifs
    · rfl
    · exact hp
  obtain ⟨utmp,console,tty1,records⟩ := m
  cases utmp with
  | none => exact hcase 0 (hscanned 0)
  | some sbuf => exact hcase sbuf.stMtime (hscanned sbuf.stMtime)

theorem getUserStats_returns (m : Moment) (cache : UserCache) :
    ((getUserStats cache).result (m.answer room)).isSome := by
  obtain ⟨total,uniq,h⟩ := getUserStats_result room m.records
  rw [h m cache rfl]
  split_ifs <;> rfl

/-- One call of get_user_stats at a moment: what it returns, and the statics after it. -/
def Moment.call (m : Moment) (cache : UserCache) : UserStats × UserCache :=
  ((getUserStats cache).result (m.answer room)).get (getUserStats_returns room m cache)

/-- What a call without cached values returns. -/
def Moment.fresh (m : Moment) : UserStats := (m.call room .initial).1

/-- The results of calls one after the other. -/
def userCalls : UserCache → List Moment → List UserStats
  | _,[] => []
  | cache,m :: ms => (m.call room cache).1 :: userCalls (m.call room cache).2 ms

end

/-- Two moments with the same positive modification time have the same records. -/
def SameRecords (ms : List Moment) : Prop :=
  ∀ m∈ms,∀ m'∈ms,0 < m.mtime → m.mtime=m'.mtime → m.records=m'.records

/-- From one moment to the next the flag is kept, if the modification time is: a record shows
a user on console, or the devices are owned as before. -/
def FlagKept (m m' : Moment) : Prop :=
  0 < m'.mtime → m'.mtime=m.mtime → m'.recorded ∨ m.owned=m'.owned

/-- All but the flag. -/
def UserStats.counts (s : UserStats) : ℤ × ℤ × ℤ := (s.total,s.uniq,s.userMtime)

section

variable {room : Room}

theorem call_of_records (room : Room) (records : List Utmpx) :
    ∃ total uniq : ℤ,∀ (m : Moment) (cache : UserCache),m.records=records →
      m.fresh room=⟨total,uniq,m.flag,m.mtime⟩ ∧
      m.call room cache=if m.mtime > 0 ∧ m.mtime=cache.lastUserMtime then
        (cache.stats m.mtime,cache) else (m.fresh room,.of (m.fresh room)) := by
  obtain ⟨total,uniq,h⟩ := getUserStats_result room records
  have hcall (m : Moment) (cache : UserCache) (hm : m.records=records) : m.call room cache=
      if m.mtime > 0 ∧ m.mtime=cache.lastUserMtime then (cache.stats m.mtime,cache)
        else (⟨total,uniq,m.flag,m.mtime⟩,.of ⟨total,uniq,m.flag,m.mtime⟩) := by
    apply Option.some.inj
    rw [Moment.call,Option.some_get,h m cache hm]
    split_ifs <;> rfl
  refine ⟨total,uniq,fun m cache hm => ?_⟩
  have hfresh : m.fresh room=⟨total,uniq,m.flag,m.mtime⟩ := by
    rw [Moment.fresh,hcall m _ hm,if_neg]
    intro hc
    have hzero : m.mtime=0 := hc.2
    omega
  rw [hfresh]
  exact ⟨rfl,hcall m cache hm⟩

theorem call_eq (m : Moment) (cache : UserCache) :
    m.call room cache=if m.mtime > 0 ∧ m.mtime=cache.lastUserMtime then
      (cache.stats m.mtime,cache) else (m.fresh room,.of (m.fresh room)) := by
  obtain ⟨total,uniq,h⟩ := call_of_records room m.records
  exact (h m cache rfl).2

theorem fresh_mtime (m : Moment) : (m.fresh room).userMtime=m.mtime := by
  obtain ⟨total,uniq,h⟩ := call_of_records room m.records
  rw [(h m .initial rfl).1]

theorem fresh_flag (m : Moment) : (m.fresh room).onConsole=m.flag := by
  obtain ⟨total,uniq,h⟩ := call_of_records room m.records
  rw [(h m .initial rfl).1]

/-- Without other records and another time the scan counts the same. -/
theorem fresh_counts (room : Room) {m m' : Moment} (hr : m.records=m'.records)
    (ht : m.mtime=m'.mtime) :
    (m.fresh room).counts=(m'.fresh room).counts := by
  obtain ⟨total,uniq,h⟩ := call_of_records room m.records
  rw [(h m .initial rfl).1,(h m' .initial hr.symm).1,ht]
  rfl

/-- Whichever way a call took, the statics are what it returned. -/
theorem call_statics (m : Moment) (cache : UserCache) :
    (m.call room cache).2=.of (m.call room cache).1 := by
  rw [call_eq]
  split_ifs with h
  · rw [h.2]
    rfl
  · rfl

/-- A call after one that counted right counts right. -/
theorem call_counts {m m' : Moment} {s : UserStats} (hs : s.counts=(m.fresh room).counts)
    (hr : 0 < m'.mtime → m'.mtime=m.mtime → m'.records=m.records) :
    (m'.call room (.of s)).1.counts=(m'.fresh room).counts := by
  have hmtime : s.userMtime=m.mtime :=
    (congrArg (fun p => p.2.2) hs).trans (fresh_mtime m)
  rw [call_eq]
  split_ifs with h
  · have hsame : m'.mtime=m.mtime := h.2.trans hmtime
    have hcounts := fresh_counts room (hr h.1 hsame) hsame
    rw [hcounts,← hs,h.2]
    rfl
  · rfl

theorem UserStats.eq_iff (s s' : UserStats) :
    s=s' ↔ s.counts=s'.counts ∧ s.onConsole=s'.onConsole := by
  constructor
  · intro h
    rw [h]
    exact ⟨rfl,rfl⟩
  · intro h
    obtain ⟨total,uniq,onConsole,userMtime⟩ := s
    obtain ⟨total',uniq',onConsole',userMtime'⟩ := s'
    obtain ⟨hcounts,hconsole⟩ := h
    cases hcounts
    cases hconsole
    rfl

theorem flag_eq_iff {m m' : Moment} (h : m.recorded=m'.recorded) :
    m.flag=m'.flag ↔ m'.recorded ∨ m.owned=m'.owned := by
  rw [Moment.flag,Moment.flag,h]
  cases m'.recorded <;> cases m.owned <;> cases m'.owned <;> decide

/-- A call after one that returned what the scan finds does so too, if the flag is kept. -/
theorem call_fresh_iff {m m' : Moment}
    (hr : 0 < m'.mtime → m'.mtime=m.mtime → m'.records=m.records) :
    (m'.call room (.of (m.fresh room))).1=m'.fresh room ↔ FlagKept m m' := by
  have hcounts : (m'.call room (.of (m.fresh room))).1.counts=(m'.fresh room).counts :=
    call_counts rfl hr
  rw [UserStats.eq_iff,fresh_flag]
  by_cases hit : m'.mtime > 0 ∧ m'.mtime=m.mtime
  · have hcall : (m'.call room (.of (m.fresh room))).1.onConsole=m.flag := by
      rw [call_eq,if_pos ⟨hit.1,hit.2.trans (fresh_mtime m).symm⟩]
      exact fresh_flag m
    have hrecorded : m'.recorded=m.recorded := by
      rw [Moment.recorded,Moment.recorded,hr hit.1 hit.2]
    rw [hcall,flag_eq_iff hrecorded.symm]
    exact ⟨fun h _ _ => h.2,fun h => ⟨hcounts,h hit.1 hit.2⟩⟩
  · have hcall : (m'.call room (.of (m.fresh room))).1=m'.fresh room := by
      rw [call_eq,if_neg]
      intro hc
      exact hit ⟨hc.1,hc.2.trans (fresh_mtime m)⟩
    rw [hcall,fresh_flag]
    exact ⟨fun _ h0 ht => absurd ⟨h0,ht⟩ hit,fun _ => ⟨rfl,rfl⟩⟩

theorem SameRecords.tail {m : Moment} {ms : List Moment} (h : SameRecords (m :: ms)) :
    SameRecords ms :=
  fun a ha b hb => h a (List.mem_cons_of_mem m ha) b (List.mem_cons_of_mem m hb)

theorem SameRecords.next {m m' : Moment} {ms : List Moment} (h : SameRecords (m :: m' :: ms)) :
    0 < m'.mtime → m'.mtime=m.mtime → m'.records=m.records :=
  h m' (List.mem_cons_of_mem m List.mem_cons_self) m List.mem_cons_self

/-- By induction on the calls: the statics are those of the last moment. -/
theorem userCalls_after (m : Moment) {ms : List Moment} (h : SameRecords (m :: ms)) :
    userCalls room (.of (m.fresh room)) ms=ms.map (Moment.fresh room) ↔
      List.IsChain FlagKept (m :: ms) := by
  induction ms generalizing m with
  | nil => simp [userCalls]
  | cons m' ms ih =>
    rw [userCalls,List.map_cons,List.cons.injEq,call_fresh_iff h.next,call_statics,
      List.isChain_cons_cons]
    constructor
    · intro hs
      obtain ⟨hkept,hrest⟩ := hs
      rw [(call_fresh_iff h.next).mpr hkept] at hrest
      exact ⟨hkept,(ih m' h.tail).mp hrest⟩
    · intro hs
      obtain ⟨hkept,hrest⟩ := hs
      rw [(call_fresh_iff h.next).mpr hkept]
      exact ⟨hkept,(ih m' h.tail).mpr hrest⟩

end

/-- Every call returns what it would return without cached values exactly if the flag is kept
from each moment to the next. -/
theorem userCalls_fresh_iff (room : Room) {ms : List Moment} (h : SameRecords ms) :
    userCalls room .initial ms=ms.map (Moment.fresh room) ↔ List.IsChain FlagKept ms := by
  cases ms with
  | nil => simp [userCalls]
  | cons m ms =>
    have hstatics : (m.call room .initial).2=.of (m.fresh room) := call_statics m .initial
    rw [userCalls,List.map_cons,hstatics,List.cons.injEq,userCalls_after m h]
    exact and_iff_right rfl

/-- A moment with nobody logged in and a console of this owner. -/
def consoleOf (uid : ℕ) : Moment := ⟨some ⟨1,0⟩,some ⟨1,uid⟩,none,[]⟩

theorem userCalls_fresh_iff_root :
    userCalls (fun _ => true) .initial [consoleOf 0,consoleOf 0]=
        [consoleOf 0,consoleOf 0].map (Moment.fresh fun _ => true) ↔
      List.IsChain FlagKept [consoleOf 0,consoleOf 0] :=
  userCalls_fresh_iff _ (by simp [SameRecords])

/-- A user takes the console and utmp stays. -/
theorem console_taken :
    SameRecords [consoleOf 0,consoleOf 1000] ∧
      userCalls (fun _ => true) .initial [consoleOf 0,consoleOf 1000]≠
        [consoleOf 0,consoleOf 1000].map (Moment.fresh fun _ => true) := by
  refine ⟨by simp [SameRecords,consoleOf],by decide⟩

end Lbcd
