import Mathlib.Algebra.Group.Nat.Defs
import Mathlib.Logic.Function.Basic
import Mathlib.Tactic.Simps.Basic
import Embassy.Lib.Run

/-!
# The RTC drivers

`embassy-nrf/src/rtc.rs` and `embassy-stm32/src/rtc.rs` are one driver on two
timers: the same functions, statement by statement, with another counter
width and other registers. `Chip` is the choice of the driver; what differs
between the two files (period length, arming window, truncation to the compare
register, the interrupts `start` enables) is a function of it.

The system is the driver together with its timer. Time is the true tick count
`tau` since `start`; the hardware counter shows it modulo one cycle of two
periods, latches a boundary event at every multiple of a period and a compare
event when the counter comes to a compare register's value. The driver is cut
into its single statements:

* `Handler` — where `on_interrupt` stands between its statements;
* `Crit` — where the running critical section (`interrupt::free`) stands:
  `next_period`, `trigger_alarm` or `set_alarm`. While one runs, nothing but
  the hardware makes a step.
* `callers` — the `now()` calls, from any contexts, that have loaded `period`
  and not yet read the counter.

Alarms are numbered from 0: alarm `n` is `COMPARE[n]` on the nRF and, as there
`n` runs from 1 and channel 0 is the midway point, `CCR(n+2)` on the STM32.
Arithmetic is that of a build without overflow checks (it wraps); `overflow`
records that a build with overflow checks would have panicked.
-/

namespace Embassy.Rtc

open Embassy.Lib

-- ---------------------------------------------------------------------------
-- The two drivers
-- ---------------------------------------------------------------------------

/-- Which driver. A STM32 timer has `REAL_ALARM_COUNT` alarm channels: three
on timers 2 to 5, one on timers 9 and 12. -/
inductive Chip where
  | nrf
  | stm32 (realAlarmCount : Nat)
  deriving DecidableEq, Repr

/-- Number of entries of the driver's alarm table. -/
def alarmCount : Nat := 3

def u32Size : Nat := 2 ^ 32

def u64Size : Nat := 2 ^ 64

/-- `u64::MAX`, the timestamp of an alarm that is not scheduled. -/
def u64Max : Nat := 2 ^ 64 - 1

namespace Chip

/-- A period is `2 ^ periodBits` ticks. -/
def periodBits : Chip → Nat
  | nrf => 23
  | stm32 _ => 15

/-- The length of a period in ticks, half a cycle of the counter. -/
def half : Chip → Nat
  | nrf => 0x800000
  | stm32 _ => 0x8000

/-- The length of a cycle of the counter. -/
def cycle : Chip → Nat
  | nrf => 0x1000000
  | stm32 _ => 0x10000

/-- An alarm nearer than this is set up in its compare channel. -/
def window : Chip → Nat
  | nrf => 0xc00000
  | stm32 _ => 0xc000

/-- A timestamp as it is written to a compare register:
`at as u32 & 0xFFFFFF` and `at as u16`. -/
def truncate : Chip → Nat → Nat
  | nrf, at' => (at' % u32Size) &&& 0xFFFFFF
  | stm32 _, at' => at' % 0x10000

/-- Ticks from writing a compare register to the first tick that can match
it. On the nRF a COUNTER value of N or N+1 written at N gives no event; a
STM32 timer compares from the next tick on. -/
def settle : Chip → Nat
  | nrf => 2
  | stm32 _ => 1

/-- Does `start` enable the interrupt of the counter overflow? The nRF driver
sets OVRFLW in INTENSET; the STM32 driver sets CC1IE, but never UIE. -/
def ovfIrq : Chip → Bool
  | nrf => true
  | stm32 _ => false

/-- How many of the alarms have a compare channel. -/
def realAlarmCount : Chip → Nat
  | nrf => 3
  | stm32 n => n

end Chip

/-- `calc_now`. -/
def calcNow (c : Chip) (period counter : Nat) : Nat :=
  (period <<< c.periodBits) + (counter ^^^ ((period &&& 1) <<< c.periodBits))

-- ---------------------------------------------------------------------------
-- State
-- ---------------------------------------------------------------------------

/-- The two half-period boundaries: the counter overflow and the midway point. -/
inductive Boundary where
  | ovf | mid
  deriving DecidableEq, Repr

/-- The next statement of `on_interrupt`. -/
inductive Handler where
  | idle
  | checkOvf | clearOvf | periodOvf
  | checkMid | clearMid | periodMid
  | check (n : Nat) | clear (n : Nat) | trigger (n : Nat)
  deriving DecidableEq, Repr

/-- A `now()` call that has loaded `period`. The tick of the load and the
number of boundaries not yet counted in `period` then are not data of the
code; statements about the call refer to them. -/
structure NowCall where
  period : Nat
  loadTick : Nat
  unserviced : Nat
  deriving DecidableEq, Repr

/-- A finished `now()` call: the tick of its counter read and its result. -/
structure NowResult extends NowCall where
  readTick : Nat
  value : Nat
  deriving DecidableEq, Repr

/-- The next statement of the running critical section. -/
inductive Crit where
  | free
  -- `next_period`, and its loop over the alarms for the period it has begun
  | fetchAdd (b : Boundary)
  | arm (period n : Nat)
  | armEnable (period n : Nat)
  -- `set_alarm`, after it has stored the timestamp
  | nowPeriod (n timestamp : Nat)
  | nowCounter (n timestamp : Nat) (call : NowCall)
  | writeCc (n timestamp t : Nat)
  | enable (n : Nat)
  | disable (n : Nat)
  -- `trigger_alarm`
  | trigDisable (n : Nat)
  | trigClear (n : Nat)
  | trigCall (n : Nat)
  deriving DecidableEq, Repr

structure State where
  /-- true time: ticks since `start` -/
  tau : Nat
  -- timer registers
  ovf : Bool
  mid : Bool
  ev : Nat → Bool
  inten : Nat → Bool
  cc : Nat → Nat
  /-- the tick at which `cc n` was last written -/
  ccAt : Nat → Nat
  -- driver
  period : Nat
  timestamp : Nat → Nat
  /-- function and context of the callback -/
  callback : Nat → Option (Nat × Nat)
  handler : Handler
  crit : Crit
  callers : List NowCall
  -- history
  /-- has the timer ticked since the critical section began -/
  ticked : Bool
  /-- the tick at which the running `on_interrupt` was entered -/
  handlerAt : Nat
  /-- timestamp and tick of the last `set_alarm` for this alarm -/
  last : Nat → Option (Nat × Nat)
  /-- the ticks of the alarm's callbacks since that `set_alarm` -/
  fires : Nat → List Nat
  /-- the finished `now()` calls, in the order of their counter reads -/
  nows : List NowResult
  overflow : Bool

/-- The state `start` leaves behind. -/
def init : State where
  tau := 0
  ovf := false
  mid := false
  ev := fun _ => false
  inten := fun _ => false
  cc := fun _ => 0
  ccAt := fun _ => 0
  period := 0
  timestamp := fun _ => u64Max
  callback := fun _ => none
  handler := .idle
  crit := .free
  callers := []
  ticked := false
  handlerAt := 0
  last := fun _ => none
  fires := fun _ => []
  nows := []
  overflow := false

namespace State

/-- The value of the hardware counter. -/
def counter (c : Chip) (s : State) : Nat := s.tau % c.cycle

/-- What `now()` returns when it is called in this state and not delayed. -/
def now (c : Chip) (s : State) : Nat := calcNow c s.period (s.counter c)

/-- The overflow has happened and is not yet counted in `period`: its event is
latched, or `on_interrupt` has taken it. -/
def ovfPending (s : State) : Bool :=
  s.ovf || decide (s.handler = .periodOvf) || decide (s.crit = .fetchAdd .ovf)

/-- The midway point has passed and is not yet counted in `period`. -/
def midPending (s : State) : Bool :=
  s.mid || decide (s.handler = .periodMid) || decide (s.crit = .fetchAdd .mid)

/-- Number of boundaries not yet counted in `period`. -/
def unserviced (s : State) : Nat := s.ovfPending.toNat + s.midPending.toNat

/-- The timer requests its interrupt: an event is latched whose interrupt is
enabled. `start` enables the midway point's on both chips. -/
def raised (c : Chip) (s : State) : Bool :=
  (s.ovf && c.ovfIrq) || s.mid || (List.range alarmCount).any fun n => s.ev n && s.inten n

/-- No interrupt is requested or being serviced, and no critical section runs. -/
def quiet (c : Chip) (s : State) : Bool :=
  !s.raised c && decide (s.handler = .idle) && decide (s.crit = .free)

/-- The same state at another time. -/
@[simps]
def atTick (s : State) (tau : Nat) : State := { s with tau := tau }

end State

-- ---------------------------------------------------------------------------
-- Steps
-- ---------------------------------------------------------------------------

/-- Does the next tick bring the counter to compare register `n`? -/
def compares (c : Chip) (s : State) (n : Nat) : Bool :=
  decide (n < c.realAlarmCount) && decide ((s.tau + 1) % c.cycle = s.cc n) &&
    decide (s.ccAt n + c.settle ≤ s.tau + 1)

/-- One tick of the timer. Events are latched whether or not their interrupt
is enabled. -/
@[simps]
def tick (c : Chip) (s : State) : State :=
  { s with
    tau := s.tau + 1
    ticked := true
    ovf := s.ovf || decide ((s.tau + 1) % c.cycle = 0)
    mid := s.mid || decide ((s.tau + 1) % c.cycle = c.half)
    ev := fun n => s.ev n || compares c s n }

/-- One statement of `on_interrupt`. -/
def onInterrupt (s : State) : Option State :=
  match s.handler with
  | .idle => none
  | .checkOvf => some { s with handler := if s.ovf then .clearOvf else .checkMid }
  | .clearOvf => some { s with ovf := false, handler := .periodOvf }
  | .periodOvf => some { s with crit := .fetchAdd .ovf, ticked := false, handler := .checkMid }
  | .checkMid => some { s with handler := if s.mid then .clearMid else .check 0 }
  | .clearMid => some { s with mid := false, handler := .periodMid }
  | .periodMid => some { s with crit := .fetchAdd .mid, ticked := false, handler := .check 0 }
  | .check n =>
    if n < alarmCount then
      some { s with handler := if s.ev n then .clear n else .check (n + 1) }
    else some { s with handler := .idle }
  | .clear n => some { s with ev := Function.update s.ev n false, handler := .trigger n }
  | .trigger n =>
    some { s with crit := .trigDisable n, ticked := false, handler := .check (n + 1) }

/-- `next_period`: `self.period.fetch_add(1) + 1`. -/
@[simps]
def fetchAddPeriod (s : State) : State :=
  { s with
    period := (s.period + 1) % u32Size
    crit := .arm ((s.period + 1) % u32Size) 0
    overflow := s.overflow || decide (u32Size ≤ s.period + 1) }

/-- `next_period`: one iteration of the loop over the alarms, up to the write
of the compare register. -/
def armAlarm (c : Chip) (s : State) (period n : Nat) : State :=
  if n < alarmCount then
    let t := period <<< c.periodBits
    let diff := (s.timestamp n + u64Size - t) % u64Size
    let s := { s with overflow := s.overflow || decide (s.timestamp n < t) }
    if diff < c.window then
      { s with
        cc := Function.update s.cc n (c.truncate (s.timestamp n))
        ccAt := Function.update s.ccAt n s.tau
        crit := .armEnable period n }
    else { s with crit := .arm period (n + 1) }
  else { s with crit := .free }

/-- A `now()` call that loads `period` in this state. -/
@[simps]
def loadPeriod (s : State) : NowCall where
  period := s.period
  loadTick := s.tau
  unserviced := s.unserviced

/-- The counter read that ends a `now()` call. -/
def readCounter (c : Chip) (s : State) (call : NowCall) : NowResult :=
  { call with readTick := s.tau, value := calcNow c call.period (s.counter c) }

/-- `set_alarm`: the comparisons of the timestamp with `now()`. -/
def setAlarmBranch (c : Chip) (n timestamp t : Nat) : Crit :=
  if timestamp ≤ t then .trigDisable n
  else if timestamp - t < c.window then .writeCc n timestamp t
  else .disable n

/-- `set_alarm`: the write of the compare register, never with less than
`t + 3`. -/
@[simps]
def writeCompare (c : Chip) (s : State) (n timestamp t : Nat) : State :=
  { s with
    cc := Function.update s.cc n (c.truncate (max timestamp ((t + 3) % u64Size)))
    ccAt := Function.update s.ccAt n s.tau
    crit := .enable n
    overflow := s.overflow || decide (u64Size ≤ t + 3) }

/-- One statement of the running critical section. -/
def critStep (c : Chip) (s : State) : Option State :=
  match s.crit with
  | .free => none
  | .fetchAdd _ => some (fetchAddPeriod s)
  | .arm period n => some (armAlarm c s period n)
  | .armEnable period n =>
    some { s with inten := Function.update s.inten n true, crit := .arm period (n + 1) }
  | .nowPeriod n timestamp => some { s with crit := .nowCounter n timestamp (loadPeriod s) }
  | .nowCounter n timestamp call =>
    some { s with
      nows := s.nows ++ [readCounter c s call]
      crit := setAlarmBranch c n timestamp (readCounter c s call).value }
  | .writeCc n timestamp t => some (writeCompare c s n timestamp t)
  | .enable n => some { s with inten := Function.update s.inten n true, crit := .free }
  | .disable n => some { s with inten := Function.update s.inten n false, crit := .free }
  | .trigDisable n =>
    some { s with inten := Function.update s.inten n false, crit := .trigClear n }
  | .trigClear n =>
    some { s with timestamp := Function.update s.timestamp n u64Max, crit := .trigCall n }
  | .trigCall n =>
    some { s with
      fires := if (s.callback n).isSome then
          Function.update s.fires n (s.fires n ++ [s.tau]) else s.fires
      crit := .free }

/-- `set_alarm`: the critical section is entered and the timestamp stored. -/
@[simps]
def setAlarm (s : State) (n timestamp : Nat) : State :=
  { s with
    timestamp := Function.update s.timestamp n timestamp
    crit := .nowPeriod n timestamp
    ticked := false
    last := Function.update s.last n (some (timestamp, s.tau))
    fires := Function.update s.fires n [] }

inductive Action where
  | tick
  /-- the requested interrupt is taken -/
  | interrupt
  /-- `on_interrupt` goes on -/
  | handler
  /-- the critical section goes on -/
  | crit
  | setAlarm (n timestamp : Nat)
  | setCallback (n : Nat) (callback : Nat × Nat)
  /-- some context starts `now()` -/
  | nowLoad
  /-- the `i`-th of the started `now()` calls reads the counter -/
  | nowRead (i : Nat)
  deriving DecidableEq, Repr

/-- `Alarm::clear`. -/
def Action.clear (n : Nat) : Action := .setAlarm n u64Max

def step (c : Chip) (s : State) : Action → Option State
  | .tick => some (tick c s)
  | .interrupt =>
    if s.crit = .free ∧ s.handler = .idle ∧ s.raised c then
      some { s with handler := .checkOvf, handlerAt := s.tau }
    else none
  | .handler => if s.crit = .free then onInterrupt s else none
  | .crit => critStep c s
  | .setAlarm n timestamp =>
    -- the driver hands out only the alarms the timer has a channel for
    if s.crit = .free ∧ n < alarmCount ∧ n < c.realAlarmCount ∧ timestamp < u64Size then
      some (setAlarm s n timestamp)
    else none
  | .setCallback n callback =>
    if s.crit = .free ∧ n < alarmCount then
      some { s with callback := Function.update s.callback n (some callback) }
    else none
  | .nowLoad =>
    if s.crit = .free then some { s with callers := s.callers ++ [loadPeriod s] } else none
  | .nowRead i =>
    if s.crit = .free then
      match s.callers[i]? with
      | some call =>
        some { s with
          callers := s.callers.eraseIdx i
          nows := s.nows ++ [readCounter c s call] }
      | none => none
    else none

-- ---------------------------------------------------------------------------
-- Assumptions on the timing
-- ---------------------------------------------------------------------------

/-- What the interrupt latency allows: an interrupt is serviced in less than
half a cycle.

* A boundary whose event requests an interrupt is counted before the next
  boundary.
* Where the overflow requests no interrupt, it is counted only by an
  `on_interrupt` that something else has requested; that one, too, has ended
  within half a cycle. -/
def Timely (c : Chip) (s : State) : Action → Prop
  | .tick =>
    ((s.tau + 1) % c.cycle = 0 → s.midPending = false) ∧
    ((s.tau + 1) % c.cycle = c.half → c.ovfIrq → s.ovfPending = false) ∧
    (c.ovfIrq = false → s.handler ≠ .idle → s.tau + 1 < s.handlerAt + c.half)
  | _ => True

/-- A critical section takes less than one tick: the timer ticks at most once
while it runs. -/
def ShortCrit (s : State) : Action → Prop
  | .tick => s.crit ≠ .free → s.ticked = false
  | _ => True

/-- `period` is a 32-bit integer: the clock is specified for this many ticks. -/
def InRange (c : Chip) (s : State) : Action → Prop
  | .tick => s.tau + 1 < u32Size * c.half
  | _ => True

instance (c : Chip) (s : State) : (a : Action) → Decidable (Timely c s a)
  | .tick => inferInstanceAs (Decidable (_ ∧ _ ∧ _))
  | .interrupt | .handler | .crit | .setAlarm _ _ | .setCallback _ _ | .nowLoad | .nowRead _ =>
    isTrue trivial

instance (s : State) : (a : Action) → Decidable (ShortCrit s a)
  | .tick => inferInstanceAs (Decidable (_ → _))
  | .interrupt | .handler | .crit | .setAlarm _ _ | .setCallback _ _ | .nowLoad | .nowRead _ =>
    isTrue trivial

instance (c : Chip) (s : State) : (a : Action) → Decidable (InRange c s a)
  | .tick => inferInstanceAs (Decidable (_ < _))
  | .interrupt | .handler | .crit | .setAlarm _ _ | .setCallback _ _ | .nowLoad | .nowRead _ =>
    isTrue trivial

-- ---------------------------------------------------------------------------
-- What a step can do
-- ---------------------------------------------------------------------------

/-- The statements of the system, each with the state it runs in and the state
it leaves. -/
inductive Stmt (c : Chip) (s : State) : Action → State → Prop where
  | tick : Stmt c s .tick (tick c s)
  | enter (hC : s.crit = .free) (hH : s.handler = .idle) (hR : s.raised c = true) :
      Stmt c s .interrupt { s with handler := .checkOvf, handlerAt := s.tau }
  | checkOvf_hit (hC : s.crit = .free) (hH : s.handler = .checkOvf) (hE : s.ovf = true) :
      Stmt c s .handler { s with handler := .clearOvf }
  | checkOvf_miss (hC : s.crit = .free) (hH : s.handler = .checkOvf) (hE : s.ovf = false) :
      Stmt c s .handler { s with handler := .checkMid }
  | clearOvf (hC : s.crit = .free) (hH : s.handler = .clearOvf) :
      Stmt c s .handler { s with ovf := false, handler := .periodOvf }
  | periodOvf (hC : s.crit = .free) (hH : s.handler = .periodOvf) :
      Stmt c s .handler
        { s with crit := .fetchAdd .ovf, ticked := false, handler := .checkMid }
  | checkMid_hit (hC : s.crit = .free) (hH : s.handler = .checkMid) (hE : s.mid = true) :
      Stmt c s .handler { s with handler := .clearMid }
  | checkMid_miss (hC : s.crit = .free) (hH : s.handler = .checkMid) (hE : s.mid = false) :
      Stmt c s .handler { s with handler := .check 0 }
  | clearMid (hC : s.crit = .free) (hH : s.handler = .clearMid) :
      Stmt c s .handler { s with mid := false, handler := .periodMid }
  | periodMid (hC : s.crit = .free) (hH : s.handler = .periodMid) :
      Stmt c s .handler
        { s with crit := .fetchAdd .mid, ticked := false, handler := .check 0 }
  | check_hit {n : Nat} (hC : s.crit = .free) (hH : s.handler = .check n)
      (hn : n < alarmCount) (hE : s.ev n = true) :
      Stmt c s .handler { s with handler := .clear n }
  | check_miss {n : Nat} (hC : s.crit = .free) (hH : s.handler = .check n)
      (hn : n < alarmCount) (hE : s.ev n = false) :
      Stmt c s .handler { s with handler := .check (n + 1) }
  | check_done {n : Nat} (hC : s.crit = .free) (hH : s.handler = .check n)
      (hn : ¬ n < alarmCount) : Stmt c s .handler { s with handler := .idle }
  | clear {n : Nat} (hC : s.crit = .free) (hH : s.handler = .clear n) :
      Stmt c s .handler
        { s with ev := Function.update s.ev n false, handler := .trigger n }
  | trigger {n : Nat} (hC : s.crit = .free) (hH : s.handler = .trigger n) :
      Stmt c s .handler
        { s with crit := .trigDisable n, ticked := false, handler := .check (n + 1) }
  | fetchAdd {b : Boundary} (hC : s.crit = .fetchAdd b) : Stmt c s .crit (fetchAddPeriod s)
  | arm_write {p n : Nat} (hC : s.crit = .arm p n) (hn : n < alarmCount)
      (hD : (s.timestamp n + u64Size - p <<< c.periodBits) % u64Size < c.window) :
      Stmt c s .crit
        { s with
          overflow := s.overflow || decide (s.timestamp n < p <<< c.periodBits)
          cc := Function.update s.cc n (c.truncate (s.timestamp n))
          ccAt := Function.update s.ccAt n s.tau
          crit := .armEnable p n }
  | arm_skip {p n : Nat} (hC : s.crit = .arm p n) (hn : n < alarmCount)
      (hD : ¬ (s.timestamp n + u64Size - p <<< c.periodBits) % u64Size < c.window) :
      Stmt c s .crit
        { s with
          overflow := s.overflow || decide (s.timestamp n < p <<< c.periodBits)
          crit := .arm p (n + 1) }
  | arm_done {p n : Nat} (hC : s.crit = .arm p n) (hn : ¬ n < alarmCount) :
      Stmt c s .crit { s with crit := .free }
  | armEnable {p n : Nat} (hC : s.crit = .armEnable p n) :
      Stmt c s .crit
        { s with inten := Function.update s.inten n true, crit := .arm p (n + 1) }
  | nowPeriod {n ts : Nat} (hC : s.crit = .nowPeriod n ts) :
      Stmt c s .crit { s with crit := .nowCounter n ts (loadPeriod s) }
  | nowCounter_due {n ts : Nat} {call : NowCall} (hC : s.crit = .nowCounter n ts call)
      (hT : ts ≤ (readCounter c s call).value) :
      Stmt c s .crit
        { s with nows := s.nows ++ [readCounter c s call], crit := .trigDisable n }
  | nowCounter_near {n ts : Nat} {call : NowCall} (hC : s.crit = .nowCounter n ts call)
      (hT : (readCounter c s call).value < ts)
      (hW : ts - (readCounter c s call).value < c.window) :
      Stmt c s .crit
        { s with
          nows := s.nows ++ [readCounter c s call]
          crit := .writeCc n ts (readCounter c s call).value }
  | nowCounter_far {n ts : Nat} {call : NowCall} (hC : s.crit = .nowCounter n ts call)
      (hT : (readCounter c s call).value < ts)
      (hW : c.window ≤ ts - (readCounter c s call).value) :
      Stmt c s .crit
        { s with nows := s.nows ++ [readCounter c s call], crit := .disable n }
  | writeCc {n ts t : Nat} (hC : s.crit = .writeCc n ts t) :
      Stmt c s .crit (writeCompare c s n ts t)
  | enable {n : Nat} (hC : s.crit = .enable n) :
      Stmt c s .crit { s with inten := Function.update s.inten n true, crit := .free }
  | disable {n : Nat} (hC : s.crit = .disable n) :
      Stmt c s .crit { s with inten := Function.update s.inten n false, crit := .free }
  | trigDisable {n : Nat} (hC : s.crit = .trigDisable n) :
      Stmt c s .crit
        { s with inten := Function.update s.inten n false, crit := .trigClear n }
  | trigClear {n : Nat} (hC : s.crit = .trigClear n) :
      Stmt c s .crit
        { s with timestamp := Function.update s.timestamp n u64Max, crit := .trigCall n }
  | trigCall {n : Nat} (hC : s.crit = .trigCall n) :
      Stmt c s .crit
        { s with
          fires := if (s.callback n).isSome then
              Function.update s.fires n (s.fires n ++ [s.tau]) else s.fires
          crit := .free }
  | setAlarm {n ts : Nat} (hC : s.crit = .free) (hn : n < alarmCount)
      (hReal : n < c.realAlarmCount) (hTs : ts < u64Size) :
      Stmt c s (.setAlarm n ts) (setAlarm s n ts)
  | setCallback {n : Nat} {f : Nat × Nat} (hC : s.crit = .free) (hn : n < alarmCount) :
      Stmt c s (.setCallback n f)
        { s with callback := Function.update s.callback n (some f) }
  | nowLoad (hC : s.crit = .free) :
      Stmt c s .nowLoad { s with callers := s.callers ++ [loadPeriod s] }
  | nowRead {i : Nat} {call : NowCall} (hC : s.crit = .free) (hI : s.callers[i]? = some call) :
      Stmt c s (.nowRead i)
        { s with
          callers := s.callers.eraseIdx i
          nows := s.nows ++ [readCounter c s call] }

theorem onInterrupt_stmt {c : Chip} {s s' : State} (hC : s.crit = .free)
    (h : onInterrupt s = some s') : Stmt c s .handler s' := by
  -- one branch of the handler for each constructor
  unfold onInterrupt at h
  split at h
  · cases h
  all_goals rename_i hH
  · by_cases hE : s.ovf = true
    · rw [if_pos hE] at h
      cases h
      exact .checkOvf_hit hC hH hE
    · rw [if_neg hE] at h
      cases h
      exact .checkOvf_miss hC hH (Bool.not_eq_true _ ▸ hE)
  · cases h
    exact .clearOvf hC hH
  · cases h
    exact .periodOvf hC hH
  · by_cases hE : s.mid = true
    · rw [if_pos hE] at h
      cases h
      exact .checkMid_hit hC hH hE
    · rw [if_neg hE] at h
      cases h
      exact .checkMid_miss hC hH (Bool.not_eq_true _ ▸ hE)
  · cases h
    exact .clearMid hC hH
  · cases h
    exact .periodMid hC hH
  · rename_i n
    split at h
    · rename_i hn
      by_cases hE : s.ev n = true
      · rw [if_pos hE] at h
        cases h
        exact .check_hit hC hH hn hE
      · rw [if_neg hE] at h
        cases h
        exact .check_miss hC hH hn (Bool.not_eq_true _ ▸ hE)
    · rename_i hn
      cases h
      exact .check_done hC hH hn
  · cases h
    exact .clear hC hH
  · cases h
    exact .trigger hC hH

theorem armAlarm_stmt {c : Chip} {s : State} {p n : Nat} (hC : s.crit = .arm p n) :
    Stmt c s .crit (armAlarm c s p n) := by
  unfold armAlarm
  split
  · rename_i hn
    dsimp only
    split
    · rename_i hD
      exact .arm_write hC hn hD
    · rename_i hD
      exact .arm_skip hC hn hD
  · rename_i hn
    exact .arm_done hC hn

theorem nowCounter_stmt {c : Chip} {s : State} {n ts : Nat} {call : NowCall}
    (hC : s.crit = .nowCounter n ts call) :
    Stmt c s .crit
      { s with
        nows := s.nows ++ [readCounter c s call]
        crit := setAlarmBranch c n ts (readCounter c s call).value } := by
  unfold setAlarmBranch
  split
  · exact .nowCounter_due hC ‹_›
  · split
    · exact .nowCounter_near hC (Nat.lt_of_not_le ‹_›) ‹_›
    · exact .nowCounter_far hC (Nat.lt_of_not_le ‹_›) (Nat.le_of_not_lt ‹_›)

theorem critStep_stmt {c : Chip} {s s' : State} (h : critStep c s = some s') :
    Stmt c s .crit s' := by
  unfold critStep at h
  split at h
  · cases h
  all_goals
    rename_i hC
    cases h
  · exact .fetchAdd hC
  · exact armAlarm_stmt hC
  · exact .armEnable hC
  · exact .nowPeriod hC
  · exact nowCounter_stmt hC
  · exact .writeCc hC
  · exact .enable hC
  · exact .disable hC
  · exact .trigDisable hC
  · exact .trigClear hC
  · exact .trigCall hC

/-- Every step of the system is one of its statements. -/
theorem step_stmt {c : Chip} {s s' : State} {a : Action} (h : step c s a = some s') :
    Stmt c s a s' := by
  -- each action of the model is one statement of the driver, or a tick
  cases a with
  | tick =>
    cases h
    exact .tick
  | interrupt =>
    simp only [step] at h
    split at h
    · rename_i hG
      cases h
      exact .enter hG.1 hG.2.1 hG.2.2
    · cases h
  | handler =>
    simp only [step] at h
    split at h
    · rename_i hC
      exact onInterrupt_stmt hC h
    · cases h
  | crit => exact critStep_stmt h
  | setAlarm n ts =>
    simp only [step] at h
    split at h
    · rename_i hG
      cases h
      exact .setAlarm hG.1 hG.2.1 hG.2.2.1 hG.2.2.2
    · cases h
  | setCallback n f =>
    simp only [step] at h
    split at h
    · rename_i hG
      cases h
      exact .setCallback hG.1 hG.2
    · cases h
  | nowLoad =>
    simp only [step] at h
    split at h
    · rename_i hC
      cases h
      exact .nowLoad hC
    · cases h
  | nowRead i =>
    simp only [step] at h
    split at h
    · rename_i hC
      split at h
      · rename_i call hI
        cases h
        exact .nowRead hC hI
      · cases h
    · cases h

end Embassy.Rtc
