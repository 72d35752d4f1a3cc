import Embassy.Time.Instant
import Embassy.Executor.Machine
import Embassy.Util.Waker

/-!
# Timers and tickers

`embassy/src/executor/timer.rs`. A poll is given the time that it reads and the deadline of
the task that it is made by, which `registerTimer` moves.

* `Delay` — `delay_short_iff`: a delay is long enough exactly if it is a whole number of
  ticks.
* `Ticker` — `ticker_on_schedule`: a ticker is at its start plus a multiple of its
  duration, whenever it is polled.
-/

namespace Embassy.Executor

open Lib Util Time

/-- `raw::register_timer`, of a task whose deadline is `expiresAt`. -/
def registerTimer (expiresAt at' : Instant) : Instant := Instant.min expiresAt at'

/-- The executor's step does the same to the task that it polls. -/
theorem registerTimer_step {Task Exec Agent : Type} [DecidableEq Task] [DecidableEq Exec]
    [DecidableEq Agent] {hasAlarm : Exec → Bool} {s : State Task Exec Agent} {e : Exec}
    {t : Task} {next : Option Task} (hDrain : s.drain e = .polling t next)
    {expiresAt at' : Instant} (hTask : s.expiresAt t = expiresAt.ticks.toNat) :
    ∃ s', step hasAlarm s (.registerTimer e at'.ticks.toNat) = some s' ∧
      s'.expiresAt t = (registerTimer expiresAt at').ticks.toNat := by
  have hMax : at'.ticks.toNat ≤ instantMax := Nat.le_of_lt_succ at'.ticks.toNat_lt
  simp only [step, hDrain, if_pos hMax, Option.some.injEq, exists_eq_left']
  simp only [Function.update_self, hTask, registerTimer, Instant.min_toNat]

-- ---------------------------------------------------------------------------
-- Timer and Delay
-- ---------------------------------------------------------------------------

structure Timer where
  expiresAt : Instant
  yieldedOnce : Bool
  deriving DecidableEq, Repr

namespace Timer

/-- `none` is the overflow of the instant. -/
def after (now : Instant) (duration : Duration) : Option Timer := do
  let expiresAt ← now.checkedAdd duration
  some ⟨expiresAt, false⟩

def poll (self : Timer) (now task : Instant) : Timer × Instant × Poll Unit :=
  if self.yieldedOnce = true ∧ self.expiresAt ≤ now then (self, task, .ready ())
  else ({ self with yieldedOnce := true }, registerTimer task self.expiresAt, .pending)

/-- The timer is polled with what is given, and completes at the time returned. -/
def completes (self : Timer) : List (Instant × Instant) → Option Instant
  | [] => none
  | (now, task) :: polls =>
    match self.poll now task with
    | (_, _, .ready ()) => some now
    | (timer, _, .pending) => timer.completes polls

/-- It does not complete before it expires. -/
theorem completes_ge {timer : Timer} {polls : List (Instant × Instant)} {c : Instant}
    (h : timer.completes polls = some c) : timer.expiresAt ≤ c := by
  induction polls generalizing timer with
  | nil => cases h
  | cons p polls ih =>
    rw [completes, poll] at h
    by_cases hReady : timer.yieldedOnce = true ∧ timer.expiresAt ≤ p.1
    · rw [if_pos hReady] at h
      rw [← Option.some.inj h]
      exact hReady.2
    · rw [if_neg hReady] at h
      have hRest : ({ timer with yieldedOnce := true } : Timer).completes polls = some c := h
      have hGe := ih hRest
      exact hGe

/-- It completes when it expires, if it is polled once before. -/
theorem completes_expiresAt {timer : Timer} {now task : Instant}
    (hNew : timer.yieldedOnce = false) :
    timer.completes [(now, task), (timer.expiresAt, task)] = some timer.expiresAt := by
  have hLe : timer.expiresAt ≤ timer.expiresAt := Instant.le_iff.mpr (Nat.le_refl _)
  simp [completes, poll, hNew, hLe]

end Timer

namespace Delay

def delayMs (now : Instant) (millis : UInt64) : Option Timer := do
  let duration ← Duration.fromMillis millis
  Timer.after now duration

def delayUs (now : Instant) (micros : UInt64) : Option Timer := do
  let duration ← Duration.fromMicros micros
  Timer.after now duration

/-- Polled at times that do not decrease, from `now` on, the timer completes only when `units`
of the `perSec` of a second have passed. -/
def LongEnough (timer : Timer) (now : Instant) (units perSec : Nat) : Prop :=
  ∀ (polls : List (Instant × Instant)) (c : Instant),
    ((now :: polls.map Prod.fst).Pairwise fun a b => a ≤ b) → timer.completes polls = some c →
      units * 32768 ≤ (c.ticks.toNat - now.ticks.toNat) * perSec

theorem longEnough_iff {timer : Timer} {now : Instant} {units perSec : Nat}
    (hNew : timer.yieldedOnce = false)
    (hExpires : timer.expiresAt.ticks.toNat = now.ticks.toNat + units * 32768 / perSec) :
    LongEnough timer now units perSec ↔ perSec ∣ units * 32768 := by
  have hMul : units * 32768 / perSec * perSec ≤ units * 32768 := Nat.div_mul_le_self ..
  constructor
  · intro h
    have hNow : now ≤ timer.expiresAt := Instant.le_iff.mpr (hExpires ▸ Nat.le_add_right ..)
    have hSame : now ≤ now := Instant.le_iff.mpr (Nat.le_refl _)
    have hLong := h [(now, now), (timer.expiresAt, now)] timer.expiresAt (by simp [hNow, hSame])
      (Timer.completes_expiresAt hNew)
    rw [hExpires, Nat.add_sub_cancel_left] at hLong
    exact ⟨_, (Nat.le_antisymm hLong hMul).trans (Nat.mul_comm ..)⟩
  · intro hDvd polls c _ hCompletes
    have hGe := Instant.le_iff.mp (Timer.completes_ge hCompletes)
    rw [← Nat.div_mul_cancel hDvd]
    exact Nat.mul_le_mul_right _ (by omega)

theorem after_expiresAt {timer : Timer} {now : Instant} {d : Duration}
    (h : Timer.after now d = some timer) : timer.yieldedOnce = false ∧
      timer.expiresAt.ticks.toNat = now.ticks.toNat + d.ticks.toNat := by
  obtain ⟨expiresAt, hAdd, hTimer⟩ := Option.bind_eq_some_iff.mp h
  cases hTimer
  exact ⟨rfl, Instant.checkedAdd_eq_some_iff.mp hAdd⟩

/-- A delay is never too short exactly if it is a whole number of ticks. -/
theorem delay_short_iff (now : Instant) (n : UInt64) (timer : Timer) :
    (delayMs now n = some timer → (LongEnough timer now n.toNat 1000 ↔ 125 ∣ n.toNat)) ∧
    (delayUs now n = some timer → (LongEnough timer now n.toNat 1000000 ↔ 15625 ∣ n.toNat)) := by
  constructor
  · intro hDelay
    obtain ⟨d, hDuration, hAfter⟩ := Option.bind_eq_some_iff.mp hDelay
    obtain ⟨hNew, hExpires⟩ := after_expiresAt hAfter
    rw [Conversion.fromMillis_toNat hDuration] at hExpires
    rw [longEnough_iff hNew hExpires]
    -- 32768 is 8 * 4096
    omega
  · intro hDelay
    obtain ⟨d, hDuration, hAfter⟩ := Option.bind_eq_some_iff.mp hDelay
    obtain ⟨hNew, hExpires⟩ := after_expiresAt hAfter
    rw [Conversion.fromMicros_toNat hDuration] at hExpires
    rw [longEnough_iff hNew hExpires]
    omega

/-- A delay of 125 milliseconds is long enough, and one of 15625 microseconds. -/
theorem delay_short_iff_whole :
    (∃ timer, delayMs ⟨7⟩ 125 = some timer ∧ LongEnough timer ⟨7⟩ 125 1000) ∧
    ∃ timer, delayUs ⟨7⟩ 15625 = some timer ∧ LongEnough timer ⟨7⟩ 15625 1000000 :=
  ⟨⟨⟨⟨4103⟩, false⟩, by decide, ((delay_short_iff ⟨7⟩ 125 _).1 (by decide)).mpr (by decide)⟩,
    ⟨⟨519⟩, false⟩, by decide, ((delay_short_iff ⟨7⟩ 15625 _).2 (by decide)).mpr (by decide)⟩

/-- One millisecond is 32.768 ticks, and the timer completes after 32. -/
theorem delay_one_ms : ∃ timer, delayMs ⟨0⟩ 1 = some timer ∧ ¬ LongEnough timer ⟨0⟩ 1 1000 := by
  refine ⟨⟨⟨32⟩, false⟩, by decide, fun h => ?_⟩
  exact absurd (h [(⟨0⟩, ⟨0⟩), (⟨32⟩, ⟨0⟩)] ⟨32⟩ (by decide) (by decide)) (by decide)

end Delay

-- ---------------------------------------------------------------------------
-- Ticker
-- ---------------------------------------------------------------------------

structure Ticker where
  expiresAt : Instant
  duration : Duration
  deriving DecidableEq, Repr

namespace Ticker

/-- `none` is the overflow of the instant, here and in `pollNext`. -/
def every (now : Instant) (duration : Duration) : Option Ticker := do
  let expiresAt ← now.checkedAdd duration
  some ⟨expiresAt, duration⟩

def pollNext (self : Ticker) (now task : Instant) :
    Option (Ticker × Instant × Poll (Option Unit)) :=
  if self.expiresAt ≤ now then do
    let dur := self.duration
    let expiresAt ← self.expiresAt.checkedAdd dur
    some ({ self with expiresAt := expiresAt }, task, .ready (some ()))
  else some (self, registerTimer task self.expiresAt, .pending)

/-- A ticker and the deadline of the task that polls it, with the time of the last poll and
how many ticks were yielded. -/
structure Polled where
  ticker : Ticker
  task : Instant
  now : Instant
  yields : Nat
  deriving DecidableEq

inductive Action where
  /-- The ticker is polled when the clock is at `now`. -/
  | poll (now : Instant)
  /-- The deadline of the task is reset, or moved by another timer. -/
  | task (at' : Instant)

def step (s : Polled) : Action → Option Polled
  | .poll now =>
    if s.now ≤ now then
      match s.ticker.pollNext now s.task with
      | some (ticker, task, .ready _) => some ⟨ticker, task, now, s.yields + 1⟩
      | some (ticker, task, .pending) => some ⟨ticker, task, now, s.yields⟩
      | none => none
    else none
  | .task at' => some { s with task := at' }

def init (ticker : Ticker) (now task : Instant) : Polled := ⟨ticker, task, now, 0⟩

/-- What `pollNext` does, with the time it expires at next. -/
theorem pollNext_cases (self : Ticker) (now task : Instant) :
    (self.expiresAt ≤ now ∧
      ((∃ e : Instant, e.ticks.toNat = self.expiresAt.ticks.toNat + self.duration.ticks.toNat ∧
          self.pollNext now task = some ({ self with expiresAt := e }, task, .ready (some ()))) ∨
        2 ^ 64 ≤ self.expiresAt.ticks.toNat + self.duration.ticks.toNat ∧
          self.pollNext now task = none)) ∨
    ¬ self.expiresAt ≤ now ∧
      self.pollNext now task = some (self, registerTimer task self.expiresAt, .pending) := by
  unfold pollNext
  by_cases hExpired : self.expiresAt ≤ now
  · left
    refine ⟨hExpired, ?_⟩
    rw [if_pos hExpired]
    cases hAdd : self.expiresAt.checkedAdd self.duration with
    | none => exact .inr ⟨Instant.checkedAdd_eq_none_iff.mp hAdd, by simp [hAdd]⟩
    | some e => exact .inl ⟨e, Instant.checkedAdd_eq_some_iff.mp hAdd, by simp [hAdd]⟩
  · right
    rw [if_neg hExpired]
    exact ⟨hExpired, rfl⟩

/-- After `yields` ticks, the next is at the start and so many durations, and one more. -/
structure OnSchedule (start : Instant) (d : Duration) (s : Polled) : Prop where
  duration : s.ticker.duration = d
  expiresAt : s.ticker.expiresAt.ticks.toNat =
    start.ticks.toNat + (s.yields + 1) * d.ticks.toNat
  /-- The last tick was not early. -/
  passed : start.ticks.toNat + s.yields * d.ticks.toNat ≤ s.now.ticks.toNat

theorem OnSchedule.init {start task : Instant} {d : Duration} {ticker : Ticker}
    (h : every start d = some ticker) : OnSchedule start d (init ticker start task) := by
  obtain ⟨e, hAdd, hTicker⟩ := Option.bind_eq_some_iff.mp h
  cases hTicker
  refine ⟨rfl, ?_, ?_⟩
  · show e.ticks.toNat = _ + (0 + 1) * _
    rw [Instant.checkedAdd_eq_some_iff.mp hAdd, Nat.zero_add, Nat.one_mul]
  · show _ + 0 * _ ≤ _
    rw [Nat.zero_mul]
    exact Nat.le_refl _

theorem OnSchedule.step {start : Instant} {d : Duration} {s v : Polled} {a : Action}
    (h : OnSchedule start d s) (hStep : Ticker.step s a = some v) : OnSchedule start d v := by
  cases a with
  | task at' =>
    cases hStep
    exact ⟨h.duration, h.expiresAt, h.passed⟩
  | poll now =>
    by_cases hNow : s.now ≤ now
    · have hSince := Nat.le_trans h.passed (Instant.le_iff.mp hNow)
      -- a yield moves the deadline by one period, a pending poll leaves it
      rcases pollNext_cases s.ticker now s.task with
        ⟨hExpired, ⟨e, he, hPoll⟩ | ⟨-, hPoll⟩⟩ | ⟨-, hPoll⟩
      · simp only [Ticker.step, if_pos hNow, hPoll, Option.some.injEq] at hStep
        cases hStep
        refine ⟨h.duration, ?_, ?_⟩
        · show e.ticks.toNat = _
          rw [he, h.duration, h.expiresAt, Nat.add_assoc, ← Nat.succ_mul]
        · rw [← h.expiresAt]
          exact Instant.le_iff.mp hExpired
      · simp [Ticker.step, hNow, hPoll] at hStep
      · simp only [Ticker.step, if_pos hNow, hPoll, Option.some.injEq] at hStep
        cases hStep
        exact ⟨h.duration, h.expiresAt, hSince⟩
    · simp [Ticker.step, hNow] at hStep

theorem OnSchedule.run {start task : Instant} {d : Duration} {ticker : Ticker}
    (hEvery : every start d = some ticker) {u : Polled}
    (hRun : Run Ticker.step (fun _ _ => True) (Ticker.init ticker start task) u) :
    OnSchedule start d u :=
  hRun.invariant (.init hEvery) fun _ _ _ h _ hStep => h.step hStep

theorem registerTimer_max (at' : Instant) : registerTimer Instant.max at' = at' := by
  have hLe : at'.ticks.toNat ≤ Instant.max.ticks.toNat := Nat.le_of_lt_succ at'.ticks.toNat_lt
  have hMin := Instant.min_toNat (a := Instant.max) (b := at')
  rw [show Nat.min _ _ = _ from Nat.min_eq_right hLe, UInt64.toNat_inj] at hMin
  exact congrArg Instant.mk hMin

/-- In every run, the ticker is at the start and a multiple of the duration. A poll yields a
tick exactly if the ticker has expired, and else registers when it will; then so many ticks
were yielded as durations have passed. -/
theorem ticker_on_schedule {start task : Instant} {d : Duration} {ticker : Ticker}
    (hEvery : every start d = some ticker) {u : Polled}
    (hRun : Run step (fun _ _ => True) (init ticker start task) u) :
    u.ticker.expiresAt.ticks.toNat = start.ticks.toNat + (u.yields + 1) * d.ticks.toNat ∧
    ∀ now, u.now ≤ now →
      (0 < d.ticks.toNat →
        u.yields ≤ (now.ticks.toNat - start.ticks.toNat) / d.ticks.toNat) ∧
      (u.ticker.expiresAt ≤ now → start.ticks.toNat + (u.yields + 2) * d.ticks.toNat < 2 ^ 64 →
        ∃ e : Instant, e.ticks.toNat = start.ticks.toNat + (u.yields + 2) * d.ticks.toNat ∧
          u.ticker.pollNext now u.task = some (⟨e, d⟩, u.task, .ready (some ()))) ∧
      (¬ u.ticker.expiresAt ≤ now →
        u.ticker.pollNext now u.task =
          some (u.ticker, registerTimer u.task u.ticker.expiresAt, .pending) ∧
        (u.task = Instant.max →
          registerTimer u.task u.ticker.expiresAt = u.ticker.expiresAt) ∧
        u.yields = (now.ticks.toNat - start.ticks.toNat) / d.ticks.toNat) := by
  have h := OnSchedule.run hEvery hRun
  refine ⟨h.expiresAt, fun now hNow => ?_⟩
  have hSince := Nat.le_trans h.passed (Instant.le_iff.mp hNow)
  have hLe : u.yields * d.ticks.toNat ≤ now.ticks.toNat - start.ticks.toNat := by omega
  refine ⟨fun hPos => (Nat.le_div_iff_mul_le hPos).mpr hLe, fun hExpired hFits => ?_,
    fun hLater => ?_⟩
  · have hNext : u.ticker.expiresAt.ticks.toNat + u.ticker.duration.ticks.toNat =
        start.ticks.toNat + (u.yields + 2) * d.ticks.toNat := by
      rw [h.duration, h.expiresAt, Nat.add_assoc, ← Nat.succ_mul]
    rcases pollNext_cases u.ticker now u.task with
      ⟨-, ⟨e, he, hPoll⟩ | ⟨hOver, -⟩⟩ | ⟨hLater, -⟩
    · rw [h.duration] at hPoll
      exact ⟨e, he.trans hNext, hPoll⟩
    · omega
    · exact absurd hExpired hLater
  · rcases pollNext_cases u.ticker now u.task with
      ⟨hExpired, -⟩ | ⟨-, hPoll⟩
    · exact absurd hExpired hLater
    · refine ⟨hPoll, fun hMax => ?_, ?_⟩
      · rw [hMax, registerTimer_max]
      · rw [Instant.le_iff, h.expiresAt] at hLater
        have hLt : now.ticks.toNat - start.ticks.toNat < (u.yields + 1) * d.ticks.toNat := by
          omega
        exact (Nat.div_eq_of_lt_le hLe hLt).symm

/-- Two ticks are late, and both are yielded; the next is still on time. -/
theorem ticker_on_schedule_late : ∃ (ticker : Ticker) (u : Polled),
    every ⟨5⟩ ⟨10⟩ = some ticker ∧
    Run step (fun _ _ => True) (init ticker ⟨5⟩ Instant.max) u ∧ u.yields = 2 ∧
    u.ticker.expiresAt.ticks.toNat = 5 + 3 * 10 ∧
    u.ticker.pollNext ⟨34⟩ u.task = some (u.ticker, registerTimer u.task ⟨35⟩, .pending) := by
  have hRun : Run step (fun _ _ => True) (init ⟨⟨15⟩, ⟨10⟩⟩ ⟨5⟩ Instant.max) _ :=
    Run.execOk_get _ [.poll ⟨6⟩, .task Instant.max, .poll ⟨27⟩, .poll ⟨27⟩, .poll ⟨27⟩]
      (by decide +kernel)
  have hEvery : every ⟨5⟩ ⟨10⟩ = some ⟨⟨15⟩, ⟨10⟩⟩ := by decide
  obtain ⟨hExpires, hPoll⟩ := ticker_on_schedule hEvery hRun
  exact ⟨_, _, hEvery, hRun, by decide +kernel, hExpires,
    ((hPoll ⟨34⟩ (by decide +kernel)).2.2 (by decide +kernel)).1⟩

end Ticker

end Embassy.Executor
