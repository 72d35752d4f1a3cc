import Embassy.Executor.Timer

/-!
# Futures with a timeout

`with_timeout` of `embassy/src/executor/timer.rs`: a `select` of a future and of a timer. The
timer is made by the first poll, not by the call. The future is any: what a poll of it
returns, and the earliest deadline that it registers. `select` is a function of the crate
`futures`; it is any that keeps to `Selects`, which leaves open which of the two it polls
first.

* `Timeout.selected_before`, `Timeout.selected_after` — what a poll returns, in either order.
* `Timeout.timeout_on_time` — no poll reports the timeout before it, none after it is pending,
  and the deadline of the task is never later.
-/

namespace Embassy.Executor

open Lib Util Time

/-- `TimeoutError` -/
inductive TimeoutError where
  | error
  deriving DecidableEq, Repr

variable {F R : Type}

/-- The future, with the deadline that it has registered in this poll; `Instant.max` if none. -/
abbrev PollFn (F R : Type) := F → F × Instant × Poll R

/-- `with_timeout`, up to its first poll, at its `await`, and after it. -/
inductive WithTimeout (F R : Type) where
  | created (timeout : Duration) (fut : F)
  | select (fut : F) (timeoutFut : Timer)
  | returned (result : Except TimeoutError R)

/-- What a poll of `select` returns: the output of the future, that of the timer, or neither. -/
inductive Selected (F R : Type) where
  | left (r : R)
  | right
  | pending (fut : F) (timeoutFut : Timer)

/-- A poll of `select` at the time `now`, which polls the future first if `futFirst`. The
deadline of the task comes last. -/
abbrev SelectFn (F R : Type) := Bool → F → Timer → Instant → Instant → Selected F R × Instant

/-- What `select` promises: it polls the one, and if that is pending the other, and ends with
the first that is ready. -/
structure Selects (inner : PollFn F R) (select : SelectFn F R) : Prop where
  fut_ready : ∀ {fut fut' : F} {at' : Instant} {r : R}, inner fut = (fut', at', .ready r) →
    ∀ timer now task, select true fut timer now task = (.left r, registerTimer task at')
  fut_pending : ∀ {fut fut' : F} {at' : Instant}, inner fut = (fut', at', .pending) →
    ∀ timer now task, select true fut timer now task =
      match timer.poll now (registerTimer task at') with
      | (_, task, .ready ()) => (.right, task)
      | (timer, task, .pending) => (.pending fut' timer, task)
  timer_ready : ∀ {timer timer' : Timer} {now task task' : Instant},
    timer.poll now task = (timer', task', .ready ()) →
    ∀ fut, select false fut timer now task = (.right, task')
  timer_pending : ∀ {timer timer' : Timer} {now task task' : Instant},
    timer.poll now task = (timer', task', .pending) →
    ∀ fut, select false fut timer now task =
      match inner fut with
      | (_, at', .ready r) => (.left r, registerTimer task' at')
      | (fut, at', .pending) => (.pending fut timer', registerTimer task' at')

/-- A `select` that does so. -/
def selectEither (inner : PollFn F R) : SelectFn F R := fun futFirst fut timer now task =>
  if futFirst then
    match inner fut with
    | (_, at', .ready r) => (.left r, registerTimer task at')
    | (fut, at', .pending) =>
      match timer.poll now (registerTimer task at') with
      | (_, task, .ready ()) => (.right, task)
      | (timer, task, .pending) => (.pending fut timer, task)
  else
    match timer.poll now task with
    | (_, task, .ready ()) => (.right, task)
    | (timer, task, .pending) =>
      match inner fut with
      | (_, at', .ready r) => (.left r, registerTimer task at')
      | (fut, at', .pending) => (.pending fut timer, registerTimer task at')

theorem selects_selectEither (inner : PollFn F R) : Selects inner (selectEither inner) where
  fut_ready hInner _ _ _ := by simp [selectEither, hInner]
  fut_pending hInner _ _ _ := by simp [selectEither, hInner]
  timer_ready hTimer _ := by simp [selectEither, hTimer]
  timer_pending hTimer _ := by simp [selectEither, hTimer]

namespace WithTimeout

/-- What `with_timeout` makes of it. -/
def selected (select : SelectFn F R) (futFirst : Bool) (fut : F) (timeoutFut : Timer)
    (now task : Instant) : WithTimeout F R × Instant :=
  match select futFirst fut timeoutFut now task with
  | (.left r, task) => (.returned (.ok r), task)
  | (.right, task) => (.returned (.error .error), task)
  | (.pending fut timeoutFut, task) => (.select fut timeoutFut, task)

/-- `none` is the overflow of the instant, and a poll after completion. The clock is read at
`start` for the timer to be made, and at `now` when it is polled. -/
def poll (select : SelectFn F R) (self : WithTimeout F R) (futFirst : Bool)
    (start now task : Instant) : Option (WithTimeout F R × Instant) :=
  match self with
  | .created timeout fut => do
    let timeoutFut ← Timer.after start timeout
    some (selected select futFirst fut timeoutFut now task)
  | .select fut timeoutFut => some (selected select futFirst fut timeoutFut now task)
  | .returned _ => none

end WithTimeout

namespace Timeout

open WithTimeout

/-- What a poll is to return before the timeout: what the future returns, and if that is
pending, the timer is registered. -/
def unaffected (inner : PollFn F R) (fut : F) (expiresAt task : Instant) :
    WithTimeout F R → Instant → Prop := fun self task' =>
  match inner fut with
  | (_, _, .ready r) => self = .returned (.ok r)
  | (fut, at', .pending) => self = .select fut ⟨expiresAt, true⟩ ∧
      task'.ticks.toNat = min task.ticks.toNat (min at'.ticks.toNat expiresAt.ticks.toNat)

theorem registerTimer_toNat (task at' : Instant) :
    (registerTimer task at').ticks.toNat = min task.ticks.toNat at'.ticks.toNat :=
  Instant.min_toNat

variable {inner : PollFn F R} {select : SelectFn F R}

/-- The timer has not been polled, or does not expire yet. -/
theorem selected_before (hSelect : Selects inner select) (futFirst : Bool) (fut : F)
    {timer : Timer} {now : Instant} (task : Instant)
    (hBefore : ¬(timer.yieldedOnce = true ∧ timer.expiresAt ≤ now)) :
    unaffected inner fut timer.expiresAt task
      (selected select futFirst fut timer now task).1
      (selected select futFirst fut timer now task).2 := by
  have hTimer (task : Instant) : timer.poll now task =
      (⟨timer.expiresAt, true⟩, registerTimer task timer.expiresAt, .pending) := if_neg hBefore
  rcases hInner : inner fut with ⟨fut', at', p⟩
  cases futFirst with
  | true =>
    cases p with
    | ready r => simp [unaffected, selected, hInner, hSelect.fut_ready hInner]
    | pending =>
      simp only [unaffected, selected, hInner, hSelect.fut_pending hInner, hTimer,
        registerTimer_toNat, true_and]
      omega
  | false =>
    have hEither := hSelect.timer_pending (hTimer task) fut
    cases p with
    | ready r => simp [unaffected, selected, hInner, hEither]
    | pending =>
      simp only [unaffected, selected, hInner, hEither, registerTimer_toNat, true_and]
      omega

/-- The timer expires: the future is heard once more if it is polled first. -/
theorem selected_after (hSelect : Selects inner select) (futFirst : Bool) (fut : F)
    {timer : Timer} {now : Instant} (task : Instant)
    (hAfter : timer.yieldedOnce = true ∧ timer.expiresAt ≤ now) :
    (selected select futFirst fut timer now task).1 =
      match futFirst, (inner fut).2.2 with
      | true, .ready r => .returned (.ok r)
      | _, _ => .returned (.error .error) := by
  have hTimer (task : Instant) : timer.poll now task = (timer, task, .ready ()) := if_pos hAfter
  rcases hInner : inner fut with ⟨fut', at', p⟩
  cases futFirst with
  | true =>
    cases p with
    | ready r => simp [selected, hSelect.fut_ready hInner]
    | pending => simp [selected, hSelect.fut_pending hInner, hTimer]
  | false => cases p <;> simp [selected, hSelect.timer_ready (hTimer task)]

-- ---------------------------------------------------------------------------
-- Runs
-- ---------------------------------------------------------------------------

/-- The future in a task. -/
structure Session (F R : Type) where
  future : WithTimeout F R
  /-- The deadline of the task after the last poll. -/
  task : Instant
  /-- What was read last from the clock. -/
  clock : Instant
  /-- When the timer was made. -/
  start : Option Instant

inductive Action where
  /-- In a task with the deadline `task`. -/
  | poll (futFirst : Bool) (start now task : Instant)

def init (timeout : Duration) (fut : F) (clock : Instant) : Session F R where
  future := .created timeout fut
  task := Instant.max
  clock := clock
  start := none

def step (select : SelectFn F R) (s : Session F R) : Action → Option (Session F R)
  | .poll futFirst start now task =>
    if s.clock ≤ start ∧ start ≤ now then
      match s.future.poll select futFirst start now task with
      | some (future, task) => some ⟨future, task, now, s.start.or (some start)⟩
      | none => none
    else none

variable {s v : Session F R} {d : Duration}

/-- `start` and the duration, as the time at which the timer expires. -/
def Expires (start : Instant) (d : Duration) (expiresAt : Instant) : Prop :=
  expiresAt.ticks.toNat = start.ticks.toNat + d.ticks.toNat

def OnTime (d : Duration) (s : Session F R) : Prop :=
  match s.future with
  | .created timeout _ => timeout = d ∧ s.start = none
  | .select _ timer => timer.yieldedOnce = true ∧
      ∃ start, s.start = some start ∧ Expires start d timer.expiresAt ∧ s.task ≤ timer.expiresAt
  | .returned (.error _) =>
      ∃ start expiresAt, s.start = some start ∧ Expires start d expiresAt ∧ expiresAt ≤ s.clock
  | .returned (.ok _) => True

/-- What a step is, with the timer that it polls. -/
theorem step_cases {futFirst : Bool} {start now task : Instant}
    (hs : step select s (.poll futFirst start now task) = some v) :
    s.clock ≤ start ∧ start ≤ now ∧ ∃ fut timer,
      ((∃ timeout, s.future = .created timeout fut ∧ timer.yieldedOnce = false ∧
          Expires start timeout timer.expiresAt) ∨ s.future = .select fut timer) ∧
      v = ⟨(selected select futFirst fut timer now task).1,
        (selected select futFirst fut timer now task).2, now, s.start.or (some start)⟩ := by
  obtain ⟨⟨hClock, hNow⟩, hs⟩ := Option.ite_none_right_eq_some.mp hs
  refine ⟨hClock, hNow, ?_⟩
  cases hFuture : s.future with
  | created timeout fut =>
    rw [hFuture, WithTimeout.poll] at hs
    cases hAfter : Timer.after start timeout with
    | none =>
      rw [hAfter] at hs
      cases hs
    | some timer =>
      rw [hAfter] at hs
      cases hs
      obtain ⟨hNew, hExpires⟩ := Delay.after_expiresAt hAfter
      exact ⟨fut, timer, .inl ⟨timeout, rfl, hNew, hExpires⟩, rfl⟩
  | select fut timer =>
    rw [hFuture, WithTimeout.poll] at hs
    cases hs
    exact ⟨fut, timer, .inr rfl, rfl⟩
  | returned =>
    rw [hFuture, WithTimeout.poll] at hs
    cases hs

/-- A poll before the timeout, which leaves the timer with this start. -/
theorem OnTime.of_unaffected {fut : F} {expiresAt task start : Instant}
    (h : unaffected inner fut expiresAt task v.future v.task) (hStart : v.start = some start)
    (hExpires : Expires start d expiresAt) : OnTime d v := by
  rcases hInner : inner fut with ⟨fut', at', p⟩
  cases p with
  | ready r =>
    have hFuture : v.future = .returned (.ok r) := by simpa only [unaffected, hInner] using h
    rw [OnTime, hFuture]
    trivial
  | pending =>
    obtain ⟨hFuture, hTask⟩ : v.future = .select fut' ⟨expiresAt, true⟩ ∧
        v.task.ticks.toNat = min task.ticks.toNat (min at'.ticks.toNat expiresAt.ticks.toNat) := by
      simpa only [unaffected, hInner] using h
    have hLe : v.task ≤ expiresAt := Instant.le_iff.mpr (by omega)
    rw [OnTime, hFuture]
    exact ⟨rfl, start, hStart, hExpires, hLe⟩

theorem OnTime.step (hSelect : Selects inner select) {a : Action} (hI : OnTime d s)
    (hs : Timeout.step select s a = some v) : OnTime d v := by
  obtain ⟨futFirst, start, now, task⟩ := a
  obtain ⟨-, -, fut, timer, ⟨timeout, hFuture, hNew, hExpires⟩ | hFuture, rfl⟩ := step_cases hs
  · rw [OnTime, hFuture] at hI
    obtain ⟨rfl, hStart⟩ := hI
    refine .of_unaffected (selected_before hSelect futFirst fut task fun h => ?_) ?_ hExpires
    · exact absurd (hNew.symm.trans h.1) (by decide)
    · rw [hStart]
      rfl
  · rw [OnTime, hFuture] at hI
    obtain ⟨hYielded, start₀, hStart, hExpires, -⟩ := hI
    by_cases hExpired : timer.expiresAt ≤ now
    · have hAfter := selected_after hSelect futFirst fut task ⟨hYielded, hExpired⟩
      cases hResult : (selected select futFirst fut timer now task).1 with
      | returned result =>
        cases result with
        | ok => exact trivial
        | error => exact ⟨start₀, timer.expiresAt, by rw [hStart]; rfl, hExpires, hExpired⟩
      | created | select =>
        rw [hResult] at hAfter
        split at hAfter <;> cases hAfter
    · refine .of_unaffected (selected_before hSelect futFirst fut task fun h => hExpired h.2) ?_
        hExpires
      rw [hStart]
      rfl

/--
**A timeout is on time**, whatever the future is, whenever it is polled and in whatever order
`select` polls the future and the timer. It is reported only when the duration has passed since
the first poll. Up to then a poll returns what the future returns, and a pending one leaves
the task with a deadline that is not later than the timeout; and from then on a poll that
finds the future still waiting is the last.
-/
theorem timeout_on_time (hSelect : Selects inner select) {fut : F} {clock : Instant}
    (hRun : Run (step select) (fun _ _ => True) (init d fut clock) s) :
    (s.future = .returned (.error .error) → ∃ start, s.start = some start ∧
      start.ticks.toNat + d.ticks.toNat ≤ s.clock.ticks.toNat) ∧
    (∀ timeout fut futFirst start now task v, s.future = .created timeout fut →
      step select s (.poll futFirst start now task) = some v →
        ∃ expiresAt, Expires start d expiresAt ∧
          unaffected inner fut expiresAt task v.future v.task) ∧
    ∀ fut timer, s.future = .select fut timer → ∃ start, s.start = some start ∧
      Expires start d timer.expiresAt ∧ s.task ≤ timer.expiresAt ∧
      ∀ futFirst start' now task v,
        step select s (.poll futFirst start' now task) = some v →
          (¬timer.expiresAt ≤ now → unaffected inner fut timer.expiresAt task v.future v.task) ∧
          (timer.expiresAt ≤ now → v.future =
            match futFirst, (inner fut).2.2 with
            | true, .ready r => .returned (.ok r)
            | _, _ => .returned (.error .error)) := by
  -- in every run the timer is that of the first poll
  have hI : OnTime d s := hRun.invariant (I := OnTime d) ⟨rfl, rfl⟩ fun _ _ _ hI _ hs =>
    hI.step hSelect hs
  refine ⟨fun hFuture => ?_, fun timeout fut futFirst start now task v hFuture hs => ?_,
    fun fut timer hFuture => ?_⟩
  · rw [OnTime, hFuture] at hI
    obtain ⟨start, expiresAt, hStart, hExpires, hPassed⟩ := hI
    exact ⟨start, hStart, hExpires ▸ Instant.le_iff.mp hPassed⟩
  · rw [OnTime, hFuture] at hI
    obtain ⟨rfl, -⟩ := hI
    obtain ⟨-, -, fut', timer, ⟨timeout', hFuture', hNew, hExpires⟩ | hFuture', rfl⟩ :=
      step_cases hs
    · cases hFuture.symm.trans hFuture'
      refine ⟨timer.expiresAt, hExpires, selected_before hSelect futFirst fut task fun h => ?_⟩
      exact absurd (hNew.symm.trans h.1) (by decide)
    · cases hFuture.symm.trans hFuture'
  · rw [OnTime, hFuture] at hI
    obtain ⟨hYielded, start, hStart, hExpires, hTask⟩ := hI
    refine ⟨start, hStart, hExpires, hTask, fun futFirst start' now task v hs => ?_⟩
    obtain ⟨-, -, fut', timer', ⟨timeout, hFuture', -⟩ | hFuture', rfl⟩ := step_cases hs
    · cases hFuture.symm.trans hFuture'
    · cases hFuture.symm.trans hFuture'
      exact ⟨fun hBefore => selected_before hSelect futFirst fut task fun h => hBefore h.2,
        fun hAfter => selected_after hSelect futFirst fut task ⟨hYielded, hAfter⟩⟩

/-- Polled in time twice, and again when the ten ticks have passed. -/
theorem timeout_on_time_third : ∃ v : Session Nat Bool,
    Run (step (selectEither fun n => (n - 1, Instant.max, if n = 0 then .ready true else .pending)))
      (fun _ _ => True) (init ⟨10⟩ 3 ⟨3⟩) v ∧ v.future = .returned (.error .error) ∧
    ∃ start, v.start = some start ∧ start.ticks.toNat + 10 ≤ v.clock.ticks.toNat := by
  have hRun : Run
      (step (selectEither fun n => (n - 1, Instant.max, if n = 0 then .ready true else .pending)))
      (fun _ _ => True) (init ⟨10⟩ 3 ⟨3⟩ : Session Nat Bool) _ :=
    Run.execOk_get _ [.poll true ⟨4⟩ ⟨5⟩ Instant.max, .poll false ⟨13⟩ ⟨13⟩ Instant.max,
      .poll true ⟨14⟩ ⟨14⟩ Instant.max] (by decide +kernel)
  exact ⟨_, hRun, rfl, (timeout_on_time (selects_selectEither _) hRun).1 rfl⟩

end Timeout

end Embassy.Executor
