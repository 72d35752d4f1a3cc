import Embassy.Std.Signaler

/-!
# The std executor and its clock

`Signaler::wait` reads the clock, which counts full ticks, and blocks for what is left up to the
alarm, in full nanoseconds. Here the machine of `Embassy.Std` runs beside a clock that counts
nanoseconds: what `StdClock::now` returns is given by it, and `wait_timeout` reports a timeout
only if the duration has passed since it was called. Time passes at any moment and in any
amount. To read the clock and to block are two steps, and the thread may lose the processor
between them; the wait then ends late by as much.

Main results:

* `wakes_in_time` — a sleeping task is not kept waiting for a tick after its deadline, but for
  that delay.
* `expired_in_time` — and its deadline has passed before the timer queue hands it on.
-/

namespace Embassy.Std

open Embassy.Lib Embassy.Executor

-- ---------------------------------------------------------------------------
-- Ticks and nanoseconds
-- ---------------------------------------------------------------------------

/-- The nanoseconds of a second. -/
def nanosPerSecond : Nat := 1000000000

/-- `StdClock::now`, by the nanoseconds since `CLOCK_ZERO`. -/
def now (elapsed : Nat) : Nat :=
  elapsed / nanosPerSecond * ticksPerSecond +
    elapsed % nanosPerSecond * ticksPerSecond / nanosPerSecond

/-- A duration of seconds and nanoseconds. -/
def nanos (dur : Nat × Nat) : Nat := dur.1 * nanosPerSecond + dur.2

theorem now_eq (elapsed : Nat) : now elapsed = elapsed * ticksPerSecond / nanosPerSecond := by
  have hSplit : elapsed * ticksPerSecond = elapsed % nanosPerSecond * ticksPerSecond +
      nanosPerSecond * (elapsed / nanosPerSecond * ticksPerSecond) := by
    rw [← Nat.mul_assoc, ← Nat.add_mul, Nat.mod_add_div]
  rw [hSplit, Nat.add_mul_div_left _ _ (by decide), Nat.add_comm]
  rfl

theorem nanos_timeout (left : Nat) :
    nanos (timeout left) = left * nanosPerSecond / ticksPerSecond := by
  have hSplit : left * nanosPerSecond = left % ticksPerSecond * nanosPerSecond +
      ticksPerSecond * (left / ticksPerSecond * nanosPerSecond) := by
    rw [← Nat.mul_assoc, ← Nat.add_mul, Nat.mod_add_div]
  rw [hSplit, Nat.add_mul_div_left _ _ (by decide), Nat.add_comm]
  rfl

theorem now_mono {m n : Nat} (h : m ≤ n) : now m ≤ now n := by
  rw [now_eq, now_eq]
  exact Nat.div_le_div_right (Nat.mul_le_mul_right _ h)

/-- A tick that the clock has counted has passed. -/
theorem passed {t elapsed : Nat} (h : t ≤ now elapsed) :
    t * nanosPerSecond ≤ elapsed * ticksPerSecond := by
  rw [now_eq] at h
  exact Nat.le_trans (Nat.mul_le_mul_right _ h) (Nat.div_mul_le_self _ _)

/-- The clock counts only full ticks, so that the wait may end late, but not by a tick. -/
theorem ends_in_time {readAt alarmAt : Nat} (h : now readAt < alarmAt) :
    (readAt + nanos (timeout (alarmAt - now readAt))) * ticksPerSecond <
      (alarmAt + 1) * nanosPerSecond := by
  have hRead : readAt * ticksPerSecond < (now readAt + 1) * nanosPerSecond := by
    rw [now_eq, Nat.mul_comm _ nanosPerSecond]
    exact Nat.lt_mul_div_succ _ (by decide)
  have hWait : nanos (timeout (alarmAt - now readAt)) * ticksPerSecond ≤
      (alarmAt - now readAt) * nanosPerSecond := by
    rw [nanos_timeout]
    exact Nat.div_mul_le_self _ _
  calc (readAt + nanos (timeout (alarmAt - now readAt))) * ticksPerSecond
      = readAt * ticksPerSecond + nanos (timeout (alarmAt - now readAt)) * ticksPerSecond :=
        Nat.add_mul _ _ _
    _ < (now readAt + 1) * nanosPerSecond + (alarmAt - now readAt) * nanosPerSecond :=
        Nat.add_lt_add_of_lt_of_le hRead hWait
    _ = (alarmAt + 1) * nanosPerSecond := by
        rw [← Nat.add_mul]
        congr 1
        omega

-- ---------------------------------------------------------------------------
-- The machine
-- ---------------------------------------------------------------------------

structure Clocked (Task Agent : Type) where
  std : State Task Agent
  /-- The nanoseconds since `CLOCK_ZERO`. -/
  elapsed : Nat
  /-- The same, as `wait` has read the clock, until it goes on. -/
  reading : Option Nat
  /-- The same, as `wait_timeout` was called last. -/
  blockedAt : Nat

inductive ClockedAction (Task Agent : Type) where
  | std (a : Action Task Agent)
  /-- `StdClock.now()` in `wait`. -/
  | readClock
  | elapse (nanos : Nat)
  deriving DecidableEq, Repr

variable {Task Agent : Type}

namespace Clocked

def init (Task Agent : Type) : Clocked Task Agent where
  std := Std.init Task Agent
  elapsed := 0
  reading := none
  blockedAt := 0

/-- What the clock has to say about the step. `wait` goes by what it has read before. -/
def timed (s : Clocked Task Agent) : Action Task Agent → Bool
  | .runQueued t => t == now s.elapsed
  | .readNow t => s.reading.map now == some t
  | .wake true =>
    match s.std.loop with
    | .waitTimeout dur => decide (s.blockedAt + nanos dur ≤ s.elapsed)
    | _ => true
  | _ => true

def after (s : Clocked Task Agent) (std : State Task Agent) :
    Action Task Agent → Clocked Task Agent
  | .readNow _ => { s with std := std, reading := none, blockedAt := s.elapsed }
  | _ => { s with std := std }

/-- `wait` blocks within `delay` of reading the clock, and the condition variable does not
exceed its timeout. -/
def Prompt (delay : Nat) (s : Clocked Task Agent) : ClockedAction Task Agent → Prop
  | .std (.readNow _) => ∀ readAt, s.reading = some readAt → s.elapsed ≤ readAt + delay
  | .elapse n => ∀ dur, s.std.loop = .waitTimeout dur → s.elapsed + n ≤ s.blockedAt + nanos dur
  | _ => True

instance (delay : Nat) (s : Clocked Task Agent) : DecidablePred (s.Prompt delay) := fun a =>
  match a with
  | .std (.readNow _) =>
    match hReading : s.reading with
    | some readAt => decidable_of_iff (s.elapsed ≤ readAt + delay) (by simp [Prompt, hReading])
    | none => isTrue (by simp [Prompt, hReading])
  | .elapse n =>
    match hLoop : s.std.loop with
    | .waitTimeout dur =>
      decidable_of_iff (s.elapsed + n ≤ s.blockedAt + nanos dur) (by simp [Prompt, hLoop])
    | .call | .runQueued | .lock | .test | .readAlarm | .readNow _ | .wait | .reset =>
      isTrue (by simp [Prompt, hLoop])
  | .readClock | .std (.inner _) | .std (.signal _) | .std (.runQueued _) | .std .next
  | .std (.wake _) => isTrue trivial

variable [DecidableEq Task] [DecidableEq Agent]

def step (s : Clocked Task Agent) : ClockedAction Task Agent → Option (Clocked Task Agent)
  | .std a => if s.timed a then (Std.step s.std a).map fun std => s.after std a else none
  | .readClock =>
    match s.std.loop, s.reading with
    | .readNow _, none => some { s with reading := some s.elapsed }
    | _, _ => none
  | .elapse n => some { s with elapsed := s.elapsed + n }

-- ---------------------------------------------------------------------------
-- The invariant
-- ---------------------------------------------------------------------------

variable {s s' : Clocked Task Agent}

/-- A wait with a timeout is for what was left up to the alarm when the clock was read; it
began in time and is not over yet, if the steps are `prompt`. -/
structure Waits (prompt : Prop) (delay alarmAt blockedAt elapsed : Nat) (dur : Nat × Nat)
    (readAt : Nat) : Prop where
  left : now readAt < alarmAt
  dur_eq : dur = timeout (alarmAt - now readAt)
  begins : prompt → blockedAt ≤ readAt + delay
  inTime : prompt → elapsed ≤ blockedAt + nanos dur

structure ClockInv (prompt : Prop) (delay : Nat) (s : Clocked Task Agent) : Prop where
  signaler : SignalerInv s.std
  /-- `wait` goes by the alarm. -/
  reading : ∀ alarmAt, s.std.loop = .readNow alarmAt → s.std.alarmAt = alarmAt
  waiting : ∀ dur, s.std.loop = .waitTimeout dur →
    ∃ readAt, Waits prompt delay s.std.alarmAt s.blockedAt s.elapsed dur readAt
  /-- `run_queued` goes by a time that has passed. -/
  past : ∀ t, (s.std.inner.drain ()).closure = some (.dequeueExpired t) → t ≤ now s.elapsed

variable {prompt : Prop} {delay : Nat}

theorem clockInv_init : (init Task Agent).ClockInv prompt delay where
  signaler := signalerInv_init
  reading _ h := nomatch h
  waiting _ h := nomatch h
  past _ h := nomatch h

/-- The tasks, the other threads or `run_queued` make a step. -/
theorem ClockInv.inner (hI : s.ClockInv prompt delay) {b : Executor.Action Task Unit Agent}
    {i : Executor.State Task Unit Agent} {std : State Task Agent}
    (h : Executor.step (fun _ => true) s.std.inner b = some i) (hb : ∀ t, b ≠ .runQueued () t)
    (hInner : std.inner = i) (hLoop : std.loop = s.std.loop) (hSignaler : SignalerInv std) :
    ClockInv prompt delay { s with std := std } := by
  have hAlarm (hNot : s.std.loop ≠ .runQueued) : std.alarmAt = s.std.alarmAt := by
    rw [State.alarmAt, State.alarmAt, hInner, alarm_step h (hI.signaler.idle hNot)]
  refine ⟨hSignaler, fun alarmAt hRead => ?_, fun dur hWait => ?_, fun t ht => ?_⟩
  · have hRead : s.std.loop = .readNow alarmAt := hLoop ▸ hRead
    rw [hAlarm (by simp [hRead])]
    exact hI.reading alarmAt hRead
  · have hWait : s.std.loop = .waitTimeout dur := hLoop ▸ hWait
    show ∃ readAt, Waits prompt delay std.alarmAt s.blockedAt s.elapsed dur readAt
    rw [hAlarm (by simp [hWait])]
    exact hI.waiting dur hWait
  · have ht : (i.drain ()).closure = some (.dequeueExpired t) := hInner ▸ ht
    exact hI.past t ((closure_step h ht).resolve_left (hb t))

/-- The thread goes on, and the executor is left alone. -/
theorem ClockInv.goto (hI : s.ClockInv prompt delay) {std : State Task Agent}
    {reading : Option Nat} {blockedAt : Nat} (hSignaler : SignalerInv std)
    (hInner : std.inner = s.std.inner)
    (hReading : ∀ alarmAt, std.loop = .readNow alarmAt → s.std.alarmAt = alarmAt)
    (hWaiting : ∀ dur, std.loop = .waitTimeout dur →
      ∃ readAt, Waits prompt delay s.std.alarmAt blockedAt s.elapsed dur readAt) :
    ClockInv prompt delay { s with std := std, reading := reading, blockedAt := blockedAt } := by
  have hAlarm : std.alarmAt = s.std.alarmAt := by rw [State.alarmAt, State.alarmAt, hInner]
  refine ⟨hSignaler, fun alarmAt h => hAlarm.trans (hReading alarmAt h), fun dur h => ?_,
    fun t ht => hI.past t (hInner ▸ ht)⟩
  show ∃ readAt, Waits prompt delay std.alarmAt blockedAt s.elapsed dur readAt
  rw [hAlarm]
  exact hWaiting dur h

/-- The thread goes on, and holds neither the alarm nor a timeout. -/
theorem ClockInv.pass (hI : s.ClockInv prompt delay) {std : State Task Agent}
    {reading : Option Nat} {blockedAt : Nat} (hSignaler : SignalerInv std)
    (hInner : std.inner = s.std.inner)
    (hReading : ∀ alarmAt, std.loop ≠ .readNow alarmAt)
    (hWaiting : ∀ dur, std.loop ≠ .waitTimeout dur) :
    ClockInv prompt delay { s with std := std, reading := reading, blockedAt := blockedAt } :=
  hI.goto hSignaler hInner (fun alarmAt h => absurd h (hReading alarmAt))
    fun dur h => absurd h (hWaiting dur)

theorem ClockInv.std {a : Action Task Agent} {std : State Task Agent}
    (hI : s.ClockInv prompt delay) (hPrompt : prompt → s.Prompt delay (.std a))
    (hTimed : s.timed a = true) (h : Std.step s.std a = some std) :
    (s.after std a).ClockInv prompt delay := by
  have hSignaler := hI.signaler.step h
  cases a with
  -- a step of the executor other than its own call leaves the loop alone
  | inner b =>
    obtain ⟨hb, h⟩ := Option.ite_none_right_eq_some.mp h
    obtain ⟨i, hi, rfl⟩ := Option.map_eq_some_iff.mp h
    refine hI.inner hi ?_ rfl rfl hSignaler
    rintro t rfl
    cases hb
  | signal x =>
    obtain ⟨-, h⟩ := Option.ite_none_right_eq_some.mp h
    obtain ⟨i, hi, rfl⟩ := Option.map_eq_some_iff.mp h
    exact hI.inner hi (by simp) rfl rfl hSignaler
  -- the call dequeues what expired before the time it is given, which is now
  | runQueued t =>
    obtain ⟨-, h⟩ := Option.ite_none_right_eq_some.mp h
    obtain ⟨i, hi, rfl⟩ := Option.map_eq_some_iff.mp h
    refine ⟨hSignaler, fun _ h => (nomatch h), fun _ h => (nomatch h), fun t' ht => ?_⟩
    rcases closure_step hi ht with hEq | hBefore
    · cases hEq
      exact Nat.le_of_eq (beq_iff_eq.mp hTimed)
    · exact hI.past t' hBefore
  -- the loop's own steps: only `readAlarm` and `readNow` keep what was read
  | next =>
    cases hLoop : s.std.loop with
    | runQueued =>
      simp only [Std.step, hLoop] at h
      obtain ⟨-, h⟩ := Option.ite_none_right_eq_some.mp h
      cases h
      exact hI.pass hSignaler rfl (by simp) (by simp)
    | lock | reset =>
      simp only [Std.step, hLoop] at h
      cases h
      exact hI.pass hSignaler rfl (by simp) (by simp)
    | test =>
      simp only [Std.step, hLoop] at h
      cases h
      -- neither place the test leads to holds a time
      have hNext : (if s.std.signaled then Loop.reset else .readAlarm) = .reset ∨
          (if s.std.signaled then Loop.reset else .readAlarm) = .readAlarm := ite_eq_or_eq ..
      refine hI.pass hSignaler rfl (fun _ h => ?_) fun _ h => ?_
      · rcases hNext with hEq | hEq <;> cases hEq.symm.trans h
      · rcases hNext with hEq | hEq <;> cases hEq.symm.trans h
    -- the alarm is read under the lock, and the time is read next
    | readAlarm =>
      simp only [Std.step, hLoop] at h
      rcases ite_eq_iff.mp h with ⟨-, h⟩ | ⟨-, h⟩
      · cases h
        exact hI.pass hSignaler rfl (by simp) (by simp)
      · cases h
        refine hI.goto hSignaler rfl (fun alarmAt h => ?_) fun dur h => ?_
        · cases h
          rfl
        · cases h
    | call | readNow | wait | waitTimeout =>
      simp only [Std.step, hLoop] at h
      cases h
  | readNow t =>
    cases hLoop : s.std.loop with
    | readNow alarmAt =>
      -- the timeout is the alarm's time less the time read a step before
      have hAlarm := hI.reading alarmAt hLoop
      obtain ⟨readAt, hReading, rfl⟩ := Option.map_eq_some_iff.mp (beq_iff_eq.mp hTimed)
      simp only [Std.step, hLoop] at h
      rcases ite_eq_iff.mp h with ⟨-, h⟩ | ⟨hLater, h⟩
      · cases h
        exact hI.pass hSignaler rfl (by simp) (by simp)
      · cases h
        refine hI.goto hSignaler rfl (fun alarmAt h => ?_) fun dur h => ?_
        · cases h
        · cases h
          rw [hAlarm]
          exact ⟨readAt, Nat.lt_of_not_le hLater, rfl, fun h => hPrompt h readAt hReading,
            fun _ => Nat.le_add_right ..⟩
    | call | runQueued | lock | test | readAlarm | wait | waitTimeout | reset =>
      simp only [Std.step, hLoop] at h
      cases h
  -- woken, by the condition or the timeout: the loop starts again
  | wake timedOut =>
    cases hLoop : s.std.loop with
    | wait =>
      simp only [Std.step, hLoop] at h
      cases h
      exact hI.pass hSignaler rfl (by simp) (by simp)
    | waitTimeout dur =>
      simp only [Std.step, hLoop] at h
      cases h
      cases timedOut with
      | false => exact hI.pass hSignaler rfl (by simp) (by simp)
      | true => exact hI.pass hSignaler rfl (by simp) (by simp)
    | call | runQueued | lock | test | readAlarm | readNow | reset =>
      simp only [Std.step, hLoop] at h
      cases h

theorem clockInv_step {a : ClockedAction Task Agent} (hI : s.ClockInv prompt delay)
    (hPrompt : prompt → s.Prompt delay a) (hs : s.step a = some s') :
    s'.ClockInv prompt delay := by
  cases a with
  | std a =>
    obtain ⟨hTimed, hs⟩ := Option.ite_none_right_eq_some.mp hs
    obtain ⟨std, hStd, rfl⟩ := Option.map_eq_some_iff.mp hs
    exact hI.std hPrompt hTimed hStd
  | readClock =>
    simp only [step] at hs
    split at hs
    · cases hs
      exact ⟨hI.signaler, hI.reading, hI.waiting, hI.past⟩
    · cases hs
  | elapse n =>
    cases hs
    refine ⟨hI.signaler, hI.reading, fun dur hLoop => ?_, fun t ht => ?_⟩
    · obtain ⟨readAt, hWaits⟩ := hI.waiting dur hLoop
      exact ⟨readAt, hWaits.left, hWaits.dur_eq, hWaits.begins, fun h => hPrompt h dur hLoop⟩
    · exact Nat.le_trans (hI.past t ht) (now_mono (Nat.le_add_right ..))

-- ---------------------------------------------------------------------------
-- Runs
-- ---------------------------------------------------------------------------

/--
**The std executor is in time.** Whatever the tasks and the other threads do and whenever the
condition variable returns, as long as it does not exceed its timeout, and the thread blocks
within `delay` nanoseconds of reading the clock: while it is blocked, no deadline that a
sleeping task waits for (`Instant::MAX` is none) is a full tick and that delay ago.
-/
theorem wakes_in_time (hRun : Run step (Prompt delay) (init Task Agent) s)
    (hWaiting : s.std.loop.waiting = true) {t : Task} (hAsleep : s.std.inner.Asleep t)
    {deadline : Nat} (hMem : deadline ∈ s.std.inner.deadlines t) (hMax : deadline < instantMax) :
    s.elapsed * ticksPerSecond < (deadline + 1) * nanosPerSecond + delay * ticksPerSecond := by
  have hI : s.ClockInv True delay := hRun.invariant (I := ClockInv True delay) clockInv_init
    fun _ _ _ hI hPrompt hs => clockInv_step hI (fun _ => hPrompt) hs
  -- the thread waits outside the call, so the alarm is that of the last one
  have hIdle : s.std.inner.drain () = .idle := hI.signaler.idle fun hLoop => by
    rw [hLoop] at hWaiting
    cases hWaiting
  obtain ⟨value, hAlarm, hLe⟩ := alarm_le hI.signaler.reach hIdle hAsleep hMem hMax
  have hValue : s.std.alarmAt = value := by rw [State.alarmAt, hAlarm, Option.getD_some]
  cases hLoop : s.std.loop with
  | waitTimeout dur =>
    -- the timeout counts from where the wait begins, `delay` after the reading
    obtain ⟨readAt, hLeft, rfl, hBegins, hInTime⟩ := hI.waiting dur hLoop
    have hElapsed : s.elapsed ≤
        readAt + nanos (timeout (s.std.alarmAt - now readAt)) + delay := by
      have := hBegins trivial
      have := hInTime trivial
      omega
    calc s.elapsed * ticksPerSecond
        ≤ (readAt + nanos (timeout (s.std.alarmAt - now readAt)) + delay) * ticksPerSecond :=
          Nat.mul_le_mul_right _ hElapsed
      _ = (readAt + nanos (timeout (s.std.alarmAt - now readAt))) * ticksPerSecond +
            delay * ticksPerSecond := Nat.add_mul ..
      _ < (s.std.alarmAt + 1) * nanosPerSecond + delay * ticksPerSecond :=
          Nat.add_lt_add_right (ends_in_time hLeft) _
      _ ≤ (deadline + 1) * nanosPerSecond + delay * ticksPerSecond :=
          Nat.add_le_add_right
            (Nat.mul_le_mul_right _ (Nat.succ_le_succ (hValue ▸ hLe))) _
  | wait =>
    -- it waits without a timeout only when no alarm is set
    have hNone : value = instantMax := hValue ▸ hI.signaler.untimed hLoop
    omega
  | call | runQueued | lock | test | readAlarm | readNow | reset =>
    rw [hLoop] at hWaiting
    cases hWaiting

/-- A task waits for the ticks 12 and 10. The clock is read at the end of the tick 0, and the
thread blocks 50 µs later: it is still blocked in the tick 12. -/
theorem wakes_in_time_late : ∃ s : Clocked Nat Unit,
    Run step (Prompt 50000) (init Nat Unit) s ∧
      12 * nanosPerSecond < s.elapsed * ticksPerSecond ∧
      s.elapsed * ticksPerSecond < (10 + 1) * nanosPerSecond + 50000 * ticksPerSecond := by
  have hRun : Run step (Prompt 50000) (init Nat Unit) _ :=
    Run.execOk_get _ ([(spawnActions () 0 ()).dropLast.map (.std ∘ .inner),
      [.std (.signal (.agent ())), .std (.runQueued 0)],
      List.replicate 6 (.std (.inner (.drain ()))),
      [.std (.inner (.registerTimer () 12)), .std (.inner (.registerTimer () 10)),
        .std (.inner (.pollReturn () false))],
      List.replicate 9 (.std (.inner (.drain ()))),
      List.replicate 4 (.std .next), [.std (.runQueued 0)],
      List.replicate 9 (.std (.inner (.drain ()))), List.replicate 4 (.std .next),
      [.elapse 30000, .readClock, .elapse 50000, .std (.readNow 0), .elapse 305175]] :
        List (List (ClockedAction Nat Unit))).flatten (by decide +kernel)
  exact ⟨_, hRun, by decide +kernel, wakes_in_time hRun (by decide +kernel) (t := 0)
    ⟨by decide +kernel, by decide +kernel⟩ (by decide +kernel) (by decide)⟩

/--
**Nobody is woken early**, however late the condition variable returns: where the timer queue
hands a task on to be woken, its `expires_at` has passed; and if it sleeps, so has a deadline
that it waits for.
-/
theorem expired_in_time (hRun : Run step (fun _ _ => True) (init Task Agent) s)
    (hs : s.step (.std (.inner (.drain ()))) = some s') {f : Closure} {prev : Link Task}
    {p : Task} (hTask : s'.std.inner.drain () = .onTask f prev p) :
    s.std.inner.expiresAt p * nanosPerSecond ≤ s.elapsed * ticksPerSecond ∧
      (s.std.inner.Asleep p →
        s.std.inner.minDeadline p * nanosPerSecond ≤ s.elapsed * ticksPerSecond) := by
  have hI : s.ClockInv False 0 := hRun.invariant (I := ClockInv False 0) clockInv_init
    fun _ _ _ hI _ hs => clockInv_step hI (fun h => h.elim) hs
  have hTimed : s.timed (.inner (.drain ())) = true := rfl
  have hInterleaved : interleaved s.std.inner (.drain ()) = true := rfl
  rw [step, if_pos hTimed] at hs
  obtain ⟨std, hStd, rfl⟩ := Option.map_eq_some_iff.mp hs
  rw [Std.step, if_pos hInterleaved] at hStd
  obtain ⟨i, hi, rfl⟩ := Option.map_eq_some_iff.mp hStd
  obtain ⟨t, hD, hLe⟩ := expiresAt_le_now hi hTask
  have hPast := passed (Nat.le_trans hLe (hI.past t (by rw [hD]; rfl)))
  obtain ⟨tq, hT⟩ := timerInv_of_run hI.signaler.reach
  refine ⟨hPast, fun hAsleep => ?_⟩
  rwa [← hT.current p (.inl hAsleep) (by simp [hD])]

/-- The wait ends late, at the tick 10, and the task is handed on. -/
theorem expired_in_time_late : ∃ s : Clocked Nat Unit,
    Run step (fun _ _ => True) (init Nat Unit) s ∧ now s.elapsed = 10 ∧
      s.std.inner.drain () = .filter (.dequeueExpired 10) .head 0 ∧
      s.std.inner.expiresAt 0 * nanosPerSecond ≤ s.elapsed * ticksPerSecond := by
  obtain ⟨s, hRun, hNow, hDrain, hSome⟩ : ∃ s : Clocked Nat Unit,
      Run step (fun _ _ => True) (init Nat Unit) s ∧ now s.elapsed = 10 ∧
        s.std.inner.drain () = .filter (.dequeueExpired 10) .head 0 ∧
        ((s.step (.std (.inner (.drain ())))).any fun s' =>
          decide (s'.std.inner.drain () = .onTask (.dequeueExpired 10) .head 0)) = true := by
    have hRun : Run step (fun _ _ => True) (init Nat Unit) _ :=
      Run.execOk_get _ ([(spawnActions () 0 ()).dropLast.map (.std ∘ .inner),
        [.std (.signal (.agent ())), .std (.runQueued 0)],
        List.replicate 6 (.std (.inner (.drain ()))),
        [.std (.inner (.registerTimer () 10)), .std (.inner (.pollReturn () false))],
        List.replicate 9 (.std (.inner (.drain ()))),
        List.replicate 4 (.std .next), [.std (.runQueued 0)],
        List.replicate 9 (.std (.inner (.drain ()))), List.replicate 4 (.std .next),
        [.readClock, .std (.readNow 0), .elapse 310000, .std (.wake true), .std .next,
          .std (.runQueued 10), .std (.inner (.drain ()))]] :
          List (List (ClockedAction Nat Unit))).flatten (by decide +kernel)
    exact ⟨_, hRun, by decide +kernel, by decide +kernel, by decide +kernel⟩
  obtain ⟨s', hs, hTask⟩ := Option.any_eq_true _ _ |>.mp hSome
  exact ⟨s, hRun, hNow, hDrain, (expired_in_time hRun hs (of_decide_eq_true hTask)).1⟩

end Clocked

end Embassy.Std
