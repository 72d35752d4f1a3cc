import Embassy.Executor.Returns
import Embassy.Executor.Signal
import Embassy.Executor.Slot
import Embassy.Time.Instant

/-!
# The std executor

`embassy-std`: `Executor::run` is a thread that calls `run_queued` and then
`Signaler::wait`, for ever. `Signaler` is a flag under a mutex and a condition
variable; the alarm is a static that `wait` reads to know how long to sleep.

The tasks and the other threads are those of `Embassy.Executor`, with one
executor that has an alarm. A call of `Signaler::signal` is one step, possible
while the mutex is free: it is one critical section. What `wait` does under the
mutex is split at everything it reads, and at the two calls that release the
mutex and block. The clock and the time that passes are free, a blocked thread
may wake up spuriously, and `wait_timeout` may report a timeout at any time.

`SignalerInv` carries the argument: from the swap in `run_queued` up to the
reset of the flag, a queue that is not empty has set the flag or is about to.

Main results:

* `SignalerInv.step` / `signalerInv_of_run` — every step keeps the invariant.
* `no_lost_signal` — the signal of any executor, and the sleep of this one.
-/

namespace Embassy.Std

open Embassy.Lib Embassy.Executor

-- ---------------------------------------------------------------------------
-- The thread
-- ---------------------------------------------------------------------------

/-- `TICKS_PER_SECOND`, where nothing overflows. -/
def ticksPerSecond : Nat := Time.ticksPerSecond.toNat

/-- The duration of `wait_timeout`, in seconds and nanoseconds. -/
def timeout (left : Nat) : Nat × Nat :=
  (left / ticksPerSecond, left % ticksPerSecond * 1000000000 / ticksPerSecond)

/-- The next operation of the thread in `Executor::run`. -/
inductive Loop where
  /-- it calls `run_queued`; at first it still runs the closure `init` -/
  | call
  | runQueued
  -- `Signaler::wait`
  | lock
  | test
  | readAlarm
  | readNow (alarmAt : Nat)
  | wait
  | waitTimeout (dur : Nat × Nat)
  | reset
  deriving DecidableEq, Repr

/-- The thread has the mutex. -/
def Loop.locked : Loop → Bool
  | .test | .readAlarm | .readNow _ | .reset => true
  | _ => false

/-- The thread has found the flag cleared, and has not blocked since. -/
def Loop.tested : Loop → Bool
  | .readAlarm | .readNow _ => true
  | _ => false

/-- The thread is blocked on the condition variable. -/
def Loop.waiting : Loop → Bool
  | .wait | .waitTimeout _ => true
  | _ => false

structure State (Task Agent : Type) where
  inner : Executor.State Task Unit Agent
  loop : Loop
  /-- the flag in the mutex -/
  signaled : Bool
  /-- the condition variable has been notified since the thread blocked on it -/
  notified : Bool

inductive Action (Task Agent : Type) where
  /-- a step of the tasks, the other threads, or `run_queued` -/
  | inner (a : Executor.Action Task Unit Agent)
  /-- a context calls `Signaler::signal` -/
  | signal (x : Context Agent Unit)
  | runQueued (now : Nat)
  /-- the next operation of the thread outside of `run_queued` -/
  | next
  | readNow (now : Nat)
  /-- the condition variable returns -/
  | wake (timedOut : Bool)
  deriving DecidableEq, Repr

variable {Task Agent : Type}

def init (Task Agent : Type) : State Task Agent where
  inner := Executor.init Task Unit Agent
  loop := .call
  signaled := false
  notified := false

/-- `ALARM_AT`, which is `u64::MAX` until the alarm is set. -/
def State.alarmAt (s : State Task Agent) : Nat := (s.inner.alarm ()).getD instantMax

variable [DecidableEq Task] [DecidableEq Agent]

/-- Only the thread calls `run_queued`, and a signal is a step of its own. -/
def interleaved (s : Executor.State Task Unit Agent) : Executor.Action Task Unit Agent → Bool
  | .runQueued _ _ => false
  | .advance x _ => s.pc x ≠ .signal ()
  | _ => true

def step (s : State Task Agent) : Action Task Agent → Option (State Task Agent)
  | .inner a =>
    if interleaved s.inner a then
      (Executor.step (fun _ => true) s.inner a).map fun inner => { s with inner := inner }
    else none
  | .signal x =>
    if s.inner.pc x = .signal () ∧ s.loop.locked = false then
      (Executor.step (fun _ => true) s.inner (.advance x false)).map fun inner =>
        { s with inner := inner, signaled := true, notified := s.notified || s.loop.waiting }
    else none
  | .runQueued now =>
    if s.loop = .call then
      (Executor.step (fun _ => true) s.inner (.runQueued () now)).map fun inner =>
        { s with inner := inner, loop := .runQueued }
    else none
  | .next =>
    match s.loop with
    | .runQueued => if s.inner.drain () = .idle then some { s with loop := .lock } else none
    | .lock => some { s with loop := .test }
    | .test => some { s with loop := if s.signaled then .reset else .readAlarm }
    | .readAlarm =>
      if s.alarmAt = instantMax then some { s with loop := .wait, notified := false }
      else some { s with loop := .readNow s.alarmAt }
    | .reset => some { s with loop := .call, signaled := false }
    | _ => none
  | .readNow now =>
    match s.loop with
    | .readNow alarmAt =>
      if alarmAt ≤ now then some { s with loop := .reset }
      else some { s with loop := .waitTimeout (timeout (alarmAt - now)), notified := false }
    | _ => none
  | .wake timedOut =>
    match s.loop with
    | .wait => some { s with loop := .test }
    | .waitTimeout _ => some { s with loop := if timedOut then .reset else .test }
    | _ => none

variable {s s' : State Task Agent} {a : Action Task Agent}

-- ---------------------------------------------------------------------------
-- The invariant
-- ---------------------------------------------------------------------------

/-- The thread has swapped the head of the queue since it last cleared the flag. -/
def State.Swapped (s : State Task Agent) : Prop :=
  s.loop ≠ .reset ∧ s.loop ≠ .call ∧ (s.inner.drain ()).phase ≤ 3

structure SignalerInv (s : State Task Agent) : Prop where
  reach : Executor.Reaches (fun _ => true) (Executor.init Task Unit Agent) s.inner
  idle : s.loop ≠ .runQueued → s.inner.drain () = .idle
  told : s.Swapped → s.inner.head () = none ∨ s.signaled = true ∨ SignalDue s.inner ()
  tested : s.loop.tested = true → s.signaled = false
  notified : s.loop.waiting = true → s.signaled = true → s.notified = true
  untimed : s.loop = .wait → s.alarmAt = instantMax

omit [DecidableEq Task] [DecidableEq Agent] in
theorem State.Swapped.of_idle (hIdle : s.inner.drain () = .idle) (hReset : s.loop ≠ .reset)
    (hCall : s.loop ≠ .call) : s.Swapped :=
  ⟨hReset, hCall, by simp [hIdle, Drain.phase]⟩

theorem signalerInv_init : SignalerInv (init Task Agent) where
  reach := .refl
  idle := fun _ => rfl
  told := fun h => absurd rfl h.2.1
  tested := fun _ => rfl
  notified := by simp [init, Loop.waiting]
  untimed := by simp [init]

namespace SignalerInv

/-- The thread goes on in `wait`, and the executor is left alone. -/
theorem goto (hI : SignalerInv s) (hInner : s'.inner = s.inner) (hIdle : s.inner.drain () = .idle)
    (hTold : s'.Swapped → s.Swapped ∧ s'.signaled = s.signaled)
    (hTested : s'.loop.tested = true → s'.signaled = false)
    (hNotified : s'.loop.waiting = true → s'.signaled = true → s'.notified = true)
    (hUntimed : s'.loop = .wait → s.alarmAt = instantMax) : SignalerInv s' where
  reach := hInner ▸ hI.reach
  idle _ := by rw [hInner, hIdle]
  told h := by
    obtain ⟨hSwapped, hEq⟩ := hTold h
    rw [hInner, hEq]
    exact hI.told hSwapped
  tested := hTested
  notified := hNotified
  untimed h := by
    rw [State.alarmAt, hInner]
    exact hUntimed h

/-- The tasks, the other threads or `run_queued` make a step. -/
theorem inner (hI : SignalerInv s) {b : Executor.Action Task Unit Agent}
    {i : Executor.State Task Unit Agent} (hb : interleaved s.inner b = true)
    (h : Executor.step (fun _ => true) s.inner b = some i) : SignalerInv { s with inner := i } := by
  have hNot : ∀ now, b ≠ .runQueued () now := by
    rintro now rfl
    simp [interleaved] at hb
  constructor
  case reach => exact hI.reach.tail trivial h
  case idle => exact fun hLoop => idle_step h (hI.idle hLoop) hNot
  case tested => exact hI.tested
  case notified => exact hI.notified
  case untimed =>
    intro hLoop
    have hIdle := hI.idle (by simp [show s.loop = .wait from hLoop])
    simpa [State.alarmAt, alarm_step h hIdle] using hI.untimed hLoop
  case told =>
    rintro ⟨hReset, hCall, hPhase⟩
    rcases phase_of_swap h hPhase with hBefore | hEmpty
    · rcases hI.told ⟨hReset, hCall, hBefore⟩ with hNone | hFlag | ⟨x, hDue⟩
      · exact (head_step h hNone).imp_right .inr
      · exact .inr (.inl hFlag)
      · obtain ⟨⟨L, hQ⟩, -⟩ := queueInv_of_run hI.reach
        rcases signalDue_step hQ h hDue with hDue' | ⟨-, weak, rfl⟩
        · exact .inr (.inr ⟨x, hDue'⟩)
        · simp [interleaved, hDue] at hb
    · exact .inl hEmpty

/-- A context calls `Signaler::signal`. -/
theorem signal (hI : SignalerInv s) {x : Context Agent Unit}
    {i : Executor.State Task Unit Agent} (hLocked : s.loop.locked = false)
    (h : Executor.step (fun _ => true) s.inner (.advance x false) = some i) :
    SignalerInv { s with
      inner := i, signaled := true, notified := s.notified || s.loop.waiting } := by
  constructor
  case reach => exact hI.reach.tail trivial h
  case idle => exact fun hLoop => idle_step h (hI.idle hLoop) (by simp)
  case tested =>
    intro hTested
    have hTested : s.loop.tested = true := hTested
    cases hLoop : s.loop <;> simp [hLoop, Loop.tested, Loop.locked] at hTested hLocked
  case notified => exact fun hWaiting _ => by simp [show s.loop.waiting = true from hWaiting]
  case untimed =>
    intro hLoop
    have hIdle := hI.idle (by simp [show s.loop = .wait from hLoop])
    simpa [State.alarmAt, alarm_step h hIdle] using hI.untimed hLoop
  case told => exact fun _ => .inr (.inl rfl)

theorem step (hI : SignalerInv s) (h : step s a = some s') : SignalerInv s' := by
  cases a with
  | inner b =>
    simp only [Std.step] at h
    split at h
    · obtain ⟨i, hs, rfl⟩ := Option.map_eq_some_iff.mp h
      exact hI.inner ‹_› hs
    · cases h
  | signal x =>
    simp only [Std.step] at h
    split at h
    · obtain ⟨i, hs, rfl⟩ := Option.map_eq_some_iff.mp h
      exact hI.signal (And.right ‹_›) hs
    · cases h
  | runQueued now =>
    simp only [Std.step] at h
    split at h
    · obtain ⟨i, hs, rfl⟩ := Option.map_eq_some_iff.mp h
      refine ⟨hI.reach.tail trivial hs, fun hLoop => absurd rfl hLoop, ?_, by simp [Loop.tested],
        by simp [Loop.waiting], by simp⟩
      -- the call is before its swap
      rintro ⟨-, -, hPhase⟩
      simp only [Executor.step] at hs
      split at hs
      · cases hs
        simp [Drain.phase, Drain.closure] at hPhase
      · cases hs
    · cases h
  | next =>
    simp only [Std.step] at h
    split at h
    · rename_i hLoop
      split at h
      · rename_i hIdle
        cases h
        refine hI.goto rfl hIdle (fun _ => ⟨.of_idle hIdle ?_ ?_, rfl⟩) ?_ ?_ ?_ <;>
          simp [hLoop, Loop.tested, Loop.waiting]
      · cases h
    · rename_i hLoop
      have hIdle := hI.idle (by simp [hLoop])
      cases h
      refine hI.goto rfl hIdle (fun _ => ⟨.of_idle hIdle ?_ ?_, rfl⟩) ?_ ?_ ?_ <;>
        simp [hLoop, Loop.tested, Loop.waiting]
    · rename_i hLoop
      have hIdle := hI.idle (by simp [hLoop])
      cases h
      refine hI.goto rfl hIdle (fun _ => ⟨.of_idle hIdle ?_ ?_, rfl⟩) ?_ ?_ ?_ <;>
        cases s.signaled <;> simp [hLoop, Loop.tested, Loop.waiting]
    · rename_i hLoop
      have hIdle := hI.idle (by simp [hLoop])
      have hFlag := hI.tested (by simp [hLoop, Loop.tested])
      split at h
      · rename_i hAlarm
        cases h
        refine hI.goto rfl hIdle (fun _ => ⟨.of_idle hIdle ?_ ?_, rfl⟩) ?_ ?_ (fun _ => hAlarm) <;>
          simp [hLoop, Loop.tested, hFlag]
      · cases h
        refine hI.goto rfl hIdle (fun _ => ⟨.of_idle hIdle ?_ ?_, rfl⟩) ?_ ?_ ?_ <;>
          simp [hLoop, Loop.waiting, hFlag]
    · rename_i hLoop
      have hIdle := hI.idle (by simp [hLoop])
      cases h
      refine hI.goto rfl hIdle (fun hSwapped => absurd rfl hSwapped.2.1) ?_ ?_ ?_ <;>
        simp [Loop.tested, Loop.waiting]
    · cases h
  | readNow now =>
    simp only [Std.step] at h
    split at h
    · rename_i alarmAt hLoop
      have hIdle := hI.idle (by simp [hLoop])
      have hFlag := hI.tested (by simp [hLoop, Loop.tested])
      split at h
      · cases h
        refine hI.goto rfl hIdle (fun hSwapped => absurd rfl hSwapped.1) ?_ ?_ ?_ <;>
          simp [Loop.tested, Loop.waiting]
      · cases h
        refine hI.goto rfl hIdle (fun _ => ⟨.of_idle hIdle ?_ ?_, rfl⟩) ?_ ?_ ?_ <;>
          simp [hLoop, Loop.tested, hFlag]
    · cases h
  | wake timedOut =>
    simp only [Std.step] at h
    split at h
    · rename_i hLoop
      have hIdle := hI.idle (by simp [hLoop])
      cases h
      refine hI.goto rfl hIdle (fun _ => ⟨.of_idle hIdle ?_ ?_, rfl⟩) ?_ ?_ ?_ <;>
        simp [hLoop, Loop.tested, Loop.waiting]
    · rename_i hLoop
      have hIdle := hI.idle (by simp [hLoop])
      cases h
      refine hI.goto rfl hIdle (fun _ => ⟨.of_idle hIdle ?_ ?_, rfl⟩) ?_ ?_ ?_ <;>
        cases timedOut <;> simp [hLoop, Loop.tested, Loop.waiting]
    · cases h

end SignalerInv

-- ---------------------------------------------------------------------------
-- Runs
-- ---------------------------------------------------------------------------

/-- Any steps in any order. -/
abbrev Reaches (s : State Task Agent) : Prop :=
  Run step (fun _ _ => True) (init Task Agent) s

theorem signalerInv_of_run (hRun : Reaches s) : SignalerInv s :=
  hRun.invariant signalerInv_init fun _ _ _ hI _ hs => hI.step hs

/-- A thread that sleeps has no signal to wake up for. -/
theorem blocked_of_run (hRun : Reaches s) (hWaiting : s.loop.waiting = true)
    (hNot : s.notified = false) :
    s.signaled = false ∧ (s.inner.head () = none ∨ SignalDue s.inner ()) := by
  have hI := signalerInv_of_run hRun
  have hFlag : s.signaled = false := by
    by_contra hFlag
    have hNotified := hI.notified hWaiting (by simpa using hFlag)
    rw [hNot] at hNotified
    cases hNotified
  have hLoop : s.loop ≠ .runQueued ∧ s.loop ≠ .reset ∧ s.loop ≠ .call := by
    cases hLoop : s.loop <;> simp [hLoop, Loop.waiting] at hWaiting ⊢
  have hIdle := hI.idle hLoop.1
  refine ⟨hFlag, ?_⟩
  rcases hI.told (.of_idle hIdle hLoop.2.1 hLoop.2.2) with hNone | hSet | hDue
  · exact .inl hNone
  · rw [hFlag] at hSet
    cases hSet
  · exact .inr hDue

/-- Before the untimed wait no deadline was left for the alarm. -/
theorem untimed_of_run (hRun : Reaches s) (hLoop : s.loop = .wait) {tq : List Task}
    (hSeg : Seg s.inner.timerNext (s.inner.timerHead ()) tq none) {t : Task} (ht : t ∈ tq) :
    instantMax ≤ s.inner.expiresAt t := by
  have hI := signalerInv_of_run hRun
  obtain ⟨tq', hT⟩ := timerInv_of_run hI.reach
  obtain rfl := hSeg.eq_of_none hT.seg
  have hHere := hT.here
  rw [hI.idle (by simp [hLoop])] at hHere
  rcases hHere with rfl | ⟨value, hAlarm, hAll⟩
  · cases ht
  · have hMax := hI.untimed hLoop
    rw [State.alarmAt, hAlarm, Option.getD_some] at hMax
    exact hMax ▸ hAll t ht

/-- What the signals of the executors guarantee. -/
structure SignalsSound (Task Exec Agent : Type) [DecidableEq Task] [DecidableEq Exec]
    [DecidableEq Agent] : Prop where
  /-- Every reachable state has a latest swap of the head of `e`, or none; since then,
  or since the creation, a queue that is not empty has been signalled, or a context
  that has found it empty is about to. -/
  signalled : ∀ (hasAlarm : Exec → Bool) (s : Executor.State Task Exec Agent),
    Executor.Reaches hasAlarm (Executor.init Task Exec Agent) s → ∀ e,
      (∃ s₀, Since hasAlarm e s₀ s) ∧ ∀ s₀, Since hasAlarm e s₀ s → s.head e ≠ none →
        s₀.signals e < s.signals e ∨ SignalDue s e
  /-- While the std executor is blocked and not notified, its flag is cleared, and its
  run queue is empty or about to be signalled. -/
  blocked : ∀ s : State Task Agent, Reaches s → s.loop.waiting = true → s.notified = false →
    s.signaled = false ∧ (s.inner.head () = none ∨ SignalDue s.inner ())
  /-- While it is in the untimed wait, its timer queue holds no finite expiration. -/
  untimed : ∀ s : State Task Agent, Reaches s → s.loop = .wait → ∀ tq,
    Seg s.inner.timerNext (s.inner.timerHead ()) tq none → ∀ t ∈ tq,
      ¬ s.inner.expiresAt t < instantMax

/--
**No signal is lost.** For every interleaving of any number of enqueuers with the
drains of any number of executors, a run queue that is not empty has been
signalled since the latest swap of its head, or the context that found it empty
is about to signal it. So the std executor does not sleep on the condition
variable while there is work in its run queue that nobody is about to signal, nor
without a timeout while there is a deadline in its timer queue.
-/
theorem no_lost_signal (Task Exec Agent : Type) [DecidableEq Task] [DecidableEq Exec]
    [DecidableEq Agent] : SignalsSound Task Exec Agent where
  signalled _ _ hRun e := ⟨exists_since hRun e, fun _ hSince hHead => signalled_since hSince hHead⟩
  blocked _ hRun hWaiting hNot := blocked_of_run hRun hWaiting hNot
  untimed _ hRun hLoop _ hSeg _ ht := Nat.not_lt.mpr (untimed_of_run hRun hLoop hSeg ht)

/-- The std executor sleeps without a timeout, and a task has just been linked. -/
theorem no_lost_signal_waiting : ∃ s : State Nat Unit, Reaches s ∧ s.loop = .wait ∧
    s.notified = false ∧ s.inner.head () = some 0 ∧ SignalDue s.inner () := by
  obtain ⟨s, hRun, hLoop, hNot, hHead⟩ : ∃ s : State Nat Unit, Reaches s ∧ s.loop = .wait ∧
      s.notified = false ∧ s.inner.head () = some 0 := by
    have hRun : Run step (fun _ _ => True) (init Nat Unit) _ :=
      Run.execOk_get _ (.runQueued 0 :: List.replicate 5 (.inner (.drain ())) ++
        List.replicate 4 .next ++ (spawnActions () 0 ()).dropLast.map .inner) (by decide +kernel)
    exact ⟨_, hRun, by decide +kernel, by decide +kernel, by decide +kernel⟩
  obtain ⟨-, hNone | hDue⟩ :=
    (no_lost_signal Nat Unit Unit).blocked s hRun (by simp [hLoop, Loop.waiting]) hNot
  · simp [hHead] at hNone
  · exact ⟨s, hRun, hLoop, hNot, hHead, hDue⟩

end Embassy.Std
