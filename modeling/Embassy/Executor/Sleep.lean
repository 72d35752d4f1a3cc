import Embassy.Executor.Cortex
import Embassy.Rtc.Lost

/-!
# The executor and its clock

The two halves of a sleep. `embassy/src/executor/raw.rs` ends a call of `run_queued` with
`alarm.set_callback(signal_fn, signal_ctx)` and `alarm.set(next_expiration)`; the alarm is
one of those of `embassy-nrf/src/rtc.rs` or `embassy-stm32/src/rtc.rs`, which calls back in
a critical section of its interrupt, or of `set` itself. The main function of a program
puts them together: it starts the clock and hands one of its alarms to the executor.

Here the machine of `Embassy.Cortex` runs beside that of `Embassy.Rtc`. What the executor
does to its alarm is a step of the clock, and a callback of the alarm a step of the
executor. All other steps come in any order; but there is one core, so that nothing runs
while a critical section does, the ticks apart. The other alarms may be anybody's.

Main results:

* `Linked.step` — what the two agree on: the alarm is set as the executor believes.
* `never_oversleeps` — at rest, no deadline of a sleeping task has passed.
* `never_wakes_early` — a task is woken for its timer only when its deadline has passed.
-/

namespace Embassy.Sleep

open Embassy.Lib Embassy.Executor

structure State (Task Agent : Type) where
  exec : Cortex.State Task Unit Agent
  rtc : Rtc.State

inductive Action (Task Agent : Type) where
  /-- A step of the executor, the tasks or the contexts. -/
  | exec (a : Cortex.Action Task Unit Agent)
  /-- `alarm.set_callback(self.signal_fn, self.signal_ctx)` -/
  | setCallback
  /-- A step of the clock, or of who else uses it. -/
  | rtc (a : Rtc.Action)
  deriving DecidableEq, Repr

variable {Task Agent : Type}

def init (Task Agent : Type) (bell : Unit → Bool) : State Task Agent where
  exec := Cortex.init Task Agent bell
  rtc := Rtc.init

namespace State

variable [DecidableEq Task] [DecidableEq Agent]

/-- `run_queued` is about to set its alarm. -/
def setsAlarm (s : State Task Agent) : Bool :=
  match s.exec.inner.drain () with
  | .setAlarm _ => true
  | _ => false

/-- What the step of the executor sets its alarm to. -/
def alarmSet (s : State Task Agent) : Cortex.Action Task Unit Agent → Option Nat
  | .inner b => (Cortex.arms s.exec.inner b).map Prod.snd
  | _ => none

/-- The executor goes by what some `now()` has returned. -/
def reads (s : State Task Agent) : Cortex.Action Task Unit Agent → Bool
  | .runQueued _ now => s.rtc.nows.any fun r => r.value == now
  | _ => true

/-- The clock calls the callback of alarm `n`. -/
def calls (s : State Task Agent) (n : Nat) (a : Rtc.Action) : Bool :=
  decide (a = .crit) && s.rtc.invokes n

/-- The signal function is called: for the alarm that is armed, or once more. -/
def signal (mode : Unit → Cortex.Mode) (s : State Task Agent) :
    Option (Cortex.State Task Unit Agent) :=
  Cortex.step mode (fun _ => true) s.exec
    (if (s.exec.armed ()).isSome then .fire () else .ring ())

/-- The executor after a step of the clock. -/
def called (mode : Unit → Cortex.Mode) (s : State Task Agent) (n : Nat) (a : Rtc.Action) :
    Option (Cortex.State Task Unit Agent) :=
  if s.calls n a then s.signal mode else some s.exec

end State

/-- Alarm `n` belongs to the executor. -/
def owned (n : Nat) : Rtc.Action → Bool
  | .setAlarm m _ => decide (m = n)
  | .setCallback m _ => decide (m = n)
  | _ => false

variable [DecidableEq Task] [DecidableEq Agent]

/-- `callback` is the `signal_fn` of the executor with its `signal_ctx`. -/
def step (c : Rtc.Chip) (n : Nat) (callback : Nat × Nat) (mode : Unit → Cortex.Mode)
    (s : State Task Agent) : Action Task Agent → Option (State Task Agent)
  | .exec a =>
    if a ≠ .fire () ∧ s.rtc.crit = .free ∧ s.reads a then do
      let exec ← Cortex.step mode (fun _ => true) s.exec a
      match s.alarmSet a with
      | none => some { s with exec := exec }
      | some value =>
        if s.rtc.callback n = some callback then
          (Rtc.step c s.rtc (.setAlarm n value)).map fun rtc => ⟨exec, rtc⟩
        else none
    else none
  | .setCallback =>
    if s.setsAlarm then
      (Rtc.step c s.rtc (.setCallback n callback)).map fun rtc => { s with rtc := rtc }
    else none
  | .rtc a =>
    if owned n a then none
    else do
      let rtc ← Rtc.step c s.rtc a
      let exec ← s.called mode n a
      return ⟨exec, rtc⟩

-- ---------------------------------------------------------------------------
-- The clock
-- ---------------------------------------------------------------------------

variable {c : Rtc.Chip} {n : Nat}

/-- What a step of somebody else leaves of alarm `n`: all of it, but for the call of its
callback, before which the timestamp is cleared. -/
theorem rtc_frame {r r' : Rtc.State} {a : Rtc.Action} (h : Rtc.step c r a = some r')
    (hOwned : owned n a = false) :
    r'.last n = r.last n ∧ r'.callback n = r.callback n ∧
      (r'.timestamp n = r.timestamp n ∨ r'.crit = .trigCall n) ∧
      (r.crit = .trigCall n → r'.crit = .trigCall n ∨ a = .crit) := by
  -- only `set_alarm`, `set_callback` and the trigger write to this alarm
  cases Rtc.step_stmt h with
  | @setAlarm m ts hC hm hReal hTs =>
    have hNe : n ≠ m := fun hEq => of_decide_eq_false hOwned hEq.symm
    exact ⟨Function.update_of_ne hNe _ _, rfl, .inl (Function.update_of_ne hNe _ _),
      fun hC' => nomatch hC.symm.trans hC'⟩
  | @setCallback m f hC hm =>
    have hNe : n ≠ m := fun hEq => of_decide_eq_false hOwned hEq.symm
    exact ⟨rfl, Function.update_of_ne hNe _ _, .inl rfl, fun hC' => nomatch hC.symm.trans hC'⟩
  | @trigClear m hC =>
    refine ⟨rfl, rfl, ?_, fun _ => .inr rfl⟩
    by_cases hEq : n = m
    · exact .inr (by rw [hEq])
    · exact .inl (Function.update_of_ne hEq _ _)
  | tick => exact ⟨rfl, rfl, .inl rfl, .inl⟩
  | enter hC | checkOvf_hit hC | checkOvf_miss hC | clearOvf hC | periodOvf hC | checkMid_hit hC
  | checkMid_miss hC | clearMid hC | periodMid hC | check_hit hC | check_miss hC | check_done hC
  | clear hC | trigger hC | nowLoad hC | nowRead hC =>
    exact ⟨rfl, rfl, .inl rfl, fun hC' => nomatch hC.symm.trans hC'⟩
  | _ => exact ⟨rfl, rfl, .inl rfl, fun _ => .inr rfl⟩

/-- What setting alarm `n` leaves behind. -/
theorem rtc_setAlarm {r r' : Rtc.State} {value : Nat}
    (h : Rtc.step c r (.setAlarm n value) = some r') :
    r'.callback = r.callback ∧ r'.last n = some (value, r.tau) ∧ r'.timestamp n = value := by
  cases Rtc.step_stmt h with
  | setAlarm => exact ⟨rfl, Function.update_self .., Function.update_self ..⟩

-- ---------------------------------------------------------------------------
-- What the two agree on
-- ---------------------------------------------------------------------------

/-- The alarm is set to what the executor has armed it for, and will signal it. -/
structure Armed (n : Nat) (callback : Nat × Nat) (armed : Option Nat) (r : Rtc.State) : Prop where
  callback : armed ≠ none → r.callback n = some callback
  last : ∀ value, armed = some value → ∃ t0, r.last n = some (value, t0)
  timestamp : ∀ value, armed = some value → r.timestamp n = value ∨ r.crit = .trigCall n

structure Linked (n : Nat) (callback : Nat × Nat) (s : State Task Agent) : Prop where
  bell : Cortex.BellInv (fun _ => true) s.exec
  armed : Armed n callback (s.exec.armed ()) s.rtc

variable {callback : Nat × Nat} {mode : Unit → Cortex.Mode} {s s' : State Task Agent}

theorem linked_init (bell : Unit → Bool) :
    Linked n callback (init Task Agent bell) where
  bell := Cortex.bellInv_init bell
  armed := ⟨fun h => absurd rfl h, fun _ h => (nomatch h), fun _ h => (nomatch h)⟩

/-- A step of the executor arms its alarm if it sets it. -/
theorem armed_step {a : Cortex.Action Task Unit Agent} {exec : Cortex.State Task Unit Agent}
    (h : Cortex.step mode (fun _ => true) s.exec a = some exec) (hFire : a ≠ .fire ()) :
    exec.armed () = (s.alarmSet a).or (s.exec.armed ()) := by
  -- the alarm changes in a step of the executor that arms it, and when it fires
  cases a with
  | inner b =>
    obtain ⟨-, h⟩ := Option.ite_none_right_eq_some.mp h
    obtain ⟨i, -, rfl⟩ := Option.map_eq_some_iff.mp h
    show Cortex.arm s.exec.armed (Cortex.arms s.exec.inner b) () =
      ((Cortex.arms s.exec.inner b).map Prod.snd).or (s.exec.armed ())
    rcases Cortex.arms s.exec.inner b with _ | ⟨e, value⟩
    · rfl
    · exact Function.update_self () (some value) s.exec.armed
  | next e =>
    simp only [Cortex.step] at h
    repeat' split at h
    all_goals cases h <;> rfl
  | runQueued e now =>
    obtain ⟨-, h⟩ := Option.ite_none_right_eq_some.mp h
    obtain ⟨i, -, rfl⟩ := Option.map_eq_some_iff.mp h
    rfl
  | wake e =>
    obtain ⟨-, h⟩ := Option.ite_none_right_eq_some.mp h
    cases h
    rfl
  | fire e => exact absurd rfl hFire
  | ring e =>
    cases h
    rfl
  | stray e =>
    obtain ⟨-, h⟩ := Option.ite_none_right_eq_some.mp h
    cases h
    rfl

/-- Once signalled, the executor has no alarm armed. -/
theorem armed_signal {exec : Cortex.State Task Unit Agent} (h : s.signal mode = some exec) :
    exec.armed () = none := by
  unfold State.signal at h
  cases hArmed : s.exec.armed () with
  | none =>
    rw [hArmed] at h
    cases h
    exact hArmed
  | some value =>
    rw [hArmed] at h
    simp only [Option.isSome_some, if_true, Cortex.step, hArmed] at h
    cases h
    exact Function.update_self () none s.exec.armed

/-- Somebody else's step of the clock. -/
theorem Armed.rtc {armed : Option Nat} {r r' : Rtc.State} {a : Rtc.Action}
    (hA : Armed n callback armed r) (h : Rtc.step c r a = some r') (hOwned : owned n a = false)
    (hCall : armed ≠ none → r.crit = .trigCall n → a ≠ .crit) : Armed n callback armed r' := by
  obtain ⟨hLast, hCallback, hTimestamp, hCrit⟩ := rtc_frame h hOwned
  refine ⟨fun hSome => hCallback.trans (hA.callback hSome), fun value hValue => ?_,
    fun value hValue => ?_⟩
  · rw [hLast]
    exact hA.last value hValue
  · rcases hTimestamp with hSame | hNow
    · rcases hA.timestamp value hValue with hBefore | hBefore
      · exact .inl (hSame.trans hBefore)
      · have hSome : armed ≠ none := by rw [hValue]; exact fun h => nomatch h
        exact .inr ((hCrit hBefore).resolve_right (hCall hSome hBefore))
    · exact .inr hNow

theorem Linked.step {a : Action Task Agent} (hL : Linked n callback s)
    (hs : Sleep.step c n callback mode s a = some s') : Linked n callback s' := by
  obtain ⟨hBell, hArmed⟩ := hL
  -- the two machines share the alarm: what is armed there is what the driver was given
  cases a with
  | setCallback =>
    obtain ⟨-, hs⟩ := Option.ite_none_right_eq_some.mp hs
    obtain ⟨r, hr, rfl⟩ := Option.map_eq_some_iff.mp hs
    cases Rtc.step_stmt hr with
    | setCallback =>
      exact ⟨hBell, fun _ => Function.update_self .., hArmed.last, hArmed.timestamp⟩
  | rtc a =>
    obtain ⟨hOwned, hs⟩ := Option.ite_none_left_eq_some.mp hs
    obtain ⟨r, hr, hs⟩ := Option.bind_eq_some_iff.mp hs
    obtain ⟨exec, hExec, hs⟩ := Option.bind_eq_some_iff.mp hs
    cases hs
    have hOwned : owned n a = false := eq_false_of_ne_true hOwned
    unfold State.called at hExec
    -- the driver calls the callback: the executor is told
    by_cases hCalls : s.calls n a = true
    · rw [if_pos hCalls] at hExec
      refine ⟨hBell.step hExec, ?_⟩
      rw [armed_signal hExec]
      exact ⟨fun h => absurd rfl h, fun _ h => (nomatch h), fun _ h => (nomatch h)⟩
    · rw [if_neg hCalls] at hExec
      cases hExec
      refine ⟨hBell, hArmed.rtc hr hOwned fun hSome hCrit hEq => hCalls ?_⟩
      simp [State.calls, Rtc.State.invokes, hEq, hCrit, hArmed.callback hSome]
  | exec a =>
    obtain ⟨⟨hFire, -, -⟩, hs⟩ := Option.ite_none_right_eq_some.mp hs
    obtain ⟨exec, hExec, hs⟩ := Option.bind_eq_some_iff.mp hs
    have hAfter := armed_step hExec hFire
    -- a step of the executor, which may set the alarm of the driver
    cases hSet : s.alarmSet a with
    | none =>
      rw [hSet] at hs hAfter
      cases hs
      refine ⟨hBell.step hExec, ?_⟩
      rw [hAfter, Option.none_or]
      exact hArmed
    | some value =>
      rw [hSet] at hs hAfter
      obtain ⟨hCallback, hs⟩ := Option.ite_none_right_eq_some.mp hs
      obtain ⟨r, hr, rfl⟩ := Option.map_eq_some_iff.mp hs
      obtain ⟨hSame, hLast, hTimestamp⟩ := rtc_setAlarm hr
      refine ⟨hBell.step hExec, ?_⟩
      rw [hAfter, Option.some_or]
      refine ⟨fun _ => hSame ▸ hCallback, ?_, ?_⟩
      · rintro _ ⟨⟩
        exact ⟨_, hLast⟩
      · rintro _ ⟨⟩
        exact .inl hTimestamp

-- ---------------------------------------------------------------------------
-- Runs
-- ---------------------------------------------------------------------------

/-- What a condition on the steps of the clock asks of a step. -/
def OnRtc (ok : Rtc.State → Rtc.Action → Prop) (s : State Task Agent) : Action Task Agent → Prop
  | .rtc a => ok s.rtc a
  | .exec _ | .setCallback => True

/-- The clock makes a run of its own. -/
theorem rtc_run {ok : Rtc.State → Rtc.Action → Prop} {bell : Unit → Bool}
    (hSet : ∀ r value, ok r (.setAlarm n value)) (hCallback : ∀ r, ok r (.setCallback n callback))
    (hRun : Run (step c n callback mode) (OnRtc ok) (init Task Agent bell) s) :
    Run (Rtc.step c) ok Rtc.init s.rtc := by
  -- the driver takes one of its own steps, or none
  refine hRun.invariant (I := fun s => Run (Rtc.step c) ok Rtc.init s.rtc) .refl
    fun u a v hR hOk hs => ?_
  cases a with
  | setCallback =>
    obtain ⟨-, hs⟩ := Option.ite_none_right_eq_some.mp hs
    obtain ⟨r, hr, rfl⟩ := Option.map_eq_some_iff.mp hs
    exact hR.tail (hCallback u.rtc) hr
  | rtc a =>
    obtain ⟨-, hs⟩ := Option.ite_none_left_eq_some.mp hs
    obtain ⟨r, hr, hs⟩ := Option.bind_eq_some_iff.mp hs
    obtain ⟨exec, -, hs⟩ := Option.bind_eq_some_iff.mp hs
    cases hs
    exact hR.tail hOk hr
  | exec a =>
    obtain ⟨-, hs⟩ := Option.ite_none_right_eq_some.mp hs
    obtain ⟨exec, -, hs⟩ := Option.bind_eq_some_iff.mp hs
    cases hSet' : u.alarmSet a with
    | none =>
      rw [hSet'] at hs
      cases hs
      exact hR
    | some value =>
      rw [hSet'] at hs
      obtain ⟨-, hs⟩ := Option.ite_none_right_eq_some.mp hs
      obtain ⟨r, hr, rfl⟩ := Option.map_eq_some_iff.mp hs
      exact hR.tail (hSet u.rtc value) hr

/-- Where an alarm that is not lost is stored no longer than it is due. -/
theorem tau_le {ok : Rtc.State → Rtc.Action → Prop} {bell : Unit → Bool}
    (hn : n < Rtc.alarmCount) (hReal : n < c.realAlarmCount)
    (hLost : ∀ r a, Rtc.ClockInv c r → ok r a → Rtc.LostOk c n r a)
    (hSet : ∀ r value, ok r (.setAlarm n value)) (hCallback : ∀ r, ok r (.setCallback n callback))
    (hRun : Run (step c n callback mode) (OnRtc ok) (init Task Agent bell) s)
    (hLoop : s.exec.loop () = .sleep) (hBell : s.exec.bell () = false)
    (hQuiet : s.rtc.quiet c = true) {t : Task} (hAsleep : s.exec.inner.Asleep t) {deadline : Nat}
    (hMem : deadline ∈ s.exec.inner.deadlines t) (hMax : deadline < instantMax) :
    ∃ value t0, s.rtc.last n = some (value, t0) ∧ value ≤ deadline ∧
      s.rtc.tau ≤ max value (t0 + 3) := by
  have hL : Linked n callback s := hRun.invariant (I := Linked n callback) (linked_init bell)
    fun _ _ _ hL _ hs => hL.step hs
  obtain ⟨hI, -, -, hLostInv⟩ := Rtc.lostInv_of_run hn hReal hLost (rtc_run hSet hCallback hRun)
  obtain ⟨value, hArmed, hLe⟩ := hL.bell.armed_le hLoop hBell hAsleep hMem hMax
  obtain ⟨t0, hLast⟩ := hL.armed.last value hArmed
  refine ⟨value, t0, hLast, hLe, Nat.not_lt.mp fun hLate => ?_⟩
  refine hLostInv.not_stored hI hn hQuiet hLast hLate ?_
  refine (hL.armed.timestamp value hArmed).resolve_right fun hCrit => ?_
  simp [Rtc.State.quiet, hCrit] at hQuiet

/--
**On the nRF nobody oversleeps.** Any tasks and contexts, an executor of either kind, and
anybody at the other alarms; any order of the steps in which the boundaries of the periods are
serviced in time, the periods do not overflow, the critical sections are shorter than a tick,
and `next_period` never sets up the alarm of the executor too late. Where the executor sleeps
and is not rung, and the clock neither requests nor serves an interrupt, no deadline of a
sleeping task has passed (`Instant::MAX` is none), unless the alarm was set in the last three
ticks.
-/
theorem never_oversleeps {bell : Unit → Bool} (hn : n < Rtc.alarmCount)
    (hRun : Run (step .nrf n callback mode)
      (OnRtc fun r a => Rtc.HwOk .nrf r a ∧ Rtc.ArmInTime .nrf n r a) (init Task Agent bell) s)
    (hLoop : s.exec.loop () = .sleep) (hBell : s.exec.bell () = false)
    (hQuiet : s.rtc.quiet .nrf = true) {t : Task} (hAsleep : s.exec.inner.Asleep t)
    {deadline : Nat} (hMem : deadline ∈ s.exec.inner.deadlines t) (hMax : deadline < instantMax) :
    ∃ value t0, s.rtc.last n = some (value, t0) ∧ value ≤ deadline ∧
      s.rtc.tau ≤ max value (t0 + 3) :=
  tau_le (c := .nrf) hn hn (fun _ _ => Rtc.nrf_lostOk)
    (fun _ _ => ⟨⟨⟨trivial, trivial⟩, trivial⟩, trivial⟩)
    (fun _ => ⟨⟨⟨trivial, trivial⟩, trivial⟩, trivial⟩) hRun hLoop hBell hQuiet hAsleep hMem hMax

instance (ok : Rtc.State → Rtc.Action → Prop) [∀ r a, Decidable (ok r a)]
    (s : State Task Agent) : (a : Action Task Agent) → Decidable (OnRtc ok s a)
  | .rtc a => inferInstanceAs (Decidable (ok s.rtc a))
  | .exec _ | .setCallback => isTrue trivial

/-- A task waits for the ticks 12 and 10, and the alarm is set for the latter, twice. -/
theorem never_oversleeps_until_ten : ∃ s : State Nat Unit,
    Run (step .nrf 0 (1, 1) fun _ => .thread)
      (OnRtc fun r a => Rtc.HwOk .nrf r a ∧ Rtc.ArmInTime .nrf 0 r a)
      (init Nat Unit fun _ => false) s ∧ s.rtc.tau = 7 ∧
      ∃ value t0, s.rtc.last 0 = some (value, t0) ∧ value ≤ 10 ∧
        s.rtc.tau ≤ max value (t0 + 3) := by
  -- one task asks for ticks 12 and 10; it is asleep at tick 7
  have hRun : Run (step .nrf 0 (1, 1) fun _ => .thread)
      (OnRtc fun r a => Rtc.HwOk .nrf r a ∧ Rtc.ArmInTime .nrf 0 r a)
      (init Nat Unit fun _ => false) _ :=
    Run.execOk_get _ ([[.exec (.next ())], (spawnActions () 0 ()).map (.exec ∘ .inner),
      [.exec (.next ()), .rtc .nowLoad, .rtc (.nowRead 0), .exec (.runQueued () 0)],
      List.replicate 6 (.exec (.inner (.drain ()))),
      [.exec (.inner (.registerTimer () 12)), .exec (.inner (.registerTimer () 10)),
        .exec (.inner (.pollReturn () false))],
      List.replicate 8 (.exec (.inner (.drain ()))),
      [.setCallback, .exec (.inner (.drain ()))], List.replicate 4 (.rtc .crit),
      [.exec (.next ()), .rtc .tick, .rtc .tick, .rtc .nowLoad, .rtc (.nowRead 0),
        .exec (.wake ()), .exec (.runQueued () 2)],
      List.replicate 8 (.exec (.inner (.drain ()))),
      [.setCallback, .exec (.inner (.drain ()))], List.replicate 4 (.rtc .crit),
      [.exec (.next ())], List.replicate 5 (.rtc .tick)] : List (List (Action Nat Unit))).flatten
      (by decide +kernel)
  exact ⟨_, hRun, by decide +kernel, never_oversleeps (by decide) hRun (by decide +kernel)
    (by decide +kernel) (by decide +kernel) (t := 0)
    ⟨by decide +kernel, by decide +kernel⟩ (by decide +kernel) (by decide)⟩

-- ---------------------------------------------------------------------------
-- What the executor takes for the time
-- ---------------------------------------------------------------------------

/-- What the executor takes for the time has passed. -/
def State.Past (s : State Task Agent) : Prop :=
  ∀ now, (s.exec.inner.drain ()).closure = some (.dequeueExpired now) → now ≤ s.rtc.tau

/-- The executor makes no other steps than those of the machine, and starts its calls. -/
theorem inner_step {a : Cortex.Action Task Unit Agent} {exec : Cortex.State Task Unit Agent}
    (h : Cortex.step mode (fun _ => true) s.exec a = some exec) :
    exec.inner = s.exec.inner ∨ ∃ b, Executor.step (fun _ => true) s.exec.inner b =
      some exec.inner ∧ ∀ now, b = .runQueued () now → a = .runQueued () now := by
  -- the executor of the machine takes one step, or none
  cases a with
  | inner b =>
    obtain ⟨hAllowed, h⟩ := Option.ite_none_right_eq_some.mp h
    obtain ⟨i, hi, rfl⟩ := Option.map_eq_some_iff.mp h
    refine .inr ⟨b, hi, ?_⟩
    rintro now rfl
    cases hAllowed
  | runQueued e now =>
    obtain ⟨-, h⟩ := Option.ite_none_right_eq_some.mp h
    obtain ⟨i, hi, rfl⟩ := Option.map_eq_some_iff.mp h
    refine .inr ⟨_, hi, ?_⟩
    rintro now ⟨⟩
    rfl
  | next e | fire e =>
    simp only [Cortex.step] at h
    repeat' split at h
    all_goals cases h <;> exact .inl rfl
  | wake e | stray e =>
    obtain ⟨-, h⟩ := Option.ite_none_right_eq_some.mp h
    cases h
    exact .inl rfl
  | ring e =>
    cases h
    exact .inl rfl

omit [DecidableEq Task] [DecidableEq Agent] in
/-- A finished `now()` has returned a time that has passed. -/
theorem value_le {r : Rtc.State} (hN : Rtc.NowInv c r) {call : Rtc.NowResult}
    (hMem : call ∈ r.nows) : call.value ≤ r.tau := by
  obtain ⟨⟨hLoad, hLe⟩, hRead, hValue⟩ := hN.done call hMem
  have hMono : call.loadTick / c.half ≤ call.readTick / c.half := Nat.div_le_div_right hLe
  rw [hValue]
  exact (Rtc.calcNow_le c (by omega)).trans hRead

omit [DecidableEq Task] [DecidableEq Agent] in
theorem tau_mono {r r' : Rtc.State} {a : Rtc.Action} (h : Rtc.step c r a = some r') :
    r.tau ≤ r'.tau := by
  cases Rtc.step_stmt h with
  | tick => exact Nat.le_succ _
  | _ => exact Nat.le_refl _

theorem State.Past.exec {a : Cortex.Action Task Unit Agent} {exec : Cortex.State Task Unit Agent}
    {r : Rtc.State} (hP : s.Past) (hN : Rtc.NowInv c s.rtc) (hReads : s.reads a = true)
    (h : Cortex.step mode (fun _ => true) s.exec a = some exec) (hTau : s.rtc.tau ≤ r.tau) :
    State.Past ⟨exec, r⟩ := by
  intro now hNow
  refine Nat.le_trans ?_ hTau
  rcases inner_step h with hSame | ⟨b, hb, hStart⟩
  · exact hP now (hSame ▸ hNow)
  · rcases closure_step hb hNow with rfl | hBefore
    · rw [hStart now rfl] at hReads
      obtain ⟨call, hMem, hEq⟩ := List.any_eq_true.mp hReads
      exact beq_iff_eq.mp hEq ▸ value_le hN hMem
    · exact hP now hBefore

theorem State.Past.step {a : Action Task Agent} (hP : s.Past) (hN : Rtc.NowInv c s.rtc)
    (hs : Sleep.step c n callback mode s a = some s') : s'.Past := by
  -- the time a call is given was read, and the clock does not go back
  cases a with
  | setCallback =>
    obtain ⟨-, hs⟩ := Option.ite_none_right_eq_some.mp hs
    obtain ⟨r, hr, rfl⟩ := Option.map_eq_some_iff.mp hs
    exact fun now hNow => (hP now hNow).trans (tau_mono hr)
  | rtc a =>
    obtain ⟨-, hs⟩ := Option.ite_none_left_eq_some.mp hs
    obtain ⟨r, hr, hs⟩ := Option.bind_eq_some_iff.mp hs
    obtain ⟨exec, hExec, hs⟩ := Option.bind_eq_some_iff.mp hs
    cases hs
    unfold State.called State.signal at hExec
    split at hExec
    · exact hP.exec hN (by split <;> rfl) hExec (tau_mono hr)
    · cases hExec
      exact fun now hNow => (hP now hNow).trans (tau_mono hr)
  | exec a =>
    obtain ⟨⟨-, -, hReads⟩, hs⟩ := Option.ite_none_right_eq_some.mp hs
    obtain ⟨exec, hExec, hs⟩ := Option.bind_eq_some_iff.mp hs
    cases hSet : s.alarmSet a with
    | none =>
      rw [hSet] at hs
      cases hs
      exact hP.exec hN hReads hExec (Nat.le_refl _)
    | some value =>
      rw [hSet] at hs
      obtain ⟨-, hs⟩ := Option.ite_none_right_eq_some.mp hs
      obtain ⟨r, hr, rfl⟩ := Option.map_eq_some_iff.mp hs
      exact hP.exec hN hReads hExec (tau_mono hr)

/--
**Nobody is woken early.** Either driver, any tasks and contexts, an executor of either kind,
and anybody at the other alarms; any order of the steps in which the boundaries of the periods
are serviced in time, and the periods do not overflow. Where the timer queue hands a task on to
be woken, its `expires_at` has passed; and if it sleeps, so has a deadline that it waits for.
-/
theorem never_wakes_early {bell : Unit → Bool}
    (hRun : Run (step c n callback mode) (OnRtc (Rtc.ClockOk c)) (init Task Agent bell) s)
    (hs : step c n callback mode s (.exec (.inner (.drain ()))) = some s') {f : Closure}
    {prev : Link Task} {p : Task} (hTask : s'.exec.inner.drain () = .onTask f prev p) :
    s.exec.inner.expiresAt p ≤ s.rtc.tau ∧
      (s.exec.inner.Asleep p → s.exec.inner.minDeadline p ≤ s.rtc.tau) := by
  -- the driver below is in a run of its own, so its `now` never runs ahead
  have hNow : ∀ u, Run (step c n callback mode) (OnRtc (Rtc.ClockOk c)) (init Task Agent bell) u →
      Rtc.NowInv c u.rtc := fun u hu =>
    (Rtc.nowInv_of_run (fun _ _ h => h)
      (rtc_run (fun _ _ => ⟨trivial, trivial⟩) (fun _ => ⟨trivial, trivial⟩) hu)).2
  obtain ⟨-, hPast⟩ := hRun.invariant
    (I := fun u => Run (step c n callback mode) (OnRtc (Rtc.ClockOk c)) (init Task Agent bell) u ∧
      u.Past) ⟨.refl, fun _ h => nomatch h⟩
    fun u a v hI hOk hs => ⟨hI.1.tail hOk hs, hI.2.step (hNow u hI.1) hs⟩
  have hL : Linked n callback s := hRun.invariant (I := Linked n callback) (linked_init bell)
    fun _ _ _ hL _ hs => hL.step hs
  obtain ⟨-, hs⟩ := Option.ite_none_right_eq_some.mp hs
  obtain ⟨exec, hExec, hs⟩ := Option.bind_eq_some_iff.mp hs
  -- setting the driver's alarm leaves the queues alone
  have hInner : s'.exec.inner = exec.inner := by
    split at hs
    · cases hs
      rfl
    · obtain ⟨-, hs⟩ := Option.ite_none_right_eq_some.mp hs
      obtain ⟨r, -, rfl⟩ := Option.map_eq_some_iff.mp hs
      rfl
  obtain ⟨i, hi, rfl⟩ := Option.map_eq_some_iff.mp hExec
  -- the filter passed it, so it had expired when `now` was read
  obtain ⟨now, hD, hLe⟩ := expiresAt_le_now hi (hInner ▸ hTask)
  have hTau : s.exec.inner.expiresAt p ≤ s.rtc.tau :=
    hLe.trans (hPast now (by rw [hD]; rfl))
  obtain ⟨tq, hT⟩ := timerInv_of_run hL.bell.reach
  refine ⟨hTau, fun hAsleep => ?_⟩
  rwa [← hT.current p (.inl hAsleep) (by simp [hD])]

/-- The alarm goes off at the tick 10, and the task is handed on. -/
theorem never_wakes_early_at_ten : ∃ s : State Nat Unit,
    Run (step .nrf 0 (1, 1) fun _ => .thread) (OnRtc (Rtc.ClockOk .nrf))
      (init Nat Unit fun _ => false) s ∧ s.rtc.tau = 10 ∧
      s.exec.inner.drain () = .filter (.dequeueExpired 10) .head 0 ∧
      s.exec.inner.expiresAt 0 ≤ s.rtc.tau := by
  obtain ⟨s, hRun, hTau, hDrain, hSome⟩ : ∃ s : State Nat Unit,
      Run (step .nrf 0 (1, 1) fun _ => .thread) (OnRtc (Rtc.ClockOk .nrf))
        (init Nat Unit fun _ => false) s ∧ s.rtc.tau = 10 ∧
        s.exec.inner.drain () = .filter (.dequeueExpired 10) .head 0 ∧
        ((step .nrf 0 (1, 1) (fun _ => .thread) s (.exec (.inner (.drain ())))).any
          fun s' => decide (s'.exec.inner.drain () = .onTask (.dequeueExpired 10) .head 0)) =
            true := by
    -- one task asks for tick 10; the alarm fires there and the queue is dequeued
    have hRun : Run (step .nrf 0 (1, 1) fun _ => .thread) (OnRtc (Rtc.ClockOk .nrf))
        (init Nat Unit fun _ => false) _ :=
      Run.execOk_get _ ([[.exec (.next ())], (spawnActions () 0 ()).map (.exec ∘ .inner),
        [.exec (.next ()), .rtc .nowLoad, .rtc (.nowRead 0), .exec (.runQueued () 0)],
        List.replicate 6 (.exec (.inner (.drain ()))),
        [.exec (.inner (.registerTimer () 10)), .exec (.inner (.pollReturn () false))],
        List.replicate 8 (.exec (.inner (.drain ()))),
        [.setCallback, .exec (.inner (.drain ()))], List.replicate 4 (.rtc .crit),
        [.exec (.next ())], List.replicate 10 (.rtc .tick),
        (Rtc.enterAlarms ++ Rtc.triggerFound ++ Rtc.leaveAlarms).map .rtc,
        [.rtc .nowLoad, .rtc (.nowRead 0), .exec (.wake ()), .exec (.runQueued () 10),
          .exec (.inner (.drain ()))]] : List (List (Action Nat Unit))).flatten
        (by decide +kernel)
    exact ⟨_, hRun, by decide +kernel, by decide +kernel, by decide +kernel⟩
  obtain ⟨s', hs, hTask⟩ := Option.any_eq_true _ _ |>.mp hSome
  exact ⟨s, hRun, hTau, hDrain, (never_wakes_early hRun hs (of_decide_eq_true hTask)).1⟩

end Embassy.Sleep
