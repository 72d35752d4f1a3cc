import Embassy.Executor.Returns
import Embassy.Executor.Signal
import Embassy.Executor.Slot

/-!
# The executors of a Cortex-M

`embassy/src/executor/mod.rs`: `Executor::run` is the main thread, which calls `run_queued`
and then waits for an event, for ever. `InterruptExecutor::start` makes `run_queued` the
handler of an interrupt. A signal is an event for the one and pends the line of the other;
both are a bit that stays until the executor takes it, here the `bell`.

Any number of executors share the machine of `Embassy.Executor`. Between two steps of an
executor anything may happen in the others, in the tasks and in the interrupts. `wfe` may
return without an event, and a line may be pended by somebody else. Nobody has a `Spawner`
of an executor before its `init` is called.

Main results:

* `BellInv.step` / `bellInv_of_run` — every step keeps the invariant.
* `no_lost_bell` — an executor does not sleep with work in its run queue.
* `deadline_armed` — nor without an alarm for the deadlines of its tasks.
-/

namespace Embassy.Cortex

open Embassy.Lib Embassy.Executor

inductive Mode where
  /-- `Executor` -/
  | thread
  /-- `InterruptExecutor` -/
  | interrupt
  deriving DecidableEq, Repr

/-- The next operation of `run`, or of `start` and then of the handler. -/
inductive Loop where
  /-- before `run`, or before `start` has disabled the line -/
  | new
  /-- the closure `init` -/
  | init
  | setHandler
  | setHandlerContext
  | enable
  | call
  | runQueued
  /-- in `wfe`, or not in the handler -/
  | sleep
  deriving DecidableEq, Repr

structure State (Task Exec Agent : Type) where
  inner : Executor.State Task Exec Agent
  loop : Exec → Loop
  /-- the event register, or the pending bit of the line -/
  bell : Exec → Bool
  /-- what the alarm waits for -/
  armed : Exec → Option Nat

inductive Action (Task Exec Agent : Type) where
  /-- a step of the tasks, the contexts, or `run_queued` -/
  | inner (a : Executor.Action Task Exec Agent)
  /-- the next operation of the executor outside of `run_queued` -/
  | next (e : Exec)
  | runQueued (e : Exec) (now : Nat)
  /-- `wfe` returns, or the handler is entered -/
  | wake (e : Exec)
  /-- the alarm calls the signal function -/
  | fire (e : Exec)
  /-- an event, or the line is pended, for another reason -/
  | ring (e : Exec)
  /-- before the executor is started, somebody else takes the event or the interrupt -/
  | stray (e : Exec)
  deriving DecidableEq, Repr

variable {Task Exec Agent : Type}

def init (Task Agent : Type) (bell : Exec → Bool) : State Task Exec Agent where
  inner := Executor.init Task Exec Agent
  loop := fun _ => .new
  bell := bell
  armed := fun _ => none

variable [DecidableEq Task] [DecidableEq Exec] [DecidableEq Agent]

namespace State

def goto (s : State Task Exec Agent) (e : Exec) (l : Loop) : State Task Exec Agent :=
  { s with loop := Function.update s.loop e l }

def setBell (s : State Task Exec Agent) (e : Exec) (b : Bool) : State Task Exec Agent :=
  { s with bell := Function.update s.bell e b }

end State

/-- Only the loops call `run_queued`, and spawners come from the closures `init`. -/
def allowed (s : State Task Exec Agent) : Executor.Action Task Exec Agent → Bool
  | .runQueued _ _ => false
  | .spawn _ e => s.loop e ≠ .new
  | _ => true

/-- Which bell the step rings: that of the executor whose `signal_fn` is called. -/
def rings (s : Executor.State Task Exec Agent) : Executor.Action Task Exec Agent → Option Exec
  | .advance x _ =>
    match s.pc x with
    | .signal e => some e
    | _ => none
  | _ => none

/-- Which alarm the step sets, and for when. -/
def arms (s : Executor.State Task Exec Agent) :
    Executor.Action Task Exec Agent → Option (Exec × Nat)
  | .drain e =>
    match s.drain e with
    | .setAlarm value => some (e, value)
    | _ => none
  | _ => none

/-- The bells after a step. -/
def ring (bell : Exec → Bool) : Option Exec → Exec → Bool
  | some e => Function.update bell e true
  | none => bell

def arm (armed : Exec → Option Nat) : Option (Exec × Nat) → Exec → Option Nat
  | some (e, value) => Function.update armed e (some value)
  | none => armed

def step (mode : Exec → Mode) (hasAlarm : Exec → Bool) (s : State Task Exec Agent) :
    Action Task Exec Agent → Option (State Task Exec Agent)
  | .inner a =>
    if allowed s a then
      (Executor.step hasAlarm s.inner a).map fun inner => { s with
        inner := inner
        bell := ring s.bell (rings s.inner a)
        armed := arm s.armed (arms s.inner a) }
    else none
  | .next e =>
    match s.loop e with
    | .new => some (s.goto e .init)
    | .init =>
      match mode e with
      | .thread => some (s.goto e .call)
      | .interrupt => some (s.goto e .setHandler)
    | .setHandler => some (s.goto e .setHandlerContext)
    | .setHandlerContext => some (s.goto e .enable)
    | .enable => some (s.goto e .sleep)
    | .runQueued => if s.inner.drain e = .idle then some (s.goto e .sleep) else none
    | .call | .sleep => none
  | .runQueued e now =>
    if s.loop e = .call then
      (Executor.step hasAlarm s.inner (.runQueued e now)).map fun inner =>
        { s with inner := inner }.goto e .runQueued
    else none
  | .wake e =>
    if s.loop e = .sleep ∧ (mode e = .interrupt → s.bell e = true) then
      some ((s.goto e .call).setBell e false)
    else none
  | .fire e =>
    match s.armed e with
    | some _ => some ({ s with armed := Function.update s.armed e none }.setBell e true)
    | none => none
  | .ring e => some (s.setBell e true)
  | .stray e => if s.loop e = .new then some (s.setBell e false) else none

-- ---------------------------------------------------------------------------
-- Before the start
-- ---------------------------------------------------------------------------

/-- The context holds the executor. -/
def Holds (k : Pc Task Exec) (e : Exec) : Prop :=
  (∃ t, k = .loadHead t e) ∨ (∃ t prev, k = .storeNext t e prev) ∨
    (∃ t prev, k = .casHead t e prev) ∨ k = .signal e

/-- No task and no context knows the executor. -/
structure Untouched (s : Executor.State Task Exec Agent) (e : Exec) : Prop where
  head : s.head e = none
  executor : ∀ t, s.executor t ≠ some e
  pc : ∀ x, ¬Holds (s.pc x) e

variable {mode : Exec → Mode} {hasAlarm : Exec → Bool} {e : Exec}

section Inner

variable {i i' : Executor.State Task Exec Agent} {b : Executor.Action Task Exec Agent}

omit [DecidableEq Task] in
/-- A context that holds nothing for the executor may go on. -/
theorem Untouched.pc_update (hU : Untouched i e) {x : Context Agent Exec}
    {k : Pc Task Exec} (hk : ¬Holds k e) (y : Context Agent Exec) :
    ¬Holds (Function.update i.pc x k y) e := by
  by_cases hy : y = x
  · rw [hy, Function.update_self]
    exact hk
  · rw [Function.update_of_ne hy]
    exact hU.pc y

/-- A context gets to know an executor from a task, or as it spawns. -/
theorem Untouched.op (hU : Untouched i e) {x : Context Agent Exec} (h : Op i x i')
    (hNot : ∀ t, i.pc x ≠ .token t) : Untouched i' e := by
  -- a context that acts on this executor would hold it already
  cases h with
  | enqueue_return | enqueue_retry | allocate_none | allocate_ok | allocate_busy | writePollFn
  | writeFuture | wake | spawnPool | casState =>
    exact ⟨hU.head, hU.executor, hU.pc_update (by simp [Holds])⟩
  | @getExecutor t e' hPc hE =>
    refine ⟨hU.head, hU.executor, hU.pc_update ?_⟩
    have hNe : e' ≠ e := fun hEq => hU.executor t (hEq ▸ hE)
    simp [Holds, hNe]
  | @loadHead t e' k hPc hk =>
    refine ⟨hU.head, hU.executor, hU.pc_update ?_⟩
    have hNe : e' ≠ e := by
      rintro rfl
      refine hU.pc x ?_
      rw [hPc]
      rcases hk with rfl | ⟨prev, rfl⟩ <;> simp [Holds]
    simp [Holds, hNe]
  | @storeNext t e' prev hPc =>
    refine ⟨hU.head, hU.executor, hU.pc_update ?_⟩
    have hNe : e' ≠ e := by
      rintro rfl
      exact hU.pc x (by rw [hPc]; simp [Holds])
    simp [Holds, hNe]
  -- the head written is that of another executor
  | @casHead t e' hPc =>
    have hNe : e' ≠ e := by
      rintro rfl
      exact hU.pc x (by rw [hPc]; simp [Holds])
    refine ⟨?_, hU.executor, hU.pc_update ?_⟩
    · show Function.update i.head e' _ e = none
      rw [Function.update_of_ne (Ne.symm hNe)]
      exact hU.head
    · split <;> simp [Holds, hNe]
  | signal hPc => exact ⟨hU.head, hU.executor, hU.pc_update (by simp [Holds])⟩
  | spawn hPc => exact absurd hPc (hNot _)

/-- An executor that nobody spawns on stays untouched. -/
theorem Untouched.step (hU : Untouched i e) (h : Executor.step hasAlarm i b = some i')
    (hNot : ∀ c, b ≠ .spawn c e) : Untouched i' e := by
  -- a task gets its executor from `spawn` alone, and that spawn is excluded
  cases b with
  | wake c t =>
    simp only [Executor.step] at h
    split at h
    · cases h
      exact ⟨hU.head, hU.executor, hU.pc_update (by simp [Holds])⟩
    · cases h
  | spawnPool c pool =>
    simp only [Executor.step] at h
    split at h
    · cases h
      exact ⟨hU.head, hU.executor, hU.pc_update (by simp [Holds])⟩
    · cases h
  -- no context holds a task of this executor
  | advance x weak =>
    refine hU.op (advance_op h) fun t hPc => ?_
    simp [Executor.step, advance, hPc] at h
  | spawn c e' =>
    have hNe : e' ≠ e := fun hEq => hNot c (hEq ▸ rfl)
    simp only [Executor.step] at h
    split at h
    · cases h
      refine ⟨hU.head, fun t => ?_, hU.pc_update (by simp [Holds, hNe])⟩
      show Function.update i.executor _ (some e') t ≠ some e
      rw [Function.update_apply]
      split
      · exact fun hEq => hNe (Option.some.inj hEq)
      · exact hU.executor t
    · cases h
  -- a drain empties heads and fills none
  | drain e' =>
    have hOp : DrainOp hasAlarm i e' i' := drainStep_op h
    cases hOp with
    | swap hD =>
      refine ⟨?_, hU.executor, hU.pc⟩
      show Function.update i.head e' none e = none
      rw [Function.update_apply, hU.head, ite_self]
    | filter_expired => exact ⟨hU.head, hU.executor, hU.pc_update (by simp [Holds])⟩
    | @unlink f prev p hD => cases prev <;> exact ⟨hU.head, hU.executor, hU.pc⟩
    | _ => exact ⟨hU.head, hU.executor, hU.pc⟩
  | runQueued | registerTimer | pollReturn =>
    simp only [Executor.step] at h
    repeat' split at h
    all_goals cases h <;> exact ⟨hU.head, hU.executor, hU.pc⟩

/-- With an alarm, a call ends when it has set it. -/
theorem armed_of_idle (h : Executor.step hasAlarm i b = some i') (hAlarm : hasAlarm e = true)
    (hBusy : i.drain e ≠ .idle) (hIdle : i'.drain e = .idle) :
    ∃ value, arms i b = some (e, value) ∧ i'.alarm e = some value := by
  by_cases hb : b = .drain e
  · subst hb
    have hOp : DrainOp hasAlarm i e i' := drainStep_op h
    cases hOp with
    | @setAlarm value hD =>
      refine ⟨value, ?_, Function.update_self ..⟩
      simp only [arms, hD]
    | @retain_end f prev hD => cases f <;> simp [Closure.finish] at hIdle
    | start hD => exact absurd hD hBusy
    | registerTimer hD => exact absurd hIdle hBusy
    | walk_end hD => simp [hAlarm] at hIdle
    | _ => simp at hIdle
  · rcases drain_of_ne h hb with hD | ⟨now, -, hD, -⟩ | ⟨t, next, ready, -, -, hD | hD⟩
    · exact absurd (hD ▸ hIdle) hBusy
    · exact absurd hD hBusy
    · simp [hD] at hIdle
    · simp [hD] at hIdle

end Inner

-- ---------------------------------------------------------------------------
-- The invariant
-- ---------------------------------------------------------------------------

section Ring

variable {bell : Exec → Bool} {armed : Exec → Option Nat}

omit [DecidableEq Task] [DecidableEq Agent] in
/-- A bell that rings goes on ringing. -/
theorem ring_of_bell {o : Option Exec} (h : bell e = true) : ring bell o e = true := by
  cases o with
  | none => exact h
  | some e' =>
    show Function.update bell e' true e = true
    rw [Function.update_apply, h, ite_self]

omit [DecidableEq Task] [DecidableEq Agent] in
theorem arm_of_ne {o : Option (Exec × Nat)} (h : ∀ value, o ≠ some (e, value)) :
    arm armed o e = armed e := by
  rcases o with _ | ⟨e', value⟩
  · rfl
  · refine Function.update_of_ne ?_ _ _
    rintro rfl
    exact h value rfl

end Ring

/-- What holds of the executor `e` beside the machine. -/
structure BellAt (hasAlarm : Exec → Bool) (i : Executor.State Task Exec Agent) (e : Exec)
    (loop : Loop) (bell : Bool) (armed : Option Nat) : Prop where
  idle : loop ≠ .runQueued → i.drain e = .idle
  new : loop = .new → Untouched i e ∧ armed = none ∧ i.alarm e = none
  /-- After the swap of its head, a queue that is not empty has rung or will. -/
  told : loop ≠ .call → (i.drain e).phase ≤ 3 →
    i.head e = none ∨ bell = true ∨ SignalDue i e
  /-- The alarm is set as `run_queued` has left it, or it has rung since. -/
  fresh : hasAlarm e = true → loop ≠ .call → i.drain e = .idle → bell = true ∨ armed = i.alarm e

structure BellInv (hasAlarm : Exec → Bool) (s : State Task Exec Agent) : Prop where
  reach : Executor.Reaches hasAlarm (Executor.init Task Exec Agent) s.inner
  each : ∀ e, BellAt hasAlarm s.inner e (s.loop e) (s.bell e) (s.armed e)

variable {s s' : State Task Exec Agent} {a : Action Task Exec Agent}

theorem bellInv_init (bell : Exec → Bool) : BellInv hasAlarm (init Task Agent bell) where
  reach := .refl
  each _ := {
    idle := fun _ => rfl
    new := fun _ => ⟨⟨rfl, fun _ h => (nomatch h), fun _ => by simp [init, Executor.init, Holds]⟩,
      rfl, rfl⟩
    told := fun _ _ => .inl rfl
    fresh := fun _ _ _ => .inr rfl }

/-- The machine makes a step, and the bell and the alarm follow. -/
theorem BellAt.step {i i' : Executor.State Task Exec Agent}
    {b : Executor.Action Task Exec Agent} {loop : Loop} {bell : Exec → Bool}
    {armed : Exec → Option Nat} (hB : BellAt hasAlarm i e loop (bell e) (armed e))
    (hReach : Executor.Reaches hasAlarm (Executor.init Task Exec Agent) i)
    (h : Executor.step hasAlarm i b = some i') (hCall : ∀ now, b ≠ .runQueued e now)
    (hSpawn : loop = .new → ∀ c, b ≠ .spawn c e) :
    BellAt hasAlarm i' e loop (ring bell (rings i b) e) (arm armed (arms i b) e) := by
  -- an idle executor does not set its alarm
  have hKeeps : i.drain e = .idle → arm armed (arms i b) e = armed e := by
    intro hIdle
    refine arm_of_ne fun value hArms => ?_
    unfold arms at hArms
    split at hArms
    · split at hArms
      · rename_i hD
        cases hArms
        cases hIdle.symm.trans hD
      · cases hArms
    · cases hArms
  constructor
  case idle => exact fun hLoop => idle_step h (hB.idle hLoop) hCall
  case new =>
    intro hNew
    obtain ⟨hU, hArmed, hAlarm⟩ := hB.new hNew
    have hIdle := hB.idle (by rw [hNew]; exact fun h => nomatch h)
    exact ⟨hU.step h (hSpawn hNew), (hKeeps hIdle).trans hArmed,
      (alarm_step h hIdle).trans hAlarm⟩
  case told =>
    intro hLoop hPhase
    rcases phase_of_swap h hPhase with hBefore | hEmpty
    · rcases hB.told hLoop hBefore with hNone | hBell | ⟨x, hDue⟩
      · exact (head_step h hNone).imp_right .inr
      · exact .inr (.inl (ring_of_bell hBell))
      · obtain ⟨⟨L, hQ⟩, -⟩ := queueInv_of_run hReach
        rcases signalDue_step hQ h hDue with hDue' | ⟨-, weak, rfl⟩
        · exact .inr (.inr ⟨x, hDue'⟩)
        · refine .inr (.inl ?_)
          simp only [rings, hDue, ring, Function.update_self]
    · exact .inl hEmpty
  case fresh =>
    intro hAlarm hLoop hIdle
    by_cases hBefore : i.drain e = .idle
    · rw [hKeeps hBefore, alarm_step h hBefore]
      exact (hB.fresh hAlarm hLoop hBefore).imp_left ring_of_bell
    · obtain ⟨value, hArms, hSet⟩ := armed_of_idle h hAlarm hBefore hIdle
      right
      rw [hArms, hSet]
      exact Function.update_self ..

/-- A call begins, before its swap. -/
theorem BellAt.runQueued {i i' : Executor.State Task Exec Agent} {now : Nat} {bell : Bool}
    {armed : Option Nat} (h : Executor.step hasAlarm i (.runQueued e now) = some i') :
    BellAt hasAlarm i' e .runQueued bell armed := by
  -- the call has just begun
  have hD : i'.drain e = .swap ∨ i'.drain e = .retain (.dequeueExpired now) .head := by
    simp only [Executor.step] at h
    split at h
    · cases h
      by_cases hA : hasAlarm e = true
      · exact .inr (by simp [hA])
      · exact .inl (by simp [hA])
    · cases h
  constructor
  case idle => exact fun hLoop => absurd rfl hLoop
  case new =>
    intro hLoop
    cases hLoop
  case told =>
    intro _ hPhase
    rcases hD with hD | hD <;> simp [hD, Drain.phase, Drain.closure] at hPhase
  case fresh =>
    intro _ _ hIdle
    rcases hD with hD | hD <;> simp [hD] at hIdle

omit [DecidableEq Task] [DecidableEq Exec] [DecidableEq Agent] in
/-- The executor goes on, and the machine is left alone. -/
theorem BellAt.goto {i : Executor.State Task Exec Agent} {loop loop' : Loop} {bell : Bool}
    {armed : Option Nat} (hB : BellAt hasAlarm i e loop bell armed) (hCall : loop ≠ .call)
    (hIdle : i.drain e = .idle) (hNew : loop' ≠ .new) :
    BellAt hasAlarm i e loop' bell armed where
  idle _ := hIdle
  new hLoop := absurd hLoop hNew
  told _ := hB.told hCall
  fresh hAlarm _ := hB.fresh hAlarm hCall

omit [DecidableEq Task] [DecidableEq Exec] [DecidableEq Agent] in
/-- A bell may always ring. -/
theorem BellAt.rung {i : Executor.State Task Exec Agent} {loop : Loop} {bell : Bool}
    {armed : Option Nat} (hB : BellAt hasAlarm i e loop bell armed) :
    BellAt hasAlarm i e loop true armed where
  idle := hB.idle
  new := hB.new
  told _ _ := .inr (.inl rfl)
  fresh _ _ _ := .inl rfl

/-- A step of one executor does not concern the others. -/
theorem BellInv.update (hI : BellInv hasAlarm s) (hInner : s'.inner = s.inner)
    (hOther : ∀ e', e' ≠ e → s'.loop e' = s.loop e' ∧ s'.bell e' = s.bell e' ∧
      s'.armed e' = s.armed e')
    (hThis : BellAt hasAlarm s.inner e (s'.loop e) (s'.bell e) (s'.armed e)) :
    BellInv hasAlarm s' := by
  refine ⟨hInner ▸ hI.reach, fun e' => ?_⟩
  rw [hInner]
  by_cases he : e' = e
  · rw [he]
    exact hThis
  · obtain ⟨hLoop, hBell, hArmed⟩ := hOther e' he
    rw [hLoop, hBell, hArmed]
    exact hI.each e'

/-- The loop of one executor goes on. -/
theorem BellInv.goto (hI : BellInv hasAlarm s) {loop : Loop} (hCall : s.loop e ≠ .call)
    (hIdle : s.inner.drain e = .idle) (hNew : loop ≠ .new) :
    BellInv hasAlarm (s.goto e loop) := by
  refine hI.update (e := e) rfl
    (fun e' he => ⟨Function.update_of_ne he _ _, rfl, rfl⟩) ?_
  simp only [State.goto, Function.update_self]
  exact (hI.each e).goto hCall hIdle hNew

/-- Every step keeps the bells. -/
theorem BellInv.step (hI : BellInv hasAlarm s) (hs : step mode hasAlarm s a = some s') :
    BellInv hasAlarm s' := by
  cases a with
  -- a step of the executors that is not a call of `run`
  | inner b =>
    obtain ⟨hAllowed, hs⟩ := Option.ite_none_right_eq_some.mp hs
    obtain ⟨i, hi, rfl⟩ := Option.map_eq_some_iff.mp hs
    refine ⟨hI.reach.tail trivial hi, fun e => (hI.each e).step hI.reach hi ?_ ?_⟩
    · rintro now rfl
      cases hAllowed
    · rintro hNew c rfl
      simp [allowed, hNew] at hAllowed
  -- the call begins: for this executor the bell is answered
  | runQueued e now =>
    obtain ⟨-, hs⟩ := Option.ite_none_right_eq_some.mp hs
    obtain ⟨i, hi, rfl⟩ := Option.map_eq_some_iff.mp hs
    refine ⟨hI.reach.tail trivial hi, fun e' => ?_⟩
    by_cases he : e' = e
    · subst he
      simp only [State.goto, Function.update_self]
      exact .runQueued hi
    · simp only [State.goto, Function.update_of_ne he]
      refine (hI.each e').step hI.reach hi (fun now' hEq => ?_) fun _ _ h => nomatch h
      cases hEq
      exact he rfl
  -- the set-up and the loop around the call: the bell is not touched
  | next e =>
    simp only [Cortex.step] at hs
    cases hLoop : s.loop e with
    | new | setHandler | setHandlerContext | enable =>
      simp only [hLoop] at hs
      cases hs
      have hIdle := (hI.each e).idle (by rw [hLoop]; exact fun h => nomatch h)
      exact hI.goto (by rw [hLoop]; exact fun h => nomatch h) hIdle fun h => nomatch h
    | init =>
      simp only [hLoop] at hs
      have hIdle := (hI.each e).idle (by rw [hLoop]; exact fun h => nomatch h)
      split at hs <;> cases hs <;>
        exact hI.goto (by rw [hLoop]; exact fun h => nomatch h) hIdle fun h => nomatch h
    | runQueued =>
      simp only [hLoop] at hs
      obtain ⟨hIdle, hs⟩ := Option.ite_none_right_eq_some.mp hs
      cases hs
      exact hI.goto (by rw [hLoop]; exact fun h => nomatch h) hIdle fun h => nomatch h
    | call | sleep =>
      simp only [hLoop] at hs
      cases hs
  | wake e =>
    obtain ⟨⟨hLoop, -⟩, hs⟩ := Option.ite_none_right_eq_some.mp hs
    cases hs
    have hIdle := (hI.each e).idle (by rw [hLoop]; exact fun h => nomatch h)
    refine hI.update (e := e) rfl (fun e' he => ⟨Function.update_of_ne he _ _,
      Function.update_of_ne he _ _, rfl⟩) ?_
    simp only [State.goto, State.setBell, Function.update_self]
    exact ⟨fun _ => hIdle, fun h => (nomatch h), fun h => absurd rfl h, fun _ h => absurd rfl h⟩
  -- the alarm goes off and its callback rings
  | fire e =>
    simp only [Cortex.step] at hs
    split at hs
    · rename_i value hArmed
      cases hs
      refine hI.update (e := e) rfl (fun e' he => ⟨rfl, Function.update_of_ne he _ _,
        Function.update_of_ne he _ _⟩) ?_
      simp only [State.setBell, Function.update_self]
      have hB := (hI.each e).rung
      refine ⟨hB.idle, fun hNew => ?_, hB.told, fun _ _ _ => .inl rfl⟩
      cases hArmed.symm.trans (hB.new hNew).2.1
    · cases hs
  | ring e =>
    cases hs
    refine hI.update (e := e) rfl (fun e' he => ⟨rfl, Function.update_of_ne he _ _, rfl⟩) ?_
    simp only [State.setBell, Function.update_self]
    exact (hI.each e).rung
  -- an event before the set-up is over finds an executor no task belongs to
  | stray e =>
    obtain ⟨hNew, hs⟩ := Option.ite_none_right_eq_some.mp hs
    cases hs
    refine hI.update (e := e) rfl (fun e' he => ⟨rfl, Function.update_of_ne he _ _, rfl⟩) ?_
    simp only [State.setBell, Function.update_self]
    have hB := hI.each e
    obtain ⟨hU, hArmed, hAlarm⟩ := hB.new hNew
    exact ⟨hB.idle, hB.new, fun _ _ => .inl hU.head, fun _ _ _ => .inr (hArmed.trans hAlarm.symm)⟩

-- ---------------------------------------------------------------------------
-- Runs
-- ---------------------------------------------------------------------------

/-- Any steps in any order, from any state of the events and the lines. -/
def Reaches (mode : Exec → Mode) (hasAlarm : Exec → Bool) (s : State Task Exec Agent) : Prop :=
  ∃ bell, Run (step mode hasAlarm) (fun _ _ => True) (init Task Agent bell) s

theorem bellInv_of_run (hRun : Reaches mode hasAlarm s) : BellInv hasAlarm s := by
  obtain ⟨bell, hRun⟩ := hRun
  exact hRun.invariant (bellInv_init bell) fun _ _ _ hI _ hs => hI.step hs

/--
**No bell is lost.** Any number of executors of both kinds, and any contexts, alarms and
interrupts. An executor that sleeps and is not rung has an empty run queue, or the context
that has filled it is about to ring; one that is not started has no tasks; and no executor
is inside of two calls of `run_queued`, or of one outside of its loop.
-/
theorem no_lost_bell (hRun : Reaches mode hasAlarm s) (e : Exec) :
    (s.loop e = .sleep → s.bell e = false → s.inner.head e = none ∨ SignalDue s.inner e) ∧
      (s.loop e = .new → s.inner.head e = none ∧ ∀ t, s.inner.executor t ≠ some e) ∧
      (s.inner.drain e ≠ .idle → s.loop e = .runQueued) := by
  have hB := (bellInv_of_run hRun).each e
  refine ⟨fun hLoop hBell => ?_, fun hNew => ?_, fun hBusy => ?_⟩
  · have hIdle := hB.idle (by rw [hLoop]; exact fun h => nomatch h)
    rcases hB.told (by rw [hLoop]; exact fun h => nomatch h) (by simp [hIdle, Drain.phase])
      with hNone | hRung | hDue
    · exact .inl hNone
    · cases hBell.symm.trans hRung
    · exact .inr hDue
  · obtain ⟨hU, -, -⟩ := hB.new hNew
    exact ⟨hU.head, hU.executor⟩
  · by_contra hLoop
    exact hBusy (hB.idle hLoop)

/-- An interrupt executor is started, and its line pended while it was; it has taken the
interrupt, and a task has just been linked. -/
theorem no_lost_bell_pended : ∃ s : State Nat Bool Unit,
    Reaches (fun e => if e then .interrupt else .thread) (fun _ => false) s ∧
      s.loop true = .sleep ∧ s.bell true = false ∧ s.inner.head true = some 0 ∧
      SignalDue s.inner true ∧ s.loop false = .new ∧ s.inner.head false = none := by
  obtain ⟨s, hRun, hLoop, hBell, hHead, hNew⟩ : ∃ s : State Nat Bool Unit,
      Reaches (fun e => if e then .interrupt else .thread) (fun _ => false) s ∧
        s.loop true = .sleep ∧ s.bell true = false ∧ s.inner.head true = some 0 ∧
        s.loop false = .new := by
    have hRun : Run (step (fun e => if e then .interrupt else .thread) (fun _ => false))
        (fun _ _ => True) (init Nat Unit (fun _ => true) : State Nat Bool Unit) _ :=
      Run.execOk_get _ (List.replicate 5 (.next true) ++
        [.wake true, .runQueued true 0, .inner (.drain true), .inner (.drain true), .next true] ++
        (spawnActions () 0 true).dropLast.map .inner) (by decide +kernel)
    exact ⟨_, ⟨_, hRun⟩, by decide +kernel, by decide +kernel, by decide +kernel,
      by decide +kernel⟩
  have hLost := fun e => no_lost_bell hRun e
  obtain hNone | hDue := (hLost true).1 hLoop hBell
  · cases hHead.symm.trans hNone
  · exact ⟨s, hRun, hLoop, hBell, hHead, hDue, hNew, ((hLost false).2.1 hNew).1⟩

-- ---------------------------------------------------------------------------
-- Deadlines
-- ---------------------------------------------------------------------------

/-- As the executor sleeps, its alarm is armed for no later than a deadline of its tasks. -/
theorem BellInv.armed_le {s : State Task Unit Agent} (hI : BellInv (fun _ => true) s)
    (hLoop : s.loop () = .sleep) (hBell : s.bell () = false) {t : Task}
    (hAsleep : s.inner.Asleep t) {deadline : Nat} (hMem : deadline ∈ s.inner.deadlines t)
    (hMax : deadline < instantMax) : ∃ value, s.armed () = some value ∧ value ≤ deadline := by
  have hB := hI.each ()
  have hLater : s.loop () ≠ .call := by rw [hLoop]; exact fun h => nomatch h
  have hIdle := hB.idle (by rw [hLoop]; exact fun h => nomatch h)
  obtain ⟨value, hAlarm, hLe⟩ := alarm_le hI.reach hIdle hAsleep hMem hMax
  rcases hB.fresh rfl hLater hIdle with hRung | hSame
  · cases hBell.symm.trans hRung
  · exact ⟨value, hSame.trans hAlarm, hLe⟩

/--
**No deadline is slept through.** An executor with an alarm, of either kind, that sleeps
and is not rung: for every deadline that a task of it waits for (`Instant::MAX` is none), the
alarm is still armed, and not for later. When it goes off it rings, so that the deadline is
looked at.
-/
theorem deadline_armed {mode : Unit → Mode} {s : State Task Unit Agent}
    (hRun : Reaches mode (fun _ => true) s) (hLoop : s.loop () = .sleep)
    (hBell : s.bell () = false) {t : Task} (hAsleep : s.inner.Asleep t) {deadline : Nat}
    (hMem : deadline ∈ s.inner.deadlines t) (hMax : deadline < instantMax) :
    ∃ value, s.armed () = some value ∧ value ≤ deadline ∧
      ∃ s', step mode (fun _ => true) s (.fire ()) = some s' ∧ s'.bell () = true := by
  obtain ⟨value, hArmed, hLe⟩ := (bellInv_of_run hRun).armed_le hLoop hBell hAsleep hMem hMax
  refine ⟨value, hArmed, hLe, ?_⟩
  simp only [step, hArmed]
  refine ⟨_, rfl, ?_⟩
  simp only [State.setBell, Function.update_self]

/-- A task waits for the ticks 12 and 10. -/
theorem deadline_armed_at_ten : ∃ s : State Nat Unit Unit,
    Reaches (fun _ => .thread) (fun _ => true) s ∧ ∃ value, s.armed () = some value ∧
      value ≤ 10 := by
  obtain ⟨s, hRun, hLoop, hBell, hAsleep, hMem⟩ : ∃ s : State Nat Unit Unit,
      Reaches (fun _ => .thread) (fun _ => true) s ∧ s.loop () = .sleep ∧ s.bell () = false ∧
        s.inner.Asleep 0 ∧ 10 ∈ s.inner.deadlines 0 := by
    have hRun : Run (step (fun _ => .thread) (fun _ => true)) (fun _ _ => True)
        (init Nat Unit (fun _ => false) : State Nat Unit Unit) _ :=
      Run.execOk_get _ ([[.next ()], (spawnActions () 0 ()).map .inner,
        [.next (), .runQueued () 0], List.replicate 6 (.inner (.drain ())),
        [.inner (.registerTimer () 12), .inner (.registerTimer () 10),
          .inner (.pollReturn () false)], List.replicate 9 (.inner (.drain ())),
        [.next (), .wake (), .runQueued () 5], List.replicate 9 (.inner (.drain ())),
        [.next ()]] : List (List (Action Nat Unit Unit))).flatten (by decide +kernel)
    exact ⟨_, ⟨_, hRun⟩, by decide +kernel, by decide +kernel,
      ⟨by decide +kernel, by decide +kernel⟩, by decide +kernel⟩
  obtain ⟨value, hArmed, hLe, -⟩ := deadline_armed hRun hLoop hBell hAsleep hMem (by decide)
  exact ⟨s, hRun, value, hArmed, hLe⟩

end Embassy.Cortex
