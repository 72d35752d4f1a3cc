import Embassy.Util.InterruptFuture

/-!
# Waiting for the event of a peripheral

`wake_on_interrupt` of `embassy/src/util/signal.rs`, as the drivers of SPIM, SAADC and QSPI
use it. A future starts the hardware, and each poll looks at the event: if it is there, it is
reset and the future is ready; if not, the line is set up to wake the task. The handler wakes,
and masks the line, and leaves the event for the future to see.

The peripheral holds the line as long as the event is there and its interrupt is enabled, and
the line may be pending from before in any state, as it is after each event that was seen
while the handler was at work. Such an interrupt only wakes the task to wait again.

Main results:

* `EndEventInv` — the invariant, kept as long as the line is not enabled in the middle of the
  handler.
* `end_not_lost` — then a task that waits at the event was woken, or is by the next steps of
  the interrupt.
* `end_lost` — the condition is needed.
-/

namespace Embassy.Nrf

open Embassy.Lib Embassy.Util

/-- The next step of the future. -/
inductive EndEventPc where
  /-- There is no future. -/
  | idle
  /-- The future was never polled. -/
  | created
  /-- `r.events_end.reset()` -/
  | reset
  /-- `r.intenset.write(|w| w.end().set())` -/
  | enableEnd
  /-- `r.tasks_start` -/
  | start
  /-- `r.events_end.read()` -/
  | check
  /-- The event is there, and is reset. -/
  | finish
  /-- `wake_on_interrupt` -/
  | disable
  | setHandler
  | setContext
  | enable
  /-- The latest poll returned `Pending`. -/
  | waiting
  deriving DecidableEq, Repr

/-- The future was polled, and is not ready. -/
def EndEventPc.polled : EndEventPc → Bool
  | .idle | .created => false
  | _ => true

/-- The interrupt of the event is enabled. -/
def EndEventPc.armed : EndEventPc → Bool
  | .idle | .created | .reset | .enableEnd => false
  | _ => true

structure EndEvent (Task : Type) where
  pc : EndEventPc
  /-- The task that polls the future, or did so last. -/
  task : Option Task
  /-- The task was woken by the handler since the future looked at the event last. -/
  woken : Bool
  /-- `events_end` -/
  ended : Bool
  inten : Bool
  /-- The hardware is at work. -/
  running : Bool
  /-- The line in the interrupt controller. -/
  enabled : Bool
  pending : Bool
  /-- `irq_wake_handler` is the handler. -/
  installed : Bool
  ctx : Option Task
  handler : HandlerPc Task
  deriving DecidableEq, Repr

inductive EndEventAction (Task : Type) where
  | create
  | poll (w : Task)
  | drop
  /-- The poll goes on. -/
  | advance
  /-- The hardware is done. -/
  | complete
  /-- The line gets pending. -/
  | pend
  /-- The processor enters the interrupt, and the trampoline loads the context. -/
  | interrupt
  /-- The handler goes on. -/
  | handle
  deriving DecidableEq, Repr

variable {Task : Type}

namespace EndEvent

/-- Before the first future, with any state of the line. -/
def init (enabled pending installed : Bool) (ctx : Option Task) : EndEvent Task where
  pc := .idle
  task := none
  woken := false
  ended := false
  inten := false
  running := false
  enabled := enabled
  pending := pending
  installed := installed
  ctx := ctx
  handler := .out

def advance (s : EndEvent Task) : EndEventPc → Option (EndEvent Task)
  | .idle | .created | .waiting => none
  | .reset => some { s with ended := false, pc := .enableEnd }
  | .enableEnd => some { s with inten := true, pc := .start }
  | .start => some { s with running := true, pc := .check }
  | .check => some { s with pc := if s.ended then .finish else .disable, woken := false }
  | .finish => some { s with ended := false, pc := .idle }
  | .disable => some { s with enabled := false, pc := .setHandler }
  | .setHandler => some { s with installed := true, pc := .setContext }
  | .setContext => some { s with ctx := s.task, pc := .enable }
  | .enable => some { s with enabled := true, pc := .waiting }

def handle [DecidableEq Task] (s : EndEvent Task) : HandlerPc Task → Option (EndEvent Task)
  | .out => none
  | .wake ctx =>
    some { s with woken := s.woken || decide (ctx ≠ none ∧ ctx = s.task), handler := .mask }
  | .mask => some { s with enabled := false, handler := .out }

def poll (s : EndEvent Task) (w : Task) : Option (EndEvent Task) :=
  match s.pc with
  | .created => some { s with pc := .reset, task := some w }
  | .waiting => some { s with pc := .check, task := some w }
  | _ => none

/-- The line is asserted, by the peripheral or from before. -/
def Asserted (s : EndEvent Task) : Prop := s.pending = true ∨ s.ended = true ∧ s.inten = true

instance (s : EndEvent Task) : Decidable s.Asserted := inferInstanceAs (Decidable (_ ∨ _))

def step [DecidableEq Task] (s : EndEvent Task) : EndEventAction Task → Option (EndEvent Task)
  | .create => if s.pc = .idle then some { s with pc := .created } else none
  | .poll w => s.poll w
  | .drop => if s.pc = .created ∨ s.pc = .waiting then some { s with pc := .idle } else none
  | .advance => s.advance s.pc
  | .complete => if s.running then some { s with running := false, ended := true } else none
  | .pend => some { s with pending := true }
  | .interrupt =>
    if s.enabled ∧ s.Asserted ∧ s.handler = .out then
      some { s with pending := false, handler := if s.installed then .wake s.ctx else .out }
    else none
  | .handle => s.handle s.handler

/-- The line is not enabled in the middle of the handler; or the handler has a wake of this
task still to do. -/
def Timely (s : EndEvent Task) (a : EndEventAction Task) : Prop :=
  a = .advance → s.pc = .enable →
    s.handler ≠ .mask ∧ ∀ ctx, s.handler = .wake ctx → ctx = s.task

/-- The task was woken, or will be at the event. -/
def Heard (s : EndEvent Task) : Prop :=
  s.woken = true ∨ s.enabled = true ∧ s.handler ≠ .mask ∧
    ∀ ctx, s.handler = .wake ctx → ctx = s.task

structure EndEventInv (s : EndEvent Task) : Prop where
  armed : s.pc.armed = true → s.inten = true
  polled : s.pc.polled = true → s.task ≠ none
  installed : s.pc = .setContext ∨ s.pc = .enable ∨ s.pc = .waiting → s.installed = true
  stored : s.pc = .enable ∨ s.pc = .waiting → s.ctx = s.task
  heard : s.pc = .waiting → s.Heard

theorem endEventInv_init (enabled pending installed : Bool) (ctx : Option Task) :
    (init enabled pending installed ctx).EndEventInv :=
  ⟨(nomatch ·), (nomatch ·), (by rcases · with h | h | h <;> cases h),
    (by rcases · with h | h <;> cases h), (nomatch ·)⟩

variable {s s' : EndEvent Task} {a : EndEventAction Task}

/-- Away from the end of `wake_on_interrupt`, little is to be kept. -/
theorem EndEventInv.of_early (hArmed : s.pc.armed = true → s.inten = true)
    (hPolled : s.pc.polled = true → s.task ≠ none) (hContext : s.pc ≠ .setContext)
    (hEnable : s.pc ≠ .enable) (hWaiting : s.pc ≠ .waiting) : s.EndEventInv :=
  ⟨hArmed, hPolled, (by rcases · with h | h | h <;> contradiction),
    (by rcases · with h | h <;> contradiction), fun h => absurd h hWaiting⟩

theorem EndEventInv.poll {w : Task} (hI : s.EndEventInv) (hs : s.poll w = some s') :
    s'.EndEventInv := by
  unfold EndEvent.poll at hs
  split at hs
  · cases hs
    exact .of_early (nomatch ·) (fun _ h => nomatch h) (nomatch ·) (nomatch ·) (nomatch ·)
  · rename_i hPc
    cases hs
    have hInten := hI.armed (by rw [hPc]; rfl)
    exact .of_early (fun _ => hInten) (fun _ h => nomatch h) (nomatch ·) (nomatch ·) (nomatch ·)
  · cases hs

theorem EndEventInv.advance (hI : s.EndEventInv) (hTimely : s.Timely .advance)
    (hs : s.advance s.pc = some s') : s'.EndEventInv := by
  -- the statements of the future, in their order
  cases hPc : s.pc with
  | idle | created | waiting =>
    rw [hPc] at hs
    cases hs
  | reset =>
    rw [hPc] at hs
    cases hs
    have hTask := hI.polled (by rw [hPc]; rfl)
    exact .of_early (nomatch ·) (fun _ => hTask) (nomatch ·) (nomatch ·) (nomatch ·)
  | enableEnd =>
    rw [hPc] at hs
    cases hs
    have hTask := hI.polled (by rw [hPc]; rfl)
    exact .of_early (fun _ => rfl) (fun _ => hTask) (nomatch ·) (nomatch ·) (nomatch ·)
  | start | disable =>
    rw [hPc] at hs
    cases hs
    have hTask := hI.polled (by rw [hPc]; rfl)
    have hInten := hI.armed (by rw [hPc]; rfl)
    exact .of_early (fun _ => hInten) (fun _ => hTask) (nomatch ·) (nomatch ·) (nomatch ·)
  | check =>
    rw [hPc] at hs
    cases hs
    have hTask := hI.polled (by rw [hPc]; rfl)
    have hInten := hI.armed (by rw [hPc]; rfl)
    -- the event is there or not; either way what is armed stays so
    cases s.ended with
    | true =>
      exact .of_early (fun _ => hInten) (fun _ => hTask) (nomatch ·) (nomatch ·) (nomatch ·)
    | false =>
      exact .of_early (fun _ => hInten) (fun _ => hTask) (nomatch ·) (nomatch ·) (nomatch ·)
  | finish =>
    rw [hPc] at hs
    cases hs
    exact .of_early (nomatch ·) (nomatch ·) (nomatch ·) (nomatch ·) (nomatch ·)
  -- the three writes that set the handler up
  | setHandler =>
    rw [hPc] at hs
    cases hs
    have hTask := hI.polled (by rw [hPc]; rfl)
    have hInten := hI.armed (by rw [hPc]; rfl)
    exact ⟨fun _ => hInten, fun _ => hTask, fun _ => rfl, (by rcases · with h | h <;> cases h),
      (nomatch ·)⟩
  | setContext =>
    rw [hPc] at hs
    cases hs
    have hTask := hI.polled (by rw [hPc]; rfl)
    have hInten := hI.armed (by rw [hPc]; rfl)
    have hInstalled := hI.installed (.inl hPc)
    exact ⟨fun _ => hInten, fun _ => hTask, fun _ => hInstalled, fun _ => rfl, (nomatch ·)⟩
  | enable =>
    rw [hPc] at hs
    cases hs
    have hTask := hI.polled (by rw [hPc]; rfl)
    have hInten := hI.armed (by rw [hPc]; rfl)
    have hInstalled := hI.installed (.inr (.inl hPc))
    exact ⟨fun _ => hInten, fun _ => hTask, fun _ => hInstalled, fun _ => hI.stored (.inl hPc),
      fun _ => .inr ⟨rfl, hTimely rfl hPc⟩⟩

/-- The trampoline loads the context of the task that waits. -/
theorem EndEventInv.interrupt (hI : s.EndEventInv) :
    EndEventInv { s with
      pending := false
      handler := if s.installed then .wake s.ctx else .out } := by
  refine ⟨hI.armed, hI.polled, hI.installed, hI.stored, fun hPc => ?_⟩
  rcases hI.heard hPc with hWoken | ⟨hEnabled, -⟩
  · exact .inl hWoken
  · have hInstalled := hI.installed (.inr (.inr hPc))
    refine .inr ⟨hEnabled, fun hMask => ?_, fun ctx hWake => ?_⟩
    · have hMask : (if s.installed then HandlerPc.wake s.ctx else .out) = .mask := hMask
      rw [hInstalled] at hMask
      cases hMask
    · have hWake : (if s.installed then HandlerPc.wake s.ctx else .out) = .wake ctx := hWake
      rw [hInstalled] at hWake
      cases hWake
      exact hI.stored (.inr hPc)

theorem EndEventInv.handle [DecidableEq Task] (hI : s.EndEventInv)
    (hs : s.handle s.handler = some s') : s'.EndEventInv := by
  cases hHandler : s.handler with
  | out =>
    rw [hHandler] at hs
    cases hs
  | wake ctx =>
    rw [hHandler] at hs
    cases hs
    refine ⟨hI.armed, hI.polled, hI.installed, hI.stored, fun hPc => .inl ?_⟩
    show (s.woken || _) = true
    -- woken already, or the context loaded is the task that waits
    rcases hI.heard hPc with hWoken | ⟨-, -, hLoaded⟩
    · rw [hWoken]
      rfl
    · have hTask := hLoaded ctx hHandler
      have hSome : s.task ≠ none := hI.polled (show s.pc.polled = true by rw [hPc]; rfl)
      rw [decide_eq_true ⟨hTask ▸ hSome, hTask⟩, Bool.or_true]
  -- the line is masked after the wake
  | mask =>
    rw [hHandler] at hs
    cases hs
    refine ⟨hI.armed, hI.polled, hI.installed, hI.stored, fun hPc => .inl ?_⟩
    exact (hI.heard hPc).resolve_right fun h => h.2.1 hHandler

theorem endEventInv_step [DecidableEq Task] (hI : s.EndEventInv) (hTimely : s.Timely a)
    (hs : s.step a = some s') : s'.EndEventInv := by
  cases a with
  | create =>
    obtain ⟨-, hs⟩ := Option.ite_none_right_eq_some.mp hs
    cases hs
    exact .of_early (nomatch ·) (nomatch ·) (nomatch ·) (nomatch ·) (nomatch ·)
  | poll w => exact hI.poll hs
  | drop =>
    obtain ⟨-, hs⟩ := Option.ite_none_right_eq_some.mp hs
    cases hs
    exact .of_early (nomatch ·) (nomatch ·) (nomatch ·) (nomatch ·) (nomatch ·)
  -- the steps that matter; the others leave the fields alone
  | advance => exact hI.advance hTimely hs
  | complete =>
    obtain ⟨-, hs⟩ := Option.ite_none_right_eq_some.mp hs
    cases hs
    exact ⟨hI.armed, hI.polled, hI.installed, hI.stored, hI.heard⟩
  | pend =>
    cases hs
    exact ⟨hI.armed, hI.polled, hI.installed, hI.stored, hI.heard⟩
  | interrupt =>
    obtain ⟨-, hs⟩ := Option.ite_none_right_eq_some.mp hs
    cases hs
    exact hI.interrupt
  | handle => exact hI.handle hs

/-- The interrupt is entered, if it is not yet, and the handler does its first step: the task
that waits is woken. -/
def WokenNext [DecidableEq Task] (s : EndEvent Task) : Prop :=
  ∃ u v, (u = s ∨ s.step .interrupt = some u) ∧ u.step .handle = some v ∧
    v.woken = true ∧ v.task = s.task ∧ v.pc = .waiting

theorem EndEventInv.wokenNext [DecidableEq Task] (hI : s.EndEventInv) (hPc : s.pc = .waiting)
    (hEnded : s.ended = true) : s.woken = true ∨ s.WokenNext := by
  rcases hI.heard hPc with hWoken | ⟨hEnabled, hMask, hLoaded⟩
  · exact .inl hWoken
  · right
    have hPolled : s.task ≠ none := hI.polled (by rw [hPc]; rfl)
    have hWakes (old : Bool) : (old || decide (s.task ≠ none ∧ s.task = s.task)) = true := by
      rw [decide_eq_true ⟨hPolled, rfl⟩, Bool.or_true]
    -- the interrupt can be taken now, or the handler is about to wake
    cases hHandler : s.handler with
    | out =>
      have hInten := hI.armed (by rw [hPc]; rfl)
      have hCtx := hI.stored (.inr hPc)
      have hEnter : s.step .interrupt =
          some { s with pending := false, handler := .wake s.task } := by
        rw [step, if_pos ⟨hEnabled, .inr ⟨hEnded, hInten⟩, hHandler⟩,
          hI.installed (.inr (.inr hPc)), hCtx]
        rfl
      exact ⟨_, _, .inr hEnter, rfl, hWakes s.woken, rfl, hPc⟩
    | wake ctx =>
      cases hLoaded ctx hHandler
      have hHandle : s.step .handle = some { s with
          woken := s.woken || decide (s.task ≠ none ∧ s.task = s.task)
          handler := .mask } := by
        rw [step, hHandler]
        rfl
      exact ⟨s, _, .inl rfl, hHandle, hWakes s.woken, rfl, hPc⟩
    | mask => exact absurd hHandler hMask

/--
**The end of a transfer is not lost**, whenever the hardware gets done, whatever is pending on
the line, and in whatever order the steps of the future and of the handler come: a task that
waits when the event is there was woken since it looked for it, or the next steps of the
interrupt wake it. No line is to be enabled in the middle of the handler.
-/
theorem end_not_lost [DecidableEq Task] {enabled pending installed : Bool} {ctx : Option Task}
    (hRun : Run step Timely (init enabled pending installed ctx) s) (hPc : s.pc = .waiting)
    (hEnded : s.ended = true) : s.woken = true ∨ s.WokenNext :=
  (hRun.invariant (I := EndEventInv) (endEventInv_init enabled pending installed ctx)
    fun _ _ _ hI hTimely hs => endEventInv_step hI hTimely hs).wokenNext hPc hEnded

instance [DecidableEq Task] (s : EndEvent Task) (a : EndEventAction Task) :
    Decidable (s.Timely a) :=
  match hHandler : s.handler with
  | .out => isTrue (by unfold Timely; rw [hHandler]; simp)
  | .wake ctx => decidable_of_iff (a = .advance → s.pc = .enable → ctx = s.task) (by
      unfold Timely
      rw [hHandler]
      simp)
  | .mask => decidable_of_iff (a = .advance → s.pc ≠ .enable) (by
      unfold Timely
      rw [hHandler]
      simp)

/-- The line is pending from before, so that the task waits a second time. -/
theorem end_not_lost_second : ∃ s : EndEvent Nat,
    Run step Timely (init false true false none) s ∧ s.pc = .waiting ∧ s.ended = true ∧
      s.woken = false ∧ (s.woken = true ∨ s.WokenNext) := by
  have hRun : Run step Timely (init false true false none : EndEvent Nat) _ :=
    Run.execOk_get _ [.create, .poll 7, .advance, .advance, .advance, .advance, .advance,
      .advance, .advance, .advance, .interrupt, .handle, .handle, .poll 7, .advance, .advance,
      .advance, .advance, .advance, .complete] (by decide +kernel)
  exact ⟨_, hRun, by decide +kernel, by decide +kernel, by decide +kernel,
    end_not_lost hRun (by decide +kernel) (by decide +kernel)⟩

/-- The line is pending from before. The task runs at the wake and waits on, and then the
handler masks the line: nobody wakes the task at the event. -/
theorem end_lost : ¬∀ s : EndEvent Nat, Run step (fun _ _ => True) (init false true false none) s →
    s.pc = .waiting → s.ended = true → s.woken = true ∨ s.WokenNext := by
  intro hAll
  obtain ⟨s, hRun, hPc, hEnded, hWoken, hEnabled, hHandler⟩ : ∃ s : EndEvent Nat,
      Run step (fun _ _ => True) (init false true false none) s ∧ s.pc = .waiting ∧
        s.ended = true ∧ s.woken = false ∧ s.enabled = false ∧ s.handler = .out := by
    have hRun : Run step (fun _ _ => True) (init false true false none : EndEvent Nat) _ :=
      Run.execOk_get _ [.create, .poll 7, .advance, .advance, .advance, .advance, .advance,
        .advance, .advance, .advance, .interrupt, .handle, .poll 7, .advance, .advance,
        .advance, .advance, .advance, .handle, .complete] (by decide +kernel)
    exact ⟨_, hRun, by decide +kernel, by decide +kernel, by decide +kernel, by decide +kernel,
      by decide +kernel⟩
  rcases hAll s hRun hPc hEnded with hAwake | ⟨u, v, rfl | hEnter, hHandle, -⟩
  · exact nomatch hWoken.symm.trans hAwake
  · rw [step, hHandler] at hHandle
    cases hHandle
  · obtain ⟨⟨hOn, -⟩, -⟩ := Option.ite_none_right_eq_some.mp hEnter
    exact nomatch hEnabled.symm.trans hOn

end EndEvent

end Embassy.Nrf
