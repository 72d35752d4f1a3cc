import Embassy.Lib.Run
import Embassy.Util.Waker

/-!
# Waiting for an interrupt

`InterruptFuture` in `embassy/src/util/signal.rs`. The future takes the line being
disabled for completion. The handler, `irq_wake_handler`, wakes the task in its context
and then masks the line; the context is loaded by the trampoline, before the handler
is called.

The steps of the handler and those of `new`, `poll` and `drop` come in any order. If the
executor has a higher priority than the line, the task runs at the wake, finds the line
still enabled, and waits on: the handler then masks the line, and nobody wakes the task.

Main results:

* `FutureInv` — the invariant, kept as long as no poll stores its context there.
* `interrupt_not_lost` — then a poll that begins when the handler has finished is ready,
  and a task that waits until then is woken.
-/

namespace Embassy.Util

open Embassy.Lib

/-- The next step of the future. -/
inductive FuturePc where
  /-- There is no future. -/
  | none
  /-- `new` -/
  | disable
  | setHandler
  | setContext
  | unpend
  | enable
  /-- The future is not being polled. -/
  | idle
  /-- `poll` -/
  | store
  | isEnabled
  /-- `drop` -/
  | dropDisable
  | removeHandler
  deriving DecidableEq, Repr

/-- The next step of the handler. -/
inductive HandlerPc (Task : Type) where
  | out
  /-- With the context that the trampoline has loaded. -/
  | wake (ctx : Option Task)
  | mask
  deriving DecidableEq, Repr

structure InterruptFuture (Task : Type) where
  /-- The line in the interrupt controller. -/
  enabled : Bool
  pending : Bool
  /-- `irq_wake_handler` is the handler. -/
  installed : Bool
  ctx : Option Task
  handler : HandlerPc Task
  pc : FuturePc
  /-- The task that polls the future, or did so last. -/
  task : Option Task
  /-- What the latest poll returned. -/
  last : Option (Poll Unit)
  /-- The task was woken by the handler since that poll began. -/
  woken : Bool
  /-- The handler has finished since the future was created. -/
  finished : Bool
  /-- It had when that poll began. -/
  late : Bool
  deriving DecidableEq, Repr

inductive FutureAction (Task : Type) where
  | new
  | poll (w : Task)
  | drop
  /-- `new`, `poll` or `drop` goes on. -/
  | advance
  /-- The peripheral pends the line. -/
  | fire
  /-- The processor enters the interrupt, and the trampoline loads the context. -/
  | interrupt
  /-- The handler goes on. -/
  | handle
  deriving DecidableEq, Repr

variable {Task : Type}

namespace InterruptFuture

/-- Before the first future, with any state of the line. -/
def init (enabled pending installed : Bool) (ctx : Option Task) : InterruptFuture Task where
  enabled := enabled
  pending := pending
  installed := installed
  ctx := ctx
  handler := .out
  pc := .none
  task := none
  last := none
  woken := false
  finished := false
  late := false

def advance (s : InterruptFuture Task) : FuturePc → Option (InterruptFuture Task)
  | .none | .idle => none
  | .disable => some { s with enabled := false, pc := .setHandler }
  | .setHandler => some { s with installed := true, pc := .setContext }
  | .setContext => some { s with ctx := none, pc := .unpend }
  | .unpend => some { s with pending := false, pc := .enable }
  | .enable => some { s with
      enabled := true
      pc := .idle
      task := none
      last := none
      finished := false
      late := false }
  | .store => some { s with ctx := s.task, pc := .isEnabled }
  | .isEnabled => some { s with
      last := some (if s.enabled then .pending else .ready ())
      pc := .idle }
  | .dropDisable => some { s with enabled := false, pc := .removeHandler }
  | .removeHandler => some { s with installed := false, pc := .none }

def handle [DecidableEq Task] (s : InterruptFuture Task) :
    HandlerPc Task → Option (InterruptFuture Task)
  | .out => none
  | .wake ctx =>
    some { s with woken := s.woken || decide (ctx ≠ none ∧ ctx = s.task), handler := .mask }
  | .mask => some { s with enabled := false, finished := true, handler := .out }

def step [DecidableEq Task] (s : InterruptFuture Task) :
    FutureAction Task → Option (InterruptFuture Task)
  | .new => if s.pc = .none then some { s with pc := .disable } else none
  | .poll w =>
    if s.pc = .idle then
      some { s with pc := .store, task := some w, woken := false, late := s.finished }
    else none
  | .drop => if s.pc = .idle then some { s with pc := .dropDisable } else none
  | .advance => s.advance s.pc
  | .fire => some { s with pending := true }
  | .interrupt =>
    if s.enabled ∧ s.pending ∧ s.handler = .out then
      some { s with pending := false, handler := if s.installed then .wake s.ctx else .out }
    else none
  | .handle => s.handle s.handler

/-- Between polls of the future: every poll that began when the handler had finished was
ready, and a task that waits was woken when the handler has finished. -/
def Lossless (s : InterruptFuture Task) : Prop :=
  s.pc = .idle → (s.late = true → s.last = some (.ready ())) ∧
    (s.finished = true → s.last = some .pending → s.woken = true)

/-- No poll stores its context between the wake of the handler and its masking of the
line; and where the trampoline has loaded a context, that is the one that is stored. -/
def Timely (s : InterruptFuture Task) (a : FutureAction Task) : Prop :=
  a = .advance → s.pc = .store →
    s.handler ≠ .mask ∧ ∀ ctx, s.handler = .wake ctx → ctx = s.task

/-- The future has a context stored. -/
def Stored (s : InterruptFuture Task) : Prop :=
  s.pc = .isEnabled ∨ s.pc = .idle ∧ s.last ≠ none

structure FutureInv (s : InterruptFuture Task) : Prop where
  masked : s.finished = true → s.enabled = false
  polled : s.pc = .store ∨ s.Stored → s.task ≠ none
  stored : s.Stored → s.ctx = s.task
  /-- The handler will wake the task that waits. -/
  loaded : s.Stored → ∀ ctx, s.handler = .wake ctx → ctx = s.task
  /-- It has done so. -/
  waked : s.Stored → s.handler = .mask → s.woken = true
  late : s.late = true → s.finished = true
  lossless : s.Lossless

theorem futureInv_init (enabled pending installed : Bool) (ctx : Option Task) :
    (init enabled pending installed ctx).FutureInv := by
  have hStored : ¬(init enabled pending installed ctx).Stored := by
    rintro (hPc | ⟨hPc, -⟩) <;> cases hPc
  constructor
  case masked => exact fun h => nomatch h
  case polled => exact fun h => absurd (h.resolve_left fun hPc => nomatch hPc) hStored
  case stored => exact fun h => absurd h hStored
  case loaded => exact fun h => absurd h hStored
  case waked => exact fun h => absurd h hStored
  case late => exact fun h => nomatch h
  case lossless => exact fun h => nomatch h

variable {s s' : InterruptFuture Task} {a : FutureAction Task}

/-- Outside of polls, and before the first, little is to be kept. -/
theorem FutureInv.of_not_stored (hMasked : s.finished = true → s.enabled = false)
    (hLate : s.late = true → s.finished = true) (hIdle : s.pc ≠ .idle)
    (hEnabled : s.pc ≠ .isEnabled) (hTask : s.pc = .store → s.task ≠ none) : s.FutureInv := by
  have hStored : ¬s.Stored := by
    rintro (hPc | ⟨hPc, -⟩)
    · exact hEnabled hPc
    · exact hIdle hPc
  exact ⟨hMasked, fun h => h.elim hTask fun h => absurd h hStored, fun h => absurd h hStored,
    fun h => absurd h hStored, fun h => absurd h hStored, hLate, fun h => absurd h hIdle⟩

/-- The context is stored where the handler is not about to mask the line. -/
theorem FutureInv.store (hI : s.FutureInv) (hPc : s.pc = .store) (hMask : s.handler ≠ .mask)
    (hLoaded : ∀ ctx, s.handler = .wake ctx → ctx = s.task) :
    FutureInv { s with ctx := s.task, pc := .isEnabled } :=
  ⟨hI.masked, fun _ => hI.polled (.inl hPc), fun _ => rfl, fun _ => hLoaded,
    fun _ h => absurd h hMask, hI.late, fun h => nomatch h⟩

/-- The enable bit is read. -/
theorem FutureInv.isEnabled (hI : s.FutureInv) (hPc : s.pc = .isEnabled) :
    FutureInv { s with
      last := some (if s.enabled then .pending else .ready ())
      pc := .idle } := by
  have hStored : s.Stored := .inl hPc
  refine ⟨hI.masked, fun _ => hI.polled (.inr hStored), fun _ => hI.stored hStored,
    fun _ => hI.loaded hStored, fun _ => hI.waked hStored, hI.late, fun _ => ⟨fun hLate => ?_,
      fun hFinished hLast => ?_⟩⟩
  · have hOff := hI.masked (hI.late hLate)
    show some (if s.enabled then _ else _) = _
    rw [hOff]
    rfl
  · have hOff := hI.masked hFinished
    have hLast : some (if s.enabled then Poll.pending else .ready ()) = some .pending := hLast
    rw [hOff] at hLast
    cases hLast

theorem FutureInv.advance (hI : s.FutureInv) (hTimely : s.Timely .advance)
    (hs : s.advance s.pc = some s') : s'.FutureInv := by
  cases hPc : s.pc with
  | none | idle =>
    rw [hPc] at hs
    cases hs
  | disable | dropDisable =>
    rw [hPc] at hs
    cases hs
    exact .of_not_stored (fun _ => rfl) hI.late (fun h => (nomatch h)) (fun h => (nomatch h))
      fun h => nomatch h
  | setHandler | setContext | unpend | removeHandler =>
    rw [hPc] at hs
    cases hs
    exact .of_not_stored hI.masked hI.late (fun h => (nomatch h)) (fun h => (nomatch h))
      fun h => nomatch h
  | enable =>
    rw [hPc] at hs
    cases hs
    -- no poll of this future has returned
    have hNone : ∀ {p : Prop}, FuturePc.idle = .isEnabled ∨ FuturePc.idle = .idle ∧
        (none : Option (Poll Unit)) ≠ none → p := by
      rintro p (h | ⟨-, h⟩)
      · cases h
      · exact absurd rfl h
    exact ⟨fun h => (nomatch h), fun h => h.elim (fun h => nomatch h) hNone, hNone, hNone, hNone,
      fun h => (nomatch h), fun _ => ⟨fun h => (nomatch h), fun h => (nomatch h)⟩⟩
  | store =>
    obtain ⟨hMask, hLoaded⟩ := hTimely rfl hPc
    rw [hPc] at hs
    cases hs
    exact hI.store hPc hMask hLoaded
  | isEnabled =>
    rw [hPc] at hs
    cases hs
    exact hI.isEnabled hPc

/-- The trampoline loads the context of the task that waits. -/
theorem FutureInv.interrupt (hI : s.FutureInv) :
    FutureInv { s with
      pending := false
      handler := if s.installed then .wake s.ctx else .out } := by
  refine ⟨hI.masked, hI.polled, hI.stored, fun hStored ctx hWake => ?_, fun _ hMask => ?_, hI.late,
    hI.lossless⟩
  · have hWake : (if s.installed then HandlerPc.wake s.ctx else .out) = .wake ctx := hWake
    split at hWake <;> cases hWake
    exact hI.stored hStored
  · have hMask : (if s.installed then HandlerPc.wake s.ctx else .out) = .mask := hMask
    split at hMask <;> cases hMask

theorem FutureInv.handle [DecidableEq Task] (hI : s.FutureInv)
    (hs : s.handle s.handler = some s') : s'.FutureInv := by
  cases hHandler : s.handler with
  | out =>
    rw [hHandler] at hs
    cases hs
  | wake ctx =>
    rw [hHandler] at hs
    cases hs
    refine ⟨hI.masked, hI.polled, hI.stored, fun _ _ h => (nomatch h), fun hStored _ => ?_, hI.late,
      fun hPc => ⟨(hI.lossless hPc).1, fun hFinished hLast => ?_⟩⟩
    · -- the context loaded is the waker stored
      have hTask := hI.loaded hStored ctx hHandler
      have hSome : ctx ≠ none := hTask ▸ hI.polled (.inr hStored)
      show (s.woken || _) = true
      rw [decide_eq_true ⟨hSome, hTask⟩, Bool.or_true]
    · show (s.woken || _) = true
      rw [(hI.lossless hPc).2 hFinished hLast]
      rfl
  | mask =>
    rw [hHandler] at hs
    cases hs
    refine ⟨fun _ => rfl, hI.polled, hI.stored, fun _ _ h => (nomatch h), fun _ h => (nomatch h),
      fun _ => rfl, fun hPc => ⟨(hI.lossless hPc).1, fun _ hLast => ?_⟩⟩
    have hLast : s.last = some .pending := hLast
    exact hI.waked (.inr ⟨hPc, by rw [hLast]; exact fun h => nomatch h⟩) hHandler

theorem futureInv_step [DecidableEq Task] (hI : s.FutureInv) (hTimely : s.Timely a)
    (hs : s.step a = some s') : s'.FutureInv := by
  cases a with
  | new =>
    obtain ⟨-, hs⟩ := Option.ite_none_right_eq_some.mp hs
    cases hs
    exact .of_not_stored hI.masked hI.late (fun h => (nomatch h)) (fun h => (nomatch h))
      fun h => nomatch h
  | poll w =>
    obtain ⟨-, hs⟩ := Option.ite_none_right_eq_some.mp hs
    cases hs
    exact .of_not_stored hI.masked id (fun h => (nomatch h)) (fun h => (nomatch h))
      fun _ h => nomatch h
  | drop =>
    obtain ⟨-, hs⟩ := Option.ite_none_right_eq_some.mp hs
    cases hs
    exact .of_not_stored hI.masked hI.late (fun h => (nomatch h)) (fun h => (nomatch h))
      fun h => nomatch h
  -- the future's own statements; the others change one field each
  | advance => exact hI.advance hTimely hs
  | fire =>
    cases hs
    exact ⟨hI.masked, hI.polled, hI.stored, hI.loaded, hI.waked, hI.late, hI.lossless⟩
  | interrupt =>
    obtain ⟨-, hs⟩ := Option.ite_none_right_eq_some.mp hs
    cases hs
    exact hI.interrupt
  | handle => exact hI.handle hs

/-- The task runs at the wake, and is not woken when the line is masked after that. -/
theorem interrupt_lost : ¬∀ (enabled pending installed : Bool) (ctx : Option Nat)
    (s : InterruptFuture Nat),
    Run step (fun _ _ => True) (init enabled pending installed ctx) s → s.Lossless := by
  intro hAll
  obtain ⟨s, hRun, hPc, hFinished, hLast, hWoken⟩ : ∃ s : InterruptFuture Nat,
      Run step (fun _ _ => True) (init false false false none) s ∧ s.pc = .idle ∧
        s.finished = true ∧ s.last = some .pending ∧ s.woken = false := by
    have hRun : Run step (fun _ _ => True) (init false false false none : InterruptFuture Nat) _ :=
      Run.execOk_get _ [.new, .advance, .advance, .advance, .advance, .advance,
        .poll 7, .advance, .advance, .fire, .interrupt, .handle, .poll 7, .advance, .advance,
        .handle] (by decide +kernel)
    exact ⟨_, hRun, by decide +kernel, by decide +kernel, by decide +kernel, by decide +kernel⟩
  exact nomatch hWoken.symm.trans ((hAll _ _ _ _ s hRun hPc).2 hFinished hLast)

/--
**No interrupt is lost**, whenever the line fires and in whatever order the steps come,
as long as no poll stores its context between the wake of the handler and its masking
of the line: a poll that begins when the handler has finished is ready, and a task that
waits when it has finished was woken, and has not been polled since.
-/
theorem interrupt_not_lost [DecidableEq Task] {enabled pending installed : Bool}
    {ctx : Option Task} (hRun : Run step Timely (init enabled pending installed ctx) s) :
    s.Lossless :=
  (hRun.invariant (I := FutureInv) (futureInv_init enabled pending installed ctx)
    fun _ _ _ hI hTimely hs => futureInv_step hI hTimely hs).lossless

instance [DecidableEq Task] (s : InterruptFuture Task) (a : FutureAction Task) :
    Decidable (s.Timely a) :=
  match hHandler : s.handler with
  | .out => isTrue (by unfold Timely; rw [hHandler]; simp)
  | .wake ctx => decidable_of_iff (a = .advance → s.pc = .store → ctx = s.task) (by
      unfold Timely
      rw [hHandler]
      simp)
  | .mask => decidable_of_iff (a = .advance → s.pc ≠ .store) (by
      unfold Timely
      rw [hHandler]
      simp)

/-- The line fires before the first poll, and after the first poll of the next future. -/
theorem interrupt_not_lost_twice : ∃ s : InterruptFuture Nat,
    Run step Timely (init true true false none) s ∧ s.pc = .idle ∧ s.finished = true ∧
      s.last = some .pending ∧ s.woken = true ∧ s.Lossless := by
  have hRun : Run step Timely (init true true false none : InterruptFuture Nat) _ :=
    Run.execOk_get _ [.new, .advance, .advance, .advance, .advance, .advance, .fire, .interrupt,
      .handle, .handle, .poll 7, .advance, .advance, .drop, .advance, .advance, .new, .advance,
      .advance, .advance, .advance, .advance, .poll 7, .advance, .advance, .fire, .interrupt,
      .handle, .handle] (by decide +kernel)
  exact ⟨_, hRun, by decide +kernel, by decide +kernel, by decide +kernel, by decide +kernel,
    interrupt_not_lost hRun⟩

end InterruptFuture

end Embassy.Util
