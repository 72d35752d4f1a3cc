import Embassy.Lib.Run

/-!
# Exclusion by the peripheral mutex

`embassy-extras/src/peripheral.rs`, on a single core. `with` keeps the interrupt away
by disabling its line, and `on_interrupt` relies on the priority of the interrupt, as
the comment in `register_interrupt` says. The tasks that call `with` run in thread
mode, or in the interrupt of an `InterruptExecutor`, of any priority. `on_interrupt`
wakes tasks, which pends the interrupt of their executor.

The contexts that are entered and not yet left form a stack, and only the last of them
runs. An interrupt is entered when it is pending, and its priority is higher than that
of the context that runs.

Main results:

* `StackInv` — what the stack looks like, unless the executor has the higher priority.
* `exclusion_iff` — a closure and `on_interrupt` exclude each other exactly then.
-/

namespace Embassy.Extras

open Embassy.Lib

/-- A step of `on_interrupt`. -/
inductive HandlerStep where
  | work
  /-- `WakerRegistration::wake` -/
  | wake
  deriving DecidableEq, Repr

/-- A driver on a core. `δ` are the states of the driver. -/
structure Setup (δ : Type) where
  /-- The priority of the peripheral's interrupt. Higher priorities are greater. -/
  irq : Nat
  /-- The priority of the interrupt of the executor, if it does not run in thread mode. -/
  executor : Option Nat
  /-- What `on_interrupt` does. -/
  onInterrupt : δ → List HandlerStep
  /-- Tasks of the executor are also woken by others. -/
  others : Bool

/-- Where a task is in a call of `with`. -/
inductive WithPc where
  | out
  | disabled
  | closure
  | returned
  deriving DecidableEq, Repr

/-- A context that is entered and not yet left. -/
inductive Context where
  /-- The executor. -/
  | executor (pc : WithPc)
  /-- `on_interrupt`, with what is left to do of it. -/
  | handler (rest : List HandlerStep)
  deriving DecidableEq, Repr

structure Core where
  /-- The line of the peripheral's interrupt. -/
  enabled : Bool
  pending : Bool
  /-- The executor is to run. -/
  executorPending : Bool
  /-- The context that runs, and those that it has preempted. -/
  contexts : List Context
  deriving DecidableEq, Repr

inductive CoreAction (δ : Type) where
  /-- By the peripheral or by a closure. -/
  | pend
  /-- A task of the executor is woken by something else. -/
  | wake
  /-- The processor enters the interrupt of the peripheral. -/
  | enterHandler (d : δ)
  | enterExecutor
  /-- The context that runs makes a step. -/
  | run
  /-- A task calls `with`. -/
  | with_
  deriving DecidableEq, Repr

variable {δ : Type}

namespace Setup

/-- Priorities of contexts. Thread mode has none. -/
def priority (c : Setup δ) : Context → Option Nat
  | .executor _ => c.executor
  | .handler _ => some c.irq

/-- An interrupt of priority `p` preempts the context that runs. -/
def preempts (c : Setup δ) (p : Nat) : List Context → Bool
  | [] => true
  | top :: _ =>
    match c.priority top with
    | none => true
    | some q => decide (q < p)

/-- The executor's interrupt preempts that of the peripheral. -/
def Outranks (c : Setup δ) : Prop := ∃ e ∈ c.executor, c.irq < e

/-- In thread mode the executor runs when nothing else does. -/
def canRun (c : Setup δ) (contexts : List Context) : Bool :=
  match c.executor with
  | none => contexts.isEmpty
  | some e => c.preempts e contexts

/-- A step of the context that runs. -/
def runStep (s : Core) : List Context → Option Core
  | [] => none
  | .executor .out :: rest => some { s with contexts := rest }
  | .executor .disabled :: rest => some { s with contexts := .executor .closure :: rest }
  | .executor .closure :: rest => some { s with contexts := .executor .returned :: rest }
  | .executor .returned :: rest =>
    some { s with enabled := true, contexts := .executor .out :: rest }
  | .handler [] :: rest => some { s with contexts := rest }
  | .handler (.work :: steps) :: rest => some { s with contexts := .handler steps :: rest }
  | .handler (.wake :: steps) :: rest =>
    some { s with executorPending := true, contexts := .handler steps :: rest }

def step (c : Setup δ) (s : Core) : CoreAction δ → Option Core
  | .pend => some { s with pending := true }
  | .wake => if c.others then some { s with executorPending := true } else none
  | .enterHandler d =>
    if s.enabled ∧ s.pending ∧ c.preempts c.irq s.contexts then
      some { s with pending := false, contexts := .handler (c.onInterrupt d) :: s.contexts }
    else none
  | .enterExecutor =>
    if s.executorPending ∧ c.canRun s.contexts then
      some { s with executorPending := false, contexts := .executor .out :: s.contexts }
    else none
  | .run => runStep s s.contexts
  | .with_ =>
    match s.contexts with
    | .executor .out :: rest =>
      some { s with enabled := false, contexts := .executor .disabled :: rest }
    | _ => none

end Setup

namespace Core

/-- The interrupt is registered, and the executor was started. -/
def start : Core where
  enabled := true
  pending := false
  executorPending := true
  contexts := []

/-- Not both a closure of `with` and `on_interrupt` have been entered and have not yet
returned. -/
def Exclusive (s : Core) : Prop :=
  .executor .closure ∈ s.contexts → ∀ rest, .handler rest ∉ s.contexts

/-- What the stack looks like. The interrupt is entered above a task only where that is
not in a call of `with`, and no task is above the interrupt. -/
inductive StackInv (enabled : Bool) : List Context → Prop where
  | idle : StackInv enabled []
  | executor {pc : WithPc} : (pc = .out ∨ enabled = false) → StackInv enabled [.executor pc]
  | handler {rest : List HandlerStep} : StackInv enabled [.handler rest]
  | nested {rest : List HandlerStep} : StackInv enabled [.handler rest, .executor .out]

variable {c : Setup δ} {s s' : Core} {a : CoreAction δ}

theorem StackInv.exclusive {enabled : Bool} {contexts : List Context}
    (hI : StackInv enabled contexts) (hClosure : .executor .closure ∈ contexts)
    (rest : List HandlerStep) : .handler rest ∉ contexts := by
  cases hI <;> simp_all

/-- The interrupt is entered where the line is enabled. -/
theorem StackInv.enterHandler {contexts : List Context} (hI : StackInv true contexts)
    (hPreempts : c.preempts c.irq contexts = true) (d : δ) :
    StackInv true (.handler (c.onInterrupt d) :: contexts) := by
  cases hI with
  | idle => exact .handler
  | executor hPc =>
    cases hPc.resolve_right (by decide)
    exact .nested
  | handler => exact absurd (of_decide_eq_true hPreempts) (Nat.lt_irrefl _)
  | nested => exact absurd (of_decide_eq_true hPreempts) (Nat.lt_irrefl _)

/-- The executor is entered above nothing. -/
theorem StackInv.enterExecutor {enabled : Bool} {contexts : List Context}
    (hI : StackInv enabled contexts) (hRank : ¬c.Outranks)
    (hRuns : c.canRun contexts = true) : StackInv enabled (.executor .out :: contexts) := by
  unfold Setup.canRun at hRuns
  split at hRuns
  · rw [List.isEmpty_iff.mp hRuns]
    exact .executor (.inl rfl)
  · rename_i e hExecutor
    have hNot : ¬c.irq < e := fun h => hRank ⟨e, hExecutor, h⟩
    cases hI with
    | idle => exact .executor (.inl rfl)
    | executor =>
      unfold Setup.preempts Setup.priority at hRuns
      rw [hExecutor] at hRuns
      exact absurd (of_decide_eq_true hRuns) (Nat.lt_irrefl _)
    | handler => exact absurd (of_decide_eq_true hRuns) hNot
    | nested => exact absurd (of_decide_eq_true hRuns) hNot

/-- The context that runs makes a step. -/
theorem StackInv.run (hI : StackInv s.enabled s.contexts)
    (hs : Setup.runStep s s.contexts = some s') : StackInv s'.enabled s'.contexts := by
  generalize hContexts : s.contexts = contexts at hI hs
  cases hI with
  | idle => cases hs
  | @executor pc hPc =>
    cases pc with
    | out =>
      cases hs
      exact .idle
    | returned =>
      cases hs
      exact .executor (.inl rfl)
    | disabled | closure =>
      cases hs
      exact .executor (.inr (hPc.resolve_left (by decide)))
  | @handler rest =>
    rcases rest with _ | ⟨_ | _, rest⟩
    · cases hs
      exact .idle
    · cases hs
      exact .handler
    · cases hs
      exact .handler
  | @nested rest =>
    rcases rest with _ | ⟨_ | _, rest⟩
    · cases hs
      exact .executor (.inl rfl)
    · cases hs
      exact .nested
    · cases hs
      exact .nested

theorem stackInv_step (hRank : ¬c.Outranks) (hI : StackInv s.enabled s.contexts)
    (hs : c.step s a = some s') : StackInv s'.enabled s'.contexts := by
  cases a with
  | pend =>
    cases hs
    exact hI
  | wake =>
    obtain ⟨-, hs⟩ := Option.ite_none_right_eq_some.mp hs
    cases hs
    exact hI
  | enterHandler d =>
    obtain ⟨⟨hOn, -, hPreempts⟩, hs⟩ := Option.ite_none_right_eq_some.mp hs
    cases hs
    rw [hOn] at hI
    show StackInv s.enabled _
    rw [hOn]
    exact hI.enterHandler hPreempts d
  | enterExecutor =>
    obtain ⟨⟨-, hRuns⟩, hs⟩ := Option.ite_none_right_eq_some.mp hs
    cases hs
    exact hI.enterExecutor hRank hRuns
  | run => exact hI.run hs
  | with_ =>
    unfold Setup.step at hs
    generalize hContexts : s.contexts = contexts at hI hs
    cases hI with
    | @executor pc =>
      cases pc with
      | out =>
        cases hs
        exact .executor (.inr rfl)
      | disabled | closure | returned => cases hs
    | idle | handler | nested => cases hs

theorem stackInv_of_run (hRank : ¬c.Outranks) (hRun : Run c.step (fun _ _ => True) start s) :
    StackInv s.enabled s.contexts :=
  hRun.invariant (I := fun s => StackInv s.enabled s.contexts) .idle
    fun _ _ _ hI _ hs => stackInv_step hRank hI hs

/-- `on_interrupt` gets to its first wake. -/
theorem run_to_wake {steps : List HandlerStep} (hWake : .wake ∈ steps) {under : List Context}
    (hTop : s.contexts = .handler steps :: under) : ∃ rest, Run c.step (fun _ _ => True) s
      { s with executorPending := true, contexts := .handler rest :: under } := by
  induction steps generalizing s with
  | nil => cases hWake
  | cons first steps ih =>
    cases first with
    | wake =>
      refine ⟨steps, Run.refl.tail (a := .run) trivial ?_⟩
      show Setup.runStep s s.contexts = _
      rw [hTop]
      rfl
    | work =>
      have hRest : .wake ∈ steps := by simpa using hWake
      obtain ⟨rest, hRun⟩ := ih (s := { s with contexts := .handler steps :: under }) hRest rfl
      refine ⟨rest, (Run.refl.tail (a := .run) trivial ?_).trans hRun⟩
      show Setup.runStep s s.contexts = _
      rw [hTop]
      rfl

/-- A task that is woken by `on_interrupt` preempts it there, and calls `with`. -/
theorem overlap_of_outranks (hRank : c.Outranks) {d : δ} (hWake : .wake ∈ c.onInterrupt d) :
    ∃ s, Run c.step (fun _ _ => True) start s ∧ ¬s.Exclusive := by
  obtain ⟨e, hExecutor, hLt⟩ := hRank
  have hCanRun : ∀ contexts, c.preempts e contexts = true → c.canRun contexts = true := by
    intro contexts h
    unfold Setup.canRun
    rw [hExecutor]
    exact h
  -- the executor has run once, and the interrupt is entered
  have hRan : Run c.step (fun _ _ => True) start { start with executorPending := false } :=
    (Run.refl.tail (a := .enterExecutor) trivial (if_pos ⟨rfl, hCanRun [] rfl⟩)).tail (a := .run)
      trivial rfl
  have hPended : Run c.step (fun _ _ => True) start
      { start with executorPending := false, pending := true } :=
    hRan.tail (a := .pend) trivial rfl
  have hEntered : Run c.step (fun _ _ => True) start
      { start with executorPending := false, contexts := [.handler (c.onInterrupt d)] } :=
    hPended.tail (a := .enterHandler d) trivial rfl
  obtain ⟨rest, hWoken⟩ := run_to_wake (c := c)
    (s := { start with executorPending := false, contexts := [.handler (c.onInterrupt d)] })
    hWake rfl
  have hNested : Run c.step (fun _ _ => True) start
      { start with executorPending := false, contexts := [.executor .out, .handler rest] } :=
    (hEntered.trans hWoken).tail (a := .enterExecutor) trivial
      (if_pos ⟨rfl, hCanRun [.handler rest] (decide_eq_true hLt)⟩)
  have hMasked : Run c.step (fun _ _ => True) start
      ⟨false, false, false, [.executor .disabled, .handler rest]⟩ :=
    hNested.tail (a := .with_) trivial rfl
  have hOverlap : Run c.step (fun _ _ => True) start
      ⟨false, false, false, [.executor .closure, .handler rest]⟩ :=
    hMasked.tail (a := .run) trivial rfl
  exact ⟨_, hOverlap, fun hExclusive => hExclusive List.mem_cons_self rest (by simp)⟩

/-- An executor of the higher priority, and a handler with a wake between two other
steps. -/
theorem not_exclusive : ¬∀ c : Setup Unit, (∃ d, .wake ∈ c.onInterrupt d) →
    ∀ s, Run c.step (fun _ _ => True) start s → s.Exclusive := by
  intro hAll
  let c : Setup Unit := ⟨1, some 2, fun _ => [.work, .wake, .work], false⟩
  obtain ⟨s, hRun, hClosure, hHandler⟩ : ∃ s, Run c.step (fun _ _ => True) start s ∧
      .executor .closure ∈ s.contexts ∧ .handler [.work] ∈ s.contexts := by
    have hRun : Run c.step (fun _ _ => True) start _ :=
      Run.execOk_get _ [.enterExecutor, .run, .pend, .enterHandler (), .run, .run, .enterExecutor,
        .with_, .run] (by decide +kernel)
    exact ⟨_, hRun, by decide +kernel, by decide +kernel⟩
  exact hAll c ⟨(), by decide⟩ s hRun hClosure _ hHandler

/--
**Closures and `on_interrupt` exclude each other exactly if the executor does not have
the higher priority.** For every driver of which `on_interrupt` wakes tasks in some
state, all priorities, and whatever is pended and woken at any time.
-/
theorem exclusion_iff (c : Setup δ) (hWake : ∃ d, .wake ∈ c.onInterrupt d) :
    (∀ s, Run c.step (fun _ _ => True) start s → s.Exclusive) ↔ ¬c.Outranks := by
  obtain ⟨d, hWake⟩ := hWake
  constructor
  · intro hAll hRank
    obtain ⟨s, hRun, hOverlap⟩ := overlap_of_outranks hRank hWake
    exact hOverlap (hAll s hRun)
  · exact fun hRank s hRun => (stackInv_of_run hRank hRun).exclusive

/-- An executor with the priority of the interrupt. -/
theorem exclusion_iff_same :
    ¬(⟨2, some 2, fun _ => [.wake], true⟩ : Setup Unit).Outranks ∧
      ∀ s, Run (Setup.step (⟨2, some 2, fun _ => [.wake], true⟩ : Setup Unit)) (fun _ _ => True)
        start s → s.Exclusive := by
  have hRank : ¬(⟨2, some 2, fun _ => [.wake], true⟩ : Setup Unit).Outranks := by
    rintro ⟨e, he, hLt⟩
    cases he
    exact Nat.lt_irrefl _ hLt
  exact ⟨hRank, (exclusion_iff ⟨2, some 2, fun _ => [.wake], true⟩ ⟨(), by decide⟩).mpr hRank⟩

end Core

end Embassy.Extras
