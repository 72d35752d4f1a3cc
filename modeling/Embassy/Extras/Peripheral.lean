import Embassy.Lib.Run

/-!
# The peripheral mutex

`embassy-extras/src/peripheral.rs`. A `PeripheralMutex` shares the state of a driver
between its methods, which run within `with`, and its interrupt. The interrupt line,
the handler and the handler's context are global: the line is a bit of the interrupt
controller, and the other two are loaded by the trampoline of the interrupt, which
calls the handler without checking that there is one.

The operations are cut into their accesses to this global state, so that the
interrupt can come between any two of them. `with` enables the line when the closure
has returned, also on a mutex of which the interrupt was never registered.

Main results:

* `LineInv` — the invariant, kept as long as this does not happen.
* `line_safe_iff` — then an enabled line has its handler and its context; and a
  `with` on a mutex that is not registered always breaks it.
* `never_faults` — the trampoline never calls a null pointer.
-/

namespace Embassy.Extras

open Embassy.Lib

/-- What is global for an interrupt: its line in the interrupt controller, and the
`Handler` that the trampoline loads. A handler is given by the type of the state it is
made for, and a context by the place of the state. -/
structure Line where
  enabled : Bool
  pending : Bool
  func : Option Nat
  ctx : Option Nat
  deriving DecidableEq, Repr

structure PeripheralMutex where
  /-- The type of the state. -/
  type : Nat
  /-- Where the state lies. -/
  state : Nat
  irqSetupDone : Bool
  deriving DecidableEq, Repr

/-- What is left to do of an operation. -/
inductive PeripheralPc where
  /-- No operation is under way. -/
  | out
  /-- `register_interrupt`, with the line disabled. -/
  | setHandler
  | setHandlerContext
  | enable
  | setupDone
  /-- The closure of `with`. -/
  | closure
  /-- `drop`, with the line disabled. -/
  | removeHandler
  deriving DecidableEq, Repr

structure Peripheral where
  line : Line
  /-- The mutex, while there is one. It owns the interrupt. -/
  mutex : Option PeripheralMutex
  pc : PeripheralPc
  /-- The trampoline called a null pointer. -/
  faulted : Bool
  deriving DecidableEq, Repr

inductive PeripheralAction where
  | new (type state : Nat)
  | registerInterrupt
  | with_
  | drop
  /-- The operation under way goes on. -/
  | next
  /-- By the peripheral, by a closure or, before `new`, by a driver. -/
  | pend
  /-- The processor enters the interrupt. -/
  | interrupt
  deriving DecidableEq, Repr

namespace Peripheral

def start : Peripheral where
  line := ⟨false, false, none, none⟩
  mutex := none
  pc := .out
  faulted := false

def next (s : Peripheral) (m : PeripheralMutex) : PeripheralPc → Option Peripheral
  | .out => none
  | .setHandler =>
    some { s with line := { s.line with func := some m.type }, pc := .setHandlerContext }
  | .setHandlerContext =>
    some { s with line := { s.line with ctx := some m.state }, pc := .enable }
  | .enable => some { s with line := { s.line with enabled := true }, pc := .setupDone }
  | .setupDone => some { s with mutex := some { m with irqSetupDone := true }, pc := .out }
  | .closure => some { s with line := { s.line with enabled := true }, pc := .out }
  | .removeHandler =>
    some { s with line := { s.line with func := none }, mutex := none, pc := .out }

/-- The line is disabled and the operation goes on at `pc`. -/
def disable (s : Peripheral) (pc : PeripheralPc) : Peripheral :=
  { s with line := { s.line with enabled := false }, pc := pc }

def step (s : Peripheral) : PeripheralAction → Option Peripheral
  | .new type state =>
    if s.mutex = none then some { s with mutex := some ⟨type, state, false⟩ } else none
  | .registerInterrupt => s.mutex.bind fun m =>
    if s.pc ≠ .out then none
    else if m.irqSetupDone then some s
    else some (s.disable .setHandler)
  | .with_ => if s.mutex ≠ none ∧ s.pc = .out then some (s.disable .closure) else none
  | .drop => if s.mutex ≠ none ∧ s.pc = .out then some (s.disable .removeHandler) else none
  | .next => s.mutex.bind fun m => s.next m s.pc
  | .pend => some { s with line := { s.line with pending := true } }
  | .interrupt =>
    if s.line.enabled ∧ s.line.pending then
      some { s with
        line := { s.line with pending := false }
        faulted := s.faulted || s.line.func.isNone }
    else none

/-- If the line is enabled, there is a mutex with its handler and its context in place. -/
def Safe (s : Peripheral) : Prop :=
  s.line.enabled = true →
    ∃ m, s.mutex = some m ∧ s.line.func = some m.type ∧ s.line.ctx = some m.state

/-- `with` returns only on a mutex of which the interrupt is registered. -/
def Registered (s : Peripheral) (a : PeripheralAction) : Prop :=
  a = .next → s.pc = .closure → ∀ m ∈ s.mutex, m.irqSetupDone = true

/-- The handler and the context of the mutex are in place. -/
def Installed (s : Peripheral) (m : PeripheralMutex) : Prop :=
  s.line.func = some m.type ∧ s.line.ctx = some m.state

structure LineInv (s : Peripheral) : Prop where
  safe : s.Safe
  /-- While the line is enabled, it is not being set up. -/
  masked : s.line.enabled = true → s.pc = .out ∨ s.pc = .setupDone
  /-- What `irq_setup_done` says. -/
  done : ∀ m ∈ s.mutex, m.irqSetupDone = true → s.Installed m
  /-- What `register_interrupt` has done so far. -/
  handler : s.pc = .setHandlerContext → ∀ m ∈ s.mutex, s.line.func = some m.type
  context : s.pc = .enable ∨ s.pc = .setupDone → ∀ m ∈ s.mutex, s.Installed m
  /-- Without a registration there is no handler. -/
  unset : (∀ m ∈ s.mutex, m.irqSetupDone = false) →
    s.pc = .out ∨ s.pc = .setHandler ∨ s.pc = .closure ∨ s.pc = .removeHandler →
    s.line.func = none
  /-- Operations are those of a mutex. -/
  owned : s.mutex = none → s.pc = .out
  unfaulted : s.faulted = false

theorem lineInv_start : start.LineInv := by
  constructor
  case safe => exact fun h => nomatch h
  case masked => exact fun h => nomatch h
  case done => exact fun _ h => nomatch h
  case handler => exact fun _ _ h => nomatch h
  case context => exact fun _ _ h => nomatch h
  case unset => exact fun _ _ => rfl
  case owned => exact fun _ => rfl
  case unfaulted => rfl

variable {s s' : Peripheral} {m : PeripheralMutex} {a : PeripheralAction}

/-- An operation begins by disabling the line. -/
theorem LineInv.disable (hI : s.LineInv) {pc : PeripheralPc} (hM : s.mutex = some m)
    (hOut : s.pc = .out) (hPc : pc = .setHandler ∨ pc = .closure ∨ pc = .removeHandler) :
    (s.disable pc).LineInv := by
  constructor
  case safe => exact fun h => nomatch h
  case masked => exact fun h => nomatch h
  case done => exact hI.done
  case handler =>
    intro h
    rcases hPc with rfl | rfl | rfl <;> cases h
  case context =>
    intro h
    rcases hPc with rfl | rfl | rfl <;> rcases h with h | h <;> cases h
  case unset => exact fun h _ => hI.unset h (.inl hOut)
  case owned => exact fun h => nomatch hM.symm.trans h
  case unfaulted => exact hI.unfaulted

/-- While an operation has the line disabled. -/
theorem LineInv.off (hI : s.LineInv) (hOut : s.pc ≠ .out) (hDone : s.pc ≠ .setupDone) :
    s.line.enabled = false := by
  refine Bool.eq_false_iff.mpr fun hOn => ?_
  exact (hI.masked hOn).elim hOut hDone

/-- A step of the operation under way. -/
theorem LineInv.next (hI : s.LineInv) (hM : s.mutex = some m)
    (hRegistered : s.pc = .closure → m.irqSetupDone = true) (hs : s.next m s.pc = some s') :
    s'.LineInv := by
  have hMem : ∀ m' ∈ s.mutex, m' = m := fun m' h => Option.some.inj (h.symm.trans hM)
  have hNone : s.mutex ≠ none := fun h => (nomatch hM.symm.trans h)
  -- one statement of `register_interrupt`, `with` or the drop
  cases hPc : s.pc with
  | out =>
    rw [hPc] at hs
    cases hs
  | setHandler =>
    have hOff := hI.off (by rw [hPc]; decide) (by rw [hPc]; decide)
    rw [hPc] at hs
    cases hs
    refine ⟨fun hOn => (nomatch hOff.symm.trans hOn), fun hOn => (nomatch hOff.symm.trans hOn),
      fun m' hm' hDone => ?_, fun _ m' hm' => ?_, fun h => ?_, fun _ h => ?_,
      fun h => absurd h hNone, hI.unfaulted⟩
    · exact ⟨by rw [hMem m' hm'], (hI.done m' hm' hDone).2⟩
    · rw [hMem m' hm']
    · rcases h with h | h <;> cases h
    · rcases h with h | h | h | h <;> cases h
  | setHandlerContext =>
    have hOff := hI.off (by rw [hPc]; decide) (by rw [hPc]; decide)
    have hFunc := hI.handler hPc
    rw [hPc] at hs
    cases hs
    have hInstalled : ∀ m' ∈ s.mutex, s.line.func = some m'.type ∧ some m.state = some m'.state :=
      fun m' hm' => ⟨hFunc m' hm', by rw [hMem m' hm']⟩
    refine ⟨fun hOn => (nomatch hOff.symm.trans hOn), fun hOn => (nomatch hOff.symm.trans hOn),
      fun m' hm' _ => hInstalled m' hm', fun h => (nomatch h), fun _ => hInstalled, fun _ h => ?_,
      fun h => absurd h hNone, hI.unfaulted⟩
    rcases h with h | h | h | h <;> cases h
  -- handler and context are both those of the mutex before the line is enabled
  | enable =>
    have hInstalled := hI.context (.inl hPc)
    rw [hPc] at hs
    cases hs
    refine ⟨fun _ => ⟨m, hM, hInstalled m hM⟩, fun _ => .inr rfl, hI.done, fun h => (nomatch h),
      fun _ => hInstalled, fun _ h => ?_, fun h => absurd h hNone, hI.unfaulted⟩
    rcases h with h | h | h | h <;> cases h
  | setupDone =>
    have hInstalled := hI.context (.inr hPc) m hM
    rw [hPc] at hs
    cases hs
    refine ⟨fun _ => ⟨_, rfl, hInstalled⟩, fun _ => .inl rfl, fun m' hm' _ => ?_,
      fun h => (nomatch h), fun h => ?_, fun h _ => ?_, fun h => (nomatch h), hI.unfaulted⟩
    · cases hm'
      exact hInstalled
    · rcases h with h | h <;> cases h
    · cases h _ rfl
  -- the condition: `with` on a mutex that has been registered
  | closure =>
    have hInstalled := hI.done m hM (hRegistered hPc)
    rw [hPc] at hs
    cases hs
    refine ⟨fun _ => ⟨m, hM, hInstalled⟩, fun _ => .inl rfl, hI.done, fun h => (nomatch h),
      fun h => ?_, fun h _ => hI.unset h (.inr (.inr (.inl hPc))), fun h => absurd h hNone,
      hI.unfaulted⟩
    rcases h with h | h <;> cases h
  | removeHandler =>
    have hOff := hI.off (by rw [hPc]; decide) (by rw [hPc]; decide)
    rw [hPc] at hs
    cases hs
    exact ⟨fun hOn => (nomatch hOff.symm.trans hOn), fun _ => .inl rfl, fun _ h => (nomatch h),
      fun h => (nomatch h), fun _ _ h => (nomatch h), fun _ _ => rfl, fun _ => rfl, hI.unfaulted⟩

theorem lineInv_step (hI : s.LineInv) (hRegistered : s.Registered a) (hs : s.step a = some s') :
    s'.LineInv := by
  cases a with
  -- without a mutex the line is off
  | new type state =>
    obtain ⟨hNone, hs⟩ := Option.ite_none_right_eq_some.mp hs
    cases hs
    have hOut := hI.owned hNone
    have hOff : s.line.enabled = false := by
      refine Bool.eq_false_iff.mpr fun hOn => ?_
      obtain ⟨m, hM, -⟩ := hI.safe hOn
      exact nomatch hNone.symm.trans hM
    refine ⟨fun hOn => (nomatch hOff.symm.trans hOn), fun _ => .inl hOut, fun m hm hDone => ?_,
      fun h => (nomatch hOut.symm.trans h), fun h => ?_, fun _ _ => ?_, fun h => (nomatch h),
      hI.unfaulted⟩
    · cases hm
      cases hDone
    · rcases h with h | h <;> cases hOut.symm.trans h
    · exact hI.unset (fun m hM => nomatch hNone.symm.trans hM) (.inl hOut)
  | registerInterrupt =>
    obtain ⟨m, hM, hs⟩ := Option.bind_eq_some_iff.mp hs
    split at hs
    · cases hs
    · rename_i hOut
      split at hs
      · cases hs
        exact hI
      · cases hs
        exact hI.disable hM (Decidable.not_not.mp hOut) (.inl rfl)
  | with_ =>
    obtain ⟨⟨hSome, hOut⟩, hs⟩ := Option.ite_none_right_eq_some.mp hs
    cases hs
    obtain ⟨m, hM⟩ := Option.ne_none_iff_exists'.mp hSome
    exact hI.disable hM hOut (.inr (.inl rfl))
  | drop =>
    obtain ⟨⟨hSome, hOut⟩, hs⟩ := Option.ite_none_right_eq_some.mp hs
    cases hs
    obtain ⟨m, hM⟩ := Option.ne_none_iff_exists'.mp hSome
    exact hI.disable hM hOut (.inr (.inr rfl))
  -- one statement of the call under way
  | next =>
    obtain ⟨m, hM, hs⟩ := Option.bind_eq_some_iff.mp hs
    exact hI.next hM (fun hPc => hRegistered rfl hPc m hM) hs
  | pend =>
    cases hs
    exact ⟨hI.safe, hI.masked, hI.done, hI.handler, hI.context, hI.unset, hI.owned, hI.unfaulted⟩
  | interrupt =>
    obtain ⟨⟨hOn, -⟩, hs⟩ := Option.ite_none_right_eq_some.mp hs
    cases hs
    -- an enabled line has its handler
    obtain ⟨m, -, hFunc, -⟩ := hI.safe hOn
    refine ⟨hI.safe, hI.masked, hI.done, hI.handler, hI.context, hI.unset, hI.owned, ?_⟩
    show (s.faulted || s.line.func.isNone) = false
    rw [hI.unfaulted, hFunc]
    rfl

/-- `with` is called on a mutex that was never registered. -/
theorem line_not_safe : ¬∀ s, Run step (fun _ _ => True) start s → s.Safe := by
  intro hAll
  obtain ⟨s, hRun, hOn, hFunc⟩ : ∃ s, Run step (fun _ _ => True) start s ∧
      s.line.enabled = true ∧ s.line.func = none := by
    have hRun : Run step (fun _ _ => True) start _ :=
      Run.execOk_get _ [.pend, .new 1 2, .with_, .next] (by decide +kernel)
    exact ⟨_, hRun, by decide +kernel, by decide +kernel⟩
  obtain ⟨m, -, hSome, -⟩ := hAll s hRun hOn
  exact nomatch hFunc.symm.trans hSome

theorem lineInv_of_run (hRun : Run step Registered start s) : s.LineInv :=
  hRun.invariant (I := LineInv) lineInv_start fun _ _ _ hI hOk hs => lineInv_step hI hOk hs

/--
**An enabled line has its handler.** In every run in which `with` returns only on
registered mutexes, and with the interrupt between any two steps: whenever the line is
enabled, the handler of the mutex is installed and its context is the state of the
mutex. A step keeps to this exactly if it is not the return of `with` on another mutex.
-/
theorem line_safe_iff (hRun : Run step Registered start s) :
    s.Safe ∧ ∀ a s', s.step a = some s' → (s'.Safe ↔ s.Registered a) := by
  have hI := lineInv_of_run hRun
  refine ⟨hI.safe, fun a s' hs => ⟨fun hSafe => ?_, fun hOk => (lineInv_step hI hOk hs).safe⟩⟩
  rintro rfl hPc m hM
  obtain ⟨m', hM', hs⟩ := Option.bind_eq_some_iff.mp hs
  cases hM.symm.trans hM'
  rw [hPc] at hs
  cases hs
  refine eq_true_of_ne_false fun hDone => ?_
  have hFunc := hI.unset (fun m' hM' => by cases hM.symm.trans hM'; exact hDone)
    (.inr (.inr (.inl hPc)))
  obtain ⟨_, -, hSome, -⟩ := hSafe rfl
  exact nomatch hFunc.symm.trans hSome

instance (s : Peripheral) (a : PeripheralAction) : Decidable (s.Registered a) :=
  inferInstanceAs (Decidable (a = .next → s.pc = .closure → ∀ m ∈ s.mutex, m.irqSetupDone = true))

/-- A mutex is registered and used, and another one after it. -/
theorem line_safe_iff_second : ∃ s, Run step Registered start s ∧ s.line.enabled = true ∧
    s.mutex = some ⟨3, 4, true⟩ ∧ s.line.func = some 3 ∧ s.line.ctx = some 4 ∧ s.Safe := by
  have hRun : Run step Registered start _ :=
    Run.execOk_get _ [.pend, .new 1 2, .registerInterrupt, .next, .next, .next, .interrupt, .next,
      .with_, .pend, .next, .interrupt, .drop, .next, .new 3 4, .registerInterrupt, .next, .next,
      .next, .next, .with_, .next] (by decide +kernel)
  exact ⟨_, hRun, by decide +kernel, by decide +kernel, by decide +kernel, by decide +kernel,
    (line_safe_iff hRun).1⟩

/-- The trampoline finds a handler whenever it runs. -/
theorem never_faults (hRun : Run step Registered start s) : s.faulted = false :=
  (lineInv_of_run hRun).unfaulted

end Peripheral

end Embassy.Extras
