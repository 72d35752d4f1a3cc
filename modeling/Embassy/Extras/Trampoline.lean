import Embassy.Lib.Run
import Embassy.Lib.Script

/-!
# An interrupt that goes from driver to driver

`embassy/src/interrupt.rs`, and the trampoline that `interrupt::take!` defines. The handler and
its context are two atomic cells, which belong to the interrupt, and whoever has the interrupt
sets them: an `InterruptFuture`, a driver that calls `wake_on_interrupt`, a `PeripheralMutex`
or a `Peripheral`. The trampoline loads the one and then the other, and calls the handler,
which takes the context for what its own driver has put there: a task, or a state of its type.

A driver borrows the interrupt, and another may have it next. Some leave the line enabled, and
any may be forgotten instead of dropped. What a driver does with the cells is a script of
single accesses, and the line may fire between any two of them.

Main results:

* `own_context` — a handler that is called has a context of its own kind, which still exists;
  and no null pointer is called. A handler is not to be replaced in the middle of the
  trampoline, and a `with` is to be of a mutex that is registered.
* `context_confused` — the first condition is needed.
-/

namespace Embassy.Extras.Trampoline

open Embassy.Lib

/-- The type of a state, and where it lies. -/
abbrev Place : Type := Nat × Nat

/-- What a handler is: for a state of some type, the closure of `register_interrupt`. -/
inductive Handler where
  /-- `irq_wake_handler` -/
  | wake
  | onInterrupt (type : Nat)
  deriving DecidableEq, Repr

/-- What the context points to. -/
inductive Ctx (Task : Type) where
  | null
  | task (w : Task)
  | state (place : Place)
  deriving DecidableEq, Repr

variable {Task : Type}

/-- The handler takes the context for what it is. -/
def Handler.Matches : Handler → Ctx Task → Prop
  | .wake, .null | .wake, .task _ => True
  | .wake, .state _ => False
  | .onInterrupt type, .state place => place.1 = type
  | .onInterrupt _, _ => False

/-- It is still there. Tasks are for ever. -/
def Ctx.Live (live : List Place) : Ctx Task → Prop
  | .null | .task _ => True
  | .state place => place ∈ live

/-- A state is alive after another one has been created. -/
theorem Ctx.Live.cons {c : Ctx Task} {live : List Place} {place : Place} (hLive : c.Live live) :
    c.Live (place :: live) := by
  cases c with
  | null | task => exact trivial
  | state => exact List.mem_cons_of_mem _ hLive

/-- Who has the interrupt. -/
inductive User where
  /-- An `InterruptFuture` -/
  | future
  /-- A driver that calls `wake_on_interrupt`, as SPIM, SAADC and QSPI do. -/
  | waker
  /-- A `PeripheralMutex` or a `Peripheral`; `done` is `irq_setup_done`. -/
  | mutex (place : Place) (done : Bool)
  deriving DecidableEq, Repr

/-- An access of a driver to the line or to the cells. -/
inductive Access (Task : Type) where
  | disable
  | enable
  | unpend
  | setHandler (h : Handler)
  | removeHandler
  | setContext (c : Ctx Task)
  /-- The driver is gone, with its state. -/
  | release
  deriving DecidableEq, Repr

/-- Where the trampoline is. -/
inductive TrampolinePc (Task : Type) where
  | out
  /-- It has loaded the handler. -/
  | loaded (func : Option Handler)
  | running (h : Handler) (c : Ctx Task)
  deriving DecidableEq, Repr

structure Interrupt (Task : Type) where
  enabled : Bool
  pending : Bool
  func : Option Handler
  ctx : Ctx Task
  user : Option User
  /-- What is left of the operation under way. -/
  script : List (Access Task)
  /-- The states that exist. -/
  live : List Place
  trampoline : TrampolinePc Task
  /-- The trampoline called a null pointer. -/
  faulted : Bool
  deriving DecidableEq, Repr

inductive InterruptAction (Task : Type) where
  /-- `InterruptFuture::new`, `poll` and `drop` -/
  | newFuture
  | poll (w : Task)
  | dropFuture
  | newWaker
  | wakeOnInterrupt (w : Task)
  | dropWaker
  | newMutex (place : Place)
  | registerInterrupt
  | with_
  | dropMutex
  /-- `mem::forget` of a driver -/
  | forget
  /-- The operation under way goes on. -/
  | next
  | pend
  /-- The processor enters the interrupt, and the trampoline loads the handler. -/
  | interrupt
  /-- It loads the context, and calls the handler. -/
  | call
  /-- The handler returns. -/
  | ret
  deriving DecidableEq, Repr

/-- A handler and its context are set while the line is disabled. -/
def setUp (h : Handler) (c : Ctx Task) : List (Access Task) :=
  [.disable, .setHandler h, .setContext c, .enable]

/-- `InterruptFuture::new` -/
def newFuture : List (Access Task) :=
  [.disable, .setHandler .wake, .setContext .null, .unpend, .enable]

/-- `drop` of a future, and of a mutex. -/
def tearDown : List (Access Task) := [.disable, .removeHandler, .release]

namespace Interrupt

def start (pending : Bool) : Interrupt Task where
  enabled := false
  pending := pending
  func := none
  ctx := .null
  user := none
  script := []
  live := []
  trampoline := .out
  faulted := false

def exec : Access Task → Interrupt Task → Interrupt Task
  | .disable, s => { s with enabled := false }
  | .enable, s => { s with enabled := true }
  | .unpend, s => { s with pending := false }
  | .setHandler h, s => { s with func := some h }
  | .removeHandler, s => { s with func := none }
  | .setContext c, s => { s with ctx := c }
  | .release, s => { s with
      user := none
      live :=
        match s.user with
        | some (.mutex place _) => s.live.filter (· ≠ place)
        | _ => s.live }

/-- An operation of the user begins. -/
def begin (s : Interrupt Task) (user : User) (script : List (Access Task)) :
    Option (Interrupt Task) :=
  if s.script = [] then some { s with user := some user, script := script } else none

/-- The next access of the operation under way. -/
def next (s : Interrupt Task) : List (Access Task) → Option (Interrupt Task)
  | [] => none
  | p :: ps => some { exec p s with script := ps }

def call (s : Interrupt Task) : TrampolinePc Task → Option (Interrupt Task)
  | .loaded (some h) => some { s with trampoline := .running h s.ctx }
  | .loaded none => some { s with trampoline := .out, faulted := true }
  | .out | .running .. => none

def ret (s : Interrupt Task) : TrampolinePc Task → Option (Interrupt Task)
  -- `irq_wake_handler` masks the line
  | .running .wake _ => some { s with trampoline := .out, enabled := false }
  | .running (.onInterrupt _) _ => some { s with trampoline := .out }
  | .out | .loaded _ => none

/-- What the user does if it is a mutex. -/
def ofMutex : Option User → (Place → Bool → Option (Interrupt Task)) → Option (Interrupt Task)
  | some (.mutex place done), op => op place done
  | some .future, _ | some .waker, _ | none, _ => none

def step [DecidableEq Task] (s : Interrupt Task) : InterruptAction Task → Option (Interrupt Task)
  | .newFuture => if s.user = none then s.begin .future newFuture else none
  | .poll w => if s.user = some .future then s.begin .future [.setContext (.task w)] else none
  | .dropFuture => if s.user = some .future then s.begin .future tearDown else none
  | .newWaker => if s.user = none then s.begin .waker [] else none
  | .wakeOnInterrupt w =>
    if s.user = some .waker then s.begin .waker (setUp .wake (.task w)) else none
  | .dropWaker => if s.user = some .waker then s.begin .waker [.release] else none
  | .newMutex place =>
    if s.user = none ∧ place ∉ s.live then
      ({ s with live := place :: s.live } : Interrupt Task).begin (.mutex place false) []
    else none
  | .registerInterrupt => ofMutex s.user fun place done =>
    -- the flag is set at the end, and nobody looks at it before
    s.begin (.mutex place true)
      (if done then [] else setUp (.onInterrupt place.1) (.state place))
  | .with_ => ofMutex s.user fun place done => s.begin (.mutex place done) [.disable, .enable]
  | .dropMutex => ofMutex s.user fun place done => s.begin (.mutex place done) tearDown
  | .forget => if s.script = [] then some { s with user := none } else none
  | .next => s.next s.script
  | .pend => some { s with pending := true }
  | .interrupt =>
    if s.enabled ∧ s.pending ∧ s.trampoline = .out then
      some { s with pending := false, trampoline := .loaded s.func }
    else none
  | .call => s.call s.trampoline
  | .ret => s.ret s.trampoline

/-- The access puts another handler in the place of the one that is there. -/
def Replaces (s : Interrupt Task) : Access Task → Prop
  | .setHandler h => s.func ≠ some h
  | .removeHandler => True
  | _ => False

instance (s : Interrupt Task) (p : Access Task) : Decidable (s.Replaces p) :=
  match p with
  | .setHandler h => inferInstanceAs (Decidable (s.func ≠ some h))
  | .removeHandler => isTrue trivial
  | .disable | .enable | .unpend | .setContext _ | .release => isFalse id

/-- No handler is replaced in the middle of the trampoline; and `with` is called on a mutex
that is registered. -/
def Orderly (s : Interrupt Task) : InterruptAction Task → Prop
  | .with_ => ∀ place, s.user ≠ some (.mutex place false)
  | .next => s.trampoline = .out ∨ ∀ p ∈ s.script.head?, ¬s.Replaces p
  | _ => True

/-- A handler is in place, with a context of its own. -/
def Installed (s : Interrupt Task) (h : Handler) : Prop :=
  s.func = some h ∧ h.Matches s.ctx ∧ s.ctx.Live s.live

/-- If the line is enabled, it can fire. -/
def Safe (s : Interrupt Task) : Prop := s.enabled = true → ∃ h, s.Installed h

/-- What a driver relies on between two operations. -/
def Owned (s : Interrupt Task) : Prop :=
  match s.user with
  | some .future => s.func = some .wake
  | some (.mutex place done) => place ∈ s.live ∧
      (done = true → s.func = some (.onInterrupt place.1) ∧ s.ctx = .state place)
  | _ => True

/-- A context is set only for the handler that is there, and a state is given up only without
a handler. -/
def Allowed : Access Task → Interrupt Task → Prop
  | .setContext c, s => ∃ h, s.func = some h ∧ h.Matches c ∧ c.Live s.live
  | .release, s => (∃ place done, s.user = some (.mutex place done)) →
      s.func = none ∧ s.enabled = false
  | _, _ => True

/-- The operation under way can go on. -/
abbrev Sound (s : Interrupt Task) : Prop := Script.Sound Safe Owned Allowed exec s.script s

structure Inv (s : Interrupt Task) : Prop where
  sound : s.Sound
  /-- The trampoline has loaded the handler that is there, and it stays there. -/
  inside : s.trampoline ≠ .out → ∃ h, s.Installed h ∧
    (s.trampoline = .loaded (some h) ∨
      ∃ c, s.trampoline = .running h c ∧ h.Matches c ∧ c.Live s.live)
  unfaulted : s.faulted = false

/-- At the start there is no handler, and the line is disabled. -/
theorem inv_start (pending : Bool) : (start pending : Interrupt Task).Inv :=
  ⟨⟨(nomatch ·), trivial⟩, fun h => absurd rfl h, rfl⟩

variable {s s' : Interrupt Task} {h : Handler} {c : Ctx Task}

-- ---------------------------------------------------------------------------
-- The operations
-- ---------------------------------------------------------------------------

/-- A line that is disabled cannot fire. -/
theorem safe_of_disabled (hOff : s.enabled = false) : s.Safe :=
  fun hOn => nomatch hOff.symm.trans hOn

/-- The line is disabled while the cells are set, and the driver has them then. -/
theorem sound_setUp (hSafe : s.Safe) (hMatches : h.Matches c) (hLive : c.Live s.live)
    (hOwned : Owned { s with enabled := true, func := some h, ctx := c }) :
    Script.Sound Safe Owned Allowed exec (setUp h c) s :=
  ⟨hSafe, trivial, safe_of_disabled rfl, trivial, safe_of_disabled rfl, ⟨h, rfl, hMatches, hLive⟩,
    safe_of_disabled rfl, trivial, fun _ => ⟨h, rfl, hMatches, hLive⟩, hOwned⟩

/-- A future unpends the line and installs its handler while the line is disabled. -/
theorem sound_newFuture (hSafe : s.Safe) (hUser : s.user = some .future) :
    Script.Sound Safe Owned Allowed exec newFuture s := by
  refine ⟨hSafe, trivial, safe_of_disabled rfl, trivial, safe_of_disabled rfl,
    ⟨.wake, rfl, trivial, trivial⟩, safe_of_disabled rfl, trivial, safe_of_disabled rfl, trivial,
    fun _ => ⟨.wake, rfl, trivial, trivial⟩, ?_⟩
  simp only [Owned, exec, hUser]

/-- The line is disabled before the handler is removed. -/
theorem sound_tearDown (hSafe : s.Safe) : Script.Sound Safe Owned Allowed exec tearDown s :=
  ⟨hSafe, trivial, safe_of_disabled rfl, trivial, safe_of_disabled rfl, fun _ => ⟨rfl, rfl⟩,
    safe_of_disabled rfl, trivial⟩

/-- A poll of a future stores its task. -/
theorem sound_poll {w : Task} (hSafe : s.Safe) (hFunc : s.func = some .wake)
    (hUser : s.user = some .future) :
    Script.Sound Safe Owned Allowed exec [.setContext (.task w)] s := by
  refine ⟨hSafe, ⟨.wake, hFunc, trivial, trivial⟩, fun _ => ⟨.wake, hFunc, trivial, trivial⟩, ?_⟩
  simp only [Owned, exec, hUser, hFunc]

/-- A `with` finds its own handler when it enables the line. -/
theorem sound_with {place : Place} (hSafe : s.Safe) (hUser : s.user = some (.mutex place true))
    (hOwned : place ∈ s.live ∧
      (true = true → s.func = some (.onInterrupt place.1) ∧ s.ctx = .state place)) :
    Script.Sound Safe Owned Allowed exec [.disable, .enable] s := by
  obtain ⟨hFunc, hCtx⟩ := hOwned.2 rfl
  have hInstalled : s.Installed (.onInterrupt place.1) :=
    ⟨hFunc, by rw [hCtx]; rfl, by rw [hCtx]; exact hOwned.1⟩
  refine ⟨hSafe, trivial, safe_of_disabled rfl, trivial, fun _ => ⟨_, hInstalled⟩, ?_⟩
  simpa only [Owned, exec, hUser] using hOwned

-- ---------------------------------------------------------------------------
-- The interrupt between two accesses
-- ---------------------------------------------------------------------------

/-- What the interrupt may do to the line and the cells: it may mask the line. -/
structure Env (s s' : Interrupt Task) : Prop where
  func : s'.func = s.func
  ctx : s'.ctx = s.ctx
  user : s'.user = s.user
  live : s'.live = s.live
  enabled : s'.enabled = true → s.enabled = true

/-- An access does the same whether or not the interrupt came before it. -/
theorem Env.exec (h : Env s s') (p : Access Task) : Env (exec p s) (exec p s') := by
  cases p with
  | disable => exact ⟨h.func, h.ctx, h.user, h.live, id⟩
  | enable => exact ⟨h.func, h.ctx, h.user, h.live, fun _ => rfl⟩
  | unpend => exact ⟨h.func, h.ctx, h.user, h.live, h.enabled⟩
  | setHandler => exact ⟨rfl, h.ctx, h.user, h.live, h.enabled⟩
  | removeHandler => exact ⟨rfl, h.ctx, h.user, h.live, h.enabled⟩
  | setContext => exact ⟨h.func, rfl, h.user, h.live, h.enabled⟩
  | release =>
    -- Which state is given up is told by the user, whom the interrupt leaves.
    refine ⟨h.func, h.ctx, rfl, ?_, h.enabled⟩
    simp only [Interrupt.exec, h.user, h.live]

theorem Env.installed (hEnv : Env s s') (hI : s.Installed h) : s'.Installed h := by
  rwa [Installed, hEnv.func, hEnv.ctx, hEnv.live]

/-- A line that is masked is safe all the more. -/
theorem Env.safe (hEnv : Env s s') (hSafe : s.Safe) : s'.Safe := by
  intro hOn
  obtain ⟨h, hInstalled⟩ := hSafe (hEnv.enabled hOn)
  exact ⟨h, hEnv.installed hInstalled⟩

theorem Env.owned (hEnv : Env s s') (hOwned : s.Owned) : s'.Owned := by
  rwa [Owned, hEnv.user, hEnv.func, hEnv.ctx, hEnv.live]

/-- What an access needs is not taken from it by the interrupt. -/
theorem Env.allowed {p : Access Task} (hEnv : Env s s') (hAllowed : Allowed p s) :
    Allowed p s' := by
  cases p with
  | disable | enable | unpend | setHandler | removeHandler => exact trivial
  | setContext c =>
    rw [Allowed, hEnv.func, hEnv.live]
    exact hAllowed
  | release =>
    rw [Allowed, hEnv.user, hEnv.func]
    intro hMutex
    obtain ⟨hFunc, hOff⟩ := hAllowed hMutex
    exact ⟨hFunc, eq_false_of_ne_true fun hOn => nomatch hOff.symm.trans (hEnv.enabled hOn)⟩

/-- A step of the interrupt leaves the script where it is. -/
theorem Inv.env (hI : s.Inv) (hEnv : Env s s') (hScript : s'.script = s.script) : s'.Sound := by
  rw [Sound, hScript]
  exact hI.sound.mono (fun _ _ => Env.safe) (fun _ _ => Env.owned) (fun _ _ _ => Env.allowed)
    (fun p _ _ hEnv => hEnv.exec p) hEnv

/-- An operation begins. -/
theorem Inv.begin {user : User} {script : List (Access Task)} (hI : s.Inv)
    (hSound : s.Safe → s.Owned → Script.Sound Safe Owned Allowed exec script
      { s with user := some user, script := script })
    (hs : s.begin user script = some s') : s'.Inv := by
  obtain ⟨hScript, hs⟩ := Option.ite_none_right_eq_some.mp hs
  cases hs
  have hEnd : Script.Sound Safe Owned Allowed exec [] s := hScript ▸ hI.sound
  exact ⟨hSound hEnd.now hEnd.post, hI.inside, hI.unfaulted⟩

/-- In the middle of the trampoline, an access keeps the handler, or sets a context of it. -/
theorem Inv.next {p : Access Task} {ps : List (Access Task)} (hI : s.Inv)
    (hScript : s.script = p :: ps) (hOrderly : s.trampoline = .out ∨ ¬s.Replaces p) :
    Inv { exec p s with script := ps } := by
  have hSound : Script.Sound Safe Owned Allowed exec (p :: ps) s := hScript ▸ hI.sound
  have hSame : (exec p s).trampoline = s.trampoline ∧ (exec p s).faulted = s.faulted := by
    cases p <;> exact ⟨rfl, rfl⟩
  have hNext : Script.Sound Safe Owned Allowed exec ps { exec p s with script := ps } :=
    hSound.next.mono (fun _ _ => Env.safe) (fun _ _ => Env.owned) (fun _ _ _ => Env.allowed)
      (fun p _ _ hEnv => hEnv.exec p) ⟨rfl, rfl, rfl, rfl, id⟩
  refine ⟨hNext, fun hInside => ?_, hSame.2.trans hI.unfaulted⟩
  -- In the middle of the trampoline only the accesses of an orderly run are left.
  have hInside : s.trampoline ≠ .out := fun hOut => hInside (hSame.1.trans hOut)
  obtain ⟨h, ⟨hFunc, hMatches, hLive⟩, hAt⟩ := hI.inside hInside
  have hKeeps := hOrderly.resolve_left hInside
  cases p with
  | disable | enable | unpend => exact ⟨h, ⟨hFunc, hMatches, hLive⟩, hAt⟩
  | setHandler h' =>
    have hEq : s.func = some h' := Decidable.not_not.mp hKeeps
    exact ⟨h, ⟨hEq.symm.trans hFunc, hMatches, hLive⟩, hAt⟩
  | removeHandler => exact absurd trivial hKeeps
  | setContext c =>
    -- The context that is set is one of the handler that is there.
    obtain ⟨h', hFunc', hMatches', hLive'⟩ := hSound.allowed
    cases hFunc.symm.trans hFunc'
    exact ⟨h, ⟨hFunc, hMatches', hLive'⟩, hAt⟩
  | release =>
    -- A state is given up only without a handler, and the trampoline has one.
    have hUser : ∀ place done, s.user ≠ some (.mutex place done) := by
      intro place done hUser
      exact nomatch hFunc.symm.trans (hSound.allowed ⟨place, done, hUser⟩).1
    have hLiveEq : (exec .release s).live = s.live := by
      show (match s.user with
        | some (.mutex place _) => s.live.filter (· ≠ place)
        | _ => s.live) = s.live
      split
      · rename_i hMutex
        exact absurd hMutex (hUser _ _)
      · rfl
    have hInstalled : Interrupt.Installed { exec .release s with script := ps } h :=
      ⟨hFunc, hMatches, hLiveEq ▸ hLive⟩
    exact ⟨h, hInstalled, hAt.imp id fun ⟨c, hRun, hM, hL⟩ => ⟨c, hRun, hM, hLiveEq ▸ hL⟩⟩

/-- A new mutex has a place of its own. -/
theorem Inv.newMutex {place : Place} (hI : s.Inv) (hScript : s.script = []) :
    Inv { s with live := place :: s.live, user := some (.mutex place false), script := [] } := by
  have hEnd : Script.Sound Safe Owned Allowed exec [] s := hScript ▸ hI.sound
  refine ⟨⟨fun hOn => ?_, ?_⟩, fun hInside => ?_, hI.unfaulted⟩
  · obtain ⟨h, hFunc, hMatches, hLive⟩ := hEnd.now hOn
    exact ⟨h, hFunc, hMatches, hLive.cons⟩
  · exact ⟨List.mem_cons_self, (nomatch ·)⟩
  · obtain ⟨h, ⟨hFunc, hMatches, hLive⟩, hAt⟩ := hI.inside hInside
    refine ⟨h, ⟨hFunc, hMatches, hLive.cons⟩, hAt.imp id ?_⟩
    rintro ⟨c, hRun, hM, hL⟩
    exact ⟨c, hRun, hM, hL.cons⟩

/-- The trampoline loads the handler of an enabled line, and there is one. -/
theorem Inv.interrupt (hI : s.Inv) (hOn : s.enabled = true) :
    Inv { s with pending := false, trampoline := .loaded s.func } := by
  obtain ⟨h, hInstalled⟩ := hI.sound.now hOn
  refine ⟨hI.env ⟨rfl, rfl, rfl, rfl, id⟩ rfl, fun _ => ⟨h, hInstalled, .inl ?_⟩, hI.unfaulted⟩
  show TrampolinePc.loaded s.func = _
  rw [hInstalled.1]

/-- The handler that was loaded finds the context that is there. -/
theorem Inv.call (hI : s.Inv) (hs : s.call s.trampoline = some s') : s'.Inv := by
  cases hAt : s.trampoline with
  | out | running =>
    rw [hAt] at hs
    cases hs
  | loaded func =>
    rw [hAt] at hs
    obtain ⟨h, hInstalled, hAt' | ⟨c, hAt', -⟩⟩ := hI.inside (hAt ▸ fun h => nomatch h)
    · cases hAt.symm.trans hAt'
      cases hs
      exact ⟨hI.env ⟨rfl, rfl, rfl, rfl, id⟩ rfl,
        fun _ => ⟨h, hInstalled, .inr ⟨s.ctx, rfl, hInstalled.2⟩⟩, hI.unfaulted⟩
    · cases hAt.symm.trans hAt'

/-- The handler may mask the line and is out. -/
theorem Inv.ret (hI : s.Inv) (hs : s.ret s.trampoline = some s') : s'.Inv := by
  cases hAt : s.trampoline with
  | out | loaded =>
    rw [hAt] at hs
    cases hs
  | running h c =>
    rw [hAt] at hs
    cases h with
    | wake =>
      cases hs
      exact ⟨hI.env ⟨rfl, rfl, rfl, rfl, (nomatch ·)⟩ rfl, fun h => absurd rfl h, hI.unfaulted⟩
    | onInterrupt =>
      cases hs
      exact ⟨hI.env ⟨rfl, rfl, rfl, rfl, id⟩ rfl, fun h => absurd rfl h, hI.unfaulted⟩

theorem ofMutex_eq_some {user : Option User} {op : Place → Bool → Option (Interrupt Task)}
    (hs : ofMutex user op = some s') :
    ∃ place done, user = some (.mutex place done) ∧ op place done = some s' := by
  unfold ofMutex at hs
  split at hs
  · exact ⟨_, _, rfl, hs⟩
  · cases hs
  · cases hs
  · cases hs

theorem Owned.mutex {place : Place} {done : Bool} (hUser : s.user = some (.mutex place done))
    (h : s.Owned) : place ∈ s.live ∧
      (done = true → s.func = some (.onInterrupt place.1) ∧ s.ctx = .state place) := by
  simpa only [Owned, hUser] using h

/-- Every orderly step keeps the invariant. -/
theorem inv_step [DecidableEq Task] {a : InterruptAction Task} (hI : s.Inv)
    (hOrderly : s.Orderly a) (hs : s.step a = some s') : s'.Inv := by
  cases a with
  -- each call of the API begins a script that is sound where it starts
  | newFuture =>
    obtain ⟨-, hs⟩ := Option.ite_none_right_eq_some.mp hs
    exact hI.begin (fun hSafe _ => sound_newFuture hSafe rfl) hs
  | poll w =>
    obtain ⟨hUser, hs⟩ := Option.ite_none_right_eq_some.mp hs
    refine hI.begin (fun hSafe hOwned => sound_poll hSafe ?_ rfl) hs
    simpa only [Owned, hUser] using hOwned
  | dropFuture =>
    obtain ⟨-, hs⟩ := Option.ite_none_right_eq_some.mp hs
    exact hI.begin (fun hSafe _ => sound_tearDown hSafe) hs
  | newWaker =>
    obtain ⟨-, hs⟩ := Option.ite_none_right_eq_some.mp hs
    refine hI.begin (fun hSafe _ => ?_) hs
    exact ⟨hSafe, trivial⟩
  -- the handler installed matches the task it is given
  | wakeOnInterrupt w =>
    obtain ⟨-, hs⟩ := Option.ite_none_right_eq_some.mp hs
    refine hI.begin (fun hSafe _ => ?_) hs
    exact sound_setUp hSafe (show Handler.wake.Matches (.task w) from trivial) trivial trivial
  | dropWaker =>
    obtain ⟨-, hs⟩ := Option.ite_none_right_eq_some.mp hs
    refine hI.begin (fun hSafe _ => ?_) hs
    refine ⟨hSafe, fun hMutex => ?_, hSafe, trivial⟩
    -- a waker is not a mutex
    obtain ⟨place, done, hUser⟩ := hMutex
    cases hUser
  | newMutex place =>
    obtain ⟨-, hs⟩ := Option.ite_none_right_eq_some.mp hs
    obtain ⟨hScript, hs⟩ := Option.ite_none_right_eq_some.mp hs
    cases hs
    exact hI.newMutex hScript
  -- a mutex registered already keeps its cells, one that is not gets them set up
  | registerInterrupt =>
    obtain ⟨place, done, hUser, hs⟩ := ofMutex_eq_some hs
    refine hI.begin (fun hSafe hOwned => ?_) hs
    obtain ⟨hLive, hCells⟩ := hOwned.mutex hUser
    cases done with
    | true => exact ⟨hSafe, hLive, fun _ => hCells rfl⟩
    | false => exact sound_setUp hSafe rfl hLive ⟨hLive, fun _ => ⟨rfl, rfl⟩⟩
  | with_ =>
    obtain ⟨place, done, hUser, hs⟩ := ofMutex_eq_some hs
    -- the condition on `with`: the mutex has been registered
    have hDone : done = true := by
      cases done with
      | true => rfl
      | false => exact absurd hUser (hOrderly place)
    subst hDone
    refine hI.begin (fun hSafe hOwned => ?_) hs
    have hMine := hOwned.mutex hUser
    exact sound_with hSafe rfl hMine
  | dropMutex =>
    obtain ⟨place, done, -, hs⟩ := ofMutex_eq_some hs
    exact hI.begin (fun hSafe _ => sound_tearDown hSafe) hs
  -- forgetting runs nothing: the script is empty already
  | forget =>
    obtain ⟨hScript, hs⟩ := Option.ite_none_right_eq_some.mp hs
    cases hs
    have hEnd : Script.Sound Safe Owned Allowed exec [] s := hScript ▸ hI.sound
    refine ⟨?_, hI.inside, hI.unfaulted⟩
    show Script.Sound Safe Owned Allowed exec s.script _
    rw [hScript]
    exact ⟨hEnd.now, trivial⟩
  -- one primitive of the running script
  | next =>
    cases hScript : s.script with
    | nil =>
      rw [step, hScript] at hs
      cases hs
    | cons p ps =>
      rw [step, hScript] at hs
      cases hs
      refine hI.next hScript (hOrderly.imp id fun hKeeps => hKeeps p ?_)
      rw [hScript]
      rfl
  | pend =>
    cases hs
    exact ⟨hI.env ⟨rfl, rfl, rfl, rfl, id⟩ rfl, hI.inside, hI.unfaulted⟩
  -- the interrupt calls the handler stored, with the context stored
  | interrupt =>
    obtain ⟨⟨hOn, -, -⟩, hs⟩ := Option.ite_none_right_eq_some.mp hs
    cases hs
    exact hI.interrupt hOn
  | call => exact hI.call hs
  | ret => exact hI.ret hs

/--
**A handler gets a context of its own**, from whichever driver to whichever the interrupt has
gone, and whenever it fires: a handler that runs has a context of its kind, which still
exists, and the trampoline never calls a null pointer. No handler is to be replaced in the
middle of the trampoline, which a driver can do only at a priority higher than that of the
interrupt; and no `with` is to be called on a mutex that is not registered.
-/
theorem own_context [DecidableEq Task] {pending : Bool}
    (hRun : Run step Orderly (start pending) s) :
    s.faulted = false ∧
      ∀ h c, s.trampoline = .running h c → h.Matches c ∧ c.Live s.live := by
  have hI : s.Inv := hRun.invariant (inv_start pending) fun _ _ _ => inv_step
  refine ⟨hI.unfaulted, fun h c hRunning => ?_⟩
  obtain ⟨h', -, hAt | ⟨c', hAt, hOwn⟩⟩ :=
    hI.inside (hRunning ▸ fun h => nomatch h)
  · cases hRunning.symm.trans hAt
  · cases hRunning.symm.trans hAt
    exact hOwn

instance [DecidableEq Task] (s : Interrupt Task) : DecidablePred s.Orderly := fun a =>
  match a with
  | .with_ =>
    match hUser : s.user with
    | some (.mutex place false) => isFalse fun h => h place hUser
    | some (.mutex _ true) | some .future | some .waker | none =>
      isTrue fun _ h => by rw [hUser] at h; cases h
  | .next =>
    match hHead : s.script.head? with
    | some p => decidable_of_iff (s.trampoline = .out ∨ ¬s.Replaces p) (by
        rw [Orderly, hHead]
        simp)
    | none => isTrue (.inr (by rw [hHead]; exact fun _ h => nomatch h))
  | .newFuture | .poll _ | .dropFuture | .newWaker | .wakeOnInterrupt _ | .dropWaker
  | .newMutex _ | .registerInterrupt | .dropMutex | .forget | .pend | .interrupt | .call
  | .ret => isTrue trivial

/-- The line of a driver that is gone fires while a mutex is not registered yet, and again when
it is. -/
theorem own_context_second : ∃ s : Interrupt Nat, Run step Orderly (start true) s ∧
    s.trampoline = .running (.onInterrupt 3) (.state (3, 64)) ∧
    Handler.Matches (.onInterrupt 3) (.state (3, 64) : Ctx Nat) ∧
    Ctx.Live s.live (.state (3, 64) : Ctx Nat) := by
  have hRun : Run step Orderly (start true : Interrupt Nat) _ :=
    Run.execOk_get _ [.newWaker, .wakeOnInterrupt 7, .next, .next, .next, .next, .forget,
      .newMutex (3, 64), .interrupt, .call, .registerInterrupt, .next, .ret, .pend, .next, .next,
      .next, .interrupt, .call] (by decide +kernel)
  exact ⟨_, hRun, by decide +kernel, (own_context hRun).2 _ _ (by decide +kernel)⟩

/-- A mutex is registered by a driver of a higher priority, when the trampoline has loaded the
handler of the one before it: this handler takes the state of the mutex for a task. -/
theorem context_confused : ¬∀ s : Interrupt Nat, Run step (fun _ _ => True) (start true) s →
    ∀ h c, s.trampoline = .running h c → h.Matches c ∧ c.Live s.live := by
  intro hAll
  have hRun : Run step (fun _ _ => True) (start true : Interrupt Nat) _ :=
    Run.execOk_get _ [.newWaker, .wakeOnInterrupt 7, .next, .next, .next, .next, .interrupt,
      .forget, .newMutex (3, 64), .registerInterrupt, .next, .next, .next, .call]
      (by decide +kernel)
  exact (hAll _ hRun .wake (.state (3, 64)) (by decide +kernel)).1

end Interrupt

end Embassy.Extras.Trampoline
