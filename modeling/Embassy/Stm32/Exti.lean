import Embassy.Util.InterruptFuture

/-!
# Waiting for a pin of the STM32

`embassy-stm32/src/exti.rs`. A pin of which the edges are detected sets its pending bit, and
holds the interrupt line as long as the bit is set and the line of the EXTI is not masked. A
wait clears the bit when it is called. When it is polled first, it makes an `InterruptFuture`,
chooses the edges, and awaits the future; a wait for a level that is there already does not.

The edges that an earlier wait has chosen are detected between the call and the first poll, and
the bit that they set completes the wait. So a wait for a rising edge may be completed by a
falling one, but it takes an edge; and after any edge the pin has been at both levels, so that
a wait for a level is never completed without it.

`trigger_edge` and `clear_pending_bit` call the HAL, and it is that of the F4 that is meant: it
sets one bit for each kind of edge, and clears the other. The L0 calls `listen_gpio`, which is
not considered here. Nor is an executor with a higher priority than the line; `InterruptFuture`
has what it does.

Main results:

* `wait_completes_after` — what a wait that has returned has seen since it was called.
* `wait_is_woken` — a wait does not stay pending when what it waits for is there.
* `wrong_edge` — a wait for a rising edge is completed by a falling one.
-/

namespace Embassy.Stm32

open Embassy.Lib Embassy.Util

inductive EdgeOption where
  | rising
  | falling
  | risingFalling
  deriving DecidableEq, Repr

/-- A change to this level is one of the edges. -/
def EdgeOption.Detects : EdgeOption → Bool → Prop
  | .rising, b => b = true
  | .falling, b => b = false
  | .risingFalling, _ => True

instance (e : EdgeOption) (b : Bool) : Decidable (e.Detects b) :=
  match e with
  | .rising => inferInstanceAs (Decidable (b = true))
  | .falling => inferInstanceAs (Decidable (b = false))
  | .risingFalling => isTrue trivial

/-- `wait_for_state` and `wait_for_edge` -/
inductive ExtiWait where
  | state (b : Bool)
  | edge (e : EdgeOption)
  deriving DecidableEq, Repr

/-- The edges that the wait chooses. -/
def ExtiWait.trigger : ExtiWait → EdgeOption
  | .state b => if b then .rising else .falling
  | .edge e => e

/-- Why the wait is left. -/
inductive Leave where
  /-- The pin is at the level. -/
  | early
  /-- The future is ready. -/
  | awaited
  /-- The wait is dropped. -/
  | dropped
  deriving DecidableEq, Repr

/-- The next step of the wait. -/
inductive ExtiPc where
  /-- There is no wait. -/
  | idle
  /-- The pending bit was cleared, and the wait was never polled. -/
  | created
  /-- `InterruptFuture::new` -/
  | new
  /-- `pin.trigger_edge` -/
  | trigger
  /-- `s.pin.is_high()`, for a wait for a level. -/
  | check
  /-- `fut.await` -/
  | awaiting
  /-- The future is dropped. -/
  | leaving (l : Leave)
  deriving DecidableEq, Repr

structure Exti (Task : Type) where
  fut : InterruptFuture Task
  pc : ExtiPc
  wait : ExtiWait
  /-- The task that polls the wait, or did so last. -/
  task : Option Task
  /-- The level of the pin, `true` for high. -/
  level : Bool
  rtsr : Bool
  ftsr : Bool
  imr : Bool
  /-- The pending bit. -/
  pr : Bool
  /-- The edges, and the levels, since the wait was called. -/
  rose : Bool
  fell : Bool
  high : Bool
  low : Bool
  /-- There was an edge of the wait since it has chosen them. -/
  hit : Bool
  /-- The latest wait has returned. -/
  returned : Bool
  deriving DecidableEq, Repr

inductive ExtiAction (Task : Type) where
  /-- A wait is called. -/
  | call (wait : ExtiWait)
  | poll (w : Task)
  | drop
  /-- The poll, or the drop, goes on. -/
  | advance
  /-- The level of the pin changes. -/
  | change
  /-- The EXTI pends its line. -/
  | fire
  | interrupt
  | handle
  deriving DecidableEq, Repr

variable {Task : Type}

namespace Exti

def init (pending installed level rtsr ftsr imr pr : Bool) (ctx : Option Task) : Exti Task where
  fut := .init false pending installed ctx
  pc := .idle
  wait := .state true
  task := none
  level := level
  rtsr := rtsr
  ftsr := ftsr
  imr := imr
  pr := pr
  rose := false
  fell := false
  high := level
  low := !level
  hit := false
  returned := false

/-- A step of the future, in the wait at `pc`. -/
def futStep [DecidableEq Task] (s : Exti Task) (pc : ExtiPc) (a : FutureAction Task) :
    Option (Exti Task) :=
  (s.fut.step a).map fun fut => { s with fut := fut, pc := pc }

/-- `pin.trigger_edge`, with the `trigger_on_edge` and `enable_interrupt` of the F4. -/
def triggerEdge (s : Exti Task) (e : EdgeOption) : Exti Task :=
  { s with
    rtsr := decide (e.Detects true)
    ftsr := decide (e.Detects false)
    imr := true
    hit := false
    pc := .check }

/-- The future of the wait is gone. -/
def left (s : Exti Task) : Leave → Exti Task
  | .early => { s with pc := .idle, returned := true }
  | .awaited => { s with pr := false, pc := .idle, returned := true }
  | .dropped => { s with pc := .idle }

def advance [DecidableEq Task] (s : Exti Task) : ExtiPc → Option (Exti Task)
  | .idle | .created => none
  | .new => if s.fut.pc = .idle then some { s with pc := .trigger } else s.futStep .new .advance
  | .trigger => some (s.triggerEdge s.wait.trigger)
  | .check =>
    if s.wait = .state s.level then s.futStep (.leaving .early) .drop
    else s.task.bind fun w => s.futStep .awaiting (.poll w)
  | .awaiting =>
    if s.fut.pc = .idle then
      if s.fut.last = some (.ready ()) then s.futStep (.leaving .awaited) .drop else none
    else s.futStep .awaiting .advance
  | .leaving l => if s.fut.pc = .none then some (s.left l) else s.futStep (.leaving l) .advance

/-- The wait was polled, and is not ready. -/
def Suspended (s : Exti Task) : Prop :=
  s.pc = .awaiting ∧ s.fut.pc = .idle ∧ s.fut.last = some .pending

instance (s : Exti Task) : Decidable s.Suspended := inferInstanceAs (Decidable (_ ∧ _ ∧ _))

/-- The pin changes to the level `b`. -/
def change (s : Exti Task) (b : Bool) : Exti Task :=
  { s with
    level := b
    pr := s.pr || (if b then s.rtsr else s.ftsr)
    rose := s.rose || b
    fell := s.fell || !b
    high := s.high || b
    low := s.low || !b
    hit := s.hit || decide (s.wait.trigger.Detects b) }

def step [DecidableEq Task] (s : Exti Task) : ExtiAction Task → Option (Exti Task)
  | .call wait =>
    if s.pc = .idle then
      some { s with
        pc := .created
        wait := wait
        pr := false
        rose := false
        fell := false
        high := s.level
        low := !s.level
        returned := false }
    else none
  | .poll w =>
    if s.pc = .created then ({ s with task := some w } : Exti Task).futStep .new .new
    else if s.Suspended then ({ s with task := some w } : Exti Task).futStep .awaiting (.poll w)
    else none
  | .drop =>
    if s.pc = .created then some { s with pc := .idle }
    else if s.Suspended then s.futStep (.leaving .dropped) .drop
    else none
  | .advance => s.advance s.pc
  | .change => some (s.change !s.level)
  | .fire => if s.pr ∧ s.imr then s.futStep s.pc .fire else none
  | .interrupt => s.futStep s.pc .interrupt
  | .handle => s.futStep s.pc .handle

/-- The wait is not polled or dropped in the middle of the handler. -/
def Lower (s : Exti Task) : ExtiAction Task → Prop
  | .poll _ | .drop | .advance => s.fut.handler = .out
  | _ => True

instance [DecidableEq Task] (s : Exti Task) : DecidablePred s.Lower := fun a =>
  match a with
  | .poll _ | .drop | .advance => inferInstanceAs (Decidable (_ = _))
  | .call _ | .change | .fire | .interrupt | .handle => isTrue trivial

/-- There was an edge since the wait was called. -/
def Edge (s : Exti Task) : Prop := s.rose = true ∨ s.fell = true

/-- The pin has been at this level since the wait was called. -/
def been (s : Exti Task) (b : Bool) : Bool := if b then s.high else s.low

/-- What a wait that returns has seen. -/
def Done (s : Exti Task) : Prop :=
  match s.wait with
  | .state b => s.been b = true
  | .edge _ => s.Edge

/-- What the wait waits for is there. -/
def Due (s : Exti Task) : Prop :=
  match s.wait with
  | .state b => s.level = b
  | .edge _ => s.hit = true

instance (s : Exti Task) : Decidable s.Due :=
  match hWait : s.wait with
  | .state b => decidable_of_iff (s.level = b) (by unfold Due; rw [hWait])
  | .edge _ => decidable_of_iff (s.hit = true) (by unfold Due; rw [hWait])

-- ---------------------------------------------------------------------------
-- The line
-- ---------------------------------------------------------------------------

/-- Without a future the line is disabled. -/
def Down (fut : InterruptFuture Task) : Prop := fut.enabled = false ∧ fut.handler = .out

/-- With a future, nothing comes through the line but what `edge` says. -/
structure Up (edge : Prop) (fut : InterruptFuture Task) : Prop where
  installed : fut.installed = true
  enabled : fut.enabled = true ∨ fut.finished = true
  pending : fut.pending = true → edge
  handler : fut.handler ≠ .out → edge
  finished : fut.finished = true → edge
  ready : fut.last = some (.ready ()) → edge

/-- `InterruptFuture::new` is under way. -/
def Building (edge : Prop) (fut : InterruptFuture Task) : Prop :=
  Down fut ∧ match fut.pc with
    | .disable | .setHandler => True
    | .setContext | .unpend => fut.installed = true
    | .enable => fut.installed = true ∧ (fut.pending = true → edge)
    | _ => False

/-- Where the future is, in a wait at this step. -/
def Phase (edge : Prop) (fut : InterruptFuture Task) : ExtiPc → Prop
  | .idle | .created => fut.pc = .none ∧ Down fut
  | .new => Building edge fut ∨ fut.pc = .idle ∧ Up edge fut
  | .trigger | .check => fut.pc = .idle ∧ Up edge fut
  | .awaiting => (fut.pc = .idle ∨ fut.pc = .store ∨ fut.pc = .isEnabled) ∧ Up edge fut
  | .leaving _ =>
    fut.pc = .dropDisable ∧ Up edge fut ∨ (fut.pc = .removeHandler ∨ fut.pc = .none) ∧ Down fut

variable {edge edge' : Prop} {fut fut' : InterruptFuture Task} {pc : ExtiPc}

/-- A line that is up is so all the more when more counts as an edge. -/
theorem Up.mono (hUp : Up edge fut) (hEdge : edge → edge') : Up edge' fut :=
  ⟨hUp.installed, hUp.enabled, fun h => hEdge (hUp.pending h), fun h => hEdge (hUp.handler h),
    fun h => hEdge (hUp.finished h), fun h => hEdge (hUp.ready h)⟩

/-- The same line, for a future that goes on. -/
theorem Up.goes_on (hUp : Up edge fut) (hInstalled : fut'.installed = fut.installed)
    (hEnabled : fut'.enabled = fut.enabled) (hPending : fut'.pending = fut.pending)
    (hHandler : fut'.handler = fut.handler) (hFinished : fut'.finished = fut.finished)
    (hReady : fut'.last = some (.ready ()) → edge) : Up edge fut' where
  installed := hInstalled.trans hUp.installed
  enabled := hUp.enabled.imp hEnabled.trans hFinished.trans
  pending := fun h => hUp.pending (hPending.symm.trans h)
  handler := fun h => hUp.handler (hHandler ▸ h)
  finished := fun h => hUp.finished (hFinished.symm.trans h)
  ready := hReady

/-- The same of a future that is being built. -/
theorem Building.mono (hBuilding : Building edge fut) (hEdge : edge → edge') :
    Building edge' fut := by
  obtain ⟨hDown, hPc⟩ := hBuilding
  refine ⟨hDown, ?_⟩
  cases hFut : fut.pc with
  | enable =>
    rw [hFut] at hPc
    exact ⟨hPc.1, fun h => hEdge (hPc.2 h)⟩
  | none | disable | setHandler | setContext | unpend | idle | store | isEnabled
  | dropDisable | removeHandler =>
    rw [hFut] at hPc
    exact hPc

/-- The same of every phase of a wait. -/
theorem Phase.mono (hPhase : Phase edge fut pc) (hEdge : edge → edge') : Phase edge' fut pc := by
  cases pc with
  | idle | created => exact hPhase
  | new => exact hPhase.imp (fun h => h.mono hEdge) fun h => ⟨h.1, h.2.mono hEdge⟩
  | trigger | check | awaiting => exact ⟨hPhase.1, hPhase.2.mono hEdge⟩
  | leaving => exact hPhase.imp (fun h => ⟨h.1, h.2.mono hEdge⟩) id

/-- A step of the line leaves the future where it is. -/
theorem Phase.line (hPhase : Phase edge fut pc) (hPc : fut'.pc = fut.pc)
    (hDown : Down fut → Down fut' ∧ fut'.installed = fut.installed ∧
      (pc ≠ .idle → fut'.pending = true → fut.pending = true ∨ edge))
    (hUp : pc ≠ .idle → Up edge fut → Up edge fut') : Phase edge fut' pc := by
  -- where the wait stands says whether the future is being built, is up or is gone
  cases pc with
  | idle | created => exact ⟨hPc.trans hPhase.1, (hDown hPhase.2).1⟩
  | new =>
    rcases hPhase with ⟨hOff, hBuilding⟩ | ⟨hIdle, hOn⟩
    · -- still building: the line is masked, so only an edge can pend it
      obtain ⟨hOff', hInstalled, hPending⟩ := hDown hOff
      refine .inl ⟨hOff', ?_⟩
      rw [hPc, hInstalled]
      cases hFut : fut.pc with
      | enable =>
        rw [hFut] at hBuilding
        exact ⟨hBuilding.1, fun h => (hPending (nomatch ·) h).elim hBuilding.2 id⟩
      | none | disable | setHandler | setContext | unpend | idle | store | isEnabled
      | dropDisable | removeHandler =>
        rw [hFut] at hBuilding
        exact hBuilding
    · exact .inr ⟨hPc.trans hIdle, hUp (nomatch ·) hOn⟩
  | trigger | check => exact ⟨hPc.trans hPhase.1, hUp (nomatch ·) hPhase.2⟩
  | awaiting => exact ⟨by rw [hPc]; exact hPhase.1, hUp (nomatch ·) hPhase.2⟩
  | leaving l =>
    refine hPhase.imp (fun h => ⟨hPc.trans h.1, hUp (nomatch ·) h.2⟩) fun h => ?_
    exact ⟨by rw [hPc]; exact h.1, (hDown h.2).1⟩

/-- The line pends its interrupt, by an edge if a wait is under way. -/
theorem Phase.fire (hPhase : Phase edge fut pc) (hEdge : pc ≠ .idle → edge) :
    Phase edge { fut with pending := true } pc :=
  hPhase.line rfl (fun hDown => ⟨hDown, rfl, fun hPc _ => .inr (hEdge hPc)⟩) fun hPc hUp =>
    ⟨hUp.installed, hUp.enabled, fun _ => hEdge hPc, hUp.handler, hUp.finished, hUp.ready⟩

section Line

variable [DecidableEq Task]

/-- The line fires only for a future, and if it is pending. -/
theorem Phase.interrupt (hPhase : Phase edge fut pc)
    (hs : fut.step .interrupt = some fut') : Phase edge fut' pc := by
  obtain ⟨⟨hOn, hPending, -⟩, hs⟩ := Option.ite_none_right_eq_some.mp hs
  cases hs
  exact hPhase.line rfl (fun hDown => nomatch hDown.1.symm.trans hOn) fun _ hUp =>
    ⟨hUp.installed, hUp.enabled, (nomatch ·), fun _ => hUp.pending hPending, hUp.finished,
      hUp.ready⟩

/-- The handler leaves the wait in its phase. -/
theorem Phase.handle (hPhase : Phase edge fut pc) (hs : fut.step .handle = some fut') :
    Phase edge fut' pc := by
  have hs : fut.handle fut.handler = some fut' := hs
  cases hHandler : fut.handler with
  | out =>
    rw [hHandler] at hs
    cases hs
  | wake ctx =>
    rw [hHandler] at hs
    cases hs
    have hActive : fut.handler ≠ .out := by rw [hHandler]; exact nofun
    exact hPhase.line rfl (fun hDown => absurd hDown.2 hActive) fun _ hUp =>
      ⟨hUp.installed, hUp.enabled, hUp.pending, fun _ => hUp.handler hActive, hUp.finished,
        hUp.ready⟩
  | mask =>
    rw [hHandler] at hs
    cases hs
    have hActive : fut.handler ≠ .out := by rw [hHandler]; exact nofun
    exact hPhase.line rfl (fun hDown => absurd hDown.2 hActive) fun _ hUp =>
      ⟨hUp.installed, .inr rfl, hUp.pending, fun h => absurd rfl h, fun _ => hUp.handler hActive,
        hUp.ready⟩

/-- `InterruptFuture::new` goes on, and ends with the line enabled. -/
theorem Building.advance (hBuilding : Building edge fut) (hs : fut.step .advance = some fut') :
    Building edge fut' ∨ fut'.pc = .idle ∧ Up edge fut' := by
  obtain ⟨⟨hOff, hOut⟩, hPc⟩ := hBuilding
  have hs : fut.advance fut.pc = some fut' := hs
  -- `disable`, `set_handler`, the context, `unpend`, `enable`, in this order
  cases hFut : fut.pc with
  | none | idle | store | isEnabled | dropDisable | removeHandler =>
    rw [hFut] at hPc
    exact hPc.elim
  | disable =>
    rw [hFut] at hs
    cases hs
    exact .inl ⟨⟨rfl, hOut⟩, trivial⟩
  | setHandler =>
    rw [hFut] at hs
    cases hs
    exact .inl ⟨⟨hOff, hOut⟩, rfl⟩
  | setContext =>
    rw [hFut] at hs hPc
    cases hs
    exact .inl ⟨⟨hOff, hOut⟩, hPc⟩
  | unpend =>
    rw [hFut] at hs hPc
    cases hs
    exact .inl ⟨⟨hOff, hOut⟩, hPc, (nomatch ·)⟩
  | enable =>
    rw [hFut] at hs hPc
    cases hs
    -- the line is enabled with its handler and nothing pending
    exact .inr ⟨rfl, hPc.1, .inl rfl, hPc.2, fun h => absurd hOut h, (nomatch ·), (nomatch ·)⟩

/-- The future is polled, and is ready only after an edge. -/
theorem Up.advance (hUp : Up edge fut) (hFut : fut.pc = .store ∨ fut.pc = .isEnabled)
    (hs : fut.step .advance = some fut') :
    (fut'.pc = .idle ∨ fut'.pc = .store ∨ fut'.pc = .isEnabled) ∧ Up edge fut' := by
  have hs : fut.advance fut.pc = some fut' := hs
  rcases hFut with hFut | hFut
  · rw [hFut] at hs
    cases hs
    exact ⟨.inr (.inr rfl), hUp.goes_on rfl rfl rfl rfl rfl hUp.ready⟩
  · rw [hFut] at hs
    cases hs
    refine ⟨.inl rfl, hUp.goes_on rfl rfl rfl rfl rfl fun hReady => ?_⟩
    have hReady : some (if fut.enabled then Poll.pending else .ready ()) = some (.ready ()) :=
      hReady
    refine hUp.finished (hUp.enabled.resolve_left fun hOn => ?_)
    rw [hOn] at hReady
    cases hReady

/-- The future is dropped. -/
theorem Phase.leave {l : Leave} (hPhase : Phase edge fut (.leaving l)) (hOut : fut.handler = .out)
    (hs : fut.step .advance = some fut') : Phase edge fut' (.leaving l) := by
  have hs : fut.advance fut.pc = some fut' := hs
  rcases hPhase with ⟨hFut, -⟩ | ⟨hFut | hFut, hDown⟩
  · rw [hFut] at hs
    cases hs
    exact .inr ⟨.inl rfl, rfl, hOut⟩
  · rw [hFut] at hs
    cases hs
    exact .inr ⟨.inr rfl, hDown⟩
  · rw [hFut] at hs
    cases hs

end Line

-- ---------------------------------------------------------------------------
-- The wait
-- ---------------------------------------------------------------------------

/-- The edges of the wait are chosen. -/
def Armed (s : Exti Task) : Prop :=
  s.imr = true ∧ s.rtsr = decide (s.wait.trigger.Detects true) ∧
    s.ftsr = decide (s.wait.trigger.Detects false)

structure Inv (s : Exti Task) : Prop where
  fut : s.fut.FutureInv
  phase : Phase s.Edge s.fut s.pc
  seen : s.been s.level = true
  /-- After an edge the pin has been at both levels. -/
  both : s.Edge → ∀ b, s.been b = true
  detected : s.pc ≠ .idle → s.pr = true → s.Edge
  left : ∀ l, s.pc = .leaving l → l ≠ .dropped → s.Done
  returned : s.returned = true → s.Done
  armed : s.pc = .check ∨ s.pc = .awaiting → s.Armed
  chosen : s.pc = .check → s.hit = true → s.pr = true
  due : s.pc = .awaiting → s.Due → s.pr = true

/-- Without a wait nothing is asked of the line. -/
theorem inv_init (pending installed level rtsr ftsr imr pr : Bool) (ctx : Option Task) :
    (init pending installed level rtsr ftsr imr pr ctx).Inv := by
  constructor
  case fut => exact InterruptFuture.futureInv_init false pending installed ctx
  case phase => exact ⟨rfl, rfl, rfl⟩
  case seen => cases level <;> rfl
  case both => exact fun h => h.elim (nomatch ·) (nomatch ·)
  case detected => exact fun h => absurd rfl h
  case left => exact fun _ h => nomatch h
  case returned => exact fun h => nomatch h
  case armed => exact fun h => h.elim (nomatch ·) (nomatch ·)
  case chosen => exact fun h => nomatch h
  case due => exact fun h => nomatch h

variable {s s' : Exti Task}

/-- The wait goes on, and the pin stays as it is. -/
theorem Inv.move (hI : s.Inv) (task : Option Task) (hFut : fut.FutureInv)
    (hPhase : Phase s.Edge fut pc) (hPc : pc ≠ .idle → s.pc ≠ .idle)
    (hLeft : ∀ l, pc = .leaving l → l ≠ .dropped → s.Done)
    (hArmed : pc = .check ∨ pc = .awaiting → s.Armed)
    (hChosen : pc = .check → s.hit = true → s.pr = true)
    (hDue : pc = .awaiting → s.Due → s.pr = true) :
    Inv { s with fut := fut, pc := pc, task := task } :=
  ⟨hFut, hPhase, hI.seen, hI.both, fun h => hI.detected (hPc h), hLeft, hI.returned, hArmed,
    hChosen, hDue⟩

/-- The wait stays where it is, at a step of the line. -/
theorem Inv.line (hI : s.Inv) (hFut : fut.FutureInv) (hPhase : Phase s.Edge fut s.pc) :
    Inv { s with fut := fut } :=
  hI.move s.task hFut hPhase id hI.left hI.armed hI.chosen hI.due

/-- A change of the level is an edge. -/
theorem edge_change (s : Exti Task) (b : Bool) : (s.change b).Edge := by
  cases b with
  | true => exact .inl (Bool.or_true _)
  | false => exact .inr (Bool.or_true _)

/-- An edge that is chosen sets the pending bit. -/
theorem pr_change {b : Bool} (hArmed : s.Armed)
    (h : s.pr = true ∨ s.wait.trigger.Detects b) : (s.change b).pr = true := by
  show (s.pr || if b then s.rtsr else s.ftsr) = true
  rcases h with hPr | hDetects
  · rw [hPr]
    rfl
  · have hChosen : (if b then s.rtsr else s.ftsr) = true := by
      cases b with
      | true => exact hArmed.2.1.trans (decide_eq_true hDetects)
      | false => exact hArmed.2.2.trans (decide_eq_true hDetects)
    rw [hChosen, Bool.or_true]

/-- The pin changes, and the line fires if the edge is enabled. -/
theorem Inv.change (hI : s.Inv) : (s.change !s.level).Inv := by
  -- after a change the pin has had both levels
  have hBoth (b : Bool) : (s.change !s.level).been b = true := by
    have hSeen := hI.seen
    cases hLevel : s.level <;> rw [hLevel] at hSeen <;> cases b <;>
      simp_all [been, Exti.change]
  have hEdge := edge_change s !s.level
  have hDone : (s.change !s.level).Done := by
    show match s.wait with
      | .state b => (s.change !s.level).been b = true
      | .edge _ => (s.change !s.level).Edge
    cases s.wait with
    | state b => exact hBoth b
    | edge => exact hEdge
  -- what the detector sees now it saw before, or the change is of the chosen kind
  have hHit (h : (s.change !s.level).hit = true) :
      s.hit = true ∨ s.wait.trigger.Detects (!s.level) :=
    (Bool.or_eq_true_iff.mp h).imp id of_decide_eq_true
  refine ⟨hI.fut, hI.phase.mono fun _ => hEdge, hBoth _, fun _ => hBoth, fun _ _ => hEdge,
    fun _ _ _ => hDone, fun _ => hDone, hI.armed, fun hPc hAny => ?_, fun hPc hDue => ?_⟩
  · exact pr_change (hI.armed (.inl hPc)) ((hHit hAny).imp (hI.chosen hPc) id)
  · -- a wait that is due has its pending bit set
    refine pr_change (hI.armed (.inr hPc)) ?_
    have hBefore := hI.due hPc
    unfold Due at hDue hBefore
    cases hWait : s.wait with
    | state b =>
      rw [show (s.change !s.level).wait = _ from hWait] at hDue
      have hLevel : (!s.level) = b := hDue
      right
      rw [hLevel]
      cases b <;> rfl
    | edge e =>
      rw [show (s.change !s.level).wait = _ from hWait] at hDue
      rw [hWait] at hBefore
      have := hHit hDue
      rw [hWait] at this
      exact this.imp hBefore id

/-- A call of a wait clears the pending bit, and the pin is watched from then on. -/
theorem Inv.call (hI : s.Inv) (hPc : s.pc = .idle) (wait : ExtiWait) :
    Inv { s with
      pc := .created
      wait := wait
      pr := false
      rose := false
      fell := false
      high := s.level
      low := !s.level
      returned := false } := by
  have hPhase := hI.phase
  rw [hPc] at hPhase
  refine ⟨hI.fut, hPhase, ?_, fun h => h.elim (nomatch ·) (nomatch ·), fun _ h => (nomatch h),
    fun _ h => (nomatch h), (nomatch ·), fun h => h.elim (nomatch ·) (nomatch ·), (nomatch ·),
    (nomatch ·)⟩
  show (if s.level then s.level else !s.level) = true
  cases s.level <;> rfl

/-- The edges are chosen: from now on they are detected. -/
theorem Inv.trigger (hI : s.Inv) (hPc : s.pc = .trigger) :
    (s.triggerEdge s.wait.trigger).Inv := by
  have hPhase := hI.phase
  rw [hPc] at hPhase
  exact ⟨hI.fut, hPhase, hI.seen, hI.both, fun _ => hI.detected (by rw [hPc]; nofun),
    fun _ h => (nomatch h), hI.returned, fun _ => ⟨rfl, rfl, rfl⟩, fun _ h => (nomatch h),
    (nomatch ·)⟩

/-- The future is gone. -/
theorem Inv.gone (hI : s.Inv) {l : Leave} (hPc : s.pc = .leaving l) (hFut : s.fut.pc = .none) :
    (s.left l).Inv := by
  have hPhase : s.fut.pc = .none ∧ Down s.fut := by
    have hPhase := hI.phase
    rw [hPc] at hPhase
    rcases hPhase with ⟨hDrop, -⟩ | ⟨-, hDown⟩
    · cases hFut.symm.trans hDrop
    · exact ⟨hFut, hDown⟩
  have hDone := hI.left l hPc
  cases l with
  | early | awaited =>
    exact ⟨hI.fut, hPhase, hI.seen, hI.both, fun h => absurd rfl h, fun _ h => (nomatch h),
      fun _ => hDone nofun, fun h => h.elim (nomatch ·) (nomatch ·), (nomatch ·), (nomatch ·)⟩
  | dropped =>
    exact ⟨hI.fut, hPhase, hI.seen, hI.both, fun h => absurd rfl h, fun _ h => (nomatch h),
      hI.returned, fun h => h.elim (nomatch ·) (nomatch ·), (nomatch ·), (nomatch ·)⟩

/-- Outside of the handler every step is in time. -/
theorem timely_of_out {a : FutureAction Task} (hOut : fut.handler = .out) : fut.Timely a :=
  fun _ _ => ⟨by rw [hOut]; nofun, fun ctx h => nomatch hOut.symm.trans h⟩

/-- Where the future is idle, it is polled or dropped. -/
theorem Inv.up (hI : s.Inv) (hFut : s.fut.pc = .idle) : Up s.Edge s.fut := by
  have hPhase := hI.phase
  unfold Phase at hPhase
  split at hPhase
  · cases hFut.symm.trans hPhase.1
  · cases hFut.symm.trans hPhase.1
  · rcases hPhase with ⟨-, hBuilding⟩ | ⟨-, hUp⟩
    · rw [hFut] at hBuilding
      exact hBuilding.elim
    · exact hUp
  · exact hPhase.2
  · exact hPhase.2
  · exact hPhase.2
  · rcases hPhase with ⟨hDrop, -⟩ | ⟨hGone | hGone, -⟩
    · cases hFut.symm.trans hDrop
    · cases hFut.symm.trans hGone
    · cases hFut.symm.trans hGone

/-- What the wait is ready for has come. -/
theorem Inv.done (hI : s.Inv) (hEdge : s.Edge) : s.Done := by
  unfold Done
  cases s.wait with
  | state b => exact hI.both hEdge b
  | edge => exact hEdge

section Steps

variable [DecidableEq Task]

theorem futStep_eq_some {a : FutureAction Task} (hs : s.futStep pc a = some s') :
    ∃ fut, s.fut.step a = some fut ∧ s' = { s with fut := fut, pc := pc } := by
  obtain ⟨fut, hFut, rfl⟩ := Option.map_eq_some_iff.mp hs
  exact ⟨fut, hFut, rfl⟩

/-- The future is awaited. -/
theorem Inv.await {w : Task} (hI : s.Inv) (task : Option Task) (hOut : s.fut.handler = .out)
    (hPc : s.pc = .check ∨ s.pc = .awaiting) (hDue : s.Due → s.pr = true)
    (hs : s.fut.step (.poll w) = some fut) :
    Inv { s with fut := fut, pc := .awaiting, task := task } := by
  have hFutInv := InterruptFuture.futureInv_step hI.fut (timely_of_out hOut) hs
  obtain ⟨hFut, hs⟩ := Option.ite_none_right_eq_some.mp hs
  cases hs
  have hUp := hI.up hFut
  refine hI.move task hFutInv ⟨.inr (.inl rfl), hUp.goes_on rfl rfl rfl rfl rfl hUp.ready⟩
    (fun _ => ?_) (fun _ h => (nomatch h)) (fun _ => hI.armed hPc) (nomatch ·) fun _ => hDue
  rcases hPc with hPc | hPc <;> rw [hPc] <;> nofun

/-- The future is dropped. -/
theorem Inv.drop {l : Leave} (hI : s.Inv) (hOut : s.fut.handler = .out) (hPc : s.pc ≠ .idle)
    (hDone : l ≠ .dropped → s.Done) (hs : s.futStep (.leaving l) .drop = some s') : s'.Inv := by
  obtain ⟨fut, hStep, rfl⟩ := futStep_eq_some hs
  have hFutInv := InterruptFuture.futureInv_step hI.fut (timely_of_out hOut) hStep
  obtain ⟨hFut, hStep⟩ := Option.ite_none_right_eq_some.mp hStep
  cases hStep
  have hUp := hI.up hFut
  refine hI.move s.task hFutInv
    (.inl ⟨rfl, hUp.goes_on rfl rfl rfl rfl rfl hUp.ready⟩) (fun _ => hPc) (fun l' h => ?_)
    (fun h => h.elim (nomatch ·) (nomatch ·)) (nomatch ·) (nomatch ·)
  cases h
  exact hDone

/-- The steps of a wait, one by one. -/
theorem Inv.advance (hI : s.Inv) (hOut : s.fut.handler = .out)
    (hs : s.advance s.pc = some s') : s'.Inv := by
  have hPhase := hI.phase
  -- no handler runs, so a step of the future keeps its invariant
  have hNext {fut' : InterruptFuture Task} (hStep : s.fut.step .advance = some fut') :
      fut'.FutureInv := InterruptFuture.futureInv_step hI.fut (timely_of_out hOut) hStep
  cases hPc : s.pc with
  | idle | created =>
    rw [hPc] at hs
    cases hs
  | new =>
    rw [hPc] at hs hPhase
    have hNew : s.pc ≠ .idle := by rw [hPc]; nofun
    rcases ite_eq_iff.mp hs with ⟨hFut, hs⟩ | ⟨hFut, hs⟩
    · cases hs
      exact hI.move s.task hI.fut ⟨hFut, hI.up hFut⟩ (fun _ => hNew)
        (fun _ h => (nomatch h)) (fun h => h.elim (nomatch ·) (nomatch ·)) (nomatch ·) (nomatch ·)
    · obtain ⟨fut, hStep, rfl⟩ := futStep_eq_some hs
      have hBuilding := hPhase.resolve_right fun h => hFut h.1
      exact hI.move s.task (hNext hStep) (hBuilding.advance hStep) (fun _ => hNew)
        (fun _ h => (nomatch h)) (fun h => h.elim (nomatch ·) (nomatch ·)) (nomatch ·) (nomatch ·)
  | trigger =>
    rw [hPc] at hs
    cases hs
    exact hI.trigger hPc
  | check =>
    rw [hPc] at hs
    rcases ite_eq_iff.mp hs with ⟨hWait, hs⟩ | ⟨hWait, hs⟩
    · -- the level is there already: the wait ends without an interrupt
      refine hI.drop hOut (by rw [hPc]; nofun) (fun _ => ?_) hs
      rw [Done, hWait]
      exact hI.seen
    · obtain ⟨w, -, hs⟩ := Option.bind_eq_some_iff.mp hs
      obtain ⟨fut, hStep, rfl⟩ := futStep_eq_some hs
      -- otherwise the trigger was chosen before the level was read, and nothing is missed
      refine hI.await s.task hOut (.inl hPc) (fun hDue => ?_) hStep
      unfold Due at hDue
      cases hKind : s.wait with
      | state b =>
        rw [hKind] at hDue
        exact absurd (by rw [hKind, hDue]) hWait
      | edge e =>
        rw [hKind] at hDue
        exact hI.chosen hPc hDue
  | awaiting =>
    rw [hPc] at hs hPhase
    have hNot : s.pc ≠ .idle := by rw [hPc]; nofun
    rcases ite_eq_iff.mp hs with ⟨hFut, hs⟩ | ⟨hFut, hs⟩
    · obtain ⟨hReady, hs⟩ := Option.ite_none_right_eq_some.mp hs
      -- the interrupt future is ready: the line has fired since the wait was armed
      exact hI.drop hOut hNot (fun _ => hI.done ((hI.up hFut).ready hReady)) hs
    · obtain ⟨fut, hStep, rfl⟩ := futStep_eq_some hs
      have hGoesOn := hPhase.2.advance (hPhase.1.resolve_left hFut) hStep
      exact hI.move s.task (hNext hStep) hGoesOn (fun _ => hNot)
        (fun _ h => (nomatch h)) (fun _ => hI.armed (.inr hPc)) (nomatch ·) fun _ => hI.due hPc
  -- the drop disables the line and removes the handler
  | leaving l =>
    rw [hPc] at hs hPhase
    rcases ite_eq_iff.mp hs with ⟨hFut, hs⟩ | ⟨-, hs⟩
    · cases hs
      exact hI.gone hPc hFut
    · obtain ⟨fut, hStep, rfl⟩ := futStep_eq_some hs
      refine hI.move s.task (hNext hStep) (hPhase.leave hOut hStep)
        (fun _ => by rw [hPc]; nofun) (fun l' h => ?_) (fun h => h.elim (nomatch ·) (nomatch ·))
        (nomatch ·) (nomatch ·)
      cases h
      exact hI.left l hPc

/-- Every step keeps the invariant, if no wait is polled or dropped in the middle of the handler. -/
theorem inv_step {a : ExtiAction Task} (hI : s.Inv) (hLower : s.Lower a)
    (hs : s.step a = some s') : s'.Inv := by
  cases a with
  | call wait =>
    obtain ⟨hPc, hs⟩ := Option.ite_none_right_eq_some.mp hs
    cases hs
    exact hI.call hPc wait
  | poll w =>
    rcases ite_eq_iff.mp hs with ⟨hPc, hs⟩ | ⟨-, hs⟩
    · obtain ⟨fut, hStep, rfl⟩ := futStep_eq_some hs
      have hFutInv := InterruptFuture.futureInv_step hI.fut (timely_of_out hLower) hStep
      -- the first poll builds the interrupt future
      obtain ⟨-, hStep⟩ := Option.ite_none_right_eq_some.mp hStep
      cases hStep
      have hPhase := hI.phase
      rw [hPc] at hPhase
      exact hI.move (some w) hFutInv (.inl ⟨hPhase.2, trivial⟩)
        (fun _ => by rw [hPc]; nofun) (fun _ h => (nomatch h))
        (fun h => h.elim (nomatch ·) (nomatch ·)) (nomatch ·) (nomatch ·)
    · obtain ⟨⟨hPc, -⟩, hs⟩ := Option.ite_none_right_eq_some.mp hs
      obtain ⟨fut, hStep, rfl⟩ := futStep_eq_some hs
      exact hI.await (some w) hLower (.inr hPc) (hI.due hPc) hStep
  | drop =>
    rcases ite_eq_iff.mp hs with ⟨hPc, hs⟩ | ⟨-, hs⟩
    · cases hs
      have hPhase := hI.phase
      rw [hPc] at hPhase
      -- dropped before its first poll: nothing to undo
      exact hI.move s.task hI.fut hPhase (fun h => absurd rfl h)
        (fun _ h => (nomatch h)) (fun h => h.elim (nomatch ·) (nomatch ·)) (nomatch ·) (nomatch ·)
    · obtain ⟨⟨hPc, -⟩, hs⟩ := Option.ite_none_right_eq_some.mp hs
      exact hI.drop hLower (by rw [hPc]; nofun) (fun h => absurd rfl h) hs
  | advance => exact hI.advance hLower hs
  | change =>
    cases hs
    exact hI.change
  -- the line is pended only while its pending bit is set
  | fire =>
    obtain ⟨⟨hPr, -⟩, hs⟩ := Option.ite_none_right_eq_some.mp hs
    obtain ⟨fut, hStep, rfl⟩ := futStep_eq_some hs
    cases hStep
    exact hI.line (InterruptFuture.futureInv_step hI.fut (a := .fire) (nomatch ·) rfl)
      (hI.phase.fire fun hPc => hI.detected hPc hPr)
  | interrupt =>
    obtain ⟨fut, hStep, rfl⟩ := futStep_eq_some hs
    have hFut := InterruptFuture.futureInv_step (a := .interrupt) hI.fut (nomatch ·) hStep
    exact hI.line hFut (hI.phase.interrupt hStep)
  | handle =>
    obtain ⟨fut, hStep, rfl⟩ := futStep_eq_some hs
    have hFut := InterruptFuture.futureInv_step (a := .handle) hI.fut (nomatch ·) hStep
    exact hI.line hFut (hI.phase.handle hStep)

theorem inv_of_run {pending installed level rtsr ftsr imr pr : Bool} {ctx : Option Task}
    (hRun : Run step Lower (init pending installed level rtsr ftsr imr pr ctx) s) : s.Inv :=
  hRun.invariant (I := Inv) (inv_init pending installed level rtsr ftsr imr pr ctx)
    fun _ _ _ hI hLower hs => inv_step hI hLower hs

-- ---------------------------------------------------------------------------
-- Completion
-- ---------------------------------------------------------------------------

/-- **A wait completes only after what it waits for**, whatever was pending when it was called:
the pin has been at the level since then, or there was an edge, if not always the right one. -/
theorem wait_completes_after {pending installed level rtsr ftsr imr pr : Bool}
    {ctx : Option Task}
    (hRun : Run step Lower (init pending installed level rtsr ftsr imr pr ctx) s)
    (hReturned : s.returned = true) : s.Done :=
  (inv_of_run hRun).returned hReturned

/-- The line is pending from before, and so is the bit. The pin rises for the first wait; the
second one, for the low level, finds it at once. -/
theorem wait_completes_after_second : ∃ s : Exti Nat,
    Run step Lower (init true false false false false true true none) s ∧
      s.wait = .state false ∧ s.returned = true ∧ s.Done := by
  have hRun : Run step Lower (init true false false false false true true none : Exti Nat) _ :=
    Run.execOk_get _ [.call (.edge .rising), .poll 7, .advance, .advance, .advance, .advance,
      .advance, .advance, .advance, .advance, .advance, .advance, .change, .fire, .interrupt,
      .handle, .handle, .poll 7, .advance, .advance, .advance, .advance, .advance, .advance,
      .change, .call (.state false), .poll 8, .advance, .advance, .advance, .advance, .advance,
      .advance, .advance, .advance, .advance, .advance, .advance] (by decide +kernel)
  exact ⟨_, hRun, by decide +kernel, by decide +kernel,
    wait_completes_after hRun (by decide +kernel)⟩

/-- The edges of an earlier wait are detected until the first poll, and an edge of the other
kind completes the wait. -/
theorem wrong_edge : ¬∀ s : Exti Nat,
    Run step Lower (init false false true false false false false none) s →
      s.returned = true → s.wait = .edge .rising → s.rose = true := by
  intro hAll
  obtain ⟨s, hRun, hReturned, hWait, hRose⟩ : ∃ s : Exti Nat,
      Run step Lower (init false false true false false false false none) s ∧
        s.returned = true ∧ s.wait = .edge .rising ∧ s.rose = false := by
    have hRun : Run step Lower (init false false true false false false false none : Exti Nat) _ :=
      Run.execOk_get _ [.call (.edge .falling), .poll 7, .advance, .advance, .advance, .advance,
        .advance, .advance, .advance, .advance, .advance, .advance, .drop, .advance, .advance,
        .advance, .call (.edge .rising), .change, .poll 7, .advance, .advance, .advance, .advance,
        .advance, .advance, .advance, .advance, .advance, .advance, .fire, .interrupt, .handle,
        .handle, .poll 7, .advance, .advance, .advance, .advance, .advance, .advance]
        (by decide +kernel)
    exact ⟨_, hRun, by decide +kernel, by decide +kernel, by decide +kernel⟩
  exact nomatch hRose.symm.trans (hAll s hRun hReturned hWait)

-- ---------------------------------------------------------------------------
-- Wake ups
-- ---------------------------------------------------------------------------

/-- The line is pended and the interrupt entered, if it is not yet, and the handler does its
first step: the task that waits is woken. -/
def WokenNext (s : Exti Task) : Prop :=
  ∃ u v, (u = s ∨ ∃ t, s.step .fire = some t ∧ t.step .interrupt = some u) ∧
    u.step .handle = some v ∧ v.fut.woken = true ∧ v.fut.task = s.fut.task ∧ v.Suspended

/-- A wait that is due was woken, or the next steps of the interrupt wake it. -/
theorem Inv.wokenNext (hI : s.Inv) (hSuspended : s.Suspended) (hDue : s.Due) :
    s.fut.woken = true ∨ s.WokenNext := by
  obtain ⟨hPc, hIdle, hLast⟩ := hSuspended
  have hStored : s.fut.Stored := .inr ⟨hIdle, by rw [hLast]; nofun⟩
  have hTask : s.fut.task ≠ none := hI.fut.polled (.inr hStored)
  -- waking the task stored wakes the one that waits
  have hWakes (old : Bool) :
      (old || decide (s.fut.task ≠ none ∧ s.fut.task = s.fut.task)) = true := by
    rw [decide_eq_true ⟨hTask, rfl⟩, Bool.or_true]
  have hUp := hI.up hIdle
  -- the handler has woken it, is about to, or still has to be entered
  cases hHandler : s.fut.handler with
  | mask => exact .inl (hI.fut.waked hStored hHandler)
  | wake ctx =>
    right
    cases hI.fut.loaded hStored ctx hHandler
    have hHandle : s.step .handle = some { s with fut := { s.fut with
        woken := s.fut.woken || decide (s.fut.task ≠ none ∧ s.fut.task = s.fut.task)
        handler := .mask } } := by
      rw [step, futStep, InterruptFuture.step, hHandler]
      rfl
    exact ⟨s, _, .inl rfl, hHandle, hWakes s.fut.woken, rfl, hPc, hIdle, hLast⟩
  | out =>
    rcases hUp.enabled with hOn | hFinished
    · right
      have hLoads :
          (if s.fut.installed then HandlerPc.wake s.fut.ctx else .out) = .wake s.fut.task := by
        rw [hUp.installed, hI.fut.stored hStored]
        rfl
      -- the line is pended, then the interrupt is taken
      have hFire : s.step .fire = some { s with fut := { s.fut with pending := true } } := by
        rw [step, if_pos ⟨hI.due hPc hDue, (hI.armed (.inr hPc)).1⟩]
        rfl
      have hEnter : ({ s with fut := { s.fut with pending := true } } : Exti Task).step .interrupt =
          some { s with fut := { s.fut with pending := false, handler := .wake s.fut.task } } := by
        rw [step, futStep, InterruptFuture.step, if_pos ⟨hOn, rfl, hHandler⟩]
        exact congrArg
          (fun h => some { s with fut := { s.fut with pending := false, handler := h } }) hLoads
      exact ⟨_, _, .inr ⟨_, hFire, hEnter⟩, rfl, hWakes s.fut.woken, rfl, hPc, hIdle, hLast⟩
    · exact .inl ((hI.fut.lossless hIdle).2 hFinished hLast)

/-- **A wait does not stay pending** when the pin is at its level, or one of its edges was there
since it has chosen them: the task was woken since it was polled, or the EXTI holds the line and
the next steps of the interrupt wake it. -/
theorem wait_is_woken {pending installed level rtsr ftsr imr pr : Bool} {ctx : Option Task}
    (hRun : Run step Lower (init pending installed level rtsr ftsr imr pr ctx) s)
    (hSuspended : s.Suspended) (hDue : s.Due) : s.fut.woken = true ∨ s.WokenNext :=
  (inv_of_run hRun).wokenNext hSuspended hDue

/-- The pin falls and rises again while the wait for the high level is polled. -/
theorem wait_is_woken_high : ∃ s : Exti Nat,
    Run step Lower (init false true true false false false false none) s ∧ s.Suspended ∧ s.Due ∧
      s.fut.woken = false ∧ (s.fut.woken = true ∨ s.WokenNext) := by
  have hRun : Run step Lower (init false true true false false false false none : Exti Nat) _ :=
    Run.execOk_get _ [.call (.state true), .change, .poll 7, .advance, .advance, .advance,
      .advance, .advance, .advance, .advance, .advance, .change, .advance, .advance]
      (by decide +kernel)
  exact ⟨_, hRun, by decide +kernel, by decide +kernel, by decide +kernel,
    wait_is_woken hRun (by decide +kernel) (by decide +kernel)⟩

end Steps

end Exti

end Embassy.Stm32
