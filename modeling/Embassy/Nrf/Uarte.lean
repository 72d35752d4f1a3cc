import Mathlib.Logic.Function.Basic
import Embassy.Lib.Run
import Embassy.Util.Waker

/-!
# The unbuffered UARTE

`embassy-nrf/src/uarte.rs`. A read and a write future each start a transfer, and wait
for its end event (ENDRX, ENDTX); the interrupt of the two is one, and so is its
handler. The handler wakes the task and then disables the interrupt for the event.

All accesses of the futures and of the handler to the registers and wakers are steps of
their own, and come in any order. A future borrows the `Uarte`, so that there is only
one at a time; here one in each direction is allowed.

A wake pends the interrupt of the executor, which runs at once if it has the higher
priority. The task may then complete its transfer and start a new one, of which the
interrupt is disabled by the handler when that goes on.

Main results:

* `TransferInv` — the invariant of a direction, and the lemmas on the steps.
* `pending_enabled` — as long as no interrupt is enabled between the handler's check
  and its disabling, a pending transfer keeps its interrupt enabled until its task is
  woken.
-/

namespace Embassy.Nrf

open Embassy.Lib Embassy.Util

inductive Side where
  | rx
  | tx
  deriving DecidableEq, Repr

/-- The next step of a read or write future. -/
inductive TransferPc where
  /-- There is no future. -/
  | idle
  /-- The future was never polled. -/
  | created
  /-- `r.events_endrx.reset()` -/
  | resetEvent
  /-- `r.intenset` -/
  | enable
  /-- `r.tasks_startrx` -/
  | start
  /-- `s.endrx_waker.register(cx.waker())` -/
  | register
  /-- `r.events_endrx.read()` -/
  | check
  /-- The guard is defused. -/
  | finish
  /-- The latest poll returned `Pending`. -/
  | waiting
  /-- The future is dropped: `r.intenclr` -/
  | disable
  /-- `r.events_rxto.reset()` -/
  | resetStopped
  /-- `r.tasks_stoprx` -/
  | stop
  /-- `while r.events_endrx.read().bits() == 0 {}` -/
  | spin
  deriving DecidableEq, Repr

/-- The interrupt was enabled for the transfer. -/
def TransferPc.armed : TransferPc → Bool
  | .start | .register | .check | .finish | .waiting => true
  | _ => false

/-- One direction: its registers, waker and future. -/
structure Transfer (Task : Type) where
  pc : TransferPc
  /-- The task that polls the future, or did so last. -/
  task : Option Task
  /-- `endrx_waker` -/
  waker : AtomicWaker Task
  /-- The task was woken by the handler since that poll. -/
  woken : Bool
  /-- `events_endrx` -/
  ended : Bool
  /-- `events_rxto` -/
  stopped : Bool
  /-- The interrupt is enabled for `events_endrx`. -/
  inten : Bool
  /-- The interrupt is enabled for `events_rxto`. -/
  intenStopped : Bool
  /-- The hardware has a transfer under way. -/
  running : Bool
  deriving DecidableEq, Repr

/-- The next step of `on_interrupt`. -/
inductive UartePc where
  | out
  | check (sd : Side)
  | wake (sd : Side)
  | clear (sd : Side)
  | checkStopped (sd : Side)
  | clearStopped (sd : Side)
  deriving DecidableEq, Repr

inductive UarteAction (Task : Type) where
  | create (sd : Side)
  | poll (sd : Side) (w : Task)
  | drop (sd : Side)
  /-- The poll, or the drop, goes on. -/
  | advance (sd : Side)
  /-- The hardware ends a transfer. -/
  | complete (sd : Side)
  /-- The hardware reports that it has stopped. -/
  | stopped (sd : Side)
  /-- The interrupt is entered. It may be pending from before. -/
  | interrupt
  /-- `on_interrupt` goes on. -/
  | handle
  deriving DecidableEq, Repr

variable {Task : Type}

namespace Transfer

def new : Transfer Task where
  pc := .idle
  task := none
  waker := .new
  woken := false
  ended := false
  stopped := false
  inten := false
  intenStopped := false
  running := false

def poll (t : Transfer Task) (w : Task) : Option (Transfer Task) :=
  match t.pc with
  | .created => some { t with pc := .resetEvent, task := some w }
  | .waiting => some { t with pc := .register, task := some w }
  | _ => none

/-- Only a future that was polled has a guard. -/
def drop (t : Transfer Task) : Option (Transfer Task) :=
  match t.pc with
  | .created => some { t with pc := .idle }
  | .waiting => some { t with pc := .disable }
  | _ => none

def advance (t : Transfer Task) : Option (Transfer Task) :=
  match t.pc with
  | .idle | .created | .waiting => none
  | .resetEvent => some { t with ended := false, pc := .enable }
  | .enable => some { t with inten := true, pc := .start }
  | .start => some { t with running := true, pc := .register }
  | .register => t.task.map fun w => { t with waker := t.waker.register w, pc := .check }
  | .check => if t.ended then some { t with pc := .finish }
      else some { t with woken := false, pc := .waiting }
  | .finish => some { t with pc := .idle }
  | .disable => some { t with inten := false, pc := .resetStopped }
  | .resetStopped => some { t with stopped := false, pc := .stop }
  | .stop => some { t with pc := .spin }
  | .spin => if t.ended then some { t with pc := .idle } else none

/-- `endrx_waker.wake()` -/
def wake [DecidableEq Task] (t : Transfer Task) : Transfer Task :=
  { t with woken := t.woken || t.waker.wake.any fun w => decide (t.task = some w) }

end Transfer

structure Uarte (Task : Type) where
  side : Side → Transfer Task
  handler : UartePc

namespace UartePc

/-- What comes behind the check of an end event. -/
def afterEnd : Side → UartePc
  | .rx => .check .tx
  | .tx => .checkStopped .rx

def afterStopped : Side → UartePc
  | .rx => .checkStopped .tx
  | .tx => .out

/-- The handler has seen the end event and has not yet disabled the interrupt. -/
def Sees (h : UartePc) (sd : Side) : Prop := h = .wake sd ∨ h = .clear sd

end UartePc

namespace Uarte

def new : Uarte Task where
  side := fun _ => .new
  handler := .out

/-- A step of one direction. -/
def set (s : Uarte Task) (sd : Side) (t : Transfer Task) : Uarte Task :=
  { s with side := Function.update s.side sd t }

/-- A step of `on_interrupt`. -/
def handle [DecidableEq Task] (s : Uarte Task) : UartePc → Option (Uarte Task)
  | .out => none
  | .check sd =>
    some { s with handler := if (s.side sd).ended then .wake sd else .afterEnd sd }
  | .wake sd => some { s.set sd (s.side sd).wake with handler := .clear sd }
  | .clear sd =>
    some { s.set sd { s.side sd with inten := false } with handler := .afterEnd sd }
  | .checkStopped sd =>
    some { s with handler := if (s.side sd).stopped then .clearStopped sd else .afterStopped sd }
  | .clearStopped sd =>
    some { s.set sd { s.side sd with intenStopped := false } with handler := .afterStopped sd }

def step [DecidableEq Task] (s : Uarte Task) : UarteAction Task → Option (Uarte Task)
  | .create sd =>
    if (s.side sd).pc = .idle then some (s.set sd { s.side sd with pc := .created }) else none
  | .poll sd w => ((s.side sd).poll w).map (s.set sd)
  | .drop sd => (s.side sd).drop.map (s.set sd)
  | .advance sd => (s.side sd).advance.map (s.set sd)
  | .complete sd =>
    if (s.side sd).running then some (s.set sd { s.side sd with ended := true, running := false })
    else none
  | .stopped sd => some (s.set sd { s.side sd with stopped := true })
  | .interrupt => if s.handler = .out then some { s with handler := .check .rx } else none
  | .handle => s.handle s.handler

/-- An interrupt is not enabled where the handler is about to disable it. -/
def Guarded (s : Uarte Task) (a : UarteAction Task) : Prop :=
  ∀ sd, a = .advance sd → (s.side sd).pc = .enable → ¬s.handler.Sees sd

end Uarte

-- ---------------------------------------------------------------------------
-- One direction
-- ---------------------------------------------------------------------------

/-- What holds of a direction, with the handler at `h`. -/
structure TransferInv (sd : Side) (h : UartePc) (t : Transfer Task) : Prop where
  /-- The interrupt is disabled only when the transfer has ended. -/
  armed : t.pc.armed = true → t.inten = true ∨ t.ended = true
  /-- The event that the handler has seen is that of this transfer. -/
  sees : t.pc.armed = true → h.Sees sd → t.ended = true
  registered : t.pc = .check ∨ t.pc = .waiting → ∃ w, t.task = some w ∧ t.waker.wake = [w]
  polled : t.pc ≠ .idle → t.pc ≠ .created → t.task ≠ none
  enabled : t.pc = .waiting → t.woken = false → t.inten = true ∧ h ≠ .clear sd

namespace TransferInv

variable {sd : Side} {h h' : UartePc} {t t' : Transfer Task}

/-- Without a transfer, only the task is to be kept. -/
theorem of_not_armed (hArmed : t.pc.armed = false)
    (hPolled : t.pc ≠ .idle → t.pc ≠ .created → t.task ≠ none) : TransferInv sd h t := by
  have hNot : ¬t.pc.armed = true := Bool.eq_false_iff.mp hArmed
  have hCheck : ¬(t.pc = .check ∨ t.pc = .waiting) := by
    rintro (hPc | hPc) <;> rw [hPc] at hArmed <;> cases hArmed
  exact ⟨fun hA => absurd hA hNot, fun hA => absurd hA hNot, fun hPc => absurd hPc hCheck,
    hPolled, fun hPc => absurd (.inr hPc) hCheck⟩

/-- A direction without a future. -/
theorem new : TransferInv sd h (.new : Transfer Task) :=
  of_not_armed rfl fun hPc => absurd rfl hPc

/-- A new future. -/
theorem created : TransferInv sd h { t with pc := .created } :=
  of_not_armed rfl fun _ hPc => absurd rfl hPc

/-- A poll begins, or a transfer ends. -/
theorem goes_on (hI : TransferInv sd h t) (hArmed : t.pc.armed = true) {pc : TransferPc}
    (hPc : pc = .register ∨ pc = .finish) {w : Option Task} (hTask : w ≠ none) (running : Bool) :
    TransferInv sd h { t with pc := pc, task := w, running := running } := by
  refine ⟨fun _ => hI.armed hArmed, fun _ => hI.sees hArmed, fun hNow => ?_, fun _ _ => hTask,
    fun hNow => ?_⟩
  · rcases hPc with rfl | rfl <;> rcases hNow with hNow | hNow <;> cases hNow
  · rcases hPc with rfl | rfl <;> cases hNow

/-- A poll stores the task, and the event is looked at later. -/
theorem poll {w : Task} (hI : TransferInv sd h t) (ht : t.poll w = some t') :
    TransferInv sd h t' := by
  unfold Transfer.poll at ht
  split at ht
  · cases ht
    exact of_not_armed rfl fun _ _ hTask => nomatch hTask
  · rename_i hPc
    -- The future waits: its interrupt is enabled, or its event is there.
    have hArmed : t.pc.armed = true := by
      rw [hPc]
      rfl
    cases ht
    exact hI.goes_on hArmed (.inl rfl) (Option.some_ne_none w) t.running
  · cases ht

/-- A future that is dropped disarms its direction. -/
theorem drop (hI : TransferInv sd h t) (ht : t.drop = some t') : TransferInv sd h t' := by
  unfold Transfer.drop at ht
  split at ht
  · cases ht
    exact of_not_armed rfl fun hPc => absurd rfl hPc
  · rename_i hPc
    cases ht
    refine of_not_armed rfl fun _ _ => ?_
    exact hI.polled (by rw [hPc]; decide) (by rw [hPc]; decide)
  · cases ht

/-- The interrupt is enabled where the handler is not about to disable it. -/
theorem enable (hI : TransferInv sd h t) (hPc : t.pc = .enable) (hGuarded : ¬h.Sees sd) :
    TransferInv sd h { t with inten := true, pc := .start } := by
  refine ⟨fun _ => .inl rfl, fun _ hSees => absurd hSees hGuarded, fun hPc => ?_, fun _ _ => ?_,
    fun hPc => (nomatch hPc)⟩
  · rcases hPc with hPc | hPc <;> cases hPc
  · exact hI.polled (by rw [hPc]; decide) (by rw [hPc]; decide)

/-- The waker is registered, and then the event is checked. -/
theorem register (hI : TransferInv sd h t) (hPc : t.pc = .register) {w : Task}
    (hTask : t.task = some w) :
    TransferInv sd h { t with waker := t.waker.register w, pc := .check } := by
  have hArmed : t.pc.armed = true := by
    rw [hPc]
    rfl
  exact ⟨fun _ => hI.armed hArmed, fun _ => hI.sees hArmed,
    fun _ => ⟨w, hTask, AtomicWaker.wake_register t.waker w⟩,
    fun _ _ => hI.polled (by rw [hPc]; decide) (by rw [hPc]; decide), fun hPc => (nomatch hPc)⟩

/-- A poll that finds no event finds the interrupt enabled. -/
theorem pending (hI : TransferInv sd h t) (hPc : t.pc = .check) (hEnded : t.ended = false) :
    TransferInv sd h { t with woken := false, pc := .waiting } := by
  have hArmed : t.pc.armed = true := by
    rw [hPc]
    rfl
  have hNot : ¬t.ended = true := Bool.eq_false_iff.mp hEnded
  refine ⟨fun _ => hI.armed hArmed, fun _ => hI.sees hArmed, fun _ => hI.registered (.inl hPc),
    fun _ _ => ?_, fun _ _ => ⟨(hI.armed hArmed).resolve_right hNot, fun hClear => ?_⟩⟩
  · exact hI.polled (by rw [hPc]; decide) (by rw [hPc]; decide)
  · exact hNot (hI.sees hArmed (.inr hClear))

/-- The steps of a future, of which only the enabling needs the condition. -/
theorem advance (hI : TransferInv sd h t) (hGuarded : t.pc = .enable → ¬h.Sees sd)
    (ht : t.advance = some t') : TransferInv sd h t' := by
  have hPolled : t.pc ≠ .idle → t.pc ≠ .created → t.task ≠ none := hI.polled
  unfold Transfer.advance at ht
  -- the line is armed from `enable` on; before and after, the invariant asks for the task only
  cases hPc : t.pc with
  | idle | created | waiting =>
    rw [hPc] at ht
    cases ht
  | enable =>
    rw [hPc] at ht
    cases ht
    exact hI.enable hPc (hGuarded hPc)
  | register =>
    rw [hPc] at ht
    obtain ⟨w, hTask, rfl⟩ := Option.map_eq_some_iff.mp ht
    exact hI.register hPc hTask
  | start =>
    rw [hPc] at ht hPolled
    cases ht
    exact hI.goes_on (by rw [hPc]; rfl) (.inl rfl) (hPolled (by decide) (by decide)) true
  | check =>
    rw [hPc] at ht hPolled
    have hBranch : (if t.ended then _ else _) = some t' := ht
    -- the event ends the wait; without it the waker stored is the one polled with
    split at hBranch
    · cases hBranch
      exact hI.goes_on (by rw [hPc]; rfl) (.inr rfl) (hPolled (by decide) (by decide)) t.running
    · rename_i hEnded
      cases hBranch
      exact hI.pending hPc (Bool.eq_false_iff.mpr hEnded)
  | resetEvent | disable | resetStopped | stop =>
    rw [hPc] at ht hPolled
    cases ht
    exact of_not_armed rfl fun _ _ => hPolled (by decide) (by decide)
  | finish =>
    rw [hPc] at ht
    cases ht
    exact of_not_armed rfl fun hPc => absurd rfl hPc
  | spin =>
    rw [hPc] at ht
    obtain ⟨-, ht⟩ := Option.ite_none_right_eq_some.mp ht
    cases ht
    exact of_not_armed rfl fun hPc => absurd rfl hPc

/-- The hardware ends the transfer. -/
theorem complete (hI : TransferInv sd h t) :
    TransferInv sd h { t with ended := true, running := false } :=
  ⟨fun _ => .inr rfl, fun _ _ => rfl, hI.registered, hI.polled, hI.enabled⟩

theorem stopped (hI : TransferInv sd h t) : TransferInv sd h { t with stopped := true } :=
  ⟨hI.armed, hI.sees, hI.registered, hI.polled, hI.enabled⟩

-- The steps of the handler

/-- The handler is not about to disable the interrupt of this direction. -/
theorem elsewhere (hI : TransferInv sd h t) (hNot : ¬h'.Sees sd) : TransferInv sd h' t :=
  ⟨hI.armed, fun _ hSees => absurd hSees hNot, hI.registered, hI.polled,
    fun hPc hWoken => ⟨(hI.enabled hPc hWoken).1, fun hClear => hNot (.inr hClear)⟩⟩

/-- The handler finds the event. -/
theorem seen (hI : TransferInv sd h t) (hEnded : t.ended = true) :
    TransferInv sd (.wake sd) t :=
  ⟨hI.armed, fun _ _ => hEnded, hI.registered, hI.polled,
    fun hPc hWoken => ⟨(hI.enabled hPc hWoken).1, fun hClear => nomatch hClear⟩⟩

/-- A task that is pending is woken. -/
theorem wake [DecidableEq Task] (hI : TransferInv sd (.wake sd) t) :
    TransferInv sd (.clear sd) t.wake := by
  have hEnded : t.pc.armed = true → t.ended = true := fun hArmed => hI.sees hArmed (.inl rfl)
  refine ⟨hI.armed, fun hArmed _ => hEnded hArmed, hI.registered, hI.polled,
    fun hPc hWoken => ?_⟩
  -- The waker that is registered is that of the task.
  obtain ⟨w, hTask, hWake⟩ := hI.registered (.inr hPc)
  have hWoken : (t.woken || t.waker.wake.any fun w => decide (t.task = some w)) = false := hWoken
  rw [hWake, hTask] at hWoken
  simp at hWoken

/-- The interrupt is disabled when the transfer has ended, and the task is woken. -/
theorem clear (hI : TransferInv sd (.clear sd) t) (hNot : ¬h'.Sees sd) :
    TransferInv sd h' { t with inten := false } :=
  ⟨fun hArmed => .inr (hI.sees hArmed (.inr rfl)), fun _ hSees => absurd hSees hNot, hI.registered,
    hI.polled, fun hPc hWoken => absurd rfl (hI.enabled hPc hWoken).2⟩

theorem clearStopped (hI : TransferInv sd h t) :
    TransferInv sd h { t with intenStopped := false } :=
  ⟨hI.armed, hI.sees, hI.registered, hI.polled, hI.enabled⟩

end TransferInv

namespace UartePc

/-- Behind an end event the handler has seen none. -/
theorem not_sees_afterEnd (sd sd' : Side) : ¬(afterEnd sd).Sees sd' := by
  cases sd <;> cases sd' <;> simp [afterEnd, Sees]

/-- Behind a stop the handler has seen no end event. -/
theorem not_sees_afterStopped (sd sd' : Side) : ¬(afterStopped sd).Sees sd' := by
  cases sd <;> cases sd' <;> simp [afterStopped, Sees]

end UartePc

-- ---------------------------------------------------------------------------
-- Both directions
-- ---------------------------------------------------------------------------

namespace Uarte

def Inv (s : Uarte Task) : Prop := ∀ sd, TransferInv sd s.handler (s.side sd)

variable {s s' : Uarte Task} {a : UarteAction Task} {sd : Side} {t : Transfer Task}

theorem inv_new : (new : Uarte Task).Inv := fun _ => .new

/-- A step of one direction leaves the other as it was. -/
theorem Inv.set (hI : s.Inv) (ht : TransferInv sd s.handler t) : (s.set sd t).Inv :=
  (Function.forall_update_iff s.side fun sd' => TransferInv sd' s.handler).mpr
    ⟨ht, fun sd' _ => hI sd'⟩

/-- A step of the handler that concerns one direction. -/
theorem Inv.handled {h : UartePc} (hI : s.Inv) (ht : TransferInv sd h t)
    (hOther : ∀ sd', sd' ≠ sd → ¬h.Sees sd') :
    Inv { s.set sd t with handler := h } :=
  (Function.forall_update_iff s.side fun sd' => TransferInv sd' h).mpr
    ⟨ht, fun sd' hSide => (hI sd').elsewhere (hOther sd' hSide)⟩

/-- The handler goes on without a look at the end events. -/
theorem Inv.moved {h : UartePc} (hI : s.Inv) (hNot : ∀ sd, ¬h.Sees sd) :
    Inv { s with handler := h } := fun sd => (hI sd).elsewhere (hNot sd)

/-- The handler keeps the invariant in each of its steps. -/
theorem Inv.handle [DecidableEq Task] (hI : s.Inv) (hs : s.handle s.handler = some s') :
    s'.Inv := by
  cases hPc : s.handler with
  | out =>
    rw [hPc] at hs
    cases hs
  | check sd =>
    rw [hPc] at hs
    cases hs
    -- The event is checked before the task is woken and the interrupt disabled.
    by_cases hEnded : (s.side sd).ended = true
    · rw [if_pos hEnded]
      intro sd'
      by_cases hSide : sd' = sd
      · subst hSide
        exact (hI sd').seen hEnded
      · exact (hI sd').elsewhere (by simpa [UartePc.Sees] using Ne.symm hSide)
    · rw [if_neg hEnded]
      exact hI.moved (UartePc.not_sees_afterEnd sd)
  | wake sd =>
    have hWake := hI sd
    rw [hPc] at hs hWake
    cases hs
    exact hI.handled hWake.wake fun sd' hSide => by simpa [UartePc.Sees] using Ne.symm hSide
  | clear sd =>
    have hClear := hI sd
    rw [hPc] at hs hClear
    cases hs
    exact hI.handled (hClear.clear (UartePc.not_sees_afterEnd sd sd)) fun sd' _ =>
      UartePc.not_sees_afterEnd sd sd'
  | checkStopped sd =>
    rw [hPc] at hs
    cases hs
    refine hI.moved fun sd' => ?_
    split
    · simp [UartePc.Sees]
    · exact UartePc.not_sees_afterStopped sd sd'
  | clearStopped sd =>
    rw [hPc] at hs
    cases hs
    have hNot := UartePc.not_sees_afterStopped sd
    exact hI.handled ((hI sd).elsewhere (hNot sd)).clearStopped fun sd' _ => hNot sd'

/-- Every step keeps the invariant, if no interrupt is enabled in the middle of the handler. -/
theorem inv_step [DecidableEq Task] (hI : s.Inv) (hGuarded : s.Guarded a)
    (hs : s.step a = some s') : s'.Inv := by
  cases a with
  | create sd =>
    obtain ⟨-, hs⟩ := Option.ite_none_right_eq_some.mp hs
    cases hs
    exact hI.set .created
  | poll sd w =>
    obtain ⟨t, ht, rfl⟩ := Option.map_eq_some_iff.mp hs
    exact hI.set ((hI sd).poll ht)
  | drop sd =>
    obtain ⟨t, ht, rfl⟩ := Option.map_eq_some_iff.mp hs
    exact hI.set ((hI sd).drop ht)
  | advance sd =>
    obtain ⟨t, ht, rfl⟩ := Option.map_eq_some_iff.mp hs
    -- the condition: the handler is not on its way to mask what is being enabled
    exact hI.set ((hI sd).advance (hGuarded sd rfl) ht)
  | complete sd =>
    obtain ⟨-, hs⟩ := Option.ite_none_right_eq_some.mp hs
    cases hs
    exact hI.set (hI sd).complete
  | stopped sd =>
    cases hs
    exact hI.set (hI sd).stopped
  | interrupt =>
    obtain ⟨-, hs⟩ := Option.ite_none_right_eq_some.mp hs
    cases hs
    exact hI.moved fun sd => by simp [UartePc.Sees]
  | handle => exact hI.handle hs

/-- The latest poll of the transfer returned `Pending`, and its task was not woken since
then. -/
def Waits (s : Uarte Task) (sd : Side) : Prop :=
  (s.side sd).pc = .waiting ∧ (s.side sd).woken = false

/-- The task runs at the wake: it completes its read there and starts another one, of
which the handler disables the interrupt. -/
theorem pending_not_enabled : ¬∀ s : Uarte Nat, Run step (fun _ _ => True) new s →
    s.handler = .out → ∀ sd, s.Waits sd → (s.side sd).inten = true := by
  intro hAll
  obtain ⟨s, hRun, hOut, hPc, hWoken, hInten⟩ : ∃ s : Uarte Nat,
      Run step (fun _ _ => True) new s ∧ s.handler = .out ∧ (s.side .rx).pc = .waiting ∧
        (s.side .rx).woken = false ∧ (s.side .rx).inten = false := by
    have hRun : Run step (fun _ _ => True) (new : Uarte Nat) _ :=
      Run.execOk_get _ [.create .rx, .poll .rx 7, .advance .rx, .advance .rx, .advance .rx,
        .advance .rx, .advance .rx, .complete .rx, .interrupt, .handle, .handle,
        .poll .rx 7, .advance .rx, .advance .rx, .advance .rx,
        .create .rx, .poll .rx 7, .advance .rx, .advance .rx, .advance .rx, .advance .rx,
        .advance .rx, .handle, .handle, .handle, .handle] (by decide +kernel)
    exact ⟨_, hRun, by decide +kernel, by decide +kernel, by decide +kernel, by decide +kernel⟩
  exact nomatch hInten.symm.trans (hAll s hRun hOut .rx ⟨hPc, hWoken⟩)

/--
**A pending transfer has its interrupt enabled**, until its task is woken: whatever the
order of all steps, as long as a future does not enable the interrupt of a direction
while the handler has seen the end event of that direction and has not yet disabled it.
-/
theorem pending_enabled [DecidableEq Task] (hRun : Run step Guarded (new : Uarte Task) s)
    (hWaits : s.Waits sd) : (s.side sd).inten = true := by
  have hI := hRun.invariant (I := Inv) inv_new
    fun _ _ _ hI hGuarded hs => inv_step hI hGuarded hs
  exact ((hI sd).enabled hWaits.1 hWaits.2).1

instance (s : Uarte Task) (a : UarteAction Task) [DecidableEq Task] : Decidable (s.Guarded a) :=
  match a with
  | .advance sd => decidable_of_iff ((s.side sd).pc = .enable →
      ¬(s.handler = .wake sd ∨ s.handler = .clear sd)) (by
        unfold Guarded UartePc.Sees
        simp)
  | .create _ | .poll .. | .drop _ | .complete _ | .stopped _ | .interrupt | .handle =>
    isTrue (by unfold Guarded; simp)

instance (s : Uarte Task) (sd : Side) : Decidable (s.Waits sd) :=
  inferInstanceAs (Decidable (_ ∧ _))

/-- Of two reads, the second is started when the handler of the first has finished. -/
theorem pending_enabled_second : ∃ s : Uarte Nat, Run step Guarded new s ∧
    s.handler = .out ∧ s.Waits .rx ∧ (s.side .rx).inten = true := by
  have hRun : Run step Guarded (new : Uarte Nat) _ :=
    Run.execOk_get _ [.create .rx, .poll .rx 7, .advance .rx, .advance .rx, .advance .rx,
      .advance .rx, .advance .rx, .complete .rx, .interrupt, .handle, .handle, .handle,
      .handle, .handle, .handle, .poll .rx 7, .advance .rx, .advance .rx, .advance .rx,
      .create .rx, .poll .rx 7, .advance .rx, .advance .rx, .advance .rx, .advance .rx,
      .advance .rx] (by decide +kernel)
  obtain ⟨s, hRun, hOut, hWaits⟩ : ∃ s : Uarte Nat, Run step Guarded new s ∧
      s.handler = .out ∧ s.Waits .rx :=
    ⟨_, hRun, by decide +kernel, by decide +kernel⟩
  exact ⟨s, hRun, hOut, hWaits, pending_enabled hRun hWaits⟩

end Uarte

end Embassy.Nrf
