import Mathlib.Logic.Function.Basic
import Embassy.Lib.Run
import Embassy.Util.Waker

/-!
# Waiting for the level of a pin

`embassy-nrf/src/gpiote.rs`, the port event. `wait_for_high` and `wait_for_low` set the
SENSE of a pin. The hardware latches a pin of which the level matches its SENSE, in a
bit that stays until it is written; and writing it has no effect while the level still
matches. When a bit is latched, EVENTS_PORT is raised. `on_irq` disables the SENSE of
the pins that are latched, and a future takes it for completion that it finds the SENSE
of its pin disabled.

A future that is dropped leaves its latched bit behind. If the interrupt comes only when
another future waits for the other level, it disables the SENSE for that one.

Pins are numbered through all ports; a port is the list of its pins. The channels, which
`on_irq` looks at first, do not touch the pins.

Main results:

* `PinInv` — the invariant of a pin, of which the future has not seen its level.
* `ready_seen` — a future is ready only if the pin had its level, as long as no wait is
  started on a pin with a bit left behind.
-/

namespace Embassy.Nrf

open Embassy.Lib Embassy.Util

inductive Sense where
  | disabled
  | high
  | low
  deriving DecidableEq, Repr

/-- The level matches the SENSE of the pin. -/
def Sense.matches : Sense → Bool → Bool
  | .disabled, _ => false
  | .high, level => level
  | .low, level => !level

/-- The SENSE for a level. -/
def Sense.of (level : Bool) : Sense := if level then .high else .low

/-- A `PortInputFuture`. -/
structure PortInputFuture where
  /-- The level that it waits for, `true` for high. -/
  level : Bool
  /-- A poll returned `Ready`. -/
  ready : Bool
  /-- The pin had this level at some moment since the future was created. -/
  seen : Bool
  deriving DecidableEq, Repr

structure PortPin (Task : Type) where
  /-- The level at the pin, `true` for high. -/
  level : Bool
  sense : Sense
  latch : Bool
  /-- In `PORT_WAKERS` -/
  waker : AtomicWaker Task
  future : Option PortInputFuture
  deriving DecidableEq, Repr

/-- The next step of `on_irq`. The latched bits of a port are a list of pins. -/
inductive OnIrq where
  | out
  /-- `if g.events_port.read().bits() != 0` -/
  | checkEvent
  | clearEvent
  /-- `p.latch.read()`, for the first of the ports that are left. -/
  | readLatch (ports : List (List Nat))
  /-- `p.pin_cnf[pin]`, for the first of the pins that are left. -/
  | disable (bits rest : List Nat) (ports : List (List Nat))
  /-- `PORT_WAKERS[port * 32 + pin].wake()` -/
  | wake (bits : List Nat) (p : Nat) (rest : List Nat) (ports : List (List Nat))
  | writeLatch (bits : List Nat) (ports : List (List Nat))
  deriving DecidableEq, Repr

structure Gpiote (Task : Type) where
  pin : Nat → PortPin Task
  eventsPort : Bool
  onIrq : OnIrq
  /-- The tasks woken so far. -/
  woken : List Task

inductive GpioteAction (Task : Type) where
  /-- The level at a pin changes. -/
  | level (p : Nat) (b : Bool)
  /-- `wait_for_high` or `wait_for_low` -/
  | wait (p : Nat) (level : Bool)
  /-- A poll registers its waker, and then checks the SENSE. -/
  | poll (p : Nat) (w : Task)
  | check (p : Nat)
  | drop (p : Nat)
  /-- The interrupt is entered. Without an event it leaves the pins alone. -/
  | interrupt
  /-- `on_irq` goes on. -/
  | handle
  deriving DecidableEq, Repr

variable {Task : Type}

namespace PortPin

def init (level : Bool) : PortPin Task where
  level := level
  sense := .disabled
  latch := false
  waker := .new
  future := none

/-- The level matches the SENSE. -/
def detect (p : PortPin Task) : Bool := p.sense.matches p.level

/-- The hardware latches a pin. -/
def latched (p : PortPin Task) : PortPin Task := { p with latch := p.latch || p.detect }

def setLevel (p : PortPin Task) (b : Bool) : PortPin Task :=
  latched { p with
    level := b
    future := p.future.map fun f => { f with seen := f.seen || b == f.level } }

def setSense (p : PortPin Task) (sense : Sense) : PortPin Task := latched { p with sense := sense }

/-- The SENSE is set, and the future is created. -/
def wait (p : PortPin Task) (level : Bool) : PortPin Task :=
  { p.setSense (.of level) with
    future := some ⟨level, false, p.level == level⟩ }

def register (p : PortPin Task) (w : Task) : PortPin Task :=
  { p with waker := p.waker.register w }

def check (p : PortPin Task) (f : PortInputFuture) : PortPin Task :=
  { p with future := some { f with ready := f.ready || decide (p.sense = .disabled) } }

def drop (p : PortPin Task) : PortPin Task := { p.setSense .disabled with future := none }

/-- The latched bit is cleared, unless the level matches. -/
def clearLatch (p : PortPin Task) : PortPin Task := { p with latch := p.detect }

end PortPin

namespace Gpiote

/-- After `initialize`. -/
def init (level : Nat → Bool) : Gpiote Task where
  pin := fun p => .init (level p)
  eventsPort := false
  onIrq := .out
  woken := []

/-- A pin changes, and its bit may be latched. -/
def set (s : Gpiote Task) (p : Nat) (q : PortPin Task) : Gpiote Task :=
  { s with
    pin := Function.update s.pin p q
    eventsPort := s.eventsPort || (!(s.pin p).latch && q.latch) }

/-- `p.latch.write(|w| w.bits(bits))`. Bits that stay raise the event again. -/
def writeLatch (s : Gpiote Task) (bits : List Nat) : Gpiote Task :=
  { s with
    pin := fun p => if p ∈ bits then (s.pin p).clearLatch else s.pin p
    eventsPort := s.eventsPort || bits.any fun p => (s.pin p).detect }

def handle (ports : List (List Nat)) (s : Gpiote Task) : OnIrq → Option (Gpiote Task)
  | .out => none
  | .checkEvent => some { s with onIrq := if s.eventsPort then .clearEvent else .out }
  | .clearEvent => some { s with eventsPort := false, onIrq := .readLatch ports }
  | .readLatch [] => some { s with onIrq := .out }
  | .readLatch (port :: rest) =>
    let bits := port.filter fun p => (s.pin p).latch
    some { s with onIrq := .disable bits bits rest }
  | .disable bits [] rest => some { s with onIrq := .writeLatch bits rest }
  | .disable bits (p :: pins) rest =>
    some { s.set p ((s.pin p).setSense .disabled) with onIrq := .wake bits p pins rest }
  | .wake bits p pins rest =>
    some { s with
      woken := s.woken ++ (s.pin p).waker.wake
      onIrq := .disable bits pins rest }
  | .writeLatch bits rest => some { s.writeLatch bits with onIrq := .readLatch rest }

def step (ports : List (List Nat)) (s : Gpiote Task) : GpioteAction Task → Option (Gpiote Task)
  | .level p b => some (s.set p ((s.pin p).setLevel b))
  | .wait p level =>
    if (s.pin p).future = none then some (s.set p ((s.pin p).wait level)) else none
  | .poll p w =>
    if (s.pin p).future ≠ none then some (s.set p ((s.pin p).register w)) else none
  | .check p => (s.pin p).future.map fun f => s.set p ((s.pin p).check f)
  | .drop p => if (s.pin p).future ≠ none then some (s.set p (s.pin p).drop) else none
  | .interrupt => if s.onIrq = .out then some { s with onIrq := .checkEvent } else none
  | .handle => s.handle ports s.onIrq

end Gpiote

namespace OnIrq

/-- The bits that were read, and are not yet written. -/
def bits : OnIrq → List Nat
  | .disable bits _ _ | .wake bits _ _ _ | .writeLatch bits _ => bits
  | _ => []

/-- The pins of which the SENSE is yet to be disabled. -/
def pending : OnIrq → List Nat
  | .disable _ rest _ | .wake _ _ rest _ => rest
  | _ => []

end OnIrq

-- ---------------------------------------------------------------------------
-- One pin
-- ---------------------------------------------------------------------------

/-- The sense for a level is not met by the other one. -/
theorem Sense.matches_of {level b : Bool} (h : b ≠ level) : (Sense.of level).matches b = false := by
  cases level <;> cases b <;> first | rfl | exact absurd rfl h

theorem Sense.of_ne_disabled (level : Bool) : Sense.of level ≠ .disabled := by
  cases level <;> decide

/-- What holds of the pin `p`, with the handler at `h`. -/
structure PinInv (h : OnIrq) (p : Nat) (q : PortPin Task) : Prop where
  /-- Bits are cleared when they are written. -/
  latched : p ∈ h.bits → q.latch = true
  within : p ∈ h.pending → p ∈ h.bits
  /-- The future waits for another level, and a latched bit will not complete it. -/
  unseen : ∀ f ∈ q.future, f.seen = false → q.level ≠ f.level ∧ q.sense = .of f.level ∧
    (q.latch = true → p ∈ h.bits) ∧ p ∉ h.pending
  ready : ∀ f ∈ q.future, f.ready = true → f.seen = true

namespace PinInv

variable {h h' : OnIrq} {p : Nat} {q : PortPin Task}

theorem init (level : Bool) : PinInv .out p (.init level : PortPin Task) :=
  ⟨fun hp => (nomatch hp), fun hp => (nomatch hp), fun _ hf => (nomatch hf),
    fun _ hf => (nomatch hf)⟩

/-- While the future waits for another level, the hardware does not latch the pin. -/
theorem detect (hI : PinInv h p q) {f : PortInputFuture} (hf : f ∈ q.future)
    (hUnseen : f.seen = false) : q.detect = false := by
  obtain ⟨hLevel, hSense, -⟩ := hI.unseen f hf hUnseen
  unfold PortPin.detect
  rw [hSense]
  exact Sense.matches_of hLevel

/-- A change of the level sets the latch if the pin senses for it. -/
theorem setLevel (hI : PinInv h p q) (b : Bool) : PinInv h p (q.setLevel b) := by
  refine ⟨fun hp => ?_, hI.within, fun f' hf' hUnseen => ?_, fun f' hf' hReady => ?_⟩
  · show (q.latch || _) = true
    rw [hI.latched hp]
    rfl
  · obtain ⟨f, hf, rfl⟩ := Option.map_eq_some_iff.mp hf'
    obtain ⟨hSeen, hNe⟩ := Bool.or_eq_false_iff.mp hUnseen
    obtain ⟨-, hSense, hLatch, hPending⟩ := hI.unseen f hf hSeen
    have hLevel : b ≠ f.level := beq_eq_false_iff_ne.mp hNe
    refine ⟨hLevel, hSense, fun hNow => hLatch ?_, hPending⟩
    have hDetect : q.sense.matches b = false := by
      rw [hSense]
      exact Sense.matches_of hLevel
    have hNow : (q.latch || q.sense.matches b) = true := hNow
    rw [hDetect, Bool.or_false] at hNow
    exact hNow
  · obtain ⟨f, hf, rfl⟩ := Option.map_eq_some_iff.mp hf'
    show (f.seen || _) = true
    rw [hI.ready f hf hReady]
    rfl

/-- Another future waits. A bit that is left behind is about to be written. -/
theorem wait (hI : PinInv h p q) {level : Bool}
    (hClean : q.latch = false ∨ q.level = level ∨ p ∈ h.bits ∧ p ∉ h.pending) :
    PinInv h p (q.wait level) := by
  refine ⟨fun hp => ?_, hI.within, fun f hf hUnseen => ?_, fun f hf hReady => ?_⟩
  · show (q.latch || _) = true
    rw [hI.latched hp]
    rfl
  · cases hf
    have hLevel : q.level ≠ level := beq_eq_false_iff_ne.mp hUnseen
    have hBits : (q.latch = true → p ∈ h.bits) ∧ p ∉ h.pending := by
      rcases hClean with hLatch | hSame | ⟨hBits, hDone⟩
      · refine ⟨fun hNow => (nomatch hLatch.symm.trans hNow), fun hPending => ?_⟩
        exact nomatch hLatch.symm.trans (hI.latched (hI.within hPending))
      · exact absurd hSame hLevel
      · exact ⟨fun _ => hBits, hDone⟩
    refine ⟨hLevel, rfl, fun hNow => hBits.1 ?_, hBits.2⟩
    have hNow : (q.latch || (Sense.of level).matches q.level) = true := hNow
    rw [Sense.matches_of hLevel, Bool.or_false] at hNow
    exact hNow
  · cases hf
    cases hReady

/-- A poll registers the waker, and leaves the pin as it is. -/
theorem register (hI : PinInv h p q) (w : Task) : PinInv h p (q.register w) :=
  ⟨hI.latched, hI.within, hI.unseen, hI.ready⟩

/-- A future that has not seen its level finds the SENSE of its pin set. -/
theorem check (hI : PinInv h p q) {f : PortInputFuture} (hf : f ∈ q.future) :
    PinInv h p (q.check f) := by
  refine ⟨hI.latched, hI.within, fun f' hf' hUnseen => ?_, fun f' hf' hReady => ?_⟩
  · cases hf'
    exact hI.unseen f hf hUnseen
  · cases hf'
    rcases Bool.eq_false_or_eq_true f.seen with hSeen | hUnseen
    · exact hSeen
    · obtain ⟨-, hSense, -⟩ := hI.unseen f hf hUnseen
      rcases (Bool.or_eq_true _ _).mp hReady with hBefore | hDisabled
      · exact hI.ready f hf hBefore
      · exact absurd (hSense.symm.trans (of_decide_eq_true hDisabled))
          (Sense.of_ne_disabled f.level)

/-- A wait that is dropped switches the SENSE of its pin off. -/
theorem drop (hI : PinInv h p q) : PinInv h p q.drop := by
  refine ⟨fun hp => ?_, hI.within, fun _ hf => (nomatch hf), fun _ hf => (nomatch hf)⟩
  show (q.latch || false) = true
  rw [hI.latched hp]
  rfl

-- The steps of the handler

/-- The handler goes on with the bits that it has read. -/
theorem moved (hI : PinInv h p q) (hBits : h'.bits = h.bits)
    (hPending : p ∈ h'.pending → p ∈ h.pending) : PinInv h' p q := by
  refine ⟨fun hp => hI.latched (hBits ▸ hp), fun hp => ?_, fun f hf hUnseen => ?_, hI.ready⟩
  · rw [hBits]
    exact hI.within (hPending hp)
  · obtain ⟨hLevel, hSense, hLatch, hDone⟩ := hI.unseen f hf hUnseen
    rw [hBits]
    exact ⟨hLevel, hSense, hLatch, fun hp => hDone (hPending hp)⟩

/-- The bits are read: a future that has not seen its level has none. -/
theorem readLatch (hI : PinInv h p q) (hNone : h.bits = []) (hBits : h'.pending = h'.bits)
    (hRead : p ∈ h'.bits → q.latch = true) : PinInv h' p q := by
  refine ⟨hRead, fun hp => hBits ▸ hp, fun f hf hUnseen => ?_, hI.ready⟩
  obtain ⟨hLevel, hSense, hLatch, -⟩ := hI.unseen f hf hUnseen
  rw [hNone] at hLatch
  refine ⟨hLevel, hSense, fun hNow => absurd (hLatch hNow) List.not_mem_nil, fun hp => ?_⟩
  exact absurd (hLatch (hRead (hBits ▸ hp))) List.not_mem_nil

/-- The SENSE of a pin is disabled: if it has a future, that has seen its level. -/
theorem disable (hI : PinInv h p q) (hPending : p ∈ h.pending) (hBits : h'.bits = h.bits)
    (hRest : p ∈ h'.pending → p ∈ h.pending) : PinInv h' p (q.setSense .disabled) := by
  refine ⟨fun hp => ?_, fun hp => ?_, fun f hf hUnseen => ?_, hI.ready⟩
  · show (q.latch || false) = true
    rw [hI.latched (hBits ▸ hp)]
    rfl
  · rw [hBits]
    exact hI.within (hRest hp)
  · exact absurd hPending (hI.unseen f hf hUnseen).2.2.2

/-- The bits that were read are written. -/
theorem writeLatch (hI : PinInv h p q) (hNone : h'.bits = []) (hNo : h'.pending = []) :
    PinInv h' p (if p ∈ h.bits then q.clearLatch else q) := by
  have hFuture : (if p ∈ h.bits then q.clearLatch else q).future = q.future := by
    split <;> rfl
  refine ⟨fun hp => absurd (hNone ▸ hp) List.not_mem_nil,
    fun hp => absurd (hNo ▸ hp) List.not_mem_nil, fun f hf hUnseen => ?_, fun f hf => ?_⟩
  · rw [hFuture] at hf
    obtain ⟨hLevel, hSense, hLatch, -⟩ := hI.unseen f hf hUnseen
    have hDetect := hI.detect hf hUnseen
    rw [hNo]
    split
    · exact ⟨hLevel, hSense, fun hNow => (nomatch hDetect.symm.trans hNow), List.not_mem_nil⟩
    · exact ⟨hLevel, hSense, fun hNow => absurd (hLatch hNow) ‹_›, List.not_mem_nil⟩
  · rw [hFuture] at hf
    exact hI.ready f hf

end PinInv

-- ---------------------------------------------------------------------------
-- All pins
-- ---------------------------------------------------------------------------

namespace Gpiote

/-- A wait is started on a pin that has no bit left behind, or already has the level, or
of which `on_irq` has disabled the SENSE and is about to write the bit. -/
def Clean (s : Gpiote Task) (a : GpioteAction Task) : Prop :=
  ∀ p level, a = .wait p level → (s.pin p).latch = false ∨ (s.pin p).level = level ∨
    p ∈ s.onIrq.bits ∧ p ∉ s.onIrq.pending

def Inv (s : Gpiote Task) : Prop := ∀ p, PinInv s.onIrq p (s.pin p)

variable {ports : List (List Nat)} {s s' : Gpiote Task} {a : GpioteAction Task}

theorem inv_init (level : Nat → Bool) : (init level : Gpiote Task).Inv := fun p => .init (level p)

/-- A step of one pin leaves the others as they were. -/
theorem Inv.set (hI : s.Inv) {p : Nat} {q : PortPin Task} (hq : PinInv s.onIrq p q) :
    (s.set p q).Inv :=
  (Function.forall_update_iff s.pin (PinInv s.onIrq)).mpr ⟨hq, fun p' _ => hI p'⟩

/-- The handler goes on with the bits that it has read. -/
theorem Inv.moved {h : OnIrq} {woken : List Task} {eventsPort : Bool} (hI : s.Inv)
    (hBits : h.bits = s.onIrq.bits) (hPending : ∀ p ∈ h.pending, p ∈ s.onIrq.pending) :
    Inv ⟨s.pin, eventsPort, h, woken⟩ := fun p => (hI p).moved hBits (hPending p)

/-- The handler keeps the invariant in each of its steps. -/
theorem Inv.handle (hI : s.Inv) (hs : s.handle ports s.onIrq = some s') : s'.Inv := by
  -- only `disable` changes a pin; the other points only read or go on
  cases hPc : s.onIrq with
  | out =>
    rw [hPc] at hs
    cases hs
  | checkEvent =>
    rw [hPc] at hs
    cases hs
    cases s.eventsPort <;> exact hI.moved (by rw [hPc]; rfl) fun _ hp => nomatch hp
  | clearEvent =>
    rw [hPc] at hs
    cases hs
    exact hI.moved (by rw [hPc]; rfl) fun _ hp => nomatch hp
  | readLatch left =>
    rw [hPc] at hs
    cases left with
    | nil =>
      cases hs
      exact hI.moved (by rw [hPc]; rfl) fun _ hp => nomatch hp
    | cons port rest =>
      cases hs
      intro p
      refine (hI p).readLatch (by rw [hPc]; rfl) rfl fun hp => ?_
      -- the bits read are the pins whose `LATCH` is set
      exact of_decide_eq_true (by simpa using (List.mem_filter.mp hp).2)
  | disable bits left rest =>
    rw [hPc] at hs
    cases left with
    | nil =>
      cases hs
      exact hI.moved (by rw [hPc]; rfl) fun _ hp => nomatch hp
    | cons p left =>
      cases hs
      -- the bits read stay, the pin handled is the first of those pending
      have hSame : (OnIrq.wake bits p left rest).bits = s.onIrq.bits := by
        rw [hPc]
        rfl
      have hRest : ∀ p' ∈ (OnIrq.wake bits p left rest).pending, p' ∈ s.onIrq.pending := by
        rw [hPc]
        exact fun p' hp' => List.mem_cons_of_mem p hp'
      have hFirst : p ∈ s.onIrq.pending := by
        rw [hPc]
        exact List.mem_cons_self
      exact (Function.forall_update_iff s.pin (PinInv (.wake bits p left rest))).mpr
        ⟨(hI p).disable hFirst hSame (hRest p), fun p' _ => (hI p').moved hSame (hRest p')⟩
  | wake bits p left rest =>
    rw [hPc] at hs
    cases hs
    exact hI.moved (by rw [hPc]; rfl) (by rw [hPc]; exact fun _ hp => hp)
  | writeLatch bits rest =>
    rw [hPc] at hs
    cases hs
    intro p
    have hWritten : PinInv (.readLatch rest) p _ := (hI p).writeLatch rfl rfl
    rw [hPc] at hWritten
    exact hWritten

/-- Every step keeps the invariant, of a run whose latches are clean. -/
theorem inv_step (hI : s.Inv) (hClean : s.Clean a) (hs : s.step ports a = some s') : s'.Inv := by
  cases a with
  | level p b =>
    cases hs
    exact hI.set ((hI p).setLevel b)
  -- the condition: the new wait finds no old `LATCH`
  | wait p level =>
    obtain ⟨-, hs⟩ := Option.ite_none_right_eq_some.mp hs
    cases hs
    exact hI.set ((hI p).wait (hClean p level rfl))
  | poll p w =>
    obtain ⟨-, hs⟩ := Option.ite_none_right_eq_some.mp hs
    cases hs
    exact hI.set ((hI p).register w)
  | check p =>
    obtain ⟨f, hf, rfl⟩ := Option.map_eq_some_iff.mp hs
    exact hI.set ((hI p).check hf)
  | drop p =>
    obtain ⟨-, hs⟩ := Option.ite_none_right_eq_some.mp hs
    cases hs
    exact hI.set (hI p).drop
  | interrupt =>
    obtain ⟨hOut, hs⟩ := Option.ite_none_right_eq_some.mp hs
    cases hs
    exact hI.moved (by rw [hOut]; rfl) fun _ hp => nomatch hp
  | handle => exact hI.handle hs

/-- A wait for low completes at once and is dropped. The interrupt then completes the
wait for high that follows, on a pin that is low all the time. -/
theorem ready_not_seen : ¬∀ (ports : List (List Nat)) (level : Nat → Bool) (s : Gpiote Nat),
    Run (step ports) (fun _ _ => True) (init level) s →
      ∀ p, ∀ f ∈ (s.pin p).future, f.ready = true → f.seen = true := by
  intro hAll
  obtain ⟨s, hRun, hFuture⟩ : ∃ s : Gpiote Nat,
      Run (step [[0, 1]]) (fun _ _ => True) (init fun _ => false) s ∧
        (s.pin 0).future = some ⟨true, true, false⟩ := by
    have hRun : Run (step [[0, 1]]) (fun _ _ => True) (init fun _ => false : Gpiote Nat) _ :=
      Run.execOk_get _ [.wait 0 false, .drop 0, .wait 0 true, .poll 0 7, .check 0, .interrupt,
        .handle, .handle, .handle, .handle, .handle, .poll 0 7, .check 0] (by decide +kernel)
    exact ⟨_, hRun, by decide +kernel⟩
  exact nomatch hAll _ _ s hRun 0 _ hFuture rfl

/--
**A wait completes only for its own level.** Whatever the levels, the order of all steps
and the ports, as long as no wait is started on a pin with a bit left behind: a future
returned `Ready` only if its pin had the level at some moment since it was created.
-/
theorem ready_seen {level : Nat → Bool} (hRun : Run (step ports) Clean (init level) s) (p : Nat) :
    ∀ f ∈ (s.pin p).future, f.ready = true → f.seen = true :=
  (hRun.invariant (I := Inv) (inv_init level)
    (fun _ _ _ hI hClean hs => inv_step hI hClean hs) p).ready

instance (s : Gpiote Task) (a : GpioteAction Task) : Decidable (s.Clean a) :=
  match a with
  | .wait p level => decidable_of_iff ((s.pin p).latch = false ∨ (s.pin p).level = level ∨
      p ∈ s.onIrq.bits ∧ p ∉ s.onIrq.pending) (by unfold Clean; simp)
  | .level .. | .poll .. | .check _ | .drop _ | .interrupt | .handle =>
    isTrue (by unfold Clean; simp)

/-- A wait for high completes when the level has changed, although it is started before
the bit of a wait for low is written. -/
theorem ready_seen_high : ∃ s : Gpiote Nat, Run (step [[0, 1]]) Clean (init fun _ => false) s ∧
    (s.pin 0).future = some ⟨true, true, true⟩ ∧
      ∀ f ∈ (s.pin 0).future, f.ready = true → f.seen = true := by
  have hRun : Run (step [[0, 1]]) Clean (init fun _ => false : Gpiote Nat) _ :=
    Run.execOk_get _ [.wait 0 false, .interrupt, .handle, .handle, .handle, .handle, .drop 0,
      .wait 0 true, .handle, .handle, .handle, .handle, .poll 0 7, .check 0, .level 0 true,
      .interrupt, .handle, .handle, .handle, .handle, .handle, .handle, .poll 0 7, .check 0]
      (by decide +kernel)
  exact ⟨_, hRun, by decide +kernel, ready_seen hRun 0⟩

end Gpiote

end Embassy.Nrf
