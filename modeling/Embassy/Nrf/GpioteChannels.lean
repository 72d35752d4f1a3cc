import Mathlib.Logic.Function.Basic
import Mathlib.Data.List.FinRange
import Mathlib.Data.Fintype.Basic
import Embassy.Lib.Run
import Embassy.Util.Waker

/-!
# Waiting for the edge of a pin

`embassy-nrf/src/gpiote.rs`, the channels. A channel in event mode raises its EVENTS_IN
at the edges that its polarity names. `wait` resets the event, enables the interrupt of
the channel, and is completed by the event. `on_irq` does not reset the event, which the
future has yet to see: it disables the interrupt of the channel, and wakes the task.

So whether the task is woken for an edge depends on who enables the interrupt after whom.
A task that preempts `on_irq` after it has read the event, and starts a new wait on the
channel, enables an interrupt that `on_irq` disables again.

The waits are told apart by numbers of any kind; nothing in the types keeps a channel from
having two of them. The port event, which `on_irq` looks at last, does not touch the channels.

Main results:

* `ready_after_edge` — a wait completes only after an edge, in any run.
* `edge_wakes` — an edge is not lost on a wait, whatever the order of the steps, if a
  channel has one wait at a time and none is started in the middle of `on_irq`.
* `edge_lost` — the second condition is needed.
-/

namespace Embassy.Nrf

open Embassy.Lib Embassy.Util

abbrev CHANNEL_COUNT : Nat := 8

inductive InputChannelPolarity where
  | none
  | hiToLo
  | loToHi
  | toggle
  deriving DecidableEq, Repr

/-- The change of the level is an edge for the channel. -/
def InputChannelPolarity.edge : InputChannelPolarity → Bool → Bool → Bool
  | .none, _, _ => false
  | .hiToLo, old, new => old && !new
  | .loToHi, old, new => !old && new
  | .toggle, old, new => old != new

/-- How far `InputChannel::new` or its `drop` has come. -/
inductive ChannelDriver where
  | absent
  | creating
  | present
  | dropping
  deriving DecidableEq, Repr

/-- The registers of a channel, its pin and its waker. -/
structure InputChannel (Task : Type) where
  driver : ChannelDriver
  /-- The level at the pin, `true` for high. -/
  level : Bool
  /-- `config[num]`, of which the mode is `event` or `disabled`. -/
  config : Option InputChannelPolarity
  eventsIn : Bool
  /-- The bit of INTENSET and INTENCLR -/
  inten : Bool
  /-- In `CHANNEL_WAKERS` -/
  waker : AtomicWaker Task
  deriving DecidableEq, Repr

/-- The next step of `wait`, or what became of it. -/
inductive WaitPc where
  /-- `g.events_in[num].reset()`, in the first poll. -/
  | reset
  /-- `g.intenset.write(…)` -/
  | enable
  /-- `CHANNEL_WAKERS[num].register(cx.waker())`, still in the first poll. -/
  | register
  /-- `if g.events_in[num].read().bits() != 0` -/
  | check
  /-- The last poll was pending. -/
  | pending
  | ready
  deriving DecidableEq, Repr

/-- The future of a `wait`. -/
structure ChannelWait (Task : Type) where
  num : Fin CHANNEL_COUNT
  pc : WaitPc
  /-- There was an edge since the event was reset. -/
  seen : Bool
  /-- The task that polled it last. -/
  task : Option Task
  /-- This task was woken since. -/
  awake : Bool
  deriving DecidableEq, Repr

/-- The next step of `on_irq`, with the channels that are left. -/
inductive OnChannels where
  | out
  /-- `if g.events_in[i].read().bits() != 0` -/
  | check (left : List (Fin CHANNEL_COUNT))
  /-- `g.intenclr.write(…)` -/
  | disable (i : Fin CHANNEL_COUNT) (left : List (Fin CHANNEL_COUNT))
  /-- `CHANNEL_WAKERS[i].wake()` -/
  | wake (i : Fin CHANNEL_COUNT) (left : List (Fin CHANNEL_COUNT))
  deriving DecidableEq, Repr

structure GpioteChannels (Task N : Type) where
  channel : Fin CHANNEL_COUNT → InputChannel Task
  wait : N → Option (ChannelWait Task)
  onIrq : OnChannels

inductive ChannelAction (Task N : Type) where
  /-- The level at the pin of a channel changes. -/
  | level (i : Fin CHANNEL_COUNT) (b : Bool)
  /-- `InputChannel::new` writes the configuration, and resets the event. -/
  | configure (i : Fin CHANNEL_COUNT) (polarity : InputChannelPolarity)
  | created (i : Fin CHANNEL_COUNT)
  /-- `InputChannel::drop` disables the mode, and the interrupt. -/
  | unconfigure (i : Fin CHANNEL_COUNT)
  | dropped (i : Fin CHANNEL_COUNT)
  /-- A future is created. -/
  | wait (n : N) (i : Fin CHANNEL_COUNT)
  /-- A poll with the waker of a task does its next step. -/
  | poll (n : N) (w : Task)
  | drop (n : N)
  /-- The interrupt is entered, for a channel or for the port event. -/
  | interrupt
  /-- `on_irq` goes on. -/
  | handle
  deriving DecidableEq, Repr

variable {Task N : Type}

namespace InputChannel

def init (level : Bool) : InputChannel Task where
  driver := .absent
  level := level
  config := none
  eventsIn := false
  inten := false
  waker := .new

/-- The change of the level raises the event. -/
def edge (c : InputChannel Task) (b : Bool) : Bool := c.config.any fun p => p.edge c.level b

def setLevel (c : InputChannel Task) (b : Bool) : InputChannel Task :=
  { c with level := b, eventsIn := c.eventsIn || c.edge b }

/-- The channel holds the interrupt pending. -/
def Pends (c : InputChannel Task) : Prop := c.eventsIn = true ∧ c.inten = true

instance (c : InputChannel Task) : Decidable c.Pends := inferInstanceAs (Decidable (_ ∧ _))

end InputChannel

namespace ChannelWait

def new (i : Fin CHANNEL_COUNT) : ChannelWait Task where
  num := i
  pc := .reset
  seen := false
  task := none
  awake := false

/-- The next step of the poll, on the registers of its channel. -/
def poll (f : ChannelWait Task) (c : InputChannel Task) (w : Task) :
    Option (ChannelWait Task × InputChannel Task) :=
  match f.pc with
  | .reset => some ({ f with pc := .enable, seen := false }, { c with eventsIn := false })
  | .enable => some ({ f with pc := .register }, { c with inten := true })
  | .register | .pending =>
    some ({ f with pc := .check, task := some w, awake := false },
      { c with waker := c.waker.register w })
  | .check => some ({ f with pc := if c.eventsIn then .ready else .pending }, c)
  | .ready => none

/-- An edge at the pin of channel `i`. -/
def onEdge (i : Fin CHANNEL_COUNT) (edge : Bool) (f : ChannelWait Task) : ChannelWait Task :=
  { f with seen := f.seen || (edge && f.num == i) }

/-- Tasks are woken. -/
def onWake [DecidableEq Task] (woken : List Task) (f : ChannelWait Task) : ChannelWait Task :=
  { f with awake := f.awake || f.task.any (· ∈ woken) }

/-- It is not in the middle of a poll. -/
def parked (f : ChannelWait Task) : Bool :=
  match f.pc with
  | .reset | .pending | .ready => true
  | .enable | .register | .check => false

/-- It has reset the event, and has not seen it yet. -/
def armed (f : ChannelWait Task) : Bool :=
  match f.pc with
  | .enable | .register | .check | .pending => true
  | .reset | .ready => false

/-- It has enabled the interrupt, and has not seen the event yet. -/
def enabled (f : ChannelWait Task) : Bool :=
  match f.pc with
  | .register | .check | .pending => true
  | .reset | .enable | .ready => false

/-- Its task is registered. -/
def registered (f : ChannelWait Task) : Bool :=
  match f.pc with
  | .check | .pending => true
  | .reset | .enable | .register | .ready => false

end ChannelWait

namespace OnChannels

/-- The channel of which the event was read, and the interrupt is about to be disabled. -/
def disables : OnChannels → Option (Fin CHANNEL_COUNT)
  | .disable i _ => some i
  | .out | .check _ | .wake .. => none

/-- The channel of which the interrupt was disabled, and the waker is about to be woken. -/
def wakes : OnChannels → Option (Fin CHANNEL_COUNT)
  | .wake i _ => some i
  | .out | .check _ | .disable .. => none

/-- The channels that it is at, or will come to. -/
def coming : OnChannels → List (Fin CHANNEL_COUNT)
  | .out => []
  | .check left => left
  | .disable i left | .wake i left => i :: left

/-- The steps that are left. -/
def work : OnChannels → Nat
  | .out => 0
  | .check left => 3 * left.length + 1
  | .disable _ left => 3 * left.length + 3
  | .wake _ left => 3 * left.length + 2

end OnChannels

namespace GpioteChannels

/-- After `initialize`. -/
def init (level : Fin CHANNEL_COUNT → Bool) : GpioteChannels Task N where
  channel := fun i => .init (level i)
  wait := fun _ => none
  onIrq := .out

def setChannel (s : GpioteChannels Task N) (i : Fin CHANNEL_COUNT) (c : InputChannel Task) :
    GpioteChannels Task N :=
  { s with channel := Function.update s.channel i c }

def handle [DecidableEq Task] (s : GpioteChannels Task N) :
    OnChannels → Option (GpioteChannels Task N)
  | .out => none
  | .check [] => some { s with onIrq := .out }
  | .check (i :: left) =>
    some { s with onIrq := if (s.channel i).eventsIn then .disable i left else .check left }
  | .disable i left =>
    some { s.setChannel i { s.channel i with inten := false } with onIrq := .wake i left }
  | .wake i left =>
    some { s with
      wait := fun n => (s.wait n).map (.onWake (s.channel i).waker.wake)
      onIrq := .check left }

variable [DecidableEq N]

def setWait (s : GpioteChannels Task N) (n : N) (f : Option (ChannelWait Task)) :
    GpioteChannels Task N :=
  { s with wait := Function.update s.wait n f }

def poll (s : GpioteChannels Task N) (n : N) (w : Task) (f : ChannelWait Task) :
    Option (GpioteChannels Task N) :=
  (f.poll (s.channel f.num) w).map fun r => (s.setWait n (some r.1)).setChannel f.num r.2

def step [DecidableEq Task] (s : GpioteChannels Task N) :
    ChannelAction Task N → Option (GpioteChannels Task N)
  | .level i b =>
    some { s.setChannel i ((s.channel i).setLevel b) with
      wait := fun n => (s.wait n).map (.onEdge i ((s.channel i).edge b)) }
  | .configure i polarity =>
    if (s.channel i).driver = .absent then
      some (s.setChannel i { s.channel i with driver := .creating, config := some polarity })
    else none
  | .created i =>
    if (s.channel i).driver = .creating then
      some (s.setChannel i { s.channel i with driver := .present, eventsIn := false })
    else none
  | .unconfigure i =>
    if (s.channel i).driver = .present then
      some (s.setChannel i { s.channel i with driver := .dropping, config := none })
    else none
  | .dropped i =>
    if (s.channel i).driver = .dropping then
      some (s.setChannel i { s.channel i with driver := .absent, inten := false })
    else none
  | .wait n i =>
    if s.wait n = none ∧ (s.channel i).driver = .present then some (s.setWait n (some (.new i)))
    else none
  | .poll n w => (s.wait n).bind (s.poll n w)
  | .drop n => if (s.wait n).any (·.parked) then some (s.setWait n none) else none
  | .interrupt =>
    if s.onIrq = .out then some { s with onIrq := .check (List.finRange CHANNEL_COUNT) } else none
  | .handle => s.handle s.onIrq

end GpioteChannels

-- ---------------------------------------------------------------------------
-- One wait
-- ---------------------------------------------------------------------------

/-- What holds of a wait, at the registers of its channel and the next step of `on_irq`. -/
structure WaitInv (h : OnChannels) (c : InputChannel Task) (f : ChannelWait Task) : Prop where
  present : c.driver = .present
  event : f.armed = true → c.eventsIn = f.seen
  disables : f.enabled = true → h.disables = some f.num → f.seen = true
  inten : f.enabled = true → f.seen = false → c.inten = true
  waker : f.registered = true → ∃ w, f.task = some w ∧ c.waker.waker = some w
  wakes : f.pc = .pending → f.seen = true → f.awake = true ∨ c.inten = true ∨ h.wakes = some f.num

namespace ChannelWait

variable {f : ChannelWait Task}

/-- The event is reset before the interrupt is enabled. -/
theorem armed_of_enabled (h : f.enabled = true) : f.armed = true := by
  unfold enabled at h
  unfold armed
  cases hPc : f.pc <;> rw [hPc] at h <;> first | rfl | exact nomatch h

/-- The interrupt is enabled before the waker is registered. -/
theorem enabled_of_registered (h : f.registered = true) : f.enabled = true := by
  unfold registered at h
  unfold enabled
  cases hPc : f.pc <;> rw [hPc] at h <;> first | rfl | exact nomatch h

/-- A pending wait has registered its waker. -/
theorem registered_of_pending (h : f.pc = .pending) : f.registered = true := by
  unfold registered
  rw [h]

/-- A poll keeps the channel, and after the reset it goes on only if it was armed. -/
theorem poll_spec {c : InputChannel Task} {w : Task} {r : ChannelWait Task × InputChannel Task}
    (hs : f.poll c w = some r) :
    r.1.num = f.num ∧ r.2.driver = c.driver ∧ (f.pc = .reset ∨ f.armed = true) := by
  unfold poll at hs
  unfold armed
  cases hPc : f.pc <;> rw [hPc] at hs <;> cases hs
  · exact ⟨rfl, rfl, .inl rfl⟩
  all_goals exact ⟨rfl, rfl, .inr rfl⟩

/-- A poll may reset the event, and completes by it. -/
theorem poll_seen {c : InputChannel Task} {w : Task} {r : ChannelWait Task × InputChannel Task}
    (hSeen : f.armed = true → c.eventsIn = true → f.seen = true) (hs : f.poll c w = some r) :
    (r.2.eventsIn = true → c.eventsIn = true) ∧
      (r.1.armed = true → r.2.eventsIn = true → r.1.seen = true) ∧
      (r.1.pc = .ready → r.1.seen = true) := by
  unfold poll at hs
  unfold armed at hSeen
  cases hPc : f.pc <;> rw [hPc] at hs hSeen <;> cases hs
  case reset => exact ⟨(nomatch ·), fun _ => (nomatch ·), (nomatch ·)⟩
  case check =>
    refine ⟨id, fun _ => hSeen rfl, fun hReady => hSeen rfl ?_⟩
    cases hEvent : c.eventsIn with
    | true => rfl
    | false =>
      simp only [hEvent] at hReady
      exact nomatch hReady
  all_goals exact ⟨id, fun _ => hSeen rfl, (nomatch ·)⟩

/-- An edge at another pin. -/
theorem onEdge_of_ne {i : Fin CHANNEL_COUNT} (h : f.num ≠ i) (edge : Bool) :
    f.onEdge i edge = f := by
  -- The flag is set only for the wait's own channel.
  have hNe : (f.num == i) = false := beq_false_of_ne h
  unfold onEdge
  rw [hNe, Bool.and_false, Bool.or_false]

end ChannelWait

namespace WaitInv

variable {h h' : OnChannels} {c c' : InputChannel Task} {f f' : ChannelWait Task}
  {i : Fin CHANNEL_COUNT}

/-- A wait that is not armed takes no notice. -/
theorem idle (hDriver : c.driver = .present) (hIdle : f.armed = false) : WaitInv h c f := by
  have hNot : ¬f.armed = true := ne_true_of_eq_false hIdle
  have hNot' : ¬f.enabled = true := fun hEnabled => hNot (ChannelWait.armed_of_enabled hEnabled)
  have hNot'' : ¬f.registered = true :=
    fun hReg => hNot' (ChannelWait.enabled_of_registered hReg)
  exact ⟨hDriver, fun hArmed => absurd hArmed hNot, fun hEnabled => absurd hEnabled hNot',
    fun hEnabled => absurd hEnabled hNot', fun hReg => absurd hReg hNot'',
    fun hPc => absurd (ChannelWait.registered_of_pending hPc) hNot''⟩

/-- The pin of its channel changes. -/
theorem setLevel (hI : WaitInv h c f) (b : Bool) :
    WaitInv h (c.setLevel b) (f.onEdge f.num (c.edge b)) := by
  have hSeen : (f.onEdge f.num (c.edge b)).seen = (f.seen || c.edge b) := by
    unfold ChannelWait.onEdge
    rw [beq_self_eq_true, Bool.and_true]
  have hMono : f.seen = true → (f.onEdge f.num (c.edge b)).seen = true := by
    intro hOld
    rw [hSeen, hOld, Bool.true_or]
  refine ⟨hI.present, fun hArmed => ?_, fun hEnabled hDis => hMono (hI.disables hEnabled hDis),
    fun hEnabled hNot => ?_, hI.waker, fun hPc _ => ?_⟩
  · rw [hSeen, ← hI.event hArmed]
    rfl
  · refine hI.inten hEnabled ?_
    rw [hSeen] at hNot
    exact (Bool.or_eq_false_iff.mp hNot).1
  · -- The first edge finds the interrupt enabled.
    by_cases hOld : f.seen = true
    · exact hI.wakes hPc hOld
    · have hEnabled : f.enabled = true :=
        ChannelWait.enabled_of_registered (ChannelWait.registered_of_pending hPc)
      exact .inr (.inl (hI.inten hEnabled (eq_false_of_ne_true hOld)))

/-- A poll does its next step. -/
theorem poll {w : Task} (hI : WaitInv h c f) (hOk : f.pc = .enable → h.disables ≠ some f.num)
    (hs : f.poll c w = some (f', c')) : WaitInv h c' f' := by
  unfold ChannelWait.poll at hs
  -- one statement of the wait's poll
  cases hPc : f.pc with
  | reset =>
    rw [hPc] at hs
    cases hs
    exact ⟨hI.present, fun _ => rfl, (nomatch ·), (nomatch ·), (nomatch ·), (nomatch ·)⟩
  | enable =>
    rw [hPc] at hs
    cases hs
    have hEvent := hI.event (by rw [ChannelWait.armed, hPc])
    exact ⟨hI.present, fun _ => hEvent, fun _ hDis => absurd hDis (hOk hPc), fun _ _ => rfl,
      (nomatch ·), (nomatch ·)⟩
  | register =>
    rw [hPc] at hs
    cases hs
    have hEnabled : f.enabled = true := by rw [ChannelWait.enabled, hPc]
    exact ⟨hI.present, fun _ => hI.event (ChannelWait.armed_of_enabled hEnabled),
      fun _ => hI.disables hEnabled, fun _ => hI.inten hEnabled, fun _ => ⟨w, rfl, rfl⟩,
      (nomatch ·)⟩
  | check =>
    rw [hPc] at hs
    cases hs
    have hReg : f.registered = true := by rw [ChannelWait.registered, hPc]
    have hEnabled := ChannelWait.enabled_of_registered hReg
    have hEvent := hI.event (ChannelWait.armed_of_enabled hEnabled)
    cases hNow : c.eventsIn with
    | true => exact .idle hI.present rfl
    | false =>
      -- not seen yet: the wait is pending with its waker in place
      have hNot : f.seen = false := hEvent.symm.trans hNow
      exact ⟨hI.present, fun _ => hEvent, fun _ => hI.disables hEnabled,
        fun _ => hI.inten hEnabled, fun _ => hI.waker hReg,
        fun _ hSeen => nomatch hNot.symm.trans hSeen⟩
  | pending =>
    rw [hPc] at hs
    cases hs
    have hEnabled : f.enabled = true := by rw [ChannelWait.enabled, hPc]
    exact ⟨hI.present, fun _ => hI.event (ChannelWait.armed_of_enabled hEnabled),
      fun _ => hI.disables hEnabled, fun _ => hI.inten hEnabled, fun _ => ⟨w, rfl, rfl⟩,
      (nomatch ·)⟩
  | ready =>
    rw [hPc] at hs
    cases hs

/-- `on_irq` goes on, and leaves the channel alone. -/
theorem moved (hI : WaitInv h c f)
    (hDis : h'.disables = some f.num → h.disables = some f.num ∨ c.eventsIn = true)
    (hWakes : h.wakes = some f.num → h'.wakes = some f.num) : WaitInv h' c f where
  present := hI.present
  event := hI.event
  disables := by
    intro hEnabled hNow
    -- It goes to disable an interrupt only where it has found the event.
    rcases hDis hNow with hBefore | hEvent
    · exact hI.disables hEnabled hBefore
    · exact (hI.event (ChannelWait.armed_of_enabled hEnabled)).symm.trans hEvent
  inten := hI.inten
  waker := hI.waker
  wakes := fun hPc hSeen => (hI.wakes hPc hSeen).imp_right (.imp_right hWakes)

/-- `on_irq` disables the interrupt of its channel. -/
theorem disable {left : List (Fin CHANNEL_COUNT)} (hI : WaitInv (.disable f.num left) c f) :
    WaitInv (.wake f.num left) { c with inten := false } f where
  present := hI.present
  event := hI.event
  disables := fun _ hDis => nomatch hDis
  inten := fun hEnabled hNot => nomatch hNot.symm.trans (hI.disables hEnabled rfl)
  waker := hI.waker
  wakes := fun _ _ => .inr (.inr rfl)

/-- Being woken changes nothing but whether the wait is awake. -/
theorem onWake [DecidableEq Task] (hI : WaitInv h c f) (woken : List Task) :
    WaitInv h c (f.onWake woken) where
  present := hI.present
  event := hI.event
  disables := hI.disables
  inten := hI.inten
  waker := hI.waker
  wakes := fun hPc hSeen =>
    (hI.wakes hPc hSeen).imp_left fun hAwake => Bool.or_eq_true_iff.mpr (.inl hAwake)

/-- `on_irq` wakes the task that waits on its channel. -/
theorem wake [DecidableEq Task] {left : List (Fin CHANNEL_COUNT)}
    (hI : WaitInv (.wake f.num left) c f) :
    WaitInv (.check left) c (f.onWake c.waker.wake) where
  present := hI.present
  event := hI.event
  disables := fun _ hDis => nomatch hDis
  inten := hI.inten
  waker := hI.waker
  wakes := by
    intro hPc _
    obtain ⟨w, hTask, hWaker⟩ := hI.waker (ChannelWait.registered_of_pending hPc)
    have hIn : f.task.any (· ∈ c.waker.wake) = true := by
      rw [hTask, AtomicWaker.wake, hWaker]
      simp
    exact .inl (Bool.or_eq_true_iff.mpr (.inr hIn))

end WaitInv

-- ---------------------------------------------------------------------------
-- All waits
-- ---------------------------------------------------------------------------

namespace GpioteChannels

/-- What the callers see to. The driver of a channel outlives its waits, which borrow it. No
wait is started on a channel that has another one under way; and none enables the interrupt
that `on_irq` is about to disable. -/
def Ok (s : GpioteChannels Task N) : ChannelAction Task N → Prop
  | .unconfigure i => ∀ n, ∀ f ∈ s.wait n, f.num ≠ i
  | .poll n _ => ∀ f ∈ s.wait n,
      (f.pc = .reset → ∀ m, m ≠ n → ∀ g ∈ s.wait m, g.num = f.num → g.armed = false) ∧
      (f.pc = .enable → s.onIrq.disables ≠ some f.num)
  | _ => True

structure Inv (s : GpioteChannels Task N) : Prop where
  wait : ∀ n, ∀ f ∈ s.wait n, WaitInv s.onIrq (s.channel f.num) f
  /-- A channel has one wait at a time. -/
  one : ∀ n m, ∀ f ∈ s.wait n, ∀ g ∈ s.wait m, g.num = f.num →
    f.armed = true → g.armed = true → m = n

theorem inv_init (level : Fin CHANNEL_COUNT → Bool) : (init level : GpioteChannels Task N).Inv where
  wait := fun _ _ hf => nomatch hf
  one := fun _ _ _ hf => nomatch hf

variable {s s' : GpioteChannels Task N} {i : Fin CHANNEL_COUNT}

@[simp]
theorem setChannel_self (c : InputChannel Task) : (s.setChannel i c).channel i = c := by
  simp [setChannel]

theorem setChannel_of_ne {j : Fin CHANNEL_COUNT} (h : j ≠ i) (c : InputChannel Task) :
    (s.setChannel i c).channel j = s.channel j := by
  simp [setChannel, h]

/-- A channel changes that no wait is on. -/
theorem Inv.setChannel (hI : s.Inv) (c : InputChannel Task)
    (hNone : ∀ n, ∀ f ∈ s.wait n, f.num ≠ i) : (s.setChannel i c).Inv where
  wait := by
    intro n f hf
    rw [setChannel_of_ne (hNone n f hf)]
    exact hI.wait n f hf
  one := hI.one

/-- A driver is created or dropped when no wait is on it. -/
theorem Inv.noWait (hI : s.Inv) (hDriver : (s.channel i).driver ≠ .present) :
    ∀ n, ∀ f ∈ s.wait n, f.num ≠ i := by
  rintro n f hf rfl
  exact hDriver (hI.wait n f hf).present

/-- The waits change one by one, and stay as armed as they were. -/
theorem Inv.map {g : ChannelWait Task → ChannelWait Task} {h : OnChannels}
    {channel : Fin CHANNEL_COUNT → InputChannel Task} (hI : s.Inv)
    (hNum : ∀ f, (g f).num = f.num) (hArmed : ∀ f, (g f).armed = f.armed)
    (hWait : ∀ n, ∀ f ∈ s.wait n, WaitInv h (channel f.num) (g f)) :
    Inv ⟨channel, fun n => (s.wait n).map g, h⟩ where
  wait := by
    intro n f hf
    obtain ⟨f₀, hf₀, rfl⟩ := Option.map_eq_some_iff.mp hf
    show WaitInv h (channel (g f₀).num) (g f₀)
    rw [hNum]
    exact hWait n f₀ hf₀
  one := by
    intro n m f hf f' hf' hSame hA hA'
    obtain ⟨f₀, hf₀, rfl⟩ := Option.map_eq_some_iff.mp hf
    obtain ⟨f₁, hf₁, rfl⟩ := Option.map_eq_some_iff.mp hf'
    rw [hNum, hNum] at hSame
    exact hI.one n m f₀ hf₀ f₁ hf₁ hSame (hArmed f₀ ▸ hA) (hArmed f₁ ▸ hA')

/-- `on_irq` goes on, and leaves all channels alone. -/
theorem Inv.moved {h : OnChannels} (hI : s.Inv)
    (hDis : ∀ i, h.disables = some i → s.onIrq.disables = some i ∨ (s.channel i).eventsIn = true)
    (hWakes : ∀ i, s.onIrq.wakes = some i → h.wakes = some i) :
    Inv { s with onIrq := h } where
  wait := fun n f hf => (hI.wait n f hf).moved (hDis f.num) (hWakes f.num)
  one := hI.one

/-- The handler keeps the invariant in each of its steps. -/
theorem Inv.handle [DecidableEq Task] (hI : s.Inv) (hs : s.handle s.onIrq = some s') : s'.Inv := by
  cases hPc : s.onIrq with
  | out =>
    rw [hPc] at hs
    cases hs
  | check left =>
    rw [hPc] at hs
    cases left with
    | nil =>
      cases hs
      exact hI.moved (fun _ hDis => nomatch hDis) fun _ hWakes => by
        rw [hPc] at hWakes
        cases hWakes
    | cons i left =>
      cases hs
      refine hI.moved (fun j hDis => ?_) fun _ hWakes => by rw [hPc] at hWakes; cases hWakes
      -- the channel is passed unless its event is set
      cases hEvent : (s.channel i).eventsIn with
      | false =>
        rw [hEvent] at hDis
        cases hDis
      | true =>
        rw [hEvent] at hDis
        cases hDis
        exact .inr hEvent
  | disable i left =>
    rw [hPc] at hs
    cases hs
    refine ⟨fun n f hf => ?_, hI.one⟩
    have hW := hI.wait n f hf
    rw [hPc] at hW
    by_cases hNum : f.num = i
    · -- Of all waits, those on the channel are concerned.
      subst hNum
      rw [setChannel_self]
      exact hW.disable
    · rw [setChannel_of_ne hNum]
      exact hW.moved (fun hDis => nomatch hDis) fun hWakes => nomatch hWakes
  | wake i left =>
    rw [hPc] at hs
    cases hs
    -- the wake goes to the waker of this channel
    refine hI.map (fun _ => rfl) (fun _ => rfl) fun n f hf => ?_
    have hW := hI.wait n f hf
    rw [hPc] at hW
    by_cases hNum : f.num = i
    · subst hNum
      exact hW.wake
    · refine (hW.onWake _).moved (fun hDis => nomatch hDis) fun hWakes => ?_
      exact absurd (Option.some.inj hWakes).symm hNum

variable [DecidableEq N] {a : ChannelAction Task N}

/-- A poll looks only at its own channel. -/
theorem Inv.poll {n : N} {w : Task} {f : ChannelWait Task} (hI : s.Inv) (hf : f ∈ s.wait n)
    (hOk : s.Ok (.poll n w)) (hs : s.poll n w f = some s') : s'.Inv := by
  obtain ⟨⟨f', c'⟩, hPoll, rfl⟩ := Option.map_eq_some_iff.mp hs
  obtain ⟨hReset, hEnable⟩ := hOk f hf
  have hWait : WaitInv s.onIrq c' f' := (hI.wait n f hf).poll hEnable hPoll
  obtain ⟨hNum, hDriver, hArmed⟩ := ChannelWait.poll_spec hPoll
  -- The others on the channel are not armed.
  have hOthers : ∀ m, m ≠ n → ∀ g ∈ s.wait m, g.num = f.num → g.armed = false := by
    intro m hm g hg hSame
    rcases hArmed with hPc | hBefore
    · exact hReset hPc m hm g hg hSame
    · exact eq_false_of_ne_true fun hNow => hm (hI.one n m f hf g hg hSame hBefore hNow)
  refine ⟨(Function.forall_update_iff s.wait fun _ o => ∀ g ∈ o, WaitInv s.onIrq
    (Function.update s.channel f.num c' g.num) g).mpr ⟨?_, fun m hm g hg => ?_⟩, ?_⟩
  · rintro g ⟨⟩
    rw [hNum, Function.update_self]
    exact hWait
  · by_cases hSame : g.num = f.num
    · rw [hSame, Function.update_self]
      exact .idle (hDriver.trans (hI.wait n f hf).present) (hOthers m hm g hg hSame)
    · rw [Function.update_of_ne hSame]
      exact hI.wait m g hg
  · intro m m' g hg g' hg' hSame hA hA'
    replace hg : g ∈ Function.update s.wait n (some f') m := hg
    replace hg' : g' ∈ Function.update s.wait n (some f') m' := hg'
    by_cases hm : m = n
    · by_cases hm' : m' = n
      · rw [hm, hm']
      · subst hm
        rw [Function.update_self] at hg
        cases hg
        rw [Function.update_of_ne hm'] at hg'
        exact nomatch (hOthers m' hm' g' hg' (hSame.trans hNum)).symm.trans hA'
    · rw [Function.update_of_ne hm] at hg
      by_cases hm' : m' = n
      · subst hm'
        rw [Function.update_self] at hg'
        cases hg'
        exact nomatch (hOthers m hm g hg (hSame.symm.trans hNum)).symm.trans hA
      · rw [Function.update_of_ne hm'] at hg'
        exact hI.one m m' g hg g' hg' hSame hA hA'

/-- A wait is created or dropped, and no wait is armed by it. -/
theorem Inv.setWait {n : N} {o : Option (ChannelWait Task)} (hI : s.Inv)
    (hWait : ∀ f ∈ o, (s.channel f.num).driver = .present ∧ f.armed = false) :
    (s.setWait n o).Inv where
  wait := (Function.forall_update_iff s.wait fun _ o => ∀ f ∈ o, WaitInv s.onIrq
    (s.channel f.num) f).mpr
    ⟨fun f hf => .idle (hWait f hf).1 (hWait f hf).2, fun m _ => hI.wait m⟩
  one := by
    have hBefore : ∀ m, ∀ f ∈ Function.update s.wait n o m, f.armed = true → f ∈ s.wait m :=
      (Function.forall_update_iff s.wait fun m o => ∀ f ∈ o, f.armed = true → f ∈ s.wait m).mpr
        ⟨fun f hf hA => (nomatch (hWait f hf).2.symm.trans hA), fun _ _ _ hf _ => hf⟩
    intro m m' f hf g hg hSame hA hA'
    exact hI.one m m' f (hBefore m f hf hA) g (hBefore m' g hg hA') hSame hA hA'

variable [DecidableEq Task]

/-- The invariant is kept by every step that the callers may take. -/
theorem inv_step (hI : s.Inv) (hOk : s.Ok a) (hs : s.step a = some s') : s'.Inv := by
  -- a channel changes while nobody waits on it; a wait changes by its own poll
  cases a with
  | level i b =>
    cases hs
    refine hI.map (fun _ => rfl) (fun _ => rfl) fun n f hf => ?_
    by_cases hNum : f.num = i
    · subst hNum
      rw [setChannel_self]
      exact (hI.wait n f hf).setLevel b
    · rw [setChannel_of_ne hNum, ChannelWait.onEdge_of_ne hNum]
      exact hI.wait n f hf
  | configure i polarity =>
    obtain ⟨hDriver, hs⟩ := Option.ite_none_right_eq_some.mp hs
    cases hs
    exact hI.setChannel _ (hI.noWait (by rw [hDriver]; exact nofun))
  | created i =>
    obtain ⟨hDriver, hs⟩ := Option.ite_none_right_eq_some.mp hs
    cases hs
    exact hI.setChannel _ (hI.noWait (by rw [hDriver]; exact nofun))
  | unconfigure i =>
    obtain ⟨-, hs⟩ := Option.ite_none_right_eq_some.mp hs
    cases hs
    -- the condition: the channel of a pending wait is not unconfigured
    exact hI.setChannel _ hOk
  | dropped i =>
    obtain ⟨hDriver, hs⟩ := Option.ite_none_right_eq_some.mp hs
    cases hs
    exact hI.setChannel _ (hI.noWait (by rw [hDriver]; exact nofun))
  | wait n i =>
    obtain ⟨⟨-, hDriver⟩, hs⟩ := Option.ite_none_right_eq_some.mp hs
    cases hs
    refine hI.setWait ?_
    rintro f ⟨⟩
    exact ⟨hDriver, rfl⟩
  | poll n w =>
    obtain ⟨f, hf, hPoll⟩ := Option.bind_eq_some_iff.mp hs
    exact hI.poll hf hOk hPoll
  | drop n =>
    obtain ⟨-, hs⟩ := Option.ite_none_right_eq_some.mp hs
    cases hs
    exact hI.setWait fun _ hf => nomatch hf
  | interrupt =>
    obtain ⟨hOut, hs⟩ := Option.ite_none_right_eq_some.mp hs
    cases hs
    exact hI.moved (fun _ hDis => nomatch hDis) fun _ hWakes => by rw [hOut] at hWakes; cases hWakes
  | handle => exact hI.handle hs

-- ---------------------------------------------------------------------------
-- The edge
-- ---------------------------------------------------------------------------

/-- The event, while a wait looks for it, and its completion come from an edge. -/
def FromEdge (s : GpioteChannels Task N) : Prop :=
  ∀ n, ∀ f ∈ s.wait n,
    (f.armed = true → (s.channel f.num).eventsIn = true → f.seen = true) ∧
      (f.pc = .ready → f.seen = true)

omit [DecidableEq N] [DecidableEq Task] in
/-- An event is only reset. -/
theorem FromEdge.setChannel (hI : s.FromEdge) {c : InputChannel Task}
    (hEvent : c.eventsIn = true → (s.channel i).eventsIn = true) : (s.setChannel i c).FromEdge := by
  intro n f hf
  refine ⟨fun hArmed hNow => (hI n f hf).1 hArmed ?_, (hI n f hf).2⟩
  by_cases hNum : f.num = i
  · rw [hNum, setChannel_self] at hNow
    rw [hNum]
    exact hEvent hNow
  · rwa [setChannel_of_ne hNum] at hNow

omit [DecidableEq Task] in
/-- One wait is replaced. -/
theorem FromEdge.setWait (hI : s.FromEdge) {n : N} {o : Option (ChannelWait Task)}
    (hWait : ∀ f ∈ o, (f.armed = true → (s.channel f.num).eventsIn = true → f.seen = true) ∧
      (f.pc = .ready → f.seen = true)) : (s.setWait n o).FromEdge :=
  (Function.forall_update_iff s.wait fun _ o => ∀ f ∈ o,
    (f.armed = true → (s.channel f.num).eventsIn = true → f.seen = true) ∧
      (f.pc = .ready → f.seen = true)).mpr ⟨hWait, fun m _ => hI m⟩

omit [DecidableEq Task] in
/-- A poll only resets an event or looks at it. -/
theorem FromEdge.poll {n : N} {w : Task} {f : ChannelWait Task} (hI : s.FromEdge)
    (hf : f ∈ s.wait n) (hs : s.poll n w f = some s') : s'.FromEdge := by
  obtain ⟨⟨f', c'⟩, hPoll, rfl⟩ := Option.map_eq_some_iff.mp hs
  obtain ⟨hNum, -, -⟩ := ChannelWait.poll_spec hPoll
  obtain ⟨hEvent, hSeen, hReady⟩ := ChannelWait.poll_seen (hI n f hf).1 hPoll
  have hChannel : (s.setChannel f.num c').FromEdge := hI.setChannel hEvent
  refine hChannel.setWait (n := n) ?_
  rintro g ⟨⟩
  rw [hNum, setChannel_self]
  exact ⟨hSeen, hReady⟩

omit [DecidableEq N] in
/-- The handler leaves the events as they are. -/
theorem FromEdge.handle (hI : s.FromEdge) (hs : s.handle s.onIrq = some s') : s'.FromEdge := by
  cases hPc : s.onIrq with
  | out =>
    rw [hPc] at hs
    cases hs
  | check left =>
    rw [hPc] at hs
    cases left <;> cases hs <;> exact hI
  | disable i left =>
    rw [hPc] at hs
    cases hs
    have hChannel : (s.setChannel i { s.channel i with inten := false }).FromEdge :=
      hI.setChannel id
    exact hChannel
  | wake i left =>
    rw [hPc] at hs
    cases hs
    intro n f hf
    obtain ⟨f₀, hf₀, rfl⟩ := Option.map_eq_some_iff.mp hf
    exact hI n f₀ hf₀

/-- Every step keeps it, with no condition on the callers. -/
theorem fromEdge_step (hI : s.FromEdge) (hs : s.step a = some s') : s'.FromEdge := by
  cases a with
  | level i b =>
    cases hs
    intro n f hf
    obtain ⟨f₀, hf₀, rfl⟩ := Option.map_eq_some_iff.mp hf
    obtain ⟨hSeen, hReady⟩ := hI n f₀ hf₀
    refine ⟨fun hArmed hNow => ?_, fun hPc => Bool.or_eq_true_iff.mpr (.inl (hReady hPc))⟩
    replace hNow : ((s.setChannel i ((s.channel i).setLevel b)).channel f₀.num).eventsIn = true :=
      hNow
    by_cases hNum : f₀.num = i
    · subst hNum
      rw [setChannel_self] at hNow
      -- the event was set before, or by the change of the level just now
      rcases Bool.or_eq_true_iff.mp hNow with hBefore | hEdge
      · exact Bool.or_eq_true_iff.mpr (.inl (hSeen hArmed hBefore))
      · refine Bool.or_eq_true_iff.mpr (.inr ?_)
        rw [hEdge, beq_self_eq_true, Bool.and_true]
    · rw [setChannel_of_ne hNum] at hNow
      exact Bool.or_eq_true_iff.mpr (.inl (hSeen hArmed hNow))
  | configure i polarity =>
    obtain ⟨-, hs⟩ := Option.ite_none_right_eq_some.mp hs
    cases hs
    exact hI.setChannel id
  | created i =>
    obtain ⟨-, hs⟩ := Option.ite_none_right_eq_some.mp hs
    cases hs
    exact hI.setChannel (nomatch ·)
  | unconfigure i =>
    obtain ⟨-, hs⟩ := Option.ite_none_right_eq_some.mp hs
    cases hs
    exact hI.setChannel id
  | dropped i =>
    obtain ⟨-, hs⟩ := Option.ite_none_right_eq_some.mp hs
    cases hs
    exact hI.setChannel id
  | wait n i =>
    obtain ⟨-, hs⟩ := Option.ite_none_right_eq_some.mp hs
    cases hs
    refine hI.setWait ?_
    rintro f ⟨⟩
    exact ⟨(nomatch ·), (nomatch ·)⟩
  | poll n w =>
    obtain ⟨f, hf, hPoll⟩ := Option.bind_eq_some_iff.mp hs
    exact hI.poll hf hPoll
  | drop n =>
    obtain ⟨-, hs⟩ := Option.ite_none_right_eq_some.mp hs
    cases hs
    exact hI.setWait fun _ hf => nomatch hf
  | interrupt =>
    obtain ⟨-, hs⟩ := Option.ite_none_right_eq_some.mp hs
    cases hs
    exact hI
  | handle => exact hI.handle hs

/--
**A wait completes only after an edge.** Whatever the levels, the number of waits and the
order of all steps: a wait is ready only if since it reset the event there was an edge of
the channel's polarity at the pin.
-/
theorem ready_after_edge {level : Fin CHANNEL_COUNT → Bool}
    (hRun : Run step (fun _ _ => True) (init level : GpioteChannels Task N) s) (n : N) :
    ∀ f ∈ s.wait n, f.pc = .ready → f.seen = true :=
  fun f hf => ((hRun.invariant (I := FromEdge) (fun _ _ hf => nomatch hf)
    fun _ _ _ hI _ hs => fromEdge_step hI hs) n f hf).2

/-- Two waits on one channel, of which the second takes the first edge from the other. -/
theorem ready_after_edge_shared : ∃ s : GpioteChannels Nat (Fin 2),
    Run step (fun _ _ => True) (init fun _ => false) s ∧
      s.wait 0 = some ⟨2, .ready, true, some 7, false⟩ ∧
      ∀ f ∈ s.wait 0, f.pc = .ready → f.seen = true := by
  have hRun : Run step (fun _ _ => True) (init fun _ => false : GpioteChannels Nat (Fin 2)) _ :=
    Run.execOk_get _ [.configure 2 .toggle, .created 2, .wait 0 2, .poll 0 7, .poll 0 7, .poll 0 7,
      .poll 0 7, .level 2 true, .wait 1 2, .poll 1 8, .level 2 false, .poll 0 7, .poll 0 7]
      (by decide +kernel)
  exact ⟨_, hRun, by decide +kernel, ready_after_edge hRun 0⟩

-- ---------------------------------------------------------------------------
-- The interrupt
-- ---------------------------------------------------------------------------

/-- Nothing but the interrupt runs, which is entered when a channel asks for it. -/
def Serves (s : GpioteChannels Task N) : ChannelAction Task N → Prop
  | .handle => True
  | .interrupt => ∃ i, (s.channel i).Pends
  | _ => False

/-- The handler can always go on, and has less to do then. -/
theorem exists_handle (h : s.onIrq ≠ .out) :
    ∃ s', s.step .handle = some s' ∧ s'.onIrq.work < s.onIrq.work := by
  show ∃ s', s.handle s.onIrq = some s' ∧ _
  cases hPc : s.onIrq with
  | out => exact absurd hPc h
  | check left =>
    cases left with
    | nil => exact ⟨_, rfl, Nat.zero_lt_one⟩
    | cons i left =>
      refine ⟨_, rfl, ?_⟩
      cases (s.channel i).eventsIn
      · exact Nat.lt_add_of_pos_right (Nat.zero_lt_succ 2)
      · exact Nat.lt_succ_self _
  | disable i left => exact ⟨_, rfl, Nat.lt_succ_self _⟩
  | wake i left => exact ⟨_, rfl, Nat.lt_succ_self _⟩

/-- `on_irq` returns. -/
theorem exists_out (s : GpioteChannels Task N) : ∃ s', Run step Serves s s' ∧ s'.onIrq = .out := by
  induction hWork : s.onIrq.work using Nat.strong_induction_on generalizing s with
  | _ k ih =>
    by_cases hOut : s.onIrq = .out
    · exact ⟨s, .refl, hOut⟩
    · obtain ⟨u, hs, hLess⟩ := exists_handle hOut
      obtain ⟨s', hRun, hOut'⟩ := ih u.onIrq.work (hWork ▸ hLess) u rfl
      exact ⟨s', (Run.refl.tail (a := .handle) trivial hs).trans hRun, hOut'⟩

/-- A pending wait on the channel had its edge. -/
def Due (s : GpioteChannels Task N) (n : N) (f : ChannelWait Task) : Prop :=
  f ∈ s.wait n ∧ f.pc = .pending ∧ f.seen = true

/-- Its task was woken, or `on_irq` comes to its channel. -/
def Served (s : GpioteChannels Task N) (n : N) : Prop :=
  ∃ f, s.Due n f ∧ (f.awake = true ∨ f.num ∈ s.onIrq.coming)

omit [DecidableEq N] in
/-- The handler does not pass the channel of a wait that is due without waking it. -/
theorem handle_served {n : N} (hI : s.Inv) (hS : s.Served n)
    (hs : s.handle s.onIrq = some s') : s'.Served n := by
  obtain ⟨f, ⟨hf, hPending, hSeen⟩, hNext⟩ := hS
  have hReg := ChannelWait.registered_of_pending hPending
  -- the channel of the wait is still to come, or is the one handled
  cases hPc : s.onIrq with
  | out =>
    rw [hPc] at hs
    cases hs
  | check left =>
    rw [hPc] at hs hNext
    cases left with
    | nil =>
      cases hs
      exact ⟨f, ⟨hf, hPending, hSeen⟩, hNext⟩
    | cons i left =>
      cases hs
      refine ⟨f, ⟨hf, hPending, hSeen⟩, hNext.imp_right fun hIn => ?_⟩
      cases hEvent : (s.channel i).eventsIn with
      | true => exact hIn
      | false =>
        rcases List.mem_cons.mp hIn with rfl | hIn
        · -- a channel whose event is off has nothing seen
          have hNow := (hI.wait n f hf).event
            (ChannelWait.armed_of_enabled (ChannelWait.enabled_of_registered hReg))
          exact nomatch (hEvent.symm.trans hNow).trans hSeen
        · exact hIn
  | disable i left =>
    rw [hPc] at hs hNext
    cases hs
    exact ⟨f, ⟨hf, hPending, hSeen⟩, hNext⟩
  | wake i left =>
    rw [hPc] at hs hNext
    cases hs
    refine ⟨f.onWake (s.channel i).waker.wake, ⟨?_, hPending, hSeen⟩, ?_⟩
    · exact Option.map_eq_some_iff.mpr ⟨f, hf, rfl⟩
    · rcases hNext with hAwake | hIn
      · exact .inl (Bool.or_eq_true_iff.mpr (.inl hAwake))
      · rcases List.mem_cons.mp hIn with rfl | hIn
        · -- the waker stored is that of the task which waits
          obtain ⟨w, hTask, hWaker⟩ := (hI.wait n f hf).waker hReg
          refine .inl (Bool.or_eq_true_iff.mpr (.inr ?_))
          rw [hTask, AtomicWaker.wake, hWaker]
          simp
        · exact .inr hIn

omit [DecidableEq N] in
/-- The handler completes no wait by itself. -/
theorem handle_due {n : N} {f : ChannelWait Task} (hD : s.Due n f)
    (hs : s.handle s.onIrq = some s') : ∃ f', s'.Due n f' := by
  obtain ⟨hf, hPending, hSeen⟩ := hD
  cases hPc : s.onIrq with
  | out =>
    rw [hPc] at hs
    cases hs
  | check left =>
    rw [hPc] at hs
    cases left <;> cases hs <;> exact ⟨f, hf, hPending, hSeen⟩
  | disable i left =>
    rw [hPc] at hs
    cases hs
    exact ⟨f, hf, hPending, hSeen⟩
  | wake i left =>
    rw [hPc] at hs
    cases hs
    exact ⟨f.onWake _, Option.map_eq_some_iff.mpr ⟨f, hf, rfl⟩, hPending, hSeen⟩

/-- What the interrupt alone does. -/
theorem serves_step {n : N} (hS : s.Serves a) (hs : s.step a = some s') :
    s.Ok a ∧ ((∃ f, s.Due n f) → ∃ f, s'.Due n f) ∧ (s.Inv → s.Served n → s'.Served n) := by
  -- Nothing else is a step of the interrupt.
  cases a with
  | interrupt =>
    obtain ⟨hOut, hs⟩ := Option.ite_none_right_eq_some.mp hs
    cases hs
    refine ⟨trivial, id, fun _ ⟨f, hD, hNext⟩ => ⟨f, hD, hNext.imp_right fun hIn => ?_⟩⟩
    exact List.mem_finRange f.num
  | handle =>
    exact ⟨trivial, fun ⟨f, hD⟩ => handle_due hD hs, fun hI hS => handle_served hI hS hs⟩
  | level | configure | created | unconfigure | dropped | wait | poll | drop => exact hS.elim

/--
**No edge is lost on a wait.** Whatever the levels, the channels, the number of waits and
the order of all steps, as long as a channel has one wait at a time and no wait enables an
interrupt that `on_irq` is about to disable: where a wait is pending and there was an edge
since it reset the event, the interrupt is pending or under way and by itself gets to a
state in which the task that polled the wait last was woken since.
-/
theorem edge_wakes {level : Fin CHANNEL_COUNT → Bool}
    (hRun : Run step Ok (init level : GpioteChannels Task N) s) {n : N} {f : ChannelWait Task}
    (hf : f ∈ s.wait n) (hPending : f.pc = .pending) (hSeen : f.seen = true) :
    ∃ s', Run step Serves s s' ∧ ∃ f' ∈ s'.wait n, f'.pc = .pending ∧ f'.awake = true := by
  have hKept : ∀ {u v : GpioteChannels Task N}, Run step Serves u v → u.Inv →
      v.Inv ∧ ((∃ f, u.Due n f) → ∃ f, v.Due n f) ∧ (u.Served n → v.Served n) := by
    intro u v hServes hI
    refine hServes.invariant (I := fun v => v.Inv ∧ ((∃ f, u.Due n f) → ∃ f, v.Due n f) ∧
      (u.Served n → v.Served n)) ⟨hI, id, id⟩ fun v a v' hBefore hS hs => ?_
    obtain ⟨hOk, hDue, hServed⟩ := serves_step (n := n) hS hs
    exact ⟨inv_step hBefore.1 hOk hs, hDue ∘ hBefore.2.1, hServed hBefore.1 ∘ hBefore.2.2⟩
  have hI : s.Inv :=
    hRun.invariant (I := Inv) (inv_init level) fun _ _ _ hI hOk hs => inv_step hI hOk hs
  -- What is under way returns first.
  obtain ⟨u, hFirst, hOut⟩ := exists_out s
  obtain ⟨hIu, hDue, -⟩ := hKept hFirst hI
  obtain ⟨g, hg, hgPending, hgSeen⟩ := hDue ⟨f, hf, hPending, hSeen⟩
  have hReg := ChannelWait.registered_of_pending hgPending
  have hW := hIu.wait n g hg
  rcases hW.wakes hgPending hgSeen with hAwake | hInten | hWakes
  · exact ⟨u, hFirst, g, hg, hgPending, hAwake⟩
  · have hEvent := hW.event
      (ChannelWait.armed_of_enabled (ChannelWait.enabled_of_registered hReg))
    have hs : u.step .interrupt = some { u with onIrq := .check (List.finRange CHANNEL_COUNT) } :=
      if_pos hOut
    have hPends : u.Serves (.interrupt : ChannelAction Task N) :=
      ⟨g.num, hEvent.trans hgSeen, hInten⟩
    have hEnter : Run step Serves u _ := Run.refl.tail hPends hs
    have hServed : Served { u with onIrq := .check (List.finRange CHANNEL_COUNT) } n :=
      ⟨g, ⟨hg, hgPending, hgSeen⟩, .inr (List.mem_finRange g.num)⟩
    obtain ⟨v, hSecond, hOut'⟩ :=
      exists_out { u with onIrq := .check (List.finRange CHANNEL_COUNT) }
    obtain ⟨-, -, hLast⟩ := hKept hSecond (hKept hEnter hIu).1
    obtain ⟨f', ⟨hf', hPending', -⟩, hAwake | hIn⟩ := hLast hServed
    · exact ⟨v, hFirst.trans (hEnter.trans hSecond), f', hf', hPending', hAwake⟩
    · rw [hOut'] at hIn
      exact nomatch hIn
  · rw [hOut] at hWakes
    cases hWakes

instance [Fintype N] (s : GpioteChannels Task N) (a : ChannelAction Task N) :
    Decidable (s.Ok a) := by
  cases a <;> unfold Ok <;> infer_instance

/-- A wait for the rising edge is pending when it comes, and then the wait for a falling
edge on another channel. -/
theorem edge_wakes_rising : ∃ s : GpioteChannels Nat (Fin 2),
    Run step Ok (init fun i => i == 5) s ∧
      s.wait 0 = some ⟨3, .pending, true, some 7, false⟩ ∧
      ∃ s', Run step Serves s s' ∧ ∃ f' ∈ s'.wait 0, f'.pc = .pending ∧ f'.awake = true := by
  have hRun : Run step Ok (init fun i => i == 5 : GpioteChannels Nat (Fin 2)) _ :=
    Run.execOk_get _ [.configure 3 .loToHi, .configure 5 .hiToLo, .created 5, .created 3,
      .wait 0 3, .wait 1 5, .poll 0 7, .poll 0 7, .poll 1 8, .poll 1 8, .poll 0 7, .poll 0 7,
      .level 3 true, .level 5 false, .interrupt, .handle, .handle] (by decide +kernel)
  exact ⟨_, hRun, by decide +kernel,
    edge_wakes hRun (f := ⟨3, .pending, true, some 7, false⟩) (by decide +kernel) rfl rfl⟩

/-- A task preempts `on_irq` after it has read the event, completes its wait and starts the
next one. `on_irq` disables the interrupt of the new wait, and wakes the task too early. The
edge that comes then raises the event, and nothing else happens ever. -/
theorem edge_lost : ∃ s : GpioteChannels Nat (Fin 1),
    Run step (fun _ _ => True) (init fun _ => false) s ∧
      s.wait 0 = some ⟨0, .pending, true, some 7, false⟩ ∧
      ∀ s', Run step Serves s s' → s' = s := by
  have hRun : Run step (fun _ _ => True) (init fun _ => false : GpioteChannels Nat (Fin 1)) _ :=
    Run.execOk_get _ [.configure 0 .loToHi, .created 0, .wait 0 0, .poll 0 7, .poll 0 7, .poll 0 7,
      .poll 0 7, .level 0 true, .interrupt, .handle, .poll 0 7, .poll 0 7, .drop 0, .level 0 false,
      .wait 0 0, .poll 0 7, .poll 0 7, .poll 0 7, .poll 0 7, .handle, .handle, .poll 0 7,
      .poll 0 7, .handle, .handle, .handle, .handle, .handle, .handle, .handle, .handle,
      .level 0 true] (by decide +kernel)
  refine ⟨_, hRun, by decide +kernel, fun s' hServes => ?_⟩
  refine hServes.invariant (I := (· = _)) rfl ?_
  rintro _ a v rfl hS hs
  cases a with
  | interrupt => exact absurd hS (by unfold Serves; decide +kernel)
  | handle => exact absurd (Option.isSome_of_eq_some hs) (by decide +kernel)
  | level | configure | created | unconfigure | dropped | wait | poll | drop => exact hS.elim

end GpioteChannels

end Embassy.Nrf
