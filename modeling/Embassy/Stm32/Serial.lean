import Embassy.Lib.Run
import Embassy.Util.Waker

/-!
# The serial port of the STM32F4

`embassy-stm32/src/f4/serial.rs`. An operation takes a DMA stream and the USART out of
the `Serial` when its future is polled first, and puts them back when it returns. What
the interrupts and the DMA do is given with each poll.

* `Held` — what is taken is in the transfer of the future that waits.
* `serial_cancelled` — where no waiting future is dropped, every operation finds what it
  takes; once one is, no operation ever does again.
-/

namespace Embassy.Stm32

open Embassy.Lib Embassy.Util

-- ---------------------------------------------------------------------------
-- Operations
-- ---------------------------------------------------------------------------

/-- Of the `Transfer` of the HAL, only what `free` gives back: the transfer itself is not
modelled here. -/
structure Transfer (Stream Usart : Type) where
  stream : Stream
  usart : Usart

structure Serial (TStream RStream Usart : Type) where
  txStream : Option TStream
  rxStream : Option RStream
  usart : Option Usart
  /-- The interrupt of the idle line is enabled. -/
  idleie : Bool

/-- Where an `async` block stands that waits once. -/
inductive Block (α : Type) where
  | unresumed
  | waiting (x : α)
  | returned

/-- What holds while the block waits is `rest`, and else `whole`. -/
def Block.Held {α : Type} (whole rest : Prop) : Block α → Prop
  | waiting _ => rest
  | unresumed | returned => whole

/-- What a poll finds: which interrupts have come, and what `get_number_of_transfers`
returns before the transfer and after it. -/
structure Hardware where
  txInt : Bool
  rxInt : Bool
  usartInt : Bool
  total : Nat
  remaining : Nat

inductive Error where
  | other
  deriving DecidableEq, Repr

namespace Serial

variable {TStream RStream Usart Stream : Type}

def new (usart : Usart) (streams : TStream × RStream) : Serial TStream RStream Usart where
  txStream := some streams.1
  rxStream := some streams.2
  usart := some usart
  idleie := false

/-- The field for the stream of one direction. -/
structure Field (TStream RStream Usart Stream : Type) where
  get : Serial TStream RStream Usart → Option Stream
  set : Serial TStream RStream Usart → Option Stream → Serial TStream RStream Usart

def tx : Field TStream RStream Usart TStream where
  get := txStream
  set this x := { this with txStream := x }

def rx : Field TStream RStream Usart RStream where
  get := rxStream
  set this x := { this with rxStream := x }

/-- The stream and the USART are taken; `none` is an `unwrap` of nothing. -/
def take (field : Field TStream RStream Usart Stream) (this : Serial TStream RStream Usart) :
    Option (Transfer Stream Usart × Serial TStream RStream Usart) := do
  let stream ← field.get this
  let this := field.set this none
  let usart ← this.usart
  some (⟨stream, usart⟩, { this with usart := none })

/-- They are put back. -/
def replace (field : Field TStream RStream Usart Stream) (this : Serial TStream RStream Usart)
    (transfer : Transfer Stream Usart) : Serial TStream RStream Usart :=
  { field.set this (some transfer.stream) with usart := some transfer.usart }

/-- An operation that waits for the interrupt of its stream. -/
def pollTransfer (field : Field TStream RStream Usart Stream) (int : Bool)
    (this : Serial TStream RStream Usart) : Block (Transfer Stream Usart) →
      Option (Serial TStream RStream Usart × Block (Transfer Stream Usart) ×
        Poll (Except Error Unit))
  | .unresumed => do
    let (transfer, this) ← take field this
    if int then some (replace field this transfer, .returned, .ready (.ok ()))
    else some (this, .waiting transfer, .pending)
  | .waiting transfer =>
    if int then some (replace field this transfer, .returned, .ready (.ok ()))
    else some (this, .waiting transfer, .pending)
  | .returned => none

def read (hw : Hardware) (this : Serial TStream RStream Usart) :=
  pollTransfer rx hw.rxInt this

def write (hw : Hardware) (this : Serial TStream RStream Usart) :=
  pollTransfer tx hw.txInt this

/-- It waits for one of two interrupts; the second component is `total_bytes`. -/
def readUntilIdle (hw : Hardware) (this : Serial TStream RStream Usart) :
    Block (Transfer RStream Usart × Nat) →
      Option (Serial TStream RStream Usart × Block (Transfer RStream Usart × Nat) ×
        Poll (Except Error Nat))
  | .unresumed => do
    let (transfer, this) ← take rx this
    let this := { this with idleie := true }
    finish this transfer hw.total
  | .waiting (transfer, totalBytes) => finish this transfer totalBytes
  | .returned => none
where
  finish this transfer totalBytes :=
    if hw.rxInt || hw.usartInt then
      let this := { this with idleie := false }
      if hw.remaining ≤ totalBytes then
        some (replace rx this transfer, .returned, .ready (.ok (totalBytes - hw.remaining)))
      else none
    else some (this, .waiting (transfer, totalBytes), .pending)

/-- Nothing is taken. -/
structure Whole (this : Serial TStream RStream Usart) : Prop where
  txStream : this.txStream.isSome = true
  rxStream : this.rxStream.isSome = true
  usart : this.usart.isSome = true

/-- What is left behind when a stream and the USART are taken. -/
theorem take_eq_some {field : Field TStream RStream Usart Stream}
    {this this' : Serial TStream RStream Usart} {transfer : Transfer Stream Usart}
    (h : take field this = some (transfer, this')) :
    this' = { field.set this none with usart := none } := by
  obtain ⟨stream, -, h⟩ := Option.bind_eq_some_iff.mp h
  obtain ⟨usart, -, h⟩ := Option.bind_eq_some_iff.mp h
  cases h
  rfl

/-- Nothing is taken without the USART. -/
theorem take_eq_none {field : Field TStream RStream Usart Stream}
    (hField : ∀ this x, (field.set this x).usart = this.usart)
    {this : Serial TStream RStream Usart} (h : this.usart = none) : take field this = none := by
  unfold take
  simp [hField, h]

/-- Before a transfer there is a stream to send with. -/
theorem Whole.take_tx {this : Serial TStream RStream Usart} (h : Whole this) :
    (take tx this).isSome = true := by
  obtain ⟨stream, hStream⟩ := Option.isSome_iff_exists.mp h.txStream
  obtain ⟨usart, hUsart⟩ := Option.isSome_iff_exists.mp h.usart
  simp [take, tx, hStream, hUsart]

/-- Before a transfer there is a stream to receive with. -/
theorem Whole.take_rx {this : Serial TStream RStream Usart} (h : Whole this) :
    (take rx this).isSome = true := by
  obtain ⟨stream, hStream⟩ := Option.isSome_iff_exists.mp h.rxStream
  obtain ⟨usart, hUsart⟩ := Option.isSome_iff_exists.mp h.usart
  simp [take, rx, hStream, hUsart]

section Poll

variable {whole rest : Serial TStream RStream Usart → Prop}
  {this this' : Serial TStream RStream Usart}

/-- What holds before a transfer and what holds during it follow from each other. -/
theorem pollTransfer_held {field : Field TStream RStream Usart Stream}
    (hTake : ∀ this, whole this → rest { field.set this none with usart := none })
    (hReplace : ∀ this transfer, rest this → whole (replace field this transfer)) {int : Bool}
    {b b' : Block (Transfer Stream Usart)} {x : Poll (Except Error Unit)}
    (hb : b.Held (whole this) (rest this))
    (h : pollTransfer field int this b = some (this', b', x)) :
    b'.Held (whole this') (rest this') := by
  -- The two ways into the wait are judged alike.
  have hWait : ∀ (this : Serial TStream RStream Usart) (transfer : Transfer Stream Usart),
      rest this → (if int then some (replace field this transfer, .returned, .ready (.ok ()))
        else some (this, .waiting transfer, .pending)) = some (this', b', x) →
      b'.Held (whole this') (rest this') := by
    intro this transfer hRest h
    split at h
    · cases h
      exact hReplace this transfer hRest
    · cases h
      exact hRest
  cases b with
  | unresumed =>
    obtain ⟨⟨transfer, taken⟩, hTaken, h⟩ := Option.bind_eq_some_iff.mp h
    refine hWait taken transfer ?_ h
    rw [take_eq_some hTaken]
    exact hTake this hb
  | waiting transfer => exact hWait this transfer hb h
  | returned => cases h

/-- The same of `read_until_idle`, which switches an interrupt as well. -/
theorem readUntilIdle_held
    (hTake : ∀ this, whole this → rest { rx.set this none with usart := none })
    (hReplace : ∀ this transfer, rest this → whole (replace rx this transfer))
    (hIdleie : ∀ this x, rest this → rest { this with idleie := x }) {hw : Hardware}
    {b b' : Block (Transfer RStream Usart × Nat)} {x : Poll (Except Error Nat)}
    (hb : b.Held (whole this) (rest this))
    (h : readUntilIdle hw this b = some (this', b', x)) :
    b'.Held (whole this') (rest this') := by
  have hFinish : ∀ (this : Serial TStream RStream Usart) (transfer : Transfer RStream Usart)
      (totalBytes : Nat), rest this →
      readUntilIdle.finish hw this transfer totalBytes = some (this', b', x) →
      b'.Held (whole this') (rest this') := by
    intro this transfer totalBytes hRest h
    unfold readUntilIdle.finish at h
    split at h
    · obtain ⟨-, h⟩ := Option.ite_none_right_eq_some.mp h
      cases h
      exact hReplace _ transfer (hIdleie this false hRest)
    · cases h
      exact hRest
  cases b with
  | unresumed =>
    obtain ⟨⟨transfer, taken⟩, hTaken, h⟩ := Option.bind_eq_some_iff.mp h
    refine hFinish _ transfer hw.total (hIdleie taken true ?_) h
    rw [take_eq_some hTaken]
    exact hTake this hb
  | waiting t => exact hFinish this t.1 t.2 hb h
  | returned => cases h

end Poll

end Serial

-- ---------------------------------------------------------------------------
-- One operation after another
-- ---------------------------------------------------------------------------

/-- The future of an operation. -/
inductive Op (TStream RStream Usart : Type) where
  | read (b : Block (Transfer RStream Usart))
  | write (b : Block (Transfer TStream Usart))
  | readUntilIdle (b : Block (Transfer RStream Usart × Nat))

inductive Call where
  | read
  | write
  | readUntilIdle
  deriving DecidableEq, Repr

/-- The `Serial`, with the future that borrows it. -/
structure Port (TStream RStream Usart : Type) where
  serial : Serial TStream RStream Usart
  op : Option (Op TStream RStream Usart)

inductive Action where
  | call (c : Call)
  | poll (hw : Hardware)
  | drop

variable {TStream RStream Usart : Type}

def Call.op : Call → Op TStream RStream Usart
  | read => .read .unresumed
  | write => .write .unresumed
  | readUntilIdle => .readUntilIdle .unresumed

namespace Op

/-- What holds of the `Serial` while the operation waits is `rx` if it has the receiving
stream, and `tx` if it has the other. -/
def Held (whole rx tx : Prop) : Op TStream RStream Usart → Prop
  | read b => b.Held whole rx
  | write b => b.Held whole tx
  | readUntilIdle b => b.Held whole rx

/-- It was polled, and has not returned. -/
def Waiting (op : Op TStream RStream Usart) : Prop := op.Held False True True

/-- It was not polled. -/
def Unresumed : Op TStream RStream Usart → Prop
  | read .unresumed | write .unresumed | readUntilIdle .unresumed => True
  | _ => False

/-- A future that does not wait has taken nothing. -/
theorem Held.of_not_waiting {op : Op TStream RStream Usart} {whole rx tx : Prop}
    (h : op.Held whole rx tx) (hNot : ¬ op.Waiting) : whole := by
  cases op with
  | read b | write b | readUntilIdle b =>
    cases b with
    | unresumed | returned => exact h
    | waiting => exact absurd trivial hNot

theorem Unresumed.not_waiting {op : Op TStream RStream Usart} (h : op.Unresumed) :
    ¬ op.Waiting := by
  cases op with
  | read b | write b | readUntilIdle b =>
    cases b with
    | unresumed => exact id
    | waiting | returned => exact h.elim

def poll (hw : Hardware) (this : Serial TStream RStream Usart) :
    Op TStream RStream Usart → Option (Port TStream RStream Usart)
  | read b => (this.read hw b).map fun r => ⟨r.1, some (.read r.2.1)⟩
  | write b => (this.write hw b).map fun r => ⟨r.1, some (.write r.2.1)⟩
  | readUntilIdle b => (this.readUntilIdle hw b).map fun r => ⟨r.1, some (.readUntilIdle r.2.1)⟩

/-- Without the USART, an operation panics when it is polled first. -/
theorem poll_eq_none {hw : Hardware} {this : Serial TStream RStream Usart}
    {op : Op TStream RStream Usart} (h : this.usart = none) (hOp : op.Unresumed) :
    op.poll hw this = none := by
  have hTx : this.take Serial.tx = none := Serial.take_eq_none (fun _ _ => rfl) h
  have hRx : this.take Serial.rx = none := Serial.take_eq_none (fun _ _ => rfl) h
  cases op with
  | read b =>
    cases b with
    | unresumed => simp [poll, Serial.read, Serial.pollTransfer, hRx]
    | waiting | returned => exact hOp.elim
  | write b =>
    cases b with
    | unresumed => simp [poll, Serial.write, Serial.pollTransfer, hTx]
    | waiting | returned => exact hOp.elim
  | readUntilIdle b =>
    cases b with
    | unresumed => simp [poll, Serial.readUntilIdle, hRx]
    | waiting | returned => exact hOp.elim

end Op

namespace Port

def init (serial : Serial TStream RStream Usart) : Port TStream RStream Usart := ⟨serial, none⟩

/-- A step that is `none` is not possible, or panics. -/
def step (s : Port TStream RStream Usart) : Action → Option (Port TStream RStream Usart)
  | .call c => if s.op.isNone then some { s with op := some c.op } else none
  | .poll hw => s.op.bind (Op.poll hw s.serial)
  | .drop => if s.op.isSome then some { s with op := none } else none

/-- What holds between the operations is `whole`. -/
def Held (whole rx tx : Serial TStream RStream Usart → Prop) (s : Port TStream RStream Usart) :
    Prop :=
  match s.op with
  | none => whole s.serial
  | some op => op.Held (whole s.serial) (rx s.serial) (tx s.serial)

/-- An operation waits. -/
def Waiting (s : Port TStream RStream Usart) : Prop := ∃ op, s.op = some op ∧ op.Waiting

/-- No operation has begun. -/
def Between (s : Port TStream RStream Usart) : Prop := ∀ op, s.op = some op → op.Unresumed

/-- A future that waits is not dropped. -/
def NoCancel (s : Port TStream RStream Usart) (a : Action) : Prop := a = .drop → ¬ s.Waiting

section Held

variable {whole rx tx : Serial TStream RStream Usart → Prop} {s s' : Port TStream RStream Usart}

/-- Every step keeps who has the streams and the USART. -/
theorem Held.step (h : s.Held whole rx tx)
    (hTakeRx : ∀ this, whole this → rx { this with rxStream := none, usart := none })
    (hTakeTx : ∀ this, whole this → tx { this with txStream := none, usart := none })
    (hReplaceRx : ∀ this transfer, rx this → whole (Serial.replace Serial.rx this transfer))
    (hReplaceTx : ∀ this transfer, tx this → whole (Serial.replace Serial.tx this transfer))
    (hIdleie : ∀ this x, rx this → rx { this with idleie := x }) {a : Action}
    (hDrop : a = .drop → s.Waiting → whole s.serial) (hStep : s.step a = some s') :
    s'.Held whole rx tx := by
  cases a with
  | call c =>
    obtain ⟨hNone, hStep⟩ := Option.ite_none_right_eq_some.mp hStep
    cases hStep
    unfold Held at h
    rw [Option.isNone_iff_eq_none.mp hNone] at h
    cases c with
    | read | write | readUntilIdle => exact h
  | poll hw =>
    obtain ⟨op, hOp, hPoll⟩ := Option.bind_eq_some_iff.mp hStep
    unfold Held at h
    rw [hOp] at h
    cases op with
    | read b =>
      obtain ⟨⟨this, b', x⟩, hRead, hEq⟩ := Option.map_eq_some_iff.mp hPoll
      cases hEq
      exact Serial.pollTransfer_held hTakeRx hReplaceRx h hRead
    | write b =>
      obtain ⟨⟨this, b', x⟩, hWrite, hEq⟩ := Option.map_eq_some_iff.mp hPoll
      cases hEq
      exact Serial.pollTransfer_held hTakeTx hReplaceTx h hWrite
    | readUntilIdle b =>
      obtain ⟨⟨this, b', x⟩, hRead, hEq⟩ := Option.map_eq_some_iff.mp hPoll
      cases hEq
      exact Serial.readUntilIdle_held hTakeRx hReplaceRx hIdleie h hRead
  | drop =>
    obtain ⟨hSome, hStep⟩ := Option.ite_none_right_eq_some.mp hStep
    cases hStep
    obtain ⟨op, hOp⟩ := Option.isSome_iff_exists.mp hSome
    -- Dropped while it waits, it takes with it what it has taken.
    by_cases hWaiting : op.Waiting
    · exact hDrop rfl ⟨op, hOp, hWaiting⟩
    · unfold Held at h
      rw [hOp] at h
      exact h.of_not_waiting hWaiting

/-- Between the operations nothing is taken. -/
theorem Held.between (h : s.Held whole rx tx) (hBetween : s.Between) : whole s.serial := by
  unfold Held at h
  split at h
  · exact h
  · rename_i op hOp
    exact h.of_not_waiting (hBetween op hOp).not_waiting

end Held

variable {s s' : Port TStream RStream Usart}

/-- Where no waiting future is dropped, the transfer has all that is not in the `Serial`. -/
theorem held_of_run {serial : Serial TStream RStream Usart} (hWhole : serial.Whole)
    (hRun : Run step NoCancel (init serial) s) :
    s.Held Serial.Whole (fun this => this.txStream.isSome = true)
      (fun this => this.rxStream.isSome = true) := by
  refine hRun.invariant hWhole ?_
  intro u a v h hOk hStep
  refine h.step (fun _ h => h.txStream) (fun _ h => h.rxStream) ?_ ?_ (fun _ _ h => h)
    (fun hDrop hWaiting => absurd hWaiting (hOk hDrop)) hStep
  · exact fun this transfer hTx => ⟨hTx, rfl, rfl⟩
  · exact fun this transfer hRx => ⟨rfl, hRx, rfl⟩

/-- Where an operation waits, it has the USART. -/
theorem usart_of_run {serial : Serial TStream RStream Usart}
    (hRun : Run step (fun _ _ => True) (init serial) s) :
    s.Held (fun _ => True) (fun this => this.usart = none) (fun this => this.usart = none) := by
  refine hRun.invariant trivial ?_
  intro u a v h _ hStep
  exact h.step (fun _ _ => rfl) (fun _ _ => rfl) (fun _ _ _ => trivial) (fun _ _ _ => trivial)
    (fun _ _ h => h) (fun _ _ => trivial) hStep

/-- No operation has the USART, and none is in the `Serial`. -/
def Lost (s : Port TStream RStream Usart) : Prop := s.serial.usart = none ∧ s.Between

/-- A USART that is lost stays lost. -/
theorem Lost.step (h : s.Lost) {a : Action} (hStep : s.step a = some s') : s'.Lost := by
  obtain ⟨hUsart, hBetween⟩ := h
  cases a with
  | call c =>
    obtain ⟨-, hStep⟩ := Option.ite_none_right_eq_some.mp hStep
    cases hStep
    refine ⟨hUsart, ?_⟩
    rintro op ⟨⟩
    cases c with
    | read | write | readUntilIdle => trivial
  | poll hw =>
    obtain ⟨op, hOp, hPoll⟩ := Option.bind_eq_some_iff.mp hStep
    rw [Op.poll_eq_none hUsart (hBetween op hOp)] at hPoll
    cases hPoll
  | drop =>
    obtain ⟨-, hStep⟩ := Option.ite_none_right_eq_some.mp hStep
    cases hStep
    exact ⟨hUsart, fun op hOp => nomatch hOp⟩

/-- The drop of a future that waits loses the USART. -/
theorem Held.lost (h : s.Held (fun _ => True) (fun this => this.usart = none)
    (fun this => this.usart = none)) (hWaiting : s.Waiting) (hDrop : s.step .drop = some s') :
    s'.Lost := by
  obtain ⟨op, hOp, hWaiting⟩ := hWaiting
  obtain ⟨-, hDrop⟩ := Option.ite_none_right_eq_some.mp hDrop
  cases hDrop
  refine ⟨?_, fun _ h => nomatch h⟩
  unfold Held at h
  rw [hOp] at h
  cases op with
  | read b | write b | readUntilIdle b =>
    cases b with
    | unresumed | returned => exact hWaiting.elim
    | waiting => exact h

/-- Where no operation is dropped while it waits, each finds the streams and the USART.
After one was, the USART is gone, and each panics when it is polled first. -/
theorem serial_cancelled (usart : Usart) (streams : TStream × RStream) :
    (∀ s, Run step NoCancel (init (.new usart streams)) s → s.Between →
      s.serial.Whole ∧ (s.serial.take Serial.tx).isSome = true ∧
        (s.serial.take Serial.rx).isSome = true) ∧
    ∀ s s', Run step (fun _ _ => True) (init (.new usart streams)) s → s.Waiting →
      s.step .drop = some s' → ∀ u, Run step (fun _ _ => True) s' u →
        u.serial.usart = none ∧
          ∀ op hw, u.op = some op → op.Unresumed ∧ op.poll hw u.serial = none := by
  have hNew : (Serial.new usart streams).Whole := ⟨rfl, rfl, rfl⟩
  constructor
  · intro s hRun hBetween
    have hWhole := (held_of_run hNew hRun).between hBetween
    exact ⟨hWhole, hWhole.take_tx, hWhole.take_rx⟩
  · intro s s' hRun hWaiting hDrop u hAfter
    have hLost : u.Lost := hAfter.invariant ((usart_of_run hRun).lost hWaiting hDrop)
      fun _ _ _ h _ hStep => h.step hStep
    refine ⟨hLost.1, fun op hw hOp => ?_⟩
    have hUnresumed := hLost.2 op hOp
    exact ⟨hUnresumed, Op.poll_eq_none hLost.1 hUnresumed⟩

/-- No interrupt has come. -/
def quiet : Hardware where
  txInt := false
  rxInt := false
  usartInt := false
  total := 4
  remaining := 4

/-- A write is dropped before its first poll, and a read until idle returns. -/
theorem serial_cancelled_idle : ∃ s : Port Unit Unit Unit,
    Run step NoCancel (init (.new () ((), ()))) s ∧ s.serial.Whole := by
  have hRun : Run step NoCancel (init (.new () ((), ()))) (⟨.new () ((), ()), none⟩ :
      Port Unit Unit Unit) := by
    have hUnresumed : Run step NoCancel (init (.new () ((), ()))) (⟨.new () ((), ()), none⟩ :
        Port Unit Unit Unit) := by
      refine (Run.refl.tail (a := .call .write) (fun h => nomatch h) rfl).tail (a := .drop) ?_ rfl
      rintro - ⟨op, ⟨⟩, hWaiting⟩
      exact hWaiting
    refine (((hUnresumed.tail (a := .call .readUntilIdle) (fun h => nomatch h) rfl).tail
      (a := .poll quiet) (fun h => nomatch h) rfl).tail
        (a := .poll { quiet with usartInt := true, remaining := 1 }) (fun h => nomatch h) rfl).tail
          (a := .drop) ?_ rfl
    rintro - ⟨op, ⟨⟩, hWaiting⟩
    exact hWaiting
  exact ⟨_, hRun, ((serial_cancelled () ((), ())).1 _ hRun fun _ h => nomatch h).1⟩

/-- A read is dropped after its first poll, and the USART is gone. -/
theorem read_cancelled : ∃ s : Port Unit Unit Unit,
    Run step (fun _ _ => True) (init (.new () ((), ()))) s ∧ s.op = none ∧
      s.serial.rxStream = none ∧ s.serial.usart = none := by
  refine ⟨_, ((Run.refl.tail (a := .call .read) trivial rfl).tail (a := .poll quiet) trivial
    rfl).tail (a := .drop) trivial rfl, rfl, rfl, rfl⟩

end Port

end Embassy.Stm32
