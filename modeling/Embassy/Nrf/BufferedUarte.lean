import Mathlib.Algebra.Group.Nat.Defs
import Embassy.Extras.RingBuffer
import Embassy.Util.Waker

/-!
# The buffered UARTE driver

`embassy-nrf/src/buffered_uarte.rs`. The two directions of the driver share
nothing but the interrupt: `Receiver` and `Sender` hold the fields of `State` that
belong to each, with the registers and the DMA engine of their half of the
peripheral. Memory addresses are offsets in the buffer of the direction.

The closure of `with` runs with the interrupt disabled, and nothing that runs
during `on_interrupt` enters the driver, so each is one action. The DMA engines
take one byte at a time, at any time between the start of a transfer and its end.
What is read from memory before it is sent waits in `fifo`.

The fields `received`, `consumed`, `slice`, `accepted`, `wire` and `woken` are
histories: no operation depends on them. A panic is `none`.

Main results:

* `step_effect` — what each action does to the two directions.
-/

namespace Embassy.Nrf

open Embassy.Extras Embassy.Util

inductive Chip where
  | nrf52810
  | nrf52811
  | nrf52832
  | nrf52833
  | nrf52840
  deriving DecidableEq, Repr

/-- The width of the MAXCNT registers. -/
def Chip.maxcntBits : Chip → Nat
  | .nrf52810 | .nrf52811 | .nrf52832 => 8
  | .nrf52833 | .nrf52840 => 16

/-- `len as _`, for the MAXCNT registers. -/
def Chip.maxcnt (chip : Chip) (len : Nat) : Nat := len % 2 ^ chip.maxcntBits

inductive RxState where
  | idle
  | receiving
  deriving DecidableEq, Repr

inductive TxState where
  | idle
  | transmitting (n : Nat)
  deriving DecidableEq, Repr

/-- The driver asks the ring buffer for a slice and does one thing with it, or
another when it is empty. -/
theorem ite_len_eq {α : Type} {o : Option Slice} {f g : Slice → α} {a : α}
    (h : (o.bind fun buf => if buf.len ≠ 0 then some (f buf) else some (g buf)) = some a) :
    ∃ buf, o = some buf ∧ (buf.len ≠ 0 ∧ a = f buf ∨ buf.len = 0 ∧ a = g buf) := by
  obtain ⟨buf, hBuf, h⟩ := Option.bind_eq_some_iff.mp h
  refine ⟨buf, hBuf, ?_⟩
  split at h
  · rename_i hLen
    cases h
    exact .inl ⟨hLen, rfl⟩
  · rename_i hLen
    cases h
    exact .inr ⟨not_not.mp hLen, rfl⟩

-- ---------------------------------------------------------------------------
-- Receiving
-- ---------------------------------------------------------------------------

/-- The registers of RXD, and the transfer that they started last. -/
structure Rxd where
  ptr : Nat
  maxcnt : Nat
  amount : Nat
  endrx : Bool
  running : Bool
  /-- The bytes of the transfer that are written to memory. -/
  got : List UInt8
  deriving DecidableEq, Repr

structure Receiver (Task : Type) where
  rx : RingBuffer
  rxState : RxState
  rxWaker : WakerRegistration Task
  rxd : Rxd
  /-- The slice that `poll_fill_buf` returned, less what of it is consumed. -/
  slice : Slice
  /-- The bytes of the transfers that have ended. -/
  received : List UInt8
  consumed : List UInt8
  woken : List Task
  deriving DecidableEq, Repr

variable {Task : Type}

namespace Receiver

def new (rxBuffer : List UInt8) : Receiver Task where
  rx := .new rxBuffer
  rxState := .idle
  rxWaker := .new
  rxd := { ptr := 0, maxcnt := 0, amount := 0, endrx := false, running := false, got := [] }
  slice := ⟨0, 0⟩
  received := []
  consumed := []
  woken := []

/-- The registers as STARTRX leaves them. -/
def start (chip : Chip) (buf : Slice) (rxd : Rxd) : Rxd :=
  { rxd with ptr := buf.off, maxcnt := chip.maxcnt buf.len, running := true, got := [] }

/-- The state `RxState::Idle` in the loop of `on_interrupt`, which it leaves. -/
def onIdle (chip : Chip) (r : Receiver Task) : Option (Receiver Task) := do
  let buf ← r.rx.pushBuf
  if buf.len ≠ 0 then some { r with rxState := .receiving, rxd := start chip buf r.rxd } else some r

/-- The state `RxState::Receiving` at the end of a transfer. -/
def onEndrx (r : Receiver Task) : Option (Receiver Task) := do
  let rx ← r.rx.push r.rxd.amount
  some { r with
    rx := rx
    rxd := { r.rxd with endrx := false }
    rxWaker := r.rxWaker.wake.1
    woken := r.woken ++ r.rxWaker.wake.2
    rxState := .idle }

/-- The rx loop of `on_interrupt`. It goes on only from the end of a transfer, and
then in the state `Idle`. -/
def onInterrupt (chip : Chip) (r : Receiver Task) : Option (Receiver Task) :=
  match r.rxState with
  | .idle => r.onIdle chip
  | .receiving => if r.rxd.endrx then r.onEndrx.bind (onIdle chip) else some r

def pollFillBuf [DecidableEq Task] (r : Receiver Task) (w : Task) : Option (Receiver Task) := do
  let buf ← r.rx.popBuf
  if buf.len ≠ 0 then some { r with slice := buf }
  else some { r with
    slice := ⟨0, 0⟩
    rxWaker := (r.rxWaker.register w).1
    woken := r.woken ++ (r.rxWaker.register w).2 }

/-- The reader has the bytes from its slice. -/
def consume (r : Receiver Task) (amt : Nat) : Option (Receiver Task) := do
  let rx ← r.rx.pop amt
  some { r with
    rx := rx
    consumed := r.consumed ++ r.rx.read ⟨r.slice.off, amt⟩
    slice := ⟨r.slice.off + amt, r.slice.len - amt⟩ }

/-- The DMA writes a byte that has arrived to memory. -/
def dmaByte (r : Receiver Task) (x : UInt8) : Option (Receiver Task) :=
  if r.rxd.running ∧ r.rxd.got.length < r.rxd.maxcnt then
    some { r with
      rx := r.rx.set (r.rxd.ptr + r.rxd.got.length) x
      rxd := { r.rxd with got := r.rxd.got ++ [x] } }
  else none

/-- The transfer ends, with the last byte or because it is stopped. -/
def dmaEnd (r : Receiver Task) : Option (Receiver Task) :=
  if r.rxd.running then
    some { r with
      rxd := { r.rxd with running := false, endrx := true, amount := r.rxd.got.length }
      received := r.received ++ r.rxd.got }
  else none

variable {chip : Chip} {r r' : Receiver Task}

/-- With room a transfer is started, and otherwise nothing is done. -/
theorem onIdle_eq (h : r.onIdle chip = some r') : ∃ buf, r.rx.pushBuf = some buf ∧
    (buf.len ≠ 0 ∧ r' = { r with rxState := .receiving, rxd := start chip buf r.rxd } ∨
      buf.len = 0 ∧ r' = r) :=
  ite_len_eq h

/-- The end of a transfer pushes its bytes and wakes the reader. -/
theorem onEndrx_eq (h : r.onEndrx = some r') : ∃ rx, r.rx.push r.rxd.amount = some rx ∧
    r' = { r with
      rx := rx
      rxd := { r.rxd with endrx := false }
      rxWaker := r.rxWaker.wake.1
      woken := r.woken ++ r.rxWaker.wake.2
      rxState := .idle } := by
  obtain ⟨rx, hPush, h⟩ := Option.bind_eq_some_iff.mp h
  cases h
  exact ⟨rx, hPush, rfl⟩

/-- The handler starts a transfer, or ends one and starts another, or leaves the
one under way. -/
theorem onInterrupt_cases (h : r.onInterrupt chip = some r') :
    r.rxState = .idle ∧ r.onIdle chip = some r' ∨
      (∃ m, r.rxState = .receiving ∧ r.rxd.endrx = true ∧ r.onEndrx = some m ∧
        m.onIdle chip = some r') ∨
      r.rxState = .receiving ∧ r.rxd.endrx = false ∧ r' = r := by
  unfold onInterrupt at h
  split at h
  · exact .inl ⟨‹_›, h⟩
  · split at h
    · obtain ⟨m, hm, h⟩ := Option.bind_eq_some_iff.mp h
      exact .inr (.inl ⟨m, ‹_›, ‹_›, hm, h⟩)
    · rename_i hEnd
      cases h
      exact .inr (.inr ⟨‹_›, Bool.eq_false_iff.mpr hEnd, rfl⟩)

/-- The reader gets a slice, or leaves its waker. -/
theorem pollFillBuf_eq [DecidableEq Task] {w : Task} (h : r.pollFillBuf w = some r') :
    ∃ buf, r.rx.popBuf = some buf ∧ (buf.len ≠ 0 ∧ r' = { r with slice := buf } ∨
      buf.len = 0 ∧ r' = { r with
        slice := ⟨0, 0⟩
        rxWaker := (r.rxWaker.register w).1
        woken := r.woken ++ (r.rxWaker.register w).2 }) :=
  ite_len_eq h

/-- The bytes are popped, and the slice loses them. -/
theorem consume_eq {amt : Nat} (h : r.consume amt = some r') : ∃ rx, r.rx.pop amt = some rx ∧
    r' = { r with
      rx := rx
      consumed := r.consumed ++ r.rx.read ⟨r.slice.off, amt⟩
      slice := ⟨r.slice.off + amt, r.slice.len - amt⟩ } := by
  obtain ⟨rx, hPop, h⟩ := Option.bind_eq_some_iff.mp h
  cases h
  exact ⟨rx, hPop, rfl⟩

/-- A byte is stored behind the last one, within the transfer. -/
theorem dmaByte_eq {x : UInt8} (h : r.dmaByte x = some r') :
    (r.rxd.running = true ∧ r.rxd.got.length < r.rxd.maxcnt) ∧
      r' = { r with
        rx := r.rx.set (r.rxd.ptr + r.rxd.got.length) x
        rxd := { r.rxd with got := r.rxd.got ++ [x] } } := by
  obtain ⟨hRunning, h⟩ := Option.ite_none_right_eq_some.mp h
  cases h
  exact ⟨hRunning, rfl⟩

/-- A running transfer ends with the number of its bytes. -/
theorem dmaEnd_eq (h : r.dmaEnd = some r') : r.rxd.running = true ∧
    r' = { r with
      rxd := { r.rxd with running := false, endrx := true, amount := r.rxd.got.length }
      received := r.received ++ r.rxd.got } := by
  obtain ⟨hRunning, h⟩ := Option.ite_none_right_eq_some.mp h
  cases h
  exact ⟨hRunning, rfl⟩

end Receiver

-- ---------------------------------------------------------------------------
-- Sending
-- ---------------------------------------------------------------------------

/-- The registers of TXD, and the transfer that they started last. -/
structure Txd where
  ptr : Nat
  maxcnt : Nat
  endtx : Bool
  running : Bool
  /-- How many bytes of the transfer are read from memory. -/
  done : Nat
  /-- Those of them that are not sent yet. -/
  fifo : List UInt8
  deriving DecidableEq, Repr

structure Sender (Task : Type) where
  tx : RingBuffer
  txState : TxState
  txWaker : WakerRegistration Task
  txd : Txd
  /-- The bytes that `poll_write` accepted. -/
  accepted : List UInt8
  wire : List UInt8
  woken : List Task
  deriving DecidableEq, Repr

namespace Sender

def new (txBuffer : List UInt8) : Sender Task where
  tx := .new txBuffer
  txState := .idle
  txWaker := .new
  txd := { ptr := 0, maxcnt := 0, endtx := false, running := false, done := 0, fifo := [] }
  accepted := []
  wire := []
  woken := []

/-- The registers as STARTTX leaves them. -/
def start (chip : Chip) (buf : Slice) (txd : Txd) : Txd :=
  { txd with ptr := buf.off, maxcnt := chip.maxcnt buf.len, running := true, done := 0, fifo := [] }

/-- The state `TxState::Idle` in the loop of `on_interrupt`, which it leaves. -/
def onIdle (chip : Chip) (t : Sender Task) : Option (Sender Task) := do
  let buf ← t.tx.popBuf
  if buf.len ≠ 0 then
    some { t with txState := .transmitting buf.len, txd := start chip buf t.txd }
  else some t

/-- The state `TxState::Transmitting(n)` at the end of a transfer. -/
def onEndtx (t : Sender Task) (n : Nat) : Option (Sender Task) := do
  let tx ← t.tx.pop n
  some { t with
    tx := tx
    txd := { t.txd with endtx := false }
    txWaker := t.txWaker.wake.1
    woken := t.woken ++ t.txWaker.wake.2
    txState := .idle }

/-- The tx loop of `on_interrupt`. It goes on only from the end of a transfer, and
then in the state `Idle`. -/
def onInterrupt (chip : Chip) (t : Sender Task) : Option (Sender Task) :=
  match t.txState with
  | .idle => t.onIdle chip
  | .transmitting n => if t.txd.endtx then (t.onEndtx n).bind (onIdle chip) else some t

/-- Of the bytes `buf`, as many are accepted as fit. The second component says
whether the call returns `Ready`. -/
def pollWrite [DecidableEq Task] (t : Sender Task) (w : Task) (buf : List UInt8) :
    Option (Sender Task × Bool) := do
  let txBuf ← t.tx.pushBuf
  if txBuf.len = 0 then
    some ({ t with
      txWaker := (t.txWaker.register w).1
      woken := t.woken ++ (t.txWaker.register w).2 }, false)
  else
    let n := min txBuf.len buf.length
    let tx ← (t.tx.copy txBuf.off (buf.take n)).push n
    some ({ t with tx := tx, accepted := t.accepted ++ buf.take n }, true)

/-- The DMA reads the next byte of the transfer. -/
def dmaRead (t : Sender Task) : Option (Sender Task) :=
  if t.txd.running ∧ t.txd.done < t.txd.maxcnt then
    some { t with
      txd := { t.txd with
        done := t.txd.done + 1
        fifo := t.txd.fifo ++ [t.tx.buf.getD (t.txd.ptr + t.txd.done) 0] } }
  else none

/-- A byte is put on the wire. -/
def dmaSend (t : Sender Task) : Option (Sender Task) :=
  match t.txd.fifo with
  | [] => none
  | x :: xs => some { t with txd := { t.txd with fifo := xs }, wire := t.wire ++ [x] }

/-- The transfer ends: MAXCNT bytes are sent. -/
def dmaEnd (t : Sender Task) : Option (Sender Task) :=
  if t.txd.running ∧ t.txd.done = t.txd.maxcnt ∧ t.txd.fifo = [] then
    some { t with txd := { t.txd with running := false, endtx := true } }
  else none

variable {chip : Chip} {t t' : Sender Task}

/-- With bytes stored a transfer is started, and otherwise nothing is done. -/
theorem onIdle_eq (h : t.onIdle chip = some t') : ∃ buf, t.tx.popBuf = some buf ∧
    (buf.len ≠ 0 ∧
      t' = { t with txState := .transmitting buf.len, txd := start chip buf t.txd } ∨
      buf.len = 0 ∧ t' = t) :=
  ite_len_eq h

/-- The end of a transfer pops its bytes and wakes the writer. -/
theorem onEndtx_eq {n : Nat} (h : t.onEndtx n = some t') : ∃ tx, t.tx.pop n = some tx ∧
    t' = { t with
      tx := tx
      txd := { t.txd with endtx := false }
      txWaker := t.txWaker.wake.1
      woken := t.woken ++ t.txWaker.wake.2
      txState := .idle } := by
  obtain ⟨tx, hPop, h⟩ := Option.bind_eq_some_iff.mp h
  cases h
  exact ⟨tx, hPop, rfl⟩

/-- Idle, at the end of a transfer, or in the middle of one. -/
theorem onInterrupt_cases (h : t.onInterrupt chip = some t') :
    t.txState = .idle ∧ t.onIdle chip = some t' ∨
      (∃ n m, t.txState = .transmitting n ∧ t.txd.endtx = true ∧ t.onEndtx n = some m ∧
        m.onIdle chip = some t') ∨
      (∃ n, t.txState = .transmitting n ∧ t.txd.endtx = false ∧ t' = t) := by
  unfold onInterrupt at h
  split at h
  · exact .inl ⟨‹_›, h⟩
  · split at h
    · obtain ⟨m, hm, h⟩ := Option.bind_eq_some_iff.mp h
      exact .inr (.inl ⟨_, m, ‹_›, ‹_›, hm, h⟩)
    · rename_i hEnd
      cases h
      exact .inr (.inr ⟨_, ‹_›, Bool.eq_false_iff.mpr hEnd, rfl⟩)

/-- A writer that finds no room leaves its waker; with room its first bytes are stored. -/
theorem pollWrite_eq [DecidableEq Task] {w : Task} {buf : List UInt8} {ready : Bool}
    (h : t.pollWrite w buf = some (t', ready)) : ∃ txBuf, t.tx.pushBuf = some txBuf ∧
      (txBuf.len = 0 ∧ ready = false ∧ t' = { t with
          txWaker := (t.txWaker.register w).1
          woken := t.woken ++ (t.txWaker.register w).2 } ∨
        txBuf.len ≠ 0 ∧ ready = true ∧ ∃ tx,
          (t.tx.copy txBuf.off (buf.take (min txBuf.len buf.length))).push
            (min txBuf.len buf.length) = some tx ∧
          t' = { t with
            tx := tx
            accepted := t.accepted ++ buf.take (min txBuf.len buf.length) }) := by
  obtain ⟨txBuf, hBuf, h⟩ := Option.bind_eq_some_iff.mp h
  refine ⟨txBuf, hBuf, ?_⟩
  split at h
  · rename_i hLen
    cases h
    exact .inl ⟨hLen, rfl, rfl⟩
  · rename_i hLen
    obtain ⟨tx, hPush, h⟩ := Option.bind_eq_some_iff.mp h
    cases h
    exact .inr ⟨hLen, rfl, tx, hPush, rfl⟩

/-- A byte is read into the FIFO, within the transfer. -/
theorem dmaRead_eq (h : t.dmaRead = some t') :
    (t.txd.running = true ∧ t.txd.done < t.txd.maxcnt) ∧
      t' = { t with
        txd := { t.txd with
          done := t.txd.done + 1
          fifo := t.txd.fifo ++ [t.tx.buf.getD (t.txd.ptr + t.txd.done) 0] } } := by
  obtain ⟨hRunning, h⟩ := Option.ite_none_right_eq_some.mp h
  cases h
  exact ⟨hRunning, rfl⟩

/-- A byte leaves the FIFO for the wire. -/
theorem dmaSend_eq (h : t.dmaSend = some t') : ∃ x xs, t.txd.fifo = x :: xs ∧
    t' = { t with txd := { t.txd with fifo := xs }, wire := t.wire ++ [x] } := by
  unfold dmaSend at h
  split at h
  · cases h
  · cases h
    exact ⟨_, _, ‹_›, rfl⟩

/-- A transfer ends when all of it was sent. -/
theorem dmaEnd_eq (h : t.dmaEnd = some t') :
    (t.txd.running = true ∧ t.txd.done = t.txd.maxcnt ∧ t.txd.fifo = []) ∧
      t' = { t with txd := { t.txd with running := false, endtx := true } } := by
  obtain ⟨hRunning, h⟩ := Option.ite_none_right_eq_some.mp h
  cases h
  exact ⟨hRunning, rfl⟩

end Sender

-- ---------------------------------------------------------------------------
-- The driver
-- ---------------------------------------------------------------------------

structure BufferedUarte (Task : Type) where
  chip : Chip
  receiver : Receiver Task
  sender : Sender Task
  /-- Whether `register_interrupt` was called, which enables the interrupt. -/
  irqSetupDone : Bool
  pending : Bool
  deriving DecidableEq, Repr

inductive Action (Task : Type) where
  /-- `register_interrupt`, the first statement of each of the next three -/
  | register
  | pollFillBuf (w : Task)
  | consume (amt : Nat)
  | pollWrite (w : Task) (buf : List UInt8)
  /-- the handler, when the interrupt is pending and enabled -/
  | interrupt
  /-- the interrupt gets pending for another reason -/
  | pend
  | rxByte (x : UInt8)
  | rxEnd
  | txRead
  | txSend
  | txEnd
  deriving DecidableEq, Repr

namespace BufferedUarte

/-- `new` pends the interrupt, and leaves it disabled. -/
def new (chip : Chip) (rxBuffer txBuffer : List UInt8) : BufferedUarte Task where
  chip := chip
  receiver := .new rxBuffer
  sender := .new txBuffer
  irqSetupDone := false
  pending := true

def step [DecidableEq Task] (s : BufferedUarte Task) : Action Task → Option (BufferedUarte Task)
  | .register => some { s with irqSetupDone := true }
  | .pollFillBuf w =>
    if s.irqSetupDone then do
      let r ← s.receiver.pollFillBuf w
      some { s with receiver := r }
    else none
  | .consume amt =>
    if s.irqSetupDone then do
      let r ← s.receiver.consume amt
      some { s with receiver := r, pending := true }
    else none
  | .pollWrite w buf =>
    if s.irqSetupDone then do
      let (t, ready) ← s.sender.pollWrite w buf
      some { s with sender := t, pending := s.pending || ready }
    else none
  | .interrupt =>
    if s.irqSetupDone ∧ s.pending then do
      let r ← s.receiver.onInterrupt s.chip
      let t ← s.sender.onInterrupt s.chip
      some { s with receiver := r, sender := t, pending := false }
    else none
  | .pend => some { s with pending := true }
  | .rxByte x => do
    let r ← s.receiver.dmaByte x
    some { s with receiver := r }
  | .rxEnd => do
    let r ← s.receiver.dmaEnd
    some { s with receiver := r, pending := true }
  | .txRead => do
    let t ← s.sender.dmaRead
    some { s with sender := t }
  | .txSend => do
    let t ← s.sender.dmaSend
    some { s with sender := t }
  | .txEnd => do
    let t ← s.sender.dmaEnd
    some { s with sender := t, pending := true }

/-- What each action does to the two directions and to the interrupt. -/
def Effect [DecidableEq Task] (s s' : BufferedUarte Task) : Action Task → Prop
  | .register => s'.receiver = s.receiver ∧ s'.sender = s.sender ∧ s'.pending = s.pending
  | .pollFillBuf w =>
    s.receiver.pollFillBuf w = some s'.receiver ∧ s'.sender = s.sender ∧ s'.pending = s.pending
  | .consume amt =>
    s.receiver.consume amt = some s'.receiver ∧ s'.sender = s.sender ∧ s'.pending = true
  | .pollWrite w buf => ∃ ready, s.sender.pollWrite w buf = some (s'.sender, ready) ∧
    s'.receiver = s.receiver ∧ s'.pending = (s.pending || ready)
  | .interrupt => s.receiver.onInterrupt s.chip = some s'.receiver ∧
    s.sender.onInterrupt s.chip = some s'.sender
  | .pend => s'.receiver = s.receiver ∧ s'.sender = s.sender ∧ s'.pending = true
  | .rxByte x =>
    s.receiver.dmaByte x = some s'.receiver ∧ s'.sender = s.sender ∧ s'.pending = s.pending
  | .rxEnd => s.receiver.dmaEnd = some s'.receiver ∧ s'.sender = s.sender ∧ s'.pending = true
  | .txRead => s.sender.dmaRead = some s'.sender ∧ s'.receiver = s.receiver ∧ s'.pending = s.pending
  | .txSend => s.sender.dmaSend = some s'.sender ∧ s'.receiver = s.receiver ∧ s'.pending = s.pending
  | .txEnd => s.sender.dmaEnd = some s'.sender ∧ s'.receiver = s.receiver ∧ s'.pending = true

/-- What a step does to the two directions; the chip stays. -/
theorem step_effect [DecidableEq Task] {s s' : BufferedUarte Task} {a : Action Task}
    (hs : s.step a = some s') : s'.chip = s.chip ∧ Effect s s' a := by
  cases a with
  | register | pend =>
    cases hs
    exact ⟨rfl, rfl, rfl, rfl⟩
  | pollFillBuf w =>
    simp only [step, Option.ite_none_right_eq_some] at hs
    obtain ⟨-, hs⟩ := hs
    obtain ⟨r, hr, hs⟩ := Option.bind_eq_some_iff.mp hs
    cases hs
    exact ⟨rfl, hr, rfl, rfl⟩
  | consume amt =>
    simp only [step, Option.ite_none_right_eq_some] at hs
    obtain ⟨-, hs⟩ := hs
    obtain ⟨r, hr, hs⟩ := Option.bind_eq_some_iff.mp hs
    cases hs
    exact ⟨rfl, hr, rfl, rfl⟩
  | pollWrite w buf =>
    simp only [step, Option.ite_none_right_eq_some] at hs
    obtain ⟨-, hs⟩ := hs
    obtain ⟨⟨t, ready⟩, ht, hs⟩ := Option.bind_eq_some_iff.mp hs
    cases hs
    exact ⟨rfl, ready, ht, rfl, rfl⟩
  | interrupt =>
    simp only [step, Option.ite_none_right_eq_some] at hs
    obtain ⟨-, hs⟩ := hs
    obtain ⟨r, hr, hs⟩ := Option.bind_eq_some_iff.mp hs
    obtain ⟨t, ht, hs⟩ := Option.bind_eq_some_iff.mp hs
    cases hs
    exact ⟨rfl, hr, ht⟩
  | rxByte | rxEnd | txRead | txSend | txEnd =>
    obtain ⟨r, hr, hs⟩ := Option.bind_eq_some_iff.mp hs
    cases hs
    exact ⟨rfl, hr, rfl, rfl⟩

end BufferedUarte

end Embassy.Nrf
