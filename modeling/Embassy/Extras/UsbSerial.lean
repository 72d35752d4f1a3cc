import Mathlib.Logic.Function.Basic
import Embassy.Extras.RingBuffer
import Embassy.Util.Waker

/-!
# The USB serial class

`embassy-extras/src/usb/usb_serial.rs`. Every operation of `UsbSerial` runs within
one critical section: the methods of the two interfaces inside of `with`, those of
`UsbClass` in the interrupt. The endpoints are not part of the model: the result of
`read_packet` (with the packet) and of `write_packet` is given from outside. A
panic is `none`.

A `Session` is the class together with what its user has: the slice that
`poll_fill_buf` returned last, and the bytes received and obtained. These are told
apart by the number of resets before them. The slice is a reference into the ring
buffer, so that the user obtains what is in memory by the time of `consume`, and not
what was there when the slice was returned.

Main results:

* `pollFillBuf_cases`, `pollWrite_cases`, `endpointOut_cases` and the like — what each
  operation can do.
-/

namespace Embassy.Extras

open Embassy.Util

/-- `usb_device::UsbError`. All errors but `WouldBlock` are treated alike. -/
inductive UsbError where
  | wouldBlock
  | other
  deriving DecidableEq, Repr

/-- `io::Error`, as far as it is used here. -/
inductive IoError where
  | other
  deriving DecidableEq, Repr

/-- Keeps track of the type of the last written packet. -/
inductive WriteState where
  | idle
  | short
  | full (n : Nat)
  deriving DecidableEq, Repr

structure UsbSerial (Task : Type) where
  readEpAddress : Nat
  writeEpAddress : Nat
  readBuf : RingBuffer
  writeBuf : RingBuffer
  readWaker : WakerRegistration Task
  writeWaker : WakerRegistration Task
  writeState : WriteState
  readError : Bool
  writeError : Bool
  /-- The tasks woken so far. -/
  woken : List Task
  deriving DecidableEq, Repr

variable {Task : Type}

namespace UsbSerial

/-- `CdcAcmClass::new(alloc, 64)`. -/
def maxPacketSize : Nat := 64

def shortPacketInterval : Nat := 10

def new (readEpAddress writeEpAddress : Nat) (readBuf writeBuf : List UInt8) : UsbSerial Task where
  readEpAddress := readEpAddress
  writeEpAddress := writeEpAddress
  readBuf := .new readBuf
  writeBuf := .new writeBuf
  readWaker := .new
  writeWaker := .new
  writeState := .idle
  readError := false
  writeError := false
  woken := []

def pollFillBuf [DecidableEq Task] (u : UsbSerial Task) (w : Task) :
    Option (UsbSerial Task × Poll (Except IoError Slice)) :=
  if u.readError then some ({ u with readError := false }, .ready (.error .other))
  else do
    let buf ← u.readBuf.popBuf
    if buf.len = 0 then
      some ({ u with
        readWaker := (u.readWaker.register w).1
        woken := u.woken ++ (u.readWaker.register w).2 }, .pending)
    else some (u, .ready (.ok buf))

def consume (u : UsbSerial Task) (amt : Nat) : Option (UsbSerial Task) := do
  let readBuf ← u.readBuf.pop amt
  some { u with readBuf := readBuf }

/-- How many full packets were sent in a row. -/
def fullSizePackets (u : UsbSerial Task) : Nat :=
  match u.writeState with
  | .full c => c
  | _ => 0

def maxSize (u : UsbSerial Task) : Nat :=
  if u.fullSizePackets > shortPacketInterval then maxPacketSize - 1 else maxPacketSize

/-- The bytes that go into the next packet. -/
def nextPacket (u : UsbSerial Task) : Option Slice := do
  let buf ← u.writeBuf.popBuf
  some (if buf.len > u.maxSize then ⟨buf.off, u.maxSize⟩ else buf)

/-- `write_packet` took `count` bytes of the packet `buf`. -/
def packetWritten (u : UsbSerial Task) (buf : Slice) (count : Nat) : Option (UsbSerial Task) := do
  let writeBuf ← u.writeBuf.pop count
  some { u with
    writeState := if buf.len = maxPacketSize then .full (u.fullSizePackets + 1) else .short
    writeBuf := writeBuf }

/-- After `write_packet` of the packet `buf`. -/
def afterPacket (u : UsbSerial Task) (buf : Slice) : Except UsbError Nat → Option (UsbSerial Task)
  | .ok c => u.packetWritten buf c
  | .error .wouldBlock => u.packetWritten buf 0
  | .error .other => some { u with writeError := true }

/-- After `write_packet` of no bytes. -/
def afterEmptyPacket (u : UsbSerial Task) : Except UsbError Nat → UsbSerial Task
  | .ok _ => { u with writeState := .idle }
  | .error .wouldBlock => u
  | .error .other => { u with writeError := true }

/-- `result` is that of `write_packet`. The packet that was passed to it is returned,
if it was called. -/
def flushWrite (u : UsbSerial Task) (result : Except UsbError Nat) :
    Option (UsbSerial Task × Option (List UInt8)) := do
  let buf ← u.nextPacket
  if buf.len ≠ 0 then do
    let u' ← u.afterPacket buf result
    some (u', some (u.writeBuf.read buf))
  else if u.fullSizePackets > 0 then some (u.afterEmptyPacket result, some [])
  else some (u, none)

/-- With the packet that was passed to `write_packet`. -/
def pollWrite [DecidableEq Task] (u : UsbSerial Task) (w : Task) (buf : List UInt8)
    (result : Except UsbError Nat) :
    Option (UsbSerial Task × Poll (Except IoError Nat) × Option (List UInt8)) :=
  if u.writeError then some ({ u with writeError := false }, .ready (.error .other), none)
  else do
    let pushBuf ← u.writeBuf.pushBuf
    if pushBuf.len = 0 then
      some ({ u with
        writeWaker := (u.writeWaker.register w).1
        woken := u.woken ++ (u.writeWaker.register w).2 }, .pending, none)
    else
      let count := min pushBuf.len buf.length
      let writeBuf ← (u.writeBuf.copy pushBuf.off (buf.take count)).push count
      let (u', packet) ← flushWrite { u with writeBuf := writeBuf } result
      some (u', .ready (.ok count), packet)

def reset (u : UsbSerial Task) : UsbSerial Task :=
  { u with readBuf := u.readBuf.clear, writeBuf := u.writeBuf.clear, writeState := .idle }

/-- With the packet that was passed to `write_packet`. -/
def endpointInComplete (u : UsbSerial Task) (addr : Nat) (result : Except UsbError Nat) :
    Option (UsbSerial Task × Option (List UInt8)) :=
  if addr = u.writeEpAddress then
    flushWrite { u with
      writeWaker := u.writeWaker.wake.1
      woken := u.woken ++ u.writeWaker.wake.2 } result
  else some (u, none)

/-- `read_packet` writes a packet into the buffer that it is given, or fails. -/
def endpointOut (u : UsbSerial Task) (addr : Nat) (result : Except UsbError (List UInt8)) :
    Option (UsbSerial Task) :=
  if addr = u.readEpAddress then do
    let buf ← u.readBuf.pushBuf
    match result with
    | .error .wouldBlock => some u
    | .error .other => some { u with readError := true }
    | .ok packet =>
      if packet.length ≤ buf.len then
        if packet.length > 0 then do
          let readBuf ← (u.readBuf.copy buf.off packet).push packet.length
          some { u with
            readBuf := readBuf
            readWaker := u.readWaker.wake.1
            woken := u.woken ++ u.readWaker.wake.2 }
        else some u
      else none
  else some u

section Cases

variable {u u' : UsbSerial Task}

/-- An error is reported once; then there are bytes, or the waker is left. -/
theorem pollFillBuf_cases [DecidableEq Task] {w : Task} {p : Poll (Except IoError Slice)}
    (h : u.pollFillBuf w = some (u', p)) :
    u.readError = true ∧ p = .ready (.error .other) ∧ u' = { u with readError := false } ∨
      u.readError = false ∧ ∃ buf, u.readBuf.popBuf = some buf ∧
        (buf.len = 0 ∧ p = .pending ∧ u' = { u with
            readWaker := (u.readWaker.register w).1
            woken := u.woken ++ (u.readWaker.register w).2 } ∨
          buf.len ≠ 0 ∧ p = .ready (.ok buf) ∧ u' = u) := by
  unfold pollFillBuf at h
  split at h
  · rename_i hError
    cases h
    exact .inl ⟨hError, rfl, rfl⟩
  · rename_i hError
    obtain ⟨buf, hBuf, h⟩ := Option.bind_eq_some_iff.mp h
    refine .inr ⟨Bool.eq_false_iff.mpr hError, buf, hBuf, ?_⟩
    split at h
    · rename_i hLen
      cases h
      exact .inl ⟨hLen, rfl, rfl⟩
    · rename_i hLen
      cases h
      exact .inr ⟨hLen, rfl, rfl⟩

theorem consume_eq {amt : Nat} (h : u.consume amt = some u') :
    ∃ readBuf, u.readBuf.pop amt = some readBuf ∧ u' = { u with readBuf := readBuf } := by
  obtain ⟨readBuf, hPop, h⟩ := Option.bind_eq_some_iff.mp h
  cases h
  exact ⟨readBuf, hPop, rfl⟩

/-- Only the write buffer and its state change. -/
theorem packetWritten_eq {buf : Slice} {c : Nat} (h : u.packetWritten buf c = some u') :
    ∃ writeBuf writeState writeError count, u.writeBuf.pop count = some writeBuf ∧
      u' = { u with writeBuf := writeBuf, writeState := writeState, writeError := writeError } := by
  obtain ⟨writeBuf, hPop, h⟩ := Option.bind_eq_some_iff.mp h
  cases h
  exact ⟨_, _, _, _, hPop, rfl⟩

/-- What `flush_write` does: it pops, or sets the error, or nothing. -/
theorem flushWrite_eq {result : Except UsbError Nat} {packet : Option (List UInt8)}
    (h : u.flushWrite result = some (u', packet)) :
    ∃ writeBuf writeState writeError count, u.writeBuf.pop count = some writeBuf ∧
      u' = { u with writeBuf := writeBuf, writeState := writeState, writeError := writeError } := by
  have hZero := RingBuffer.pop_zero u.writeBuf
  obtain ⟨buf, -, h⟩ := Option.bind_eq_some_iff.mp h
  -- a packet, an empty one, or none; the endpoint takes it, blocks or fails
  split at h
  · obtain ⟨v, hv, h⟩ := Option.bind_eq_some_iff.mp h
    cases h
    rcases result with (_ | _) | c
    · exact packetWritten_eq hv
    · cases hv
      exact ⟨_, u.writeState, true, 0, hZero, rfl⟩
    · exact packetWritten_eq hv
  · split at h
    · cases h
      rcases result with (_ | _) | c
      · exact ⟨_, u.writeState, u.writeError, 0, hZero, rfl⟩
      · exact ⟨_, u.writeState, true, 0, hZero, rfl⟩
      · exact ⟨_, .idle, u.writeError, 0, hZero, rfl⟩
    · cases h
      exact ⟨_, u.writeState, u.writeError, 0, hZero, rfl⟩

/-- An error is reported once; then there is room, or the waker is left. -/
theorem pollWrite_cases [DecidableEq Task] {w : Task} {buf : List UInt8}
    {result : Except UsbError Nat} {p : Poll (Except IoError Nat)} {packet : Option (List UInt8)}
    (h : u.pollWrite w buf result = some (u', p, packet)) :
    u.writeError = true ∧ p = .ready (.error .other) ∧ packet = none ∧
        u' = { u with writeError := false } ∨
      u.writeError = false ∧ ∃ pushBuf, u.writeBuf.pushBuf = some pushBuf ∧
        (pushBuf.len = 0 ∧ p = .pending ∧ packet = none ∧ u' = { u with
            writeWaker := (u.writeWaker.register w).1
            woken := u.woken ++ (u.writeWaker.register w).2 } ∨
          pushBuf.len ≠ 0 ∧ ∃ writeBuf,
            (u.writeBuf.copy pushBuf.off (buf.take (min pushBuf.len buf.length))).push
              (min pushBuf.len buf.length) = some writeBuf ∧
            flushWrite { u with writeBuf := writeBuf } result = some (u', packet) ∧
            p = .ready (.ok (min pushBuf.len buf.length))) := by
  unfold pollWrite at h
  split at h
  · rename_i hError
    cases h
    exact .inl ⟨hError, rfl, rfl, rfl⟩
  · rename_i hError
    obtain ⟨pushBuf, hBuf, h⟩ := Option.bind_eq_some_iff.mp h
    refine .inr ⟨Bool.eq_false_iff.mpr hError, pushBuf, hBuf, ?_⟩
    split at h
    · rename_i hLen
      cases h
      exact .inl ⟨hLen, rfl, rfl, rfl⟩
    · rename_i hLen
      obtain ⟨writeBuf, hPush, h⟩ := Option.bind_eq_some_iff.mp h
      obtain ⟨⟨v, packet'⟩, hFlush, h⟩ := Option.bind_eq_some_iff.mp h
      cases h
      exact .inr ⟨hLen, writeBuf, hPush, hFlush, rfl⟩

/-- The writer is woken and the next packet passed on, for the endpoint itself. -/
theorem endpointInComplete_cases {addr : Nat} {result : Except UsbError Nat}
    {packet : Option (List UInt8)} (h : u.endpointInComplete addr result = some (u', packet)) :
    addr = u.writeEpAddress ∧ flushWrite { u with
        writeWaker := u.writeWaker.wake.1
        woken := u.woken ++ u.writeWaker.wake.2 } result = some (u', packet) ∨
      addr ≠ u.writeEpAddress ∧ packet = none ∧ u' = u := by
  unfold endpointInComplete at h
  split at h
  · exact .inl ⟨‹_›, h⟩
  · cases h
    exact .inr ⟨‹_›, rfl, rfl⟩

/-- What is written has no effect on what is read. -/
theorem pollWrite_frame [DecidableEq Task] {w : Task} {buf : List UInt8}
    {result : Except UsbError Nat} {p : Poll (Except IoError Nat) × Option (List UInt8)}
    (h : u.pollWrite w buf result = some (u', p)) :
    u'.readBuf = u.readBuf ∧ u'.readWaker = u.readWaker ∧ u'.readError = u.readError := by
  rcases pollWrite_cases h with ⟨-, -, -, rfl⟩ | ⟨-, pushBuf, -, hCases⟩
  · exact ⟨rfl, rfl, rfl⟩
  · rcases hCases with ⟨-, -, -, rfl⟩ | ⟨-, writeBuf, -, hFlush, -⟩
    · exact ⟨rfl, rfl, rfl⟩
    · obtain ⟨_, _, _, _, -, rfl⟩ := flushWrite_eq hFlush
      exact ⟨rfl, rfl, rfl⟩

theorem endpointInComplete_frame {addr : Nat} {result : Except UsbError Nat}
    {packet : Option (List UInt8)} (h : u.endpointInComplete addr result = some (u', packet)) :
    u'.readBuf = u.readBuf ∧ u'.readWaker = u.readWaker ∧ u'.readError = u.readError := by
  rcases endpointInComplete_cases h with ⟨-, hFlush⟩ | ⟨-, -, rfl⟩
  · obtain ⟨_, _, _, _, -, rfl⟩ := flushWrite_eq hFlush
    exact ⟨rfl, rfl, rfl⟩
  · exact ⟨rfl, rfl, rfl⟩

/-- The packet is pushed, or an error is kept, or it is another endpoint. -/
theorem endpointOut_cases {addr : Nat} {result : Except UsbError (List UInt8)}
    (h : u.endpointOut addr result = some u') :
    addr = u.readEpAddress ∧ result = .error .other ∧ u' = { u with readError := true } ∨
      (∃ packet buf readBuf, addr = u.readEpAddress ∧ result = .ok packet ∧ packet ≠ [] ∧
        u.readBuf.pushBuf = some buf ∧ packet.length ≤ buf.len ∧
        (u.readBuf.copy buf.off packet).push packet.length = some readBuf ∧
        u' = { u with
          readBuf := readBuf
          readWaker := u.readWaker.wake.1
          woken := u.woken ++ u.readWaker.wake.2 }) ∨
      (addr = u.readEpAddress → result = .error .wouldBlock ∨ result = .ok []) ∧ u' = u := by
  unfold endpointOut at h
  split at h
  · rename_i hAddr
    obtain ⟨buf, hBuf, h⟩ := Option.bind_eq_some_iff.mp h
    rcases result with (_ | _) | packet
    · cases h
      exact .inr (.inr ⟨fun _ => .inl rfl, rfl⟩)
    · cases h
      exact .inl ⟨hAddr, rfl, rfl⟩
    · obtain ⟨hFits, h⟩ := Option.ite_none_right_eq_some.mp h
      split at h
      · rename_i hPos
        obtain ⟨readBuf, hPush, h⟩ := Option.bind_eq_some_iff.mp h
        cases h
        exact .inr (.inl ⟨packet, buf, readBuf, hAddr, rfl, List.length_pos_iff.mp hPos, hBuf,
          hFits, hPush, rfl⟩)
      · rename_i hNone
        cases h
        have hNil : packet = [] := List.length_eq_zero_iff.mp (by omega)
        exact .inr (.inr ⟨fun _ => .inr (by rw [hNil]), rfl⟩)
  · rename_i hAddr
    cases h
    exact .inr (.inr ⟨fun hEq => absurd hEq hAddr, rfl⟩)

end Cases

end UsbSerial

-- ---------------------------------------------------------------------------
-- A session
-- ---------------------------------------------------------------------------

structure Session (Task : Type) where
  serial : UsbSerial Task
  /-- The slice that `poll_fill_buf` returned last, less what of it is consumed. -/
  slice : Slice
  /-- The bytes of the slice, as they were in memory when it was returned. -/
  shown : List UInt8
  /-- The number of resets so far. -/
  resets : Nat
  /-- The number of resets before the slice was returned. -/
  shownAt : Nat
  /-- The bytes received after each reset and before the next. -/
  received : Nat → List UInt8
  /-- The bytes consumed, of slices returned after each reset and before the next. -/
  obtained : Nat → List UInt8

inductive SerialAction (Task : Type) where
  | pollFillBuf (w : Task)
  | consume (amt : Nat)
  | pollWrite (w : Task) (buf : List UInt8) (result : Except UsbError Nat)
  | endpointOut (addr : Nat) (result : Except UsbError (List UInt8))
  | endpointInComplete (addr : Nat) (result : Except UsbError Nat)
  | reset
  deriving Repr

namespace Session

def new (readEpAddress writeEpAddress : Nat) (readBuf writeBuf : List UInt8) : Session Task where
  serial := .new readEpAddress writeEpAddress readBuf writeBuf
  slice := ⟨0, 0⟩
  shown := []
  resets := 0
  shownAt := 0
  received := fun _ => []
  obtained := fun _ => []

/-- What a packet adds to the bytes received. -/
def packetBytes (s : Session Task) (addr : Nat) : Except UsbError (List UInt8) → List UInt8
  | .ok packet => if addr = s.serial.readEpAddress then packet else []
  | .error _ => []

/-- The user has the next `amt` bytes of its slice, as they are in memory now. -/
def afterConsume (s : Session Task) (u : UsbSerial Task) (amt : Nat) : Session Task :=
  { s with
    serial := u
    slice := ⟨s.slice.off + amt, s.slice.len - amt⟩
    shown := s.shown.drop amt
    obtained := Function.update s.obtained s.shownAt
      (s.obtained s.shownAt ++ s.serial.readBuf.read ⟨s.slice.off, amt⟩) }

def step [DecidableEq Task] (s : Session Task) : SerialAction Task → Option (Session Task)
  | .pollFillBuf w => do
    let (u, poll) ← s.serial.pollFillBuf w
    match poll with
    | .ready (.ok buf) => some { s with
        serial := u
        slice := buf
        shown := u.readBuf.read buf
        shownAt := s.resets }
    | _ => some { s with serial := u }
  | .consume amt => do
    let u ← s.serial.consume amt
    some (s.afterConsume u amt)
  | .pollWrite w buf result => do
    let (u, _) ← s.serial.pollWrite w buf result
    some { s with serial := u }
  | .endpointOut addr result => do
    let u ← s.serial.endpointOut addr result
    some { s with
      serial := u
      received := Function.update s.received s.resets
        (s.received s.resets ++ s.packetBytes addr result) }
  | .endpointInComplete addr result => do
    let (u, _) ← s.serial.endpointInComplete addr result
    some { s with serial := u }
  | .reset => some { s with serial := s.serial.reset, resets := s.resets + 1 }

/-- The contract of `consume`: no more than the bytes that `poll_fill_buf`
returned. -/
def Contract (s : Session Task) : SerialAction Task → Prop
  | .consume amt => amt ≤ s.slice.len
  | _ => True

instance (s : Session Task) (a : SerialAction Task) : Decidable (s.Contract a) := by
  cases a <;> unfold Contract <;> infer_instance

end Session

end Embassy.Extras
