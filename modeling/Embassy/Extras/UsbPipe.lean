import Embassy.Lib.Run
import Embassy.Extras.UsbSerial

/-!
# What is written to the USB serial class

`poll_write` appends bytes to the ring buffer, and `flush_write` passes them on to
the IN endpoint, one packet at an attempt. There is an attempt at every
`poll_write`, also while a packet is in flight and the endpoint can only answer
`WouldBlock`, and at every `endpoint_in_complete`.

An `InPipe` is the class together with the host's side of it: whether a packet is
in flight, and what was accepted by the endpoint and by `poll_write` since the last
reset.

Main results:

* `step_cases` — what a step is: nothing that concerns the pipe, an attempt to
  flush after bytes were appended or a packet has gone out, or a reset.
* `write_integrity` — the bytes written are those in the packets and the buffer.
* `idle_terminated` — the endpoint is idle only with nothing left to send.
-/

namespace Embassy.Extras

open Embassy.Lib Embassy.Util Embassy.Extras.RingBuffer

variable {Task : Type}

namespace UsbSerial

/-- The packet that is passed to `write_packet`, if it is called. -/
def passed [DecidableEq Task] (u : UsbSerial Task) : SerialAction Task → Option (List UInt8)
  | .pollWrite w buf result => (u.pollWrite w buf result).bind fun r => r.2.2
  | .endpointInComplete addr result => (u.endpointInComplete addr result).bind fun r => r.2
  | _ => none

-- ---------------------------------------------------------------------------
-- An attempt to flush
-- ---------------------------------------------------------------------------

/-- What `flush_write` does: it passes on the first bytes stored, or an empty packet
behind a full one, or makes no attempt. -/
inductive Flush (u : UsbSerial Task) (result : Except UsbError Nat) :
    UsbSerial Task → Option (List UInt8) → Prop where
  | idle : u.writeBuf.contents = [] → u.fullSizePackets = 0 → Flush u result u none
  | empty : u.writeBuf.contents = [] → 0 < u.fullSizePackets →
      Flush u result (u.afterEmptyPacket result) (some [])
  | data {buf : Slice} {v : UsbSerial Task} : u.nextPacket = some buf → 0 < buf.len →
      u.afterPacket buf result = some v →
      Flush u result v (some (u.writeBuf.contents.take buf.len))

variable {u v : UsbSerial Task} {result : Except UsbError Nat} {packet : Option (List UInt8)}
  {buf : Slice}

/-- A packet is never limited to no byte at all. -/
theorem maxSize_pos (u : UsbSerial Task) : 0 < u.maxSize := by
  unfold maxSize maxPacketSize
  split <;> omega

theorem maxSize_le (u : UsbSerial Task) : u.maxSize ≤ maxPacketSize := by
  unfold maxSize maxPacketSize
  split <;> omega

/-- `pop_buf` does not panic, and so neither does this. -/
theorem nextPacket_some (hB : u.writeBuf.WF) : ∃ buf, u.nextPacket = some buf := by
  obtain ⟨sl, hSl⟩ := hB.popBuf_some
  unfold nextPacket
  rw [hSl]
  exact ⟨_, rfl⟩

/-- The next packet is the beginning of the stored bytes, and empty only if there are
none. -/
theorem nextPacket_spec (hB : u.writeBuf.WF) (h : u.nextPacket = some buf) :
    u.writeBuf.Front buf ∧ buf.len ≤ u.maxSize ∧
      (buf.len = 0 ↔ u.writeBuf.contents = []) := by
  obtain ⟨sl, hSl, hNext⟩ := Option.bind_eq_some_iff.mp h
  obtain ⟨-, -, hZero, -⟩ := popBuf_spec hB hSl
  have hPos := u.maxSize_pos
  cases hNext
  rw [contents_eq_nil, ← hZero]
  -- Either the packet is cut at the limit or it is all of `pop_buf`.
  split
  · rename_i hLong
    refine ⟨⟨sl, hSl, Nat.le_of_lt hLong, fun _ => rfl⟩, Nat.le_refl _, ?_⟩
    show u.maxSize = 0 ↔ sl.len = 0
    omega
  · exact ⟨front_of_popBuf hSl, by omega, Iff.rfl⟩

/-- With as many bytes up to the end of the buffer, the next packet is a full one. -/
theorem nextPacket_full (hB : u.writeBuf.WF) (h : u.nextPacket = some buf)
    (hLen : u.maxSize ≤ u.writeBuf.len)
    (hEnd : u.writeBuf.start + u.maxSize ≤ u.writeBuf.capacity) : buf.len = u.maxSize := by
  obtain ⟨sl, hSl, hNext⟩ := Option.bind_eq_some_iff.mp h
  have hPop := le_popBuf_len hB hSl hLen hEnd
  cases hNext
  split
  · rfl
  · omega

/-- `flush_write` is an attempt of one of the three kinds. -/
theorem flush_of_flushWrite (hB : u.writeBuf.WF) (h : u.flushWrite result = some (v, packet)) :
    u.Flush result v packet := by
  obtain ⟨buf, hNext⟩ := nextPacket_some hB
  obtain ⟨hFront, -, hZero⟩ := nextPacket_spec hB hNext
  unfold flushWrite at h
  rw [hNext] at h
  simp only [Option.bind_eq_bind, Option.bind_some] at h
  -- There are bytes, or a full packet wants an empty one behind it, or neither.
  split at h
  · rename_i hLen
    obtain ⟨w, hAfter, h⟩ := Option.bind_eq_some_iff.mp h
    cases h
    have hRead : u.writeBuf.read buf = u.writeBuf.contents.take buf.len :=
      hFront.read hB (Nat.le_refl _)
    rw [hRead]
    exact .data hNext (Nat.pos_of_ne_zero hLen) hAfter
  · rename_i hLen
    have hNil := hZero.mp (Decidable.not_not.mp hLen)
    split at h
    · cases h
      exact .empty hNil ‹_›
    · cases h
      exact .idle hNil (by omega)

theorem fullSizePackets_eq {p : Prop} [Decidable p] {n : Nat}
    (h : u.writeState = if p then .full n else .short) :
    u.fullSizePackets = if p then n else 0 := by
  unfold fullSizePackets
  rw [h]
  by_cases hp : p
  · rw [if_pos hp, if_pos hp]
  · rw [if_neg hp, if_neg hp]

theorem fullSizePackets_congr (h : v.writeState = u.writeState) :
    v.fullSizePackets = u.fullSizePackets := by
  unfold fullSizePackets
  rw [h]

/-- A packet that the endpoint takes is taken from the buffer. -/
theorem afterPacket_ok (hB : u.writeBuf.WF) (hNext : u.nextPacket = some buf)
    (h : u.afterPacket buf (.ok (u.writeBuf.contents.take buf.len).length) = some v) :
    (u.writeBuf.contents.take buf.len).length = buf.len ∧ buf.len ≤ u.maxSize ∧
      v.writeBuf.contents = u.writeBuf.contents.drop buf.len ∧
      v.fullSizePackets = (if buf.len = maxPacketSize then u.fullSizePackets + 1 else 0) ∧
      v.writeError = u.writeError := by
  obtain ⟨hFront, hMax, -⟩ := nextPacket_spec hB hNext
  have hLen : (u.writeBuf.contents.take buf.len).length = buf.len := by
    have := hFront.len_le hB
    rw [List.length_take, length_contents]
    omega
  -- The packet was shown by `pop_buf`, so it can be popped.
  obtain ⟨writeBuf, hPop, hContents⟩ := hFront.pop_contents hB (Nat.le_refl _)
  rw [hLen] at h
  obtain ⟨writeBuf', hPop', h⟩ := Option.bind_eq_some_iff.mp h
  cases hPop.symm.trans hPop'
  cases h
  exact ⟨hLen, hMax, hContents, fullSizePackets_eq rfl, rfl⟩

/-- A packet that the endpoint does not take stays in the buffer, but counts as
written. -/
theorem afterPacket_wouldBlock (h : u.afterPacket buf (.error .wouldBlock) = some v) :
    v = { u with
      writeState :=
        if buf.len = maxPacketSize then .full (u.fullSizePackets + 1) else .short } := by
  cases h
  rfl

/-- The ring buffer stays well formed over an attempt. -/
theorem Flush.wf (hFlush : u.Flush result v packet) (hB : u.writeBuf.WF) : v.writeBuf.WF := by
  cases hFlush with
  | idle => exact hB
  | empty => rcases result with (_ | _) | c <;> exact hB
  | data hNext hPos hAfter =>
    rcases result with (_ | _) | c
    · rw [afterPacket_wouldBlock hAfter]
      exact hB
    · cases hAfter
      exact hB
    · obtain ⟨writeBuf, _, _, _, hPop, hV⟩ := packetWritten_eq hAfter
      rw [hV]
      exact hB.pop hPop

/-- No packet is too long for the endpoint. -/
theorem Flush.length_le (hFlush : u.Flush result v packet) (hB : u.writeBuf.WF) :
    ∀ bytes ∈ packet, bytes.length ≤ maxPacketSize := by
  intro bytes hBytes
  cases hFlush with
  | idle => cases hBytes
  | empty =>
    cases hBytes
    exact Nat.zero_le _
  | data hNext hPos hAfter =>
    cases hBytes
    obtain ⟨-, hMax, -⟩ := nextPacket_spec hB hNext
    have := u.maxSize_le
    rw [List.length_take]
    omega

end UsbSerial

-- ---------------------------------------------------------------------------
-- The pipe
-- ---------------------------------------------------------------------------

/-- What `write_packet` returns, if it is called. -/
def SerialAction.answer : SerialAction Task → Option (Except UsbError Nat)
  | .pollWrite _ _ result => some result
  | .endpointInComplete _ result => some result
  | _ => none

structure InPipe (Task : Type) where
  serial : UsbSerial Task
  /-- A packet is on its way to the host. -/
  inFlight : Bool
  /-- The packets that the endpoint accepted since the last reset. -/
  packets : List (List UInt8)
  /-- The bytes that `poll_write` accepted since the last reset. -/
  written : List UInt8
  deriving DecidableEq

namespace InPipe

def new (readEpAddress writeEpAddress : Nat) (readBuf writeBuf : List UInt8) : InPipe Task where
  serial := .new readEpAddress writeEpAddress readBuf writeBuf
  inFlight := false
  packets := []
  written := []

/-- The bytes that `poll_write` accepted of `buf`. -/
def accepted (buf : List UInt8) : Poll (Except IoError Nat) → List UInt8
  | .ready (.ok n) => buf.take n
  | _ => []

/-- A packet is in flight when `write_packet` is called. `endpoint_in_complete` is
called when the packet has gone out. -/
def busy (s : InPipe Task) : SerialAction Task → Bool
  | .endpointInComplete addr _ => if addr = s.serial.writeEpAddress then false else s.inFlight
  | _ => s.inFlight

/-- After `write_packet`, if it was called. -/
def answered (s : InPipe Task) (u : UsbSerial Task) :
    Option (List UInt8) → Except UsbError Nat → InPipe Task
  | some packet, .ok _ =>
    { s with serial := u, inFlight := true, packets := s.packets ++ [packet] }
  | _, _ => { s with serial := u }

/-- A reset drops the packet in flight. -/
def step [DecidableEq Task] (s : InPipe Task) : SerialAction Task → Option (InPipe Task)
  | .pollFillBuf w => do
    let (u, _) ← s.serial.pollFillBuf w
    some { s with serial := u }
  | .consume amt => do
    let u ← s.serial.consume amt
    some { s with serial := u }
  | .pollWrite w buf result => do
    let (u, poll, packet) ← s.serial.pollWrite w buf result
    some ({ s with written := s.written ++ accepted buf poll }.answered u packet result)
  | .endpointOut addr result => do
    let u ← s.serial.endpointOut addr result
    some { s with serial := u }
  | .endpointInComplete addr result => do
    let (u, packet) ← s.serial.endpointInComplete addr result
    some ({ s with inFlight := s.busy (.endpointInComplete addr result) }.answered u packet result)
  | .reset => some { serial := s.serial.reset, inFlight := false, packets := [], written := [] }

/-- The pipe before the attempt to flush in a step. -/
inductive Filled (s : InPipe Task) : SerialAction Task → InPipe Task → Prop where
  | write {w : Task} {buf : List UInt8} {result : Except UsbError Nat} {sl : Slice}
      {writeBuf : RingBuffer} : s.serial.writeBuf.pushBuf = some sl → sl.len ≠ 0 →
      s.serial.writeBuf.Appended writeBuf (buf.take (min sl.len buf.length)) →
      Filled s (.pollWrite w buf result) { s with
        serial := { s.serial with writeBuf := writeBuf }
        written := s.written ++ buf.take (min sl.len buf.length) }
  | complete {addr : Nat} {result : Except UsbError Nat} : addr = s.serial.writeEpAddress →
      Filled s (.endpointInComplete addr result) { s with
        serial := { s.serial with
          writeWaker := s.serial.writeWaker.wake.1
          woken := s.serial.woken ++ s.serial.writeWaker.wake.2 }
        inFlight := false }

/-- What a step does to the pipe. -/
inductive Stepped [DecidableEq Task] (s : InPipe Task) (a : SerialAction Task) :
    InPipe Task → Prop where
  | quiet {u : UsbSerial Task} : u.writeBuf = s.serial.writeBuf →
      u.writeState = s.serial.writeState →
      (u.writeError = true → s.serial.writeError = true) → Stepped s a { s with serial := u }
  | flush {s₁ : InPipe Task} {result : Except UsbError Nat} {u : UsbSerial Task}
      {packet : Option (List UInt8)} : s.Filled a s₁ → a.answer = some result →
      s.serial.passed a = packet → s₁.serial.Flush result u packet →
      Stepped s a (s₁.answered u packet result)
  | reset : Stepped s a
      { serial := s.serial.reset, inFlight := false, packets := [], written := [] }

variable {s s' s₁ : InPipe Task} {a : SerialAction Task} {u : UsbSerial Task}
  {result : Except UsbError Nat} {packet : Option (List UInt8)}

/-- The ring buffer is well formed when the attempt is made. -/
theorem Filled.wf (hB : s.serial.writeBuf.WF) (hFilled : s.Filled a s₁) :
    s₁.serial.writeBuf.WF := by
  cases hFilled with
  | write _ _ hAppended => exact hAppended.wf
  | complete => exact hB

/-- When it is called, `write_packet` finds a packet in flight or not. -/
theorem Filled.inFlight (hFilled : s.Filled a s₁) : s₁.inFlight = s.busy a := by
  cases hFilled with
  | write => rfl
  | complete hAddr => exact (if_pos hAddr).symm

/-- `poll_write` appends before it flushes, or does nothing. -/
theorem step_pollWrite [DecidableEq Task] {w : Task} {buf : List UInt8}
    (hB : s.serial.writeBuf.WF) (hs : s.step (.pollWrite w buf result) = some s') :
    s.Stepped (.pollWrite w buf result) s' := by
  obtain ⟨⟨u, poll, packet⟩, hWrite, hs⟩ := Option.bind_eq_some_iff.mp hs
  cases hs
  rcases UsbSerial.pollWrite_cases hWrite with ⟨-, rfl, rfl, rfl⟩ | ⟨-, sl, hSl, hCases⟩
  · rw [show s.written ++ accepted buf (.ready (.error .other)) = s.written from
      List.append_nil _]
    exact .quiet rfl rfl fun h => nomatch h
  · rcases hCases with ⟨-, rfl, rfl, rfl⟩ | ⟨hLen, writeBuf, hPush, hFlush, rfl⟩
    · rw [show s.written ++ accepted buf .pending = s.written from List.append_nil _]
      exact .quiet rfl rfl id
    · have hAppended := appended_of_write hB hSl hPush
      have hPassed : s.serial.passed (.pollWrite w buf result) = packet := by
        show (s.serial.pollWrite w buf result).bind _ = packet
        rw [hWrite]
        rfl
      have hFilled : s.Filled (.pollWrite w buf result) _ := .write hSl hLen hAppended
      have hStepped := Stepped.flush hFilled rfl hPassed
        (UsbSerial.flush_of_flushWrite hAppended.wf hFlush)
      exact hStepped

/-- The packet has gone out before the flush; a completion of another endpoint is none. -/
theorem step_endpointInComplete [DecidableEq Task] {addr : Nat}
    (hB : s.serial.writeBuf.WF) (hs : s.step (.endpointInComplete addr result) = some s') :
    s.Stepped (.endpointInComplete addr result) s' := by
  obtain ⟨⟨u, packet⟩, hComplete, hs⟩ := Option.bind_eq_some_iff.mp hs
  cases hs
  rcases UsbSerial.endpointInComplete_cases hComplete with ⟨hAddr, hFlush⟩ | ⟨hAddr, rfl, rfl⟩
  · have hPassed : s.serial.passed (.endpointInComplete addr result) = packet := by
      show (s.serial.endpointInComplete addr result).bind _ = packet
      rw [hComplete]
      rfl
    rw [show s.busy (.endpointInComplete addr result) = false from if_pos hAddr]
    have hFilled : s.Filled (.endpointInComplete addr result) _ := .complete hAddr
    have hStepped := Stepped.flush hFilled rfl hPassed (UsbSerial.flush_of_flushWrite hB hFlush)
    exact hStepped
  · rw [show s.busy (.endpointInComplete addr result) = s.inFlight from if_neg hAddr]
    exact .quiet rfl rfl id

/-- What a step does to the pipe. -/
theorem step_cases [DecidableEq Task] (hB : s.serial.writeBuf.WF) (hs : s.step a = some s') :
    s.Stepped a s' := by
  cases a with
  | pollWrite w buf result => exact step_pollWrite hB hs
  | endpointInComplete addr result => exact step_endpointInComplete hB hs
  | reset =>
    cases hs
    exact .reset
  | pollFillBuf w =>
    obtain ⟨⟨u, poll⟩, hPoll, hs⟩ := Option.bind_eq_some_iff.mp hs
    cases hs
    rcases UsbSerial.pollFillBuf_cases hPoll with ⟨-, -, rfl⟩ | ⟨-, buf, -, hCases⟩
    · exact .quiet rfl rfl id
    · rcases hCases with ⟨-, -, rfl⟩ | ⟨-, -, rfl⟩ <;> exact .quiet rfl rfl id
  | consume amt =>
    obtain ⟨u, hConsume, hs⟩ := Option.bind_eq_some_iff.mp hs
    cases hs
    obtain ⟨readBuf, -, rfl⟩ := UsbSerial.consume_eq hConsume
    exact .quiet rfl rfl id
  | endpointOut addr result =>
    obtain ⟨u, hOut, hs⟩ := Option.bind_eq_some_iff.mp hs
    cases hs
    rcases UsbSerial.endpointOut_cases hOut with
      ⟨-, -, rfl⟩ | ⟨packet, buf, readBuf, -, -, -, -, -, -, rfl⟩ | ⟨-, rfl⟩
    · exact .quiet rfl rfl id
    · exact .quiet rfl rfl id
    · exact .quiet rfl rfl id

-- ---------------------------------------------------------------------------
-- Integrity
-- ---------------------------------------------------------------------------

/-- The endpoint takes a packet as a whole, or fails. -/
def Whole [DecidableEq Task] (s : InPipe Task) (a : SerialAction Task) : Prop :=
  ∀ packet ∈ s.serial.passed a, ∀ c : Nat, a.answer = some (.ok c) → c = packet.length

/-- The bytes written are those that went out and those still stored. -/
structure WriteInv (s : InPipe Task) : Prop where
  wf : s.serial.writeBuf.WF
  intact : s.written = s.packets.flatten ++ s.serial.writeBuf.contents

theorem writeInv_new (readEp writeEp : Nat) (readBuf writeBuf : List UInt8) :
    (new readEp writeEp readBuf writeBuf : InPipe Task).WriteInv :=
  ⟨wf_new writeBuf, rfl⟩

/-- What `poll_write` accepts is what it appends. -/
theorem Filled.writeInv (hI : s.WriteInv) (hFilled : s.Filled a s₁) : s₁.WriteInv := by
  cases hFilled with
  | @write _ buf _ sl writeBuf _ _ hAppended =>
    refine ⟨hAppended.wf, ?_⟩
    show s.written ++ buf.take _ = s.packets.flatten ++ writeBuf.contents
    rw [hI.intact, hAppended.contents, List.append_assoc]
  | complete => exact ⟨hI.wf, hI.intact⟩

/-- An attempt to flush takes from the buffer what the endpoint takes. -/
theorem WriteInv.flush (hI : s.WriteInv) (hFlush : s.serial.Flush result u packet)
    (hWhole : ∀ p ∈ packet, ∀ c : Nat, result = .ok c → c = p.length) :
    (s.answered u packet result).WriteInv := by
  have hWF := hFlush.wf hI.wf
  cases hFlush with
  | idle => exact hI
  | empty =>
    rcases result with (_ | _) | c
    · exact hI
    · exact ⟨hI.wf, hI.intact⟩
    · refine ⟨hWF, ?_⟩
      show s.written = (s.packets ++ [[]]).flatten ++ s.serial.writeBuf.contents
      rw [List.flatten_concat, List.append_nil]
      exact hI.intact
  | @data buf _ hNext hPos hAfter =>
    rcases result with (_ | _) | c
    · rw [UsbSerial.afterPacket_wouldBlock hAfter]
      exact ⟨hI.wf, hI.intact⟩
    · cases hAfter
      exact ⟨hI.wf, hI.intact⟩
    · -- The bytes leave the buffer with the packet, and only then.
      cases hWhole _ rfl c rfl
      obtain ⟨-, -, hContents, -⟩ := UsbSerial.afterPacket_ok hI.wf hNext hAfter
      refine ⟨hWF, ?_⟩
      show s.written = (s.packets ++ [s.serial.writeBuf.contents.take buf.len]).flatten ++
        u.writeBuf.contents
      rw [List.flatten_concat, hContents, List.append_assoc, List.take_append_drop]
      exact hI.intact

/-- The bytes stay intact over every step. -/
theorem writeInv_step [DecidableEq Task] (hI : s.WriteInv) (hWhole : s.Whole a)
    (hs : s.step a = some s') : s'.WriteInv := by
  cases step_cases hI.wf hs with
  | quiet hBuf => exact ⟨hBuf ▸ hI.wf, hBuf ▸ hI.intact⟩
  | flush hFilled hAnswer hPassed hFlush =>
    refine (hFilled.writeInv hI).flush hFlush ?_
    intro p hp c hOk
    exact hWhole p (hPassed.trans hp) c (hAnswer.trans (congrArg some hOk))
  | reset => exact ⟨.clear _, rfl⟩

/--
**No byte written is lost, duplicated or reordered.** Whatever is written and however
the endpoint answers, as long as it takes a packet as a whole or not at all: the
bytes that `poll_write` accepted since the last reset are those of the packets that
the endpoint accepted, followed by those in the buffer.
-/
theorem write_integrity [DecidableEq Task] {readEp writeEp : Nat} {readBuf writeBuf : List UInt8}
    (hRun : Run step Whole (new readEp writeEp readBuf writeBuf) s) :
    s.written = s.packets.flatten ++ s.serial.writeBuf.contents :=
  (hRun.invariant (I := WriteInv) (writeInv_new readEp writeEp readBuf writeBuf)
    fun _ _ _ hI hWhole hs => writeInv_step hI hWhole hs).intact

instance [DecidableEq Task] (s : InPipe Task) (a : SerialAction Task) : Decidable (s.Whole a) :=
  match hPassed : s.serial.passed a, hAnswer : a.answer with
  | some packet, some (.ok c) =>
    decidable_of_iff (c = packet.length) (by simp [Whole, hPassed, hAnswer])
  | some packet, some (.error e) => isTrue (by simp [Whole, hPassed, hAnswer])
  | some packet, none => isTrue (by simp [Whole, hPassed, hAnswer])
  | none, _ => isTrue (by simp [Whole, hPassed])

/-- Of a buffer of four bytes, a packet goes out past its end, and one is refused
twice. -/
theorem write_integrity_wrapped : ∃ s : InPipe Nat,
    Run step Whole (new 1 2 [] [0, 0, 0, 0]) s ∧ s.packets = [[1, 2, 3], [4]] ∧
      s.serial.writeBuf.contents = [5, 6] ∧ s.written = [1, 2, 3, 4, 5, 6] ∧
      s.written = s.packets.flatten ++ s.serial.writeBuf.contents := by
  have hRun : Run step Whole (new 1 2 [] [0, 0, 0, 0] : InPipe Nat) _ :=
    Run.execOk_get _ [.pollWrite 7 [1, 2, 3] (.ok 3), .pollWrite 7 [4, 5, 6] (.error .wouldBlock),
      .pollWrite 7 [5, 6] (.error .other), .pollWrite 7 [5] (.ok 1), .endpointInComplete 2 (.ok 1)]
      (by decide +kernel)
  exact ⟨_, hRun, by decide +kernel, by decide +kernel, by decide +kernel, write_integrity hRun⟩

-- ---------------------------------------------------------------------------
-- Termination
-- ---------------------------------------------------------------------------

/-- The endpoint answers `WouldBlock` exactly while a packet is in flight, and takes
a packet otherwise. -/
def Answers [DecidableEq Task] (s : InPipe Task) (a : SerialAction Task) : Prop :=
  ∀ packet ∈ s.serial.passed a, a.answer =
    some (if s.busy a then .error .wouldBlock else .ok packet.length)

/-- What `write_packet` answered in a step. -/
theorem Answers.answer [DecidableEq Task] (h : s.Answers a) (hAnswer : a.answer = some result)
    (hPassed : s.serial.passed a = packet) : ∀ p ∈ packet,
      result = if s.busy a then .error .wouldBlock else .ok p.length := by
  intro p hp
  exact Option.some.inj (hAnswer.symm.trans (h p (hPassed.trans hp)))

/-- The last packet that went out is a full one. -/
def LastFull (s : InPipe Task) : Prop :=
  ∃ packet ∈ s.packets.getLast?, packet.length = UsbSerial.maxPacketSize

/-- What a flush is made on. With no bytes stored, `write_state` tells if the last
packet was full. -/
structure DrainInv (s : InPipe Task) : Prop where
  wf : s.serial.writeBuf.WF
  noError : s.serial.writeError = false
  bounded : ∀ packet ∈ s.packets.getLast?, packet.length ≤ UsbSerial.maxPacketSize
  state : s.serial.writeBuf.contents = [] → (0 < s.serial.fullSizePackets ↔ s.LastFull)

/-- Nothing is left to send. -/
structure Drained (s : InPipe Task) : Prop where
  empty : s.serial.writeBuf.contents = []
  terminated : ¬s.LastFull

/-- No packet has gone out, and `write_state` counts none. -/
theorem drainInv_new (readEp writeEp : Nat) (readBuf writeBuf : List UInt8) :
    (new readEp writeEp readBuf writeBuf : InPipe Task).DrainInv := by
  constructor
  case wf => exact wf_new writeBuf
  case noError => rfl
  case bounded => exact fun _ h => nomatch h
  case state =>
    intro _
    constructor
    · exact fun h => absurd h (Nat.lt_irrefl 0)
    · rintro ⟨_, h, -⟩
      cases h

/-- With no bytes stored none were appended. -/
theorem Filled.drainInv (hI : s.DrainInv) (hFilled : s.Filled a s₁) : s₁.DrainInv := by
  cases hFilled with
  | @write _ buf _ sl writeBuf _ _ hAppended =>
    refine ⟨hAppended.wf, hI.noError, hI.bounded, fun hNil => hI.state ?_⟩
    have hNil : writeBuf.contents = [] := hNil
    rw [hAppended.contents] at hNil
    exact (List.append_eq_nil_iff.mp hNil).1
  | complete => exact ⟨hI.wf, hI.noError, hI.bounded, hI.state⟩

/-- If the bytes are found in the buffer, the last packet was accounted for. -/
theorem Drained.fullSizePackets (hD : s.Drained) (hI : s.DrainInv) :
    s.serial.fullSizePackets = 0 := by
  have hState := hI.state hD.empty
  have hNone := mt hState.mp hD.terminated
  omega

/-- The packet that was just accepted is the last one. -/
theorem lastFull_answered {p : List UInt8} {c : Nat} :
    (s.answered u (some p) (.ok c)).LastFull ↔ p.length = UsbSerial.maxPacketSize := by
  show (∃ packet ∈ (s.packets ++ [p]).getLast?, _) ↔ _
  rw [List.getLast?_concat]
  simp

/-- A blocked attempt is made on bytes that stay, or changes nothing. -/
theorem DrainInv.blocked (hI : s.DrainInv) (hFlush : s.serial.Flush result u packet)
    (hBlocked : ∀ p ∈ packet, result = .error .wouldBlock) :
    (s.answered u packet result).DrainInv ∧
      (s.answered u packet result).inFlight = s.inFlight := by
  cases hFlush with
  | idle => exact ⟨hI, rfl⟩
  | empty =>
    cases hBlocked [] rfl
    exact ⟨hI, rfl⟩
  | @data buf _ hNext hPos hAfter =>
    cases hBlocked _ rfl
    -- The count is wrong now, but bytes are still stored, and only without them does it matter.
    obtain ⟨-, -, hZero⟩ := UsbSerial.nextPacket_spec hI.wf hNext
    rw [UsbSerial.afterPacket_wouldBlock hAfter]
    refine ⟨⟨hI.wf, hI.noError, hI.bounded, fun hNil => ?_⟩, rfl⟩
    exact absurd (hZero.mpr hNil) (Nat.ne_of_gt hPos)

/-- An attempt that is made with no packet in flight starts one, unless nothing is
left to send. -/
theorem DrainInv.accepted (hI : s.DrainInv) (hFlush : s.serial.Flush result u packet)
    (hOk : ∀ p ∈ packet, result = .ok p.length) :
    (s.answered u packet result).DrainInv ∧
      ((s.answered u packet result).inFlight = false → (s.answered u packet result).Drained) := by
  have hWF := hFlush.wf hI.wf
  cases hFlush with
  | idle hNil hState =>
    refine ⟨hI, fun _ => ⟨hNil, fun hFull => ?_⟩⟩
    have hPos := (hI.state hNil).mpr hFull
    omega
  | empty hNil hState =>
    cases hOk [] rfl
    refine ⟨⟨hI.wf, hI.noError, ?_, fun _ => ?_⟩, fun h => nomatch h⟩
    · intro p hp
      cases (List.getLast?_concat ..).symm.trans hp
      exact Nat.zero_le _
    · rw [lastFull_answered]
      exact ⟨fun h => absurd h (Nat.lt_irrefl 0), fun h => nomatch h⟩
  | @data buf _ hNext hPos hAfter =>
    cases hOk _ rfl
    -- A full packet is counted, so that an empty one will follow it.
    obtain ⟨hLen, hMax, -, hState, hError⟩ := UsbSerial.afterPacket_ok hI.wf hNext hAfter
    refine ⟨⟨hWF, hError.trans hI.noError, ?_, fun _ => ?_⟩, fun h => nomatch h⟩
    · intro p hp
      cases (List.getLast?_concat ..).symm.trans hp
      rw [hLen]
      exact Nat.le_trans hMax s.serial.maxSize_le
    · rw [lastFull_answered, hLen]
      show 0 < u.fullSizePackets ↔ _
      rw [hState]
      split
      · exact iff_of_true (Nat.succ_pos _) ‹_›
      · exact iff_of_false (Nat.lt_irrefl 0) ‹_›

/-- What a flush is made on is kept, and the endpoint is idle only when drained. -/
theorem drainInv_step [DecidableEq Task] (hI : s.DrainInv) (hIdle : s.inFlight = false → s.Drained)
    (hAnswers : s.Answers a) (hs : s.step a = some s') :
    s'.DrainInv ∧ (s'.inFlight = false → s'.Drained) := by
  cases step_cases hI.wf hs with
  | @quiet u hBuf hState hError =>
    refine ⟨⟨hBuf ▸ hI.wf, ?_, hI.bounded, ?_⟩, fun hFlight => ?_⟩
    · exact Bool.eq_false_iff.mpr fun h => Bool.eq_false_iff.mp hI.noError (hError h)
    · show u.writeBuf.contents = [] → (0 < u.fullSizePackets ↔ s.LastFull)
      rw [hBuf, UsbSerial.fullSizePackets_congr hState]
      exact hI.state
    · exact ⟨hBuf ▸ (hIdle hFlight).empty, (hIdle hFlight).terminated⟩
  | @flush s₁ result u packet hFilled hAnswer hPassed hFlush =>
    have hI₁ := hFilled.drainInv hI
    have hResult := hAnswers.answer hAnswer hPassed
    -- In flight the endpoint refuses, and the flight goes on; otherwise it accepts.
    by_cases hBusy : s.busy a = true
    · simp only [hBusy, if_true] at hResult
      obtain ⟨hDrain, hFlight⟩ := hI₁.blocked hFlush hResult
      refine ⟨hDrain, fun h => ?_⟩
      rw [hFlight, hFilled.inFlight, hBusy] at h
      cases h
    · simp only [hBusy] at hResult
      exact hI₁.accepted hFlush hResult
  | reset =>
    have hFresh : (new 0 0 [] [] : InPipe Task).DrainInv := drainInv_new 0 0 [] []
    refine ⟨⟨.clear _, hI.noError, hFresh.bounded, fun _ => ?_⟩, fun _ => ⟨rfl, ?_⟩⟩
    · exact hFresh.state rfl
    · rintro ⟨_, h, -⟩
      cases h

/--
**The endpoint is never left idle with anything to send.** Whatever is written, at
whatever time, and with resets at any time, if the endpoint answers as it should:
between two operations a packet is in flight, or no bytes are stored and the last
packet since the last reset, if there is one, was shorter than `max_packet_size`.
-/
theorem idle_terminated [DecidableEq Task] {readEp writeEp : Nat} {readBuf writeBuf : List UInt8}
    (hRun : Run step Answers (new readEp writeEp readBuf writeBuf) s)
    (hFlight : s.inFlight = false) :
    s.serial.writeBuf.contents = [] ∧
      ∀ packet ∈ s.packets.getLast?, packet.length < UsbSerial.maxPacketSize := by
  have hNew : (new readEp writeEp readBuf writeBuf : InPipe Task).DrainInv :=
    drainInv_new readEp writeEp readBuf writeBuf
  obtain ⟨hI, hIdle⟩ := hRun.invariant
    (I := fun s => s.DrainInv ∧ (s.inFlight = false → s.Drained))
    ⟨hNew, fun _ => ⟨rfl, fun h => Nat.lt_irrefl 0 ((hNew.state rfl).mpr h)⟩⟩
    fun _ _ _ ⟨hI, hIdle⟩ hAnswers hs => drainInv_step hI hIdle hAnswers hs
  obtain ⟨hEmpty, hShort⟩ := hIdle hFlight
  refine ⟨hEmpty, fun packet hLast => ?_⟩
  have hNe : packet.length ≠ UsbSerial.maxPacketSize := fun h => hShort ⟨packet, hLast, h⟩
  exact Nat.lt_of_le_of_ne (hI.bounded packet hLast) hNe

instance [DecidableEq Task] (s : InPipe Task) (a : SerialAction Task) : Decidable (s.Answers a) :=
  inferInstanceAs (Decidable (∀ packet ∈ s.serial.passed a, a.answer =
    some (if s.busy a then .error .wouldBlock else .ok packet.length)))

/-- A reset drops a packet in flight and a byte that waits for it. A full packet goes
out then, and an empty one behind it. -/
theorem idle_terminated_full : ∃ s : InPipe Nat,
    Run step Answers (new 1 2 [] (List.replicate 64 0)) s ∧ s.inFlight = false ∧
      s.packets = [List.replicate 64 5, []] ∧ s.serial.writeBuf.contents = [] ∧
      ∀ packet ∈ s.packets.getLast?, packet.length < UsbSerial.maxPacketSize := by
  have hRun : Run step Answers (new 1 2 [] (List.replicate 64 0) : InPipe Nat) _ :=
    Run.execOk_get _ [.pollWrite 7 [1] (.ok 1), .pollWrite 7 [2] (.error .wouldBlock), .reset,
      .pollWrite 7 (List.replicate 64 5) (.ok 64), .pollWrite 7 [] (.error .wouldBlock),
      .endpointInComplete 2 (.ok 0), .endpointInComplete 2 (.ok 0)] (by decide +kernel)
  obtain ⟨hEmpty, hShort⟩ := idle_terminated hRun (by decide +kernel)
  exact ⟨_, hRun, by decide +kernel, by decide +kernel, hEmpty, hShort⟩

end InPipe

end Embassy.Extras
