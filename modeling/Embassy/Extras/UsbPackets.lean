import Embassy.Extras.UsbPipe
import Embassy.Extras.UsbRead

/-!
# The sizes of packets

`WriteState` counts the full packets that were sent one after another, so that a
short packet is forced behind every few of them, as its comments say. But
`flush_write` sets the state also when `write_packet` answers `WouldBlock`: a
`poll_write` of a few bytes, while a full packet is in flight, makes the state
`Short`, and the count starts over.

`CdcAcmClass` asks for a buffer of at least `max_packet_size` bytes in
`read_packet`. `endpoint_out` passes on what `push_buf` returns, the contiguous part
of the free space.

Main results:

* `BoundInv` — full packets are counted, as long as no such attempt is made.
* `full_packets_bounded` — then no more than `SHORT_PACKET_INTERVAL + 1` full packets
  go out in a row.
* `packet_buffers` — when the buffer passed to `read_packet` is large enough, in
  terms of the bytes received and obtained; packets written are never too long.
-/

namespace Embassy.Extras

open Embassy.Lib Embassy.Util Embassy.Extras.RingBuffer

variable {Task : Type}

-- ---------------------------------------------------------------------------
-- Full packets in a row
-- ---------------------------------------------------------------------------

namespace InPipe

/-- All packets are full. -/
def Full (packets : List (List UInt8)) : Prop :=
  ∀ packet ∈ packets, packet.length = UsbSerial.maxPacketSize

/-- No more full packets in a row than there should be. -/
def Bounded (s : InPipe Task) : Prop :=
  ∀ l, l <:+: s.packets → Full l → l.length ≤ UsbSerial.shortPacketInterval + 1

/-- While a full packet is in flight, `poll_write` is not called to make an attempt with
a short one: the buffer is full, or no bytes are there, or enough for a full packet up
to the end of the buffer. -/
def Steady [DecidableEq Task] (s : InPipe Task) (a : SerialAction Task) : Prop :=
  s.Answers a ∧ ∀ w buf result, a = .pollWrite w buf result → s.inFlight = true → s.LastFull →
    s.serial.writeBuf.len = s.serial.writeBuf.capacity ∨
      s.serial.writeBuf.len = 0 ∧ buf = [] ∨
      s.serial.fullSizePackets ≤ UsbSerial.shortPacketInterval ∧
        UsbSerial.maxPacketSize ≤ s.serial.writeBuf.len + buf.length ∧
        s.serial.writeBuf.start + UsbSerial.maxPacketSize ≤ s.serial.writeBuf.capacity

structure BoundInv (s : InPipe Task) : Prop where
  wf : s.serial.writeBuf.WF
  /-- The last packets, if they are full, are counted. -/
  counted : ∀ l, l <:+ s.packets → Full l → l.length ≤ s.serial.fullSizePackets
  bounded : s.Bounded

variable {s s' s₁ : InPipe Task} {a : SerialAction Task} {u : UsbSerial Task}
  {result : Except UsbError Nat} {packet : Option (List UInt8)}

theorem boundInv_new (readEp writeEp : Nat) (readBuf writeBuf : List UInt8) :
    (new readEp writeEp readBuf writeBuf : InPipe Task).BoundInv := by
  constructor
  case wf => exact wf_new writeBuf
  case counted =>
    intro l hl _
    rw [List.suffix_nil.mp hl]
    exact Nat.le_refl 0
  case bounded =>
    intro l hl _
    rw [List.infix_nil.mp hl]
    exact Nat.zero_le _

/-- With the last packet not a full one, nothing needs to be counted. -/
theorem counted_of_not_lastFull (h : ¬s.LastFull) {l : List (List UInt8)} (hl : l <:+ s.packets)
    (hFull : Full l) : l = [] := by
  rcases List.eq_nil_or_concat l with hNil | ⟨t, p, rfl⟩
  · exact hNil
  · rw [List.concat_eq_append] at hl hFull
    obtain ⟨r, hPackets⟩ := hl
    refine absurd ⟨p, ?_, hFull p (by simp)⟩ h
    rw [← hPackets, ← List.append_assoc, List.getLast?_concat]
    rfl

/-- A packet that is not full ends the row, and a full one is counted. -/
theorem BoundInv.accepted (hI : s.BoundInv) {p : List UInt8} {c : Nat} (hWF : u.writeBuf.WF)
    (hCount : p.length = UsbSerial.maxPacketSize →
      s.serial.fullSizePackets < u.fullSizePackets ∧
        s.serial.fullSizePackets ≤ UsbSerial.shortPacketInterval) :
    (s.answered u (some p) (.ok c)).BoundInv := by
  have hRow : ∀ l, l <:+ s.packets ++ [p] → Full l →
      l.length ≤ u.fullSizePackets ∧ l.length ≤ UsbSerial.shortPacketInterval + 1 := by
    intro l hl hFull
    rcases List.suffix_concat_iff.mp hl with rfl | ⟨t, rfl, ht⟩
    · exact ⟨Nat.zero_le _, Nat.zero_le _⟩
    · obtain ⟨hMore, hMax⟩ := hCount (hFull p (by simp))
      have hRest := hI.counted t ht fun q hq => hFull q (by simp [hq])
      rw [List.length_append, List.length_singleton]
      omega
  refine ⟨hWF, fun l hl hFull => (hRow l hl hFull).1, fun l hl hFull => ?_⟩
  rcases List.infix_concat_iff.mp hl with hLast | hBefore
  · exact (hRow l hLast hFull).2
  · exact hI.bounded l hBefore hFull

/-- A packet that is accepted adds to the full ones in a row or ends them. -/
theorem BoundInv.flush_free (hI : s.BoundInv) (hFlush : s.serial.Flush result u packet)
    (hOk : ∀ p ∈ packet, result = .ok p.length) : (s.answered u packet result).BoundInv := by
  have hWF := hFlush.wf hI.wf
  cases hFlush with
  | idle => exact hI
  | empty =>
    cases hOk [] rfl
    exact hI.accepted hWF fun h => nomatch h
  | @data buf _ hNext hPos hAfter =>
    cases hOk _ rfl
    obtain ⟨hLen, hMax, -, hState, -⟩ := UsbSerial.afterPacket_ok hI.wf hNext hAfter
    refine hI.accepted hWF fun hFull => ?_
    rw [hLen] at hFull
    rw [hState, if_pos hFull]
    refine ⟨Nat.lt_succ_self _, ?_⟩
    unfold UsbSerial.maxSize at hMax
    split at hMax
    · rw [hFull] at hMax
      exact absurd hMax (by decide)
    · omega

/-- The state that a blocked attempt sets counts at least as many packets as before, or
there is nothing to count. -/
theorem BoundInv.flush_blocked (hI : s.BoundInv) (hFlush : s.serial.Flush result u packet)
    (hBlocked : ∀ p ∈ packet, result = .error .wouldBlock)
    (hKeep : s.LastFull → ∀ buf, s.serial.nextPacket = some buf → 0 < buf.len →
      buf.len = UsbSerial.maxPacketSize) : (s.answered u packet result).BoundInv := by
  cases hFlush with
  | idle => exact hI
  | empty =>
    cases hBlocked [] rfl
    exact hI
  | @data buf _ hNext hPos hAfter =>
    cases hBlocked _ rfl
    cases UsbSerial.afterPacket_wouldBlock hAfter
    refine ⟨hI.wf, fun l hl hFull => ?_, hI.bounded⟩
    by_cases hLast : s.LastFull
    · have hCount : l.length ≤ s.serial.fullSizePackets := hI.counted l hl hFull
      show l.length ≤ UsbSerial.fullSizePackets _
      rw [UsbSerial.fullSizePackets_eq rfl, if_pos (hKeep hLast buf hNext hPos)]
      exact Nat.le_succ_of_le hCount
    · rw [counted_of_not_lastFull hLast hl hFull]
      exact Nat.zero_le _

/-- Appending bytes sends none. -/
theorem Filled.boundInv (hI : s.BoundInv) (hFilled : s.Filled a s₁) : s₁.BoundInv := by
  have hWF := hFilled.wf hI.wf
  cases hFilled with
  | write => exact ⟨hWF, hI.counted, hI.bounded⟩
  | complete => exact ⟨hWF, hI.counted, hI.bounded⟩

/-- The attempts made under `Steady`, while a full packet is in flight. -/
theorem Steady.full [DecidableEq Task] (hSteady : s.Steady a) (hB : s.serial.writeBuf.WF)
    (hFilled : s.Filled a s₁) (hBusy : s.busy a = true) (hLast : s₁.LastFull) {buf : Slice}
    (hNext : s₁.serial.nextPacket = some buf) (hPos : 0 < buf.len) :
    buf.len = UsbSerial.maxPacketSize := by
  obtain ⟨-, -, hZero⟩ := UsbSerial.nextPacket_spec (hFilled.wf hB) hNext
  cases hFilled with
  | complete hAddr =>
    rw [show s.busy (.endpointInComplete ..) = false from if_pos hAddr] at hBusy
    cases hBusy
  | @write w xs result sl writeBuf hSl hLen hAppended =>
    obtain ⟨-, hRoom, hFull, -⟩ := pushBuf_spec hB hSl
    -- the buffer is full, the call is empty, or a whole packet is there afterwards
    rcases hSteady.2 w xs result rfl hBusy hLast with hCap | ⟨hNone, rfl⟩ | ⟨hMax, hXs, hEnd⟩
    · exact absurd (hFull.mpr hCap) hLen
    · have hNil : writeBuf.contents = [] := by
        rw [hAppended.contents, contents_eq_nil.mpr hNone, List.take_nil]
        rfl
      exact absurd (hZero.mpr hNil) (Nat.ne_of_gt hPos)
    · have hSize : UsbSerial.maxSize { s.serial with writeBuf := writeBuf } =
          UsbSerial.maxPacketSize := by
        unfold UsbSerial.maxSize
        exact if_neg (Nat.not_lt.mpr hMax)
      have hStored : writeBuf.len = s.serial.writeBuf.len + min sl.len xs.length := by
        have hContents := congrArg List.length hAppended.contents
        rw [List.length_append, length_contents, length_contents, List.length_take] at hContents
        omega
      have hTaken := le_len_pushBuf hB hSl hEnd
      rw [← hSize]
      refine UsbSerial.nextPacket_full hAppended.wf hNext ?_ ?_
      · rw [hSize]
        show _ ≤ writeBuf.len
        omega
      · rw [hSize]
        show writeBuf.start + _ ≤ writeBuf.capacity
        rw [hAppended.start, hAppended.capacity]
        exact hEnd

/-- Every step of a steady run keeps the bound. -/
theorem boundInv_step [DecidableEq Task] (hI : s.BoundInv) (hSteady : s.Steady a)
    (hs : s.step a = some s') : s'.BoundInv := by
  cases step_cases hI.wf hs with
  | @quiet u hBuf hState hError =>
    refine ⟨hBuf ▸ hI.wf, ?_, hI.bounded⟩
    show ∀ l, l <:+ s.packets → Full l → l.length ≤ u.fullSizePackets
    rw [UsbSerial.fullSizePackets_congr hState]
    exact hI.counted
  | @flush s₁ result u packet hFilled hAnswer hPassed hFlush =>
    have hI₁ := hFilled.boundInv hI
    have hResult := hSteady.1.answer hAnswer hPassed
    by_cases hBusy : s.busy a = true
    · simp only [hBusy, if_true] at hResult
      exact hI₁.flush_blocked hFlush hResult fun hLast buf hNext hPos =>
        hSteady.full hI.wf hFilled hBusy hLast hNext hPos
    · simp only [hBusy] at hResult
      exact hI₁.flush_free hFlush hResult
  | reset =>
    have hFresh : (new 0 0 [] [] : InPipe Task).BoundInv := boundInv_new 0 0 [] []
    exact ⟨.clear _, hFresh.counted, hFresh.bounded⟩

/-- While a full packet is in flight, ten bytes are written and then the rest of the
next one, twelve times. -/
theorem full_packets_not_bounded :
    ¬∀ s : InPipe Nat, Run step Answers (new 1 2 [] (List.replicate 64 0)) s → s.Bounded := by
  intro hAll
  obtain ⟨s, hRun, hPackets⟩ : ∃ s : InPipe Nat,
      Run step Answers (new 1 2 [] (List.replicate 64 0)) s ∧
        s.packets = List.replicate 12 (List.replicate 64 0) := by
    have hRun : Run step Answers (new 1 2 [] (List.replicate 64 0) : InPipe Nat) _ :=
      Run.execOk_get _ (.pollWrite 7 (List.replicate 64 0) (.ok 64) :: (List.replicate 11
        [.pollWrite 7 (List.replicate 10 0) (.error .wouldBlock),
          .pollWrite 7 (List.replicate 54 0) (.error .wouldBlock),
          .endpointInComplete 2 (.ok 64)]).flatten) (by decide +kernel)
    exact ⟨_, hRun, by decide +kernel⟩
  have hFull : Full s.packets := by
    intro p hp
    rw [hPackets] at hp
    rw [List.eq_of_mem_replicate hp, List.length_replicate]
    rfl
  have hLen := hAll s hRun s.packets List.infix_rfl hFull
  rw [hPackets] at hLen
  exact absurd hLen (by decide)

/--
**Full packets in a row are bounded**, if no attempt with a short packet is made while
a full one is in flight: then no more than `SHORT_PACKET_INTERVAL + 1` full packets are
accepted one after another.
-/
theorem full_packets_bounded [DecidableEq Task] {readEp writeEp : Nat}
    {readBuf writeBuf : List UInt8}
    (hRun : Run step Steady (new readEp writeEp readBuf writeBuf) s) : s.Bounded :=
  (hRun.invariant (I := BoundInv) (boundInv_new readEp writeEp readBuf writeBuf)
    fun _ _ _ hI hSteady hs => boundInv_step hI hSteady hs).bounded

instance [DecidableEq Task] (s : InPipe Task) : Decidable s.LastFull :=
  match hLast : s.packets.getLast? with
  | some p => decidable_of_iff (p.length = UsbSerial.maxPacketSize) (by simp [LastFull, hLast])
  | none => isFalse (by simp [LastFull, hLast])

instance [DecidableEq Task] (s : InPipe Task) (a : SerialAction Task) : Decidable (s.Steady a) :=
  match a with
  | .pollWrite w buf result =>
    decidable_of_iff (s.Answers (.pollWrite w buf result) ∧ (s.inFlight = true → s.LastFull →
      s.serial.writeBuf.len = s.serial.writeBuf.capacity ∨
        s.serial.writeBuf.len = 0 ∧ buf = [] ∨
        s.serial.fullSizePackets ≤ UsbSerial.shortPacketInterval ∧
          UsbSerial.maxPacketSize ≤ s.serial.writeBuf.len + buf.length ∧
          s.serial.writeBuf.start + UsbSerial.maxPacketSize ≤ s.serial.writeBuf.capacity))
      (by simp [Steady])
  | .pollFillBuf w => decidable_of_iff (s.Answers (.pollFillBuf w)) (by simp [Steady])
  | .consume amt => decidable_of_iff (s.Answers (.consume amt)) (by simp [Steady])
  | .endpointOut addr result =>
    decidable_of_iff (s.Answers (.endpointOut addr result)) (by simp [Steady])
  | .endpointInComplete addr result =>
    decidable_of_iff (s.Answers (.endpointInComplete addr result)) (by simp [Steady])
  | .reset => decidable_of_iff (s.Answers .reset) (by simp [Steady])

/-- Two full packets go out, the second written while the first is in flight. -/
theorem full_packets_bounded_two : ∃ s : InPipe Nat,
    Run step Steady (new 1 2 [] (List.replicate 64 0)) s ∧
      s.packets = [List.replicate 64 5, List.replicate 64 6, []] ∧ s.Bounded := by
  have hRun : Run step Steady (new 1 2 [] (List.replicate 64 0) : InPipe Nat) _ :=
    Run.execOk_get _ [.pollWrite 7 (List.replicate 64 5) (.ok 64),
      .pollWrite 7 [] (.error .wouldBlock),
      .pollWrite 7 (List.replicate 70 6) (.error .wouldBlock), .endpointInComplete 2 (.ok 64),
      .endpointInComplete 2 (.ok 0)] (by decide +kernel)
  exact ⟨_, hRun, by decide +kernel, full_packets_bounded hRun⟩

end InPipe

-- ---------------------------------------------------------------------------
-- The buffers of packets
-- ---------------------------------------------------------------------------

namespace UsbSerial

/-- The buffer that is passed to `read_packet`. -/
def readInto (u : UsbSerial Task) : SerialAction Task → Option Slice
  | .endpointOut addr _ => if addr = u.readEpAddress then u.readBuf.pushBuf else none
  | _ => none

variable {u v : UsbSerial Task}

/-- `poll_write` passes on no packet that is too long. -/
theorem wf_pollWrite [DecidableEq Task] {w : Task} {buf : List UInt8}
    {result : Except UsbError Nat} {p : Poll (Except IoError Nat)} {packet : Option (List UInt8)}
    (hB : u.writeBuf.WF) (h : u.pollWrite w buf result = some (v, p, packet)) :
    v.writeBuf.WF ∧ ∀ bytes ∈ packet, bytes.length ≤ maxPacketSize := by
  rcases pollWrite_cases h with ⟨-, -, rfl, rfl⟩ | ⟨-, sl, hSl, hCases⟩
  · exact ⟨hB, fun _ h => nomatch h⟩
  · rcases hCases with ⟨-, -, rfl, rfl⟩ | ⟨-, writeBuf, hPush, hFlush, -⟩
    · exact ⟨hB, fun _ h => nomatch h⟩
    · have hWF := (appended_of_write hB hSl hPush).wf
      have hFlush := flush_of_flushWrite hWF hFlush
      exact ⟨hFlush.wf hWF, hFlush.length_le hWF⟩

theorem wf_endpointInComplete {addr : Nat} {result : Except UsbError Nat}
    {packet : Option (List UInt8)} (hB : u.writeBuf.WF)
    (h : u.endpointInComplete addr result = some (v, packet)) :
    v.writeBuf.WF ∧ ∀ bytes ∈ packet, bytes.length ≤ maxPacketSize := by
  rcases endpointInComplete_cases h with ⟨-, hFlush⟩ | ⟨-, rfl, rfl⟩
  · have hAttempt := fun hWF => flush_of_flushWrite hWF hFlush
    exact ⟨(hAttempt hB).wf hB, (hAttempt hB).length_le hB⟩
  · exact ⟨hB, fun _ h => nomatch h⟩

/-- No packet that is passed to `write_packet` is too long. -/
theorem passed_length_le [DecidableEq Task] {a : SerialAction Task} (hB : u.writeBuf.WF) :
    ∀ packet ∈ u.passed a, packet.length ≤ maxPacketSize := by
  intro packet hPassed
  cases a with
  | pollWrite w buf result =>
    obtain ⟨⟨v, p, packet'⟩, hWrite, rfl⟩ := Option.bind_eq_some_iff.mp hPassed
    exact (wf_pollWrite hB hWrite).2 packet rfl
  | endpointInComplete addr result =>
    obtain ⟨⟨v, packet'⟩, hComplete, rfl⟩ := Option.bind_eq_some_iff.mp hPassed
    exact (wf_endpointInComplete hB hComplete).2 packet rfl
  | pollFillBuf | consume | endpointOut | reset => cases hPassed

end UsbSerial

namespace Session

/-- `consume` is called as its contract says, and there is no reset. -/
def Connected (s : Session Task) : SerialAction Task → Prop
  | .consume amt => amt ≤ s.slice.len
  | .reset => False
  | _ => True

/-- Where the ring buffer stands, by the bytes received and obtained. -/
structure RingInv (size : Nat) (s : Session Task) : Prop where
  read : s.ReadInv
  writeWF : s.serial.writeBuf.WF
  first : s.resets = 0
  capacity : s.serial.readBuf.capacity = size
  end_eq : s.serial.readBuf.end_ = (s.received 0).length % size

variable {s s' : Session Task} {size : Nat} {u : UsbSerial Task}

/-- Both buffers are empty. -/
theorem ringInv_new (readEp writeEp : Nat) (readBuf writeBuf : List UInt8) :
    (new readEp writeEp readBuf writeBuf : Session Task).RingInv readBuf.length := by
  constructor
  case read => exact readInv_new readEp writeEp readBuf writeBuf
  case writeWF => exact wf_new writeBuf
  case first => rfl
  case capacity => rfl
  case end_eq => exact (Nat.zero_mod _).symm

/-- Without a reset, what was received and not obtained is stored. -/
theorem RingInv.obtained (hI : s.RingInv size) :
    s.received 0 = s.obtained 0 ++ s.serial.readBuf.contents := by
  have hStored := hI.read.stored
  rwa [hI.first] at hStored

/-- Operations that leave the read buffer alone. -/
theorem RingInv.frame (hI : s.RingInv size) (hRead : s'.ReadInv) (hWF : s'.serial.writeBuf.WF)
    (hBuf : s'.serial.readBuf = s.serial.readBuf) (hResets : s'.resets = s.resets)
    (hReceived : s'.received = s.received) : s'.RingInv size := by
  refine ⟨hRead, hWF, hResets.trans hI.first, ?_, ?_⟩
  · rw [hBuf]
    exact hI.capacity
  · rw [hBuf, hReceived]
    exact hI.end_eq

/-- Bytes leave at the start of the ring buffer, and its end stays. -/
theorem RingInv.consume [DecidableEq Task] {amt : Nat} (hI : s.RingInv size)
    (hOk : s.Connected (.consume amt)) (hs : s.step (.consume amt) = some s') :
    s'.RingInv size := by
  -- every slice is from after the last reset, as there was none
  have hShown : s.shownAt = s.resets := by
    have := hI.read.shownAt_le
    have := hI.first
    omega
  have hRead := hI.read.consume ⟨hOk, .inl hShown⟩ hs
  obtain ⟨u, hConsume, hs⟩ := Option.bind_eq_some_iff.mp hs
  obtain ⟨readBuf, hPop, rfl⟩ := UsbSerial.consume_eq hConsume
  cases hs
  exact ⟨hRead, hI.writeWF, hI.first, (capacity_pop hPop).trans hI.capacity,
    (end_pop hPop).trans hI.end_eq⟩

/-- A packet goes in at the end of the ring buffer. -/
theorem RingInv.endpointOut [DecidableEq Task] {addr : Nat}
    {result : Except UsbError (List UInt8)} (hI : s.RingInv size)
    (hs : s.step (.endpointOut addr result) = some s') : s'.RingInv size := by
  have hRead := hI.read.endpointOut hs
  obtain ⟨u, hOut, hs⟩ := Option.bind_eq_some_iff.mp hs
  cases hs
  rcases UsbSerial.endpointOut_cases hOut with
    ⟨-, rfl, rfl⟩ | ⟨packet, buf, readBuf, hAddr, rfl, -, hBuf, hFits, hPush, rfl⟩ | ⟨hSame, rfl⟩
  · exact hI.frame hRead hI.writeWF rfl rfl (received_same rfl)
  · have hAppended := appended_of_push hI.read.wf hBuf hFits hPush
    have hFits₀ : 0 + packet.length ≤ buf.len := by omega
    obtain ⟨hCopied, -, -, hCap, -⟩ := copy_spec hI.read.wf hBuf hFits₀
    have hEnd := end_push hCopied hPush
    rw [Nat.add_zero] at hCap
    rw [Nat.add_zero, hCap, end_copy, hI.end_eq, hI.capacity] at hEnd
    have hBytes : s.packetBytes addr (.ok packet) = packet := if_pos hAddr
    have hReceived : Function.update s.received s.resets
        (s.received s.resets ++ s.packetBytes addr (.ok packet)) 0 = s.received 0 ++ packet := by
      rw [hBytes, hI.first, Function.update_self]
    refine ⟨hRead, hI.writeWF, hI.first, hAppended.capacity.trans hI.capacity, ?_⟩
    show readBuf.end_ = (Function.update s.received _ _ 0).length % size
    rw [hReceived, hEnd, List.length_append, Nat.mod_add_mod]
  · exact hI.frame hRead hI.writeWF rfl rfl (received_same (s.packetBytes_eq_nil hSame))

/-- Every step keeps the read buffer well formed. -/
theorem ringInv_step [DecidableEq Task] {a : SerialAction Task} (hI : s.RingInv size)
    (hOk : s.Connected a) (hs : s.step a = some s') : s'.RingInv size := by
  cases a with
  | consume amt => exact hI.consume hOk hs
  | endpointOut addr result => exact hI.endpointOut hs
  | reset => exact hOk.elim
  | pollFillBuf w =>
    have hRead := hI.read.pollFillBuf hs
    obtain ⟨⟨u, p⟩, hPoll, hs⟩ := Option.bind_eq_some_iff.mp hs
    have hFrame : u.readBuf = s.serial.readBuf ∧ u.writeBuf = s.serial.writeBuf := by
      rcases UsbSerial.pollFillBuf_cases hPoll with ⟨-, -, rfl⟩ | ⟨-, buf, -, hCases⟩
      · exact ⟨rfl, rfl⟩
      · rcases hCases with ⟨-, -, rfl⟩ | ⟨-, -, rfl⟩ <;> exact ⟨rfl, rfl⟩
    have hWF : u.writeBuf.WF := hFrame.2 ▸ hI.writeWF
    rcases p with (_ | buf) | _ <;> cases hs <;> exact hI.frame hRead hWF hFrame.1 rfl rfl
  | pollWrite w buf result =>
    have hRead := readInv_step (a := .pollWrite w buf result) hI.read trivial hs
    obtain ⟨⟨u, p⟩, hWrite, hs⟩ := Option.bind_eq_some_iff.mp hs
    cases hs
    exact hI.frame hRead (UsbSerial.wf_pollWrite hI.writeWF hWrite).1
      (UsbSerial.pollWrite_frame hWrite).1 rfl rfl
  | endpointInComplete addr result =>
    have hRead := readInv_step (a := .endpointInComplete addr result) hI.read trivial hs
    obtain ⟨⟨u, p⟩, hComplete, hs⟩ := Option.bind_eq_some_iff.mp hs
    cases hs
    exact hI.frame hRead (UsbSerial.wf_endpointInComplete hI.writeWF hComplete).1
      (UsbSerial.endpointInComplete_frame hComplete).1 rfl rfl

/-- The buffers passed to the endpoints in a step are as `CdcAcmClass` asks for. -/
structure Respects [DecidableEq Task] (s : Session Task) (a : SerialAction Task) : Prop where
  read : ∀ buf ∈ s.serial.readInto a, UsbSerial.maxPacketSize ≤ buf.len
  write : ∀ packet ∈ s.serial.passed a, packet.length ≤ UsbSerial.maxPacketSize

/-- The last byte received lies at least a packet before the end of the read buffer, and
a packet is free in it. -/
def Room (s : Session Task) : Prop :=
  (s.received 0).length % s.serial.readBuf.capacity + UsbSerial.maxPacketSize ≤
      s.serial.readBuf.capacity ∧
    (s.received 0).length + UsbSerial.maxPacketSize ≤
      (s.obtained 0).length + s.serial.readBuf.capacity

/-- What `push_buf` returns, by the bytes received and obtained. -/
theorem RingInv.room_iff (hI : s.RingInv size) {buf : Slice}
    (hBuf : s.serial.readBuf.pushBuf = some buf) :
    UsbSerial.maxPacketSize ≤ buf.len ↔ s.Room := by
  have hLen := pushBuf_len hI.read.wf hBuf
  have hStored := congrArg List.length hI.obtained
  have hEnd := hI.end_eq
  have hLe := hI.read.wf.len_le
  rw [List.length_append, length_contents] at hStored
  unfold Room
  rw [hI.capacity] at hLen hLe ⊢
  rw [← hEnd]
  have hPos : 0 < UsbSerial.maxPacketSize := by decide
  omega

/-- A packet of one byte is received, and then there is no room for a full one. -/
theorem packets_not_respected : ¬∀ readBuf writeBuf : List UInt8,
    UsbSerial.maxPacketSize ≤ readBuf.length → UsbSerial.maxPacketSize ≤ writeBuf.length →
      ∀ s : Session Nat, Run step Connected (new 1 2 readBuf writeBuf) s → ∀ a, s.Respects a := by
  intro hAll
  obtain ⟨s, hRun, hBuf⟩ : ∃ s : Session Nat,
      Run step Connected (new 1 2 (List.replicate 64 0) (List.replicate 64 0)) s ∧
        s.serial.readInto (.endpointOut 1 (.ok [6])) = some ⟨1, 63⟩ := by
    have hRun : Run step Connected
        (new 1 2 (List.replicate 64 0) (List.replicate 64 0) : Session Nat) _ :=
      .tail .refl (a := .endpointOut 1 (.ok [5])) trivial (Option.some_get (by decide +kernel)).symm
    exact ⟨_, hRun, by decide +kernel⟩
  have hLen := (hAll _ _ (by decide) (by decide) s hRun _).read ⟨1, 63⟩ hBuf
  exact absurd hLen (by decide)

/--
**When the buffers of packets are as they should be.** Whatever the sizes of the two
ring buffers and the order of the calls: the packets written are never too long, and
the buffer passed to `read_packet` is large enough exactly if the bytes received end a
packet before the end of the ring buffer, and a packet of it is free.
-/
theorem packets_respected_iff [DecidableEq Task] {readEp writeEp : Nat}
    {readBuf writeBuf : List UInt8}
    (hRun : Run step Connected (new readEp writeEp readBuf writeBuf) s) (a : SerialAction Task) :
    s.Respects a ↔ ∀ addr result, a = .endpointOut addr result →
      addr = s.serial.readEpAddress → s.Room := by
  have hI := hRun.invariant (I := RingInv readBuf.length)
    (ringInv_new readEp writeEp readBuf writeBuf)
    fun _ _ _ hI hOk hs => ringInv_step hI hOk hs
  obtain ⟨buf, hBuf⟩ := hI.read.wf.pushBuf_some
  constructor
  · rintro ⟨hRead, -⟩ addr result rfl hAddr
    refine (hI.room_iff hBuf).mp (hRead buf ?_)
    show (if addr = s.serial.readEpAddress then _ else _) = some buf
    rw [if_pos hAddr]
    exact hBuf
  · intro hRoom
    refine ⟨fun sl hSl => ?_, UsbSerial.passed_length_le hI.writeWF⟩
    cases a with
    | endpointOut addr result =>
      obtain ⟨hAddr, hSl⟩ := Option.ite_none_right_eq_some.mp hSl
      exact (hI.room_iff hSl).mpr (hRoom addr result rfl hAddr)
    | pollFillBuf | consume | pollWrite | endpointInComplete | reset => cases hSl

instance (s : Session Task) (a : SerialAction Task) : Decidable (s.Connected a) :=
  match a with
  | .consume amt => inferInstanceAs (Decidable (amt ≤ s.slice.len))
  | .reset => isFalse id
  | .pollFillBuf _ | .pollWrite .. | .endpointOut .. | .endpointInComplete .. => isTrue trivial

instance (s : Session Task) : Decidable s.Room :=
  inferInstanceAs (Decidable (_ ∧ _))

/-- Of three bytes two are consumed, and there is room for two packets up to the end. -/
theorem packets_respected_iff_room : ∃ s : Session Nat,
    Run step Connected (new 1 2 (List.replicate 131 0) [0]) s ∧ s.received 0 = [5, 6, 7] ∧
      s.obtained 0 = [5, 6] ∧ s.Room ∧ s.Respects (.endpointOut 1 (.ok [8])) := by
  have hRun : Run step Connected (new 1 2 (List.replicate 131 0) [0] : Session Nat) _ :=
    Run.execOk_get _ [.endpointOut 1 (.ok [5, 6, 7]), .pollFillBuf 3, .consume 2]
      (by decide +kernel)
  obtain ⟨s, hRun, hReceived, hObtained, hRoom⟩ : ∃ s : Session Nat,
      Run step Connected (new 1 2 (List.replicate 131 0) [0]) s ∧ s.received 0 = [5, 6, 7] ∧
        s.obtained 0 = [5, 6] ∧ s.Room :=
    ⟨_, hRun, by decide +kernel, by decide +kernel, by decide +kernel⟩
  exact ⟨s, hRun, hReceived, hObtained, hRoom,
    (packets_respected_iff hRun _).mpr fun _ _ _ _ => hRoom⟩

end Session

end Embassy.Extras
