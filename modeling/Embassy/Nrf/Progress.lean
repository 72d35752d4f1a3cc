import Embassy.Nrf.Transmit
import Embassy.Nrf.Wakeups

/-!
# What the buffered UARTE gets done

Bytes of the receiver are in three places before the reader consumes them: stored
in the ring buffer, held by a transfer that the driver has not seen end, or still on
the line. The DMA and the handler move them from one to the next, and a round of
them moves at least one if both buffers fit into the registers.

Main results:

* `Sound.step` — the invariants of both directions are kept by every action.
* `interrupt_receiver`, `interrupt_sender` — after the handler neither direction is stalled.
-/

namespace Embassy.Nrf

open Embassy.Lib Embassy.Extras Embassy.Extras.RingBuffer Embassy.Util

variable {Task : Type}

-- ---------------------------------------------------------------------------
-- Receiving
-- ---------------------------------------------------------------------------

namespace Receiver

/-- The bytes in memory that `pop_buf` does not show yet. -/
def held (r : Receiver Task) : List UInt8 :=
  match r.rxState with
  | .idle => []
  | .receiving => r.rxd.got

variable {chip : Chip} {r r' : Receiver Task}

theorem held_receiving (h : r.rxState = .receiving) : r.held = r.rxd.got := by
  unfold held
  rw [h]

theorem held_idle (h : r.rxState = .idle) : r.held = [] := by
  unfold held
  rw [h]

/-- A transfer that the handler starts holds nothing yet. -/
theorem onIdle_keeps (hI : r.Inv) (hState : r.rxState = .idle) (h : r.onIdle chip = some r') :
    r'.rx = r.rx ∧ r'.held = [] ∧ r'.consumed = r.consumed ∧ r'.slice = r.slice ∧
      r'.rxd.endrx = false := by
  have hEnd := (hI.idle hState).2
  obtain ⟨buf, -, ⟨-, rfl⟩ | ⟨-, rfl⟩⟩ := onIdle_eq h
  · exact ⟨rfl, rfl, rfl, rfl, hEnd⟩
  · exact ⟨rfl, held_idle hState, rfl, rfl, hEnd⟩

/-- The end of a transfer moves its bytes to the ring buffer. -/
theorem onEndrx_contents (hI : r.Inv) (hState : r.rxState = .receiving)
    (hEnd : r.rxd.endrx = true) (h : r.onEndrx = some r') :
    r'.rx.contents = r.rx.contents ++ r.rxd.got := by
  have hBefore := hI.accounted
  have hAfter := (hI.onEndrx hState hEnd h).accounted
  obtain ⟨rx, -, rfl⟩ := onEndrx_eq h
  unfold unseen at hBefore hAfter
  rw [hEnd, if_pos rfl, List.append_assoc] at hBefore
  have hSame : r.received = r.consumed ++ rx.contents := hAfter.trans (List.append_nil _)
  rw [hBefore, List.append_cancel_left_eq] at hSame
  exact hSame.symm

/-- What a run of the handler does with the bytes it finds. -/
structure Handled (r r' : Receiver Task) : Prop where
  /-- The bytes of the transfer that has ended. -/
  moved : r'.rx.contents = r.rx.contents ++ if r.rxd.endrx then r.rxd.got else []
  stored : r'.rx.contents ++ r'.held = r.rx.contents ++ r.held
  consumed : r'.consumed = r.consumed
  slice : r'.slice = r.slice
  endrx : r'.rxd.endrx = false

/-- The handler moves the bytes of a transfer that has ended, and loses none. -/
theorem onInterrupt_handled (hI : r.Inv) (h : r.onInterrupt chip = some r') : r.Handled r' := by
  rcases onInterrupt_cases h with ⟨hState, hIdle⟩ | ⟨m, hState, hEnd, hm, hIdle⟩ |
    ⟨-, hEnd, rfl⟩
  · -- Idle: there are no bytes to move.
    obtain ⟨hRx, hHeld, hConsumed, hSlice, hEnd'⟩ := onIdle_keeps hI hState hIdle
    refine ⟨?_, ?_, hConsumed, hSlice, hEnd'⟩
    · rw [hRx, (hI.idle hState).2]
      exact (List.append_nil _).symm
    · rw [hRx, hHeld, held_idle hState]
  · -- A transfer has ended: its bytes go behind the stored ones, and the next one holds nothing.
    have hM := hI.onEndrx hState hEnd hm
    have hContents := onEndrx_contents hI hState hEnd hm
    obtain ⟨hIdle', hConsumed', hSlice'⟩ : m.rxState = .idle ∧ m.consumed = r.consumed ∧
        m.slice = r.slice := by
      obtain ⟨rx, -, rfl⟩ := onEndrx_eq hm
      exact ⟨rfl, rfl, rfl⟩
    obtain ⟨hRx, hHeld, hConsumed, hSlice, hEnd'⟩ := onIdle_keeps hM hIdle' hIdle
    refine ⟨?_, ?_, hConsumed.trans hConsumed', hSlice.trans hSlice', hEnd'⟩
    · rw [hRx, hContents, hEnd, if_pos rfl]
    · rw [hRx, hContents, hHeld, held_receiving hState, List.append_nil]
  · -- A transfer is running: the handler leaves it alone.
    refine ⟨?_, rfl, rfl, rfl, hEnd⟩
    rw [hEnd]
    exact (List.append_nil _).symm

/-- A byte that the DMA takes is held, behind the others. -/
theorem dmaByte_stored (hI : r.Inv) {x : UInt8} (h : r.dmaByte x = some r') :
    r'.rx.contents = r.rx.contents ∧ r'.held = r.held ++ [x] ∧ r'.consumed = r.consumed ∧
      r'.slice = r.slice := by
  -- The accounting before and after is compared; the stored bytes are what both have in common.
  have hAfter := (hI.dmaByte h).accounted
  have hBefore := hI.accounted
  obtain ⟨⟨hRunning, -⟩, rfl⟩ := dmaByte_eq h
  obtain ⟨hState, hEnd⟩ := hI.state_of_running hRunning
  unfold unseen at hBefore hAfter
  refine ⟨?_, ?_, rfl, rfl⟩
  · simp only [hEnd, Bool.false_eq_true, if_false, List.append_nil] at hBefore hAfter
    rw [hBefore, List.append_cancel_left_eq] at hAfter
    exact hAfter.symm
  · rw [held_receiving hState, held_receiving (by exact hState)]

/-- The end of a transfer moves no byte: the handler does. -/
theorem dmaEnd_stored (h : r.dmaEnd = some r') :
    r'.rx = r.rx ∧ r'.held = r.held ∧ r'.consumed = r.consumed ∧ r'.slice = r.slice ∧
      r'.rxd.got = r.rxd.got ∧ r'.rxd.endrx = true := by
  obtain ⟨-, rfl⟩ := dmaEnd_eq h
  exact ⟨rfl, rfl, rfl, rfl, rfl, rfl⟩

/-- Looking at the buffer changes none of the three places. -/
theorem pollFillBuf_stored [DecidableEq Task] {w : Task} (h : r.pollFillBuf w = some r') :
    r'.rx = r.rx ∧ r'.held = r.held ∧ r'.consumed = r.consumed ∧ r'.rxState = r.rxState ∧
      r'.rxd = r.rxd := by
  obtain ⟨buf, -, ⟨-, rfl⟩ | ⟨-, rfl⟩⟩ := pollFillBuf_eq h <;> exact ⟨rfl, rfl, rfl, rfl, rfl⟩

/-- The handler does not panic. -/
theorem onIdle_some (hB : r.rx.WF) : ∃ r', r.onIdle chip = some r' := by
  obtain ⟨buf, hBuf⟩ := hB.pushBuf_some
  simp only [onIdle, hBuf, Option.bind_eq_bind, Option.bind_some]
  split <;> exact ⟨_, rfl⟩

/-- The handler does not panic: what it pushes was shown by `push_buf`. -/
theorem onInterrupt_some (hI : r.Inv) : ∃ r', r.onInterrupt chip = some r' := by
  unfold onInterrupt
  split
  · exact onIdle_some hI.wf
  · rename_i hState
    split
    · rename_i hEnd
      have hT := hI.receiving hState
      obtain ⟨sl, hSl, hRoom, -⟩ := hT.room
      -- The transfer was started over `push_buf`, which has only grown since.
      have hFits : r.rxd.amount ≤ sl.len := by
        rw [hT.amount hEnd]
        exact Nat.le_trans hT.fits hRoom
      obtain ⟨rx, hPush, -⟩ := push_contents hI.wf hSl hFits
      rw [onEndrx, hPush]
      exact onIdle_some (hI.wf.push hPush)
    · exact ⟨_, rfl⟩

/-- The memory of the ring buffer is the one given to `new`. -/
theorem onInterrupt_capacity (h : r.onInterrupt chip = some r') :
    r'.rx.capacity = r.rx.capacity := by
  have hIdle : ∀ r r' : Receiver Task, r.onIdle chip = some r' → r'.rx = r.rx := by
    intro r r' h
    obtain ⟨buf, -, ⟨-, rfl⟩ | ⟨-, rfl⟩⟩ := onIdle_eq h <;> rfl
  rcases onInterrupt_cases h with ⟨-, h⟩ | ⟨m, -, -, hm, h⟩ | ⟨-, -, rfl⟩
  · rw [hIdle _ _ h]
  · obtain ⟨rx, hPush, rfl⟩ := onEndrx_eq hm
    rw [hIdle _ _ h]
    exact capacity_push hPush
  · rfl

/-- A transfer is never started with MAXCNT zero. -/
def Armed (r : Receiver Task) : Prop := r.rxState = .receiving → 0 < r.rxd.maxcnt

/-- The handler starts a transfer only with room, and the room fits into MAXCNT. -/
theorem onIdle_armed (hB : r.rx.WF) (hFits : r.rx.capacity < 2 ^ chip.maxcntBits)
    (hArmed : r.Armed) (h : r.onIdle chip = some r') : r'.Armed := by
  obtain ⟨buf, hBuf, ⟨hLen, rfl⟩ | ⟨-, rfl⟩⟩ := onIdle_eq h
  · intro _
    obtain ⟨hIn, -⟩ := pushBuf_spec hB hBuf
    have hMax : chip.maxcnt buf.len = buf.len := Nat.mod_eq_of_lt (by omega)
    show 0 < chip.maxcnt buf.len
    omega
  · exact hArmed

/-- Also behind the end of a transfer. -/
theorem onInterrupt_armed (hB : r.rx.WF) (hFits : r.rx.capacity < 2 ^ chip.maxcntBits)
    (hArmed : r.Armed) (h : r.onInterrupt chip = some r') : r'.Armed := by
  rcases onInterrupt_cases h with ⟨-, h⟩ | ⟨m, -, -, hm, h⟩ | ⟨-, -, rfl⟩
  · exact onIdle_armed hB hFits hArmed h
  · obtain ⟨rx, hPush, rfl⟩ := onEndrx_eq hm
    refine onIdle_armed (hB.push hPush) ?_ ?_ h
    · exact Nat.lt_of_le_of_lt (Nat.le_of_eq (capacity_push hPush)) hFits
    · intro hState
      cases hState
  · exact hArmed

end Receiver

-- ---------------------------------------------------------------------------
-- Sending
-- ---------------------------------------------------------------------------

namespace Sender

variable {chip : Chip} {t t' : Sender Task}

/-- The state and the registers agree. A buffer that is too long for MAXCNT loses bytes, not
this. -/
structure Paired (t : Sender Task) : Prop where
  wf : t.tx.WF
  idle : t.txState = .idle → t.txd.running = false ∧ t.txd.endtx = false
  running : ∀ n, t.txState = .transmitting n → t.txd.running = !t.txd.endtx
  /-- What the end of the transfer pops is stored. -/
  stored : ∀ n, t.txState = .transmitting n → t.tx.Front ⟨t.txd.ptr, n⟩

theorem paired_new (txBuffer : List UInt8) : (new txBuffer : Sender Task).Paired where
  wf := wf_new txBuffer
  idle := fun _ => ⟨rfl, rfl⟩
  running := fun _ h => nomatch h
  stored := fun _ h => nomatch h

/-- A transfer that is started shows `pop_buf`. -/
theorem Paired.onIdle (hP : t.Paired) (hState : t.txState = .idle) (h : t.onIdle chip = some t') :
    t'.Paired := by
  obtain ⟨buf, hBuf, ⟨-, rfl⟩ | ⟨-, rfl⟩⟩ := onIdle_eq h
  · refine ⟨hP.wf, fun h => (nomatch h), fun n _ => ?_, ?_⟩
    · show true = !t.txd.endtx
      rw [(hP.idle hState).2]
      rfl
    · rintro n ⟨⟩
      exact front_of_popBuf hBuf
  · exact hP

/-- The end of a transfer leaves nothing running. -/
theorem Paired.onEndtx {n : Nat} (hP : t.Paired) (hState : t.txState = .transmitting n)
    (hEnd : t.txd.endtx = true) (h : t.onEndtx n = some t') : t'.Paired := by
  obtain ⟨tx, hPop, rfl⟩ := onEndtx_eq h
  refine ⟨hP.wf.pop hPop, fun _ => ⟨?_, rfl⟩, fun _ h => (nomatch h), fun _ h => (nomatch h)⟩
  show t.txd.running = false
  rw [hP.running n hState, hEnd]
  rfl

/-- The handler keeps state and registers in agreement. -/
theorem Paired.onInterrupt (hP : t.Paired) (h : t.onInterrupt chip = some t') : t'.Paired := by
  rcases onInterrupt_cases h with ⟨hState, hIdle⟩ | ⟨n, m, hState, hEnd, hm, hIdle⟩ | ⟨-, -, -, rfl⟩
  · exact hP.onIdle hState hIdle
  · have hM := hP.onEndtx hState hEnd hm
    obtain ⟨tx, -, rfl⟩ := onEndtx_eq hm
    exact hM.onIdle rfl hIdle
  · exact hP

/-- A write comes behind what the transfer shows. -/
theorem Paired.pollWrite [DecidableEq Task] {w : Task} {buf : List UInt8} {ready : Bool}
    (hP : t.Paired) (h : t.pollWrite w buf = some (t', ready)) : t'.Paired := by
  obtain ⟨txBuf, hBuf, ⟨-, -, rfl⟩ | ⟨-, -, tx, hPush, rfl⟩⟩ := pollWrite_eq h
  · exact ⟨hP.wf, hP.idle, hP.running, hP.stored⟩
  · have hAppended := appended_of_write hP.wf hBuf hPush
    exact ⟨hAppended.wf, hP.idle, hP.running,
      fun n hState => hAppended.front _ (hP.stored n hState)⟩

/-- Only a running transfer ends. -/
theorem Paired.dmaEnd (hP : t.Paired) (h : t.dmaEnd = some t') : t'.Paired := by
  obtain ⟨⟨hRunning, -⟩, rfl⟩ := dmaEnd_eq h
  refine ⟨hP.wf, fun hIdle => ?_, fun _ _ => rfl, hP.stored⟩
  cases hRunning.symm.trans (hP.idle hIdle).1

/-- The handler does not panic. -/
theorem onIdle_some (hB : t.tx.WF) : ∃ t', t.onIdle chip = some t' := by
  obtain ⟨buf, hBuf⟩ := hB.popBuf_some
  simp only [onIdle, hBuf, Option.bind_eq_bind, Option.bind_some]
  split <;> exact ⟨_, rfl⟩

/-- The handler does not panic: what it pops was shown by `pop_buf`. -/
theorem onInterrupt_some (hP : t.Paired) : ∃ t', t.onInterrupt chip = some t' := by
  unfold onInterrupt
  split
  · exact onIdle_some hP.wf
  · rename_i n hState
    split
    · obtain ⟨tx, hPop, -⟩ := (hP.stored n hState).pop_contents hP.wf (Nat.le_refl n)
      rw [onEndtx, hPop]
      exact onIdle_some (hP.wf.pop hPop)
    · exact ⟨_, rfl⟩

/-- The handler leaves no ENDTX behind, and does not touch the FIFO of a running transfer. -/
theorem onInterrupt_ended (hP : t.Paired) (h : t.onInterrupt chip = some t') :
    t'.txd.endtx = false ∧ (t.txd.fifo.length ≤ t.txd.done → t'.txd.fifo.length ≤ t'.txd.done) := by
  -- What the idle branch does is the same for both ways into it.
  have hIdle : ∀ m : Sender Task, m.txd.endtx = false → m.onIdle chip = some t' →
      t'.txd.endtx = false ∧
        (m.txd.fifo.length ≤ m.txd.done → t'.txd.fifo.length ≤ t'.txd.done) := by
    intro m hEnd h
    obtain ⟨buf, -, ⟨-, rfl⟩ | ⟨-, rfl⟩⟩ := onIdle_eq h
    · exact ⟨hEnd, fun _ => Nat.le_refl 0⟩
    · exact ⟨hEnd, id⟩
  rcases onInterrupt_cases h with ⟨hState, h⟩ | ⟨n, m, -, -, hm, h⟩ | ⟨n, -, hEnd, rfl⟩
  · exact hIdle t (hP.idle hState).2 h
  · obtain ⟨hEnd, hFifo, hDone⟩ : m.txd.endtx = false ∧ m.txd.fifo = t.txd.fifo ∧
        m.txd.done = t.txd.done := by
      obtain ⟨tx, -, rfl⟩ := onEndtx_eq hm
      exact ⟨rfl, rfl, rfl⟩
    rw [← hFifo, ← hDone]
    exact hIdle m hEnd h
  · exact ⟨hEnd, id⟩

end Sender

-- ---------------------------------------------------------------------------
-- The driver
-- ---------------------------------------------------------------------------

namespace BufferedUarte

/-- A driver over buffers of `rxSize` and `txSize` bytes. -/
structure Sound (chip : Chip) (rxSize txSize : Nat) (s : BufferedUarte Task) : Prop where
  chip_eq : s.chip = chip
  awake : s.AwakeInv
  capacity : s.receiver.rx.capacity = rxSize
  endrx : s.receiver.rxd.endrx = true → s.pending = true
  armed : rxSize < 2 ^ chip.maxcntBits → s.receiver.Armed
  paired : s.sender.Paired
  sender : txSize < 2 ^ chip.maxcntBits → s.sender.Inv txSize
  endtx : s.sender.txd.endtx = true → s.pending = true
  fifo : s.sender.txd.fifo.length ≤ s.sender.txd.done

variable [DecidableEq Task] {chip : Chip} {rxSize txSize : Nat} {s s' : BufferedUarte Task}
  {a : Action Task}

omit [DecidableEq Task] in
theorem sound_new (chip : Chip) (rxBuffer txBuffer : List UInt8) :
    (new chip rxBuffer txBuffer : BufferedUarte Task).Sound chip rxBuffer.length
      txBuffer.length where
  chip_eq := rfl
  awake := awakeInv_new chip rxBuffer txBuffer
  capacity := rfl
  endrx := fun h => nomatch h
  armed := fun _ h => nomatch h
  paired := Sender.paired_new txBuffer
  sender := fun _ => Sender.inv_new txBuffer
  endtx := fun h => nomatch h
  fifo := Nat.le_refl 0

/-- State and registers of the sender agree after every action. -/
theorem paired_step (hP : s.sender.Paired) (hs : s.step a = some s') : s'.sender.Paired := by
  obtain ⟨-, hEffect⟩ := step_effect hs
  cases a with
  | register | pend | pollFillBuf | consume | rxByte | rxEnd =>
    rw [hEffect.2.1]
    exact hP
  | pollWrite w buf =>
    obtain ⟨ready, hWrite, -⟩ := hEffect
    exact hP.pollWrite hWrite
  | interrupt => exact hP.onInterrupt hEffect.2
  | txRead =>
    obtain ⟨-, hT⟩ := Sender.dmaRead_eq hEffect.1
    rw [hT]
    exact ⟨hP.wf, hP.idle, hP.running, hP.stored⟩
  | txSend =>
    obtain ⟨x, xs, -, hT⟩ := Sender.dmaSend_eq hEffect.1
    rw [hT]
    exact ⟨hP.wf, hP.idle, hP.running, hP.stored⟩
  | txEnd => exact hP.dmaEnd hEffect.1

/-- The invariants of both directions are kept, each as far as its buffer fits. -/
theorem Sound.step (hS : s.Sound chip rxSize txSize) (hOk : s.Contract a)
    (hs : s.step a = some s') : s'.Sound chip rxSize txSize := by
  have hAwake := awakeInv_step hS.awake hOk hs
  have hPaired := paired_step hS.paired hs
  have hSender : txSize < 2 ^ chip.maxcntBits → s'.sender.Inv txSize := fun hFits =>
    sender_inv_step (by rwa [hS.chip_eq]) (hS.sender hFits) hs
  obtain ⟨hChip, hEffect⟩ := step_effect hs
  have hChip' := hChip.trans hS.chip_eq
  have hB := hS.awake.receiver.wf
  -- Each action changes one direction; the other one keeps its parts of the invariant.
  cases a with
  | register =>
    obtain ⟨hR, hT, hP⟩ := hEffect
    exact ⟨hChip', hAwake, hR ▸ hS.capacity, fun hEnd => hP ▸ hS.endrx (hR ▸ hEnd), hR ▸ hS.armed,
      hPaired, hSender, fun hEnd => hP ▸ hS.endtx (hT ▸ hEnd), hT ▸ hS.fifo⟩
  | pend =>
    obtain ⟨hR, hT, hP⟩ := hEffect
    exact ⟨hChip', hAwake, hR ▸ hS.capacity, fun _ => hP, hR ▸ hS.armed, hPaired, hSender,
      fun _ => hP, hT ▸ hS.fifo⟩
  | pollFillBuf w =>
    obtain ⟨h, hT, hP⟩ := hEffect
    obtain ⟨hRx, -, -, hState, hRxd⟩ := Receiver.pollFillBuf_stored h
    refine ⟨hChip', hAwake, hRx ▸ hS.capacity, fun hEnd => hP ▸ hS.endrx (hRxd ▸ hEnd), ?_,
      hPaired, hSender, fun hEnd => hP ▸ hS.endtx (hT ▸ hEnd), hT ▸ hS.fifo⟩
    intro hFits' hReceiving
    rw [hRxd]
    exact hS.armed hFits' (hState ▸ hReceiving)
  | consume amt =>
    obtain ⟨h, hT, hP⟩ := hEffect
    obtain ⟨rx, hPop, hR⟩ := Receiver.consume_eq h
    refine ⟨hChip', hAwake, ?_, fun _ => hP, ?_, hPaired, hSender, fun _ => hP, hT ▸ hS.fifo⟩
    · rw [hR]
      exact (capacity_pop hPop).trans hS.capacity
    · intro hFits'
      rw [hR]
      exact hS.armed hFits'
  | pollWrite w buf =>
    obtain ⟨ready, h, hR, hP⟩ := hEffect
    have hTxd : s'.sender.txd = s.sender.txd := by
      obtain ⟨txBuf, -, ⟨-, -, hT⟩ | ⟨-, -, tx, -, hT⟩⟩ := Sender.pollWrite_eq h <;> rw [hT]
    refine ⟨hChip', hAwake, hR ▸ hS.capacity, fun hEnd => ?_, hR ▸ hS.armed, hPaired, hSender,
      fun hEnd => ?_, hTxd ▸ hS.fifo⟩
    · rw [hP, hS.endrx (hR ▸ hEnd), Bool.true_or]
    · rw [hP, hS.endtx (hTxd ▸ hEnd), Bool.true_or]
  | interrupt =>
    obtain ⟨hR, hT⟩ := hEffect
    have hHandled := Receiver.onInterrupt_handled hS.awake.receiver hR
    obtain ⟨hEndtx, hFifo⟩ := Sender.onInterrupt_ended hS.paired hT
    have hSize := hS.capacity
    refine ⟨hChip', hAwake, (Receiver.onInterrupt_capacity hR).trans hSize,
      fun hEnd => (nomatch hHandled.endrx.symm.trans hEnd), fun hFits' => ?_, hPaired, hSender,
      fun hEnd => (nomatch hEndtx.symm.trans hEnd), hFifo hS.fifo⟩
    exact Receiver.onInterrupt_armed hB (by rwa [hSize, hS.chip_eq]) (hS.armed hFits') hR
  | rxByte x =>
    obtain ⟨h, hT, hP⟩ := hEffect
    obtain ⟨-, hR⟩ := Receiver.dmaByte_eq h
    refine ⟨hChip', hAwake, ?_, fun hEnd => ?_, fun hFits' => ?_, hPaired, hSender,
      fun hEnd => hP ▸ hS.endtx (hT ▸ hEnd), hT ▸ hS.fifo⟩
    · rw [hR]
      exact (capacity_set _ _ _).trans hS.capacity
    · rw [hP]
      rw [hR] at hEnd
      exact hS.endrx hEnd
    · rw [hR]
      exact hS.armed hFits'
  | rxEnd =>
    obtain ⟨h, hT, hP⟩ := hEffect
    obtain ⟨-, hR⟩ := Receiver.dmaEnd_eq h
    refine ⟨hChip', hAwake, hR ▸ hS.capacity, fun _ => hP, fun hFits' => ?_, hPaired, hSender,
      fun _ => hP, hT ▸ hS.fifo⟩
    rw [hR]
    exact hS.armed hFits'
  | txRead =>
    obtain ⟨h, hR, hP⟩ := hEffect
    obtain ⟨-, hT⟩ := Sender.dmaRead_eq h
    refine ⟨hChip', hAwake, hR ▸ hS.capacity, fun hEnd => hP ▸ hS.endrx (hR ▸ hEnd), hR ▸ hS.armed,
      hPaired, hSender, fun hEnd => ?_, ?_⟩
    · rw [hT] at hEnd
      exact hP ▸ hS.endtx hEnd
    · -- One byte more in the FIFO and one more read.
      have hFifo := hS.fifo
      rw [hT]
      show (s.sender.txd.fifo ++ [_]).length ≤ s.sender.txd.done + 1
      rw [List.length_append, List.length_singleton]
      omega
  | txSend =>
    obtain ⟨h, hR, hP⟩ := hEffect
    obtain ⟨x, xs, hCons, hT⟩ := Sender.dmaSend_eq h
    refine ⟨hChip', hAwake, hR ▸ hS.capacity, fun hEnd => hP ▸ hS.endrx (hR ▸ hEnd), hR ▸ hS.armed,
      hPaired, hSender, fun hEnd => ?_, ?_⟩
    · rw [hT] at hEnd
      exact hP ▸ hS.endtx hEnd
    · have hFifo := hS.fifo
      rw [hCons, List.length_cons] at hFifo
      rw [hT]
      exact Nat.le_of_succ_le hFifo
  | txEnd =>
    obtain ⟨h, hR, hP⟩ := hEffect
    obtain ⟨-, hT⟩ := Sender.dmaEnd_eq h
    refine ⟨hChip', hAwake, hR ▸ hS.capacity, fun _ => hP, hR ▸ hS.armed, hPaired, hSender,
      fun _ => hP, ?_⟩
    rw [hT]
    exact hS.fifo

/-- A registered interrupt stays registered. -/
theorem setup_step (hSetup : s.irqSetupDone = true) (hs : s.step a = some s') :
    s'.irqSetupDone = true := by
  cases a with
  | register =>
    cases hs
    rfl
  | pend =>
    cases hs
    exact hSetup
  | pollFillBuf | consume | pollWrite | interrupt =>
    simp only [BufferedUarte.step, Option.ite_none_right_eq_some] at hs
    obtain ⟨-, hs⟩ := hs
    simp only [Option.bind_eq_bind, Option.bind_eq_some_iff] at hs
    grind
  | rxByte | rxEnd | txRead | txSend | txEnd =>
    obtain ⟨r, -, hs⟩ := Option.bind_eq_some_iff.mp hs
    cases hs
    exact hSetup

/-- An action that is not possible is skipped. -/
def attempt (s : BufferedUarte Task) (a : Action Task) : BufferedUarte Task := (s.step a).getD s

theorem attempt_cases (s : BufferedUarte Task) (a : Action Task) :
    s.step a = none ∧ s.attempt a = s ∨ ∃ s', s.step a = some s' ∧ s.attempt a = s' := by
  unfold attempt
  cases hs : s.step a with
  | none => exact .inl ⟨rfl, rfl⟩
  | some s' => exact .inr ⟨s', rfl, rfl⟩

/-- The invariants are kept by an attempt as well. -/
theorem Sound.attempt (hS : s.Sound chip rxSize txSize) (hOk : s.Contract a) :
    (s.attempt a).Sound chip rxSize txSize := by
  rcases attempt_cases s a with ⟨-, hEq⟩ | ⟨s', hs, hEq⟩
  · rw [hEq]
    exact hS
  · rw [hEq]
    exact hS.step hOk hs

theorem setup_attempt (hSetup : s.irqSetupDone = true) : (s.attempt a).irqSetupDone = true := by
  rcases attempt_cases s a with ⟨-, hEq⟩ | ⟨s', hs, hEq⟩
  · rw [hEq]
    exact hSetup
  · rw [hEq]
    exact setup_step hSetup hs

/-- A pending interrupt is handled. -/
theorem interrupt_some (hS : s.Sound chip rxSize txSize) (hSetup : s.irqSetupDone = true)
    (hPending : s.pending = true) : ∃ s', s.step .interrupt = some s' := by
  obtain ⟨r, hR⟩ : ∃ r, s.receiver.onInterrupt s.chip = some r :=
    Receiver.onInterrupt_some hS.awake.receiver
  obtain ⟨t, hT⟩ : ∃ t, s.sender.onInterrupt s.chip = some t := Sender.onInterrupt_some hS.paired
  simp only [BufferedUarte.step, hSetup, hPending, hR, hT, and_self, if_true, Option.bind_eq_bind,
    Option.bind_some]
  exact ⟨_, rfl⟩

/-- If the interrupt is not pending there is nothing for the handler to do. -/
theorem interrupt_receiver (hS : s.Sound chip rxSize txSize) (hSetup : s.irqSetupDone = true) :
    s.receiver.Handled (s.attempt .interrupt).receiver ∧
      ¬(s.attempt .interrupt).receiver.Stalled := by
  rcases attempt_cases s .interrupt with ⟨hNone, hEq⟩ | ⟨s', hs, hEq⟩
  · -- No handler run: ENDRX would have pended the interrupt, and so would a stalled receiver.
    have hQuiet : s.pending = false := by
      by_contra hPending
      obtain ⟨s', hs⟩ := interrupt_some hS hSetup (by simpa using hPending)
      cases hNone.symm.trans hs
    have hEnd : s.receiver.rxd.endrx = false := by
      by_contra hEnd
      cases hQuiet.symm.trans (hS.endrx (by simpa using hEnd))
    rw [hEq]
    refine ⟨⟨?_, rfl, rfl, rfl, hEnd⟩, fun hStalled => ?_⟩
    · rw [hEnd]
      exact (List.append_nil _).symm
    · cases hQuiet.symm.trans (hS.awake.rxStalled hStalled)
  · obtain ⟨-, hR, -⟩ := step_effect hs
    rw [hEq]
    exact ⟨Receiver.onInterrupt_handled hS.awake.receiver hR,
      (Receiver.onInterrupt_awake hS.awake.receiver.wf hR hS.awake.rxWaits).2⟩

/-- After the handler no transfer has ended unseen, and none is due. -/
theorem interrupt_sender (hS : s.Sound chip rxSize txSize) (hSetup : s.irqSetupDone = true) :
    (s.attempt .interrupt).sender.txd.endtx = false ∧ ¬(s.attempt .interrupt).sender.Stalled := by
  rcases attempt_cases s .interrupt with ⟨hNone, hEq⟩ | ⟨s', hs, hEq⟩
  · have hQuiet : s.pending = false := by
      by_contra hPending
      obtain ⟨s', hs⟩ := interrupt_some hS hSetup (by simpa using hPending)
      cases hNone.symm.trans hs
    rw [hEq]
    refine ⟨?_, fun hStalled => ?_⟩
    · by_contra hEnd
      cases hQuiet.symm.trans (hS.endtx (by simpa using hEnd))
    · cases hQuiet.symm.trans (hS.awake.txStalled hStalled)
  · obtain ⟨-, -, hT⟩ := step_effect hs
    rw [hEq]
    exact ⟨(Sender.onInterrupt_ended hS.paired hT).1,
      (Sender.onInterrupt_awake hS.awake.wf hT hS.awake.txWaits).2.2⟩

end BufferedUarte

end Embassy.Nrf
