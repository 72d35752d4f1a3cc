import Embassy.Lib.Run
import Embassy.Nrf.BufferedUarte

/-!
# What the buffered UARTE sends

The number of bytes of a transfer goes to two places: to the register MAXCNT,
which takes its lower 8 or 16 bits, and to `Transmitting(n)`, from which the driver
later pops `n` bytes. The comment beside the conversion says that the length of
the buffer was verified to fit; no such check exists. With a buffer that does fit
the two agree, and everything that is accepted is sent once and in order. With any
other, the first transfer of a buffer that is filled far enough is lost.

Main results:

* `Sender.Inv` — the invariant, over a buffer that fits.
* `long_not_intact` — bytes are lost with every buffer that does not.
* `transmit_integrity_iff` — the two together.
-/

namespace Embassy.Nrf

open Embassy.Lib Embassy.Extras Embassy.Extras.RingBuffer

variable {Task : Type}

namespace Sender

/-- The bytes of the transfer under way that are not on the wire yet, where the
DMA has them or will read them. -/
def inFlight (t : Sender Task) : List UInt8 :=
  if t.txd.running then t.txd.fifo ++ t.tx.read ⟨t.txd.ptr + t.txd.done, t.txd.maxcnt - t.txd.done⟩
  else []

/-- The contents of the ring buffer less the bytes that the transfer pops at its
end. -/
def remaining (t : Sender Task) : List UInt8 :=
  match t.txState with
  | .idle => t.tx.contents
  | .transmitting n => t.tx.contents.drop n

/-- Accepted bytes are sent once and in order. -/
structure Intact (t : Sender Task) : Prop where
  accounted : t.accepted = t.wire ++ t.inFlight ++ t.remaining
  /-- What the DMA reads is not written. -/
  owned : t.txd.running = true → ∀ j < t.txd.maxcnt, ∀ sl, t.tx.pushBuf = some sl →
    ∀ i < sl.len, t.txd.ptr + j ≠ sl.off + i

-- ---------------------------------------------------------------------------
-- A buffer that fits
-- ---------------------------------------------------------------------------

/-- The transfer under way, in the state `Transmitting(n)`. -/
structure Transfer (t : Sender Task) (n : Nat) : Prop where
  running : t.txd.running = !t.txd.endtx
  /-- Its memory is stored bytes. -/
  stored : t.tx.Front ⟨t.txd.ptr, n⟩
  positive : 0 < n
  maxcnt : t.txd.maxcnt = n
  done_le : t.txd.done ≤ n
  ended : t.txd.endtx = true → t.txd.done = n ∧ t.txd.fifo = []
  accounted : t.accepted = t.wire ++ t.txd.fifo ++ t.tx.contents.drop t.txd.done

structure Inv (size : Nat) (t : Sender Task) : Prop where
  wf : t.tx.WF
  capacity : t.tx.capacity = size
  idle : t.txState = .idle → t.txd.running = false ∧ t.txd.endtx = false ∧ t.txd.fifo = [] ∧
    t.accepted = t.wire ++ t.tx.contents
  transmitting : ∀ n, t.txState = .transmitting n → t.Transfer n

/-- Nothing was accepted and nothing is under way. -/
theorem inv_new (txBuffer : List UInt8) : (new txBuffer : Sender Task).Inv txBuffer.length where
  wf := wf_new txBuffer
  capacity := rfl
  idle := fun _ => ⟨rfl, rfl, rfl, rfl⟩
  transmitting := fun _ h => nomatch h

variable {chip : Chip} {size : Nat} {t t' : Sender Task}

/-- The hardware runs only for the transfer of the state. -/
theorem Inv.state_of_running (hI : t.Inv size) (h : t.txd.running = true) :
    ∃ n, t.txState = .transmitting n ∧ t.Transfer n ∧ t.txd.endtx = false := by
  cases hState : t.txState with
  | idle => exact nomatch (hI.idle hState).1.symm.trans h
  | transmitting n =>
    have hT := hI.transmitting n hState
    have hOne := hT.running
    rw [h] at hOne
    exact ⟨n, rfl, hT, by simpa using hOne⟩

/-- A transfer is of stored bytes. -/
theorem Transfer.le_len {n : Nat} (hB : t.tx.WF) (hT : t.Transfer n) :
    n ≤ t.tx.contents.length := by
  rw [length_contents]
  exact hT.stored.len_le hB

/-- A transfer is started over all that `pop_buf` shows, and MAXCNT holds its length. -/
theorem Inv.onIdle (hI : t.Inv size) (hFits : size < 2 ^ chip.maxcntBits)
    (hState : t.txState = .idle) (h : t.onIdle chip = some t') : t'.Inv size := by
  obtain ⟨buf, hBuf, ⟨hLen, rfl⟩ | ⟨-, rfl⟩⟩ := onIdle_eq h
  · obtain ⟨-, hEnd, hFifo, hAcc⟩ := hI.idle hState
    constructor
    case wf => exact hI.wf
    case capacity => exact hI.capacity
    case idle => exact fun h => nomatch h
    case transmitting =>
      rintro n ⟨⟩
      constructor
      case running =>
        show true = !t.txd.endtx
        rw [hEnd]
        rfl
      case stored => exact front_of_popBuf hBuf
      case positive => exact Nat.pos_of_ne_zero hLen
      case maxcnt =>
        obtain ⟨hIn, -⟩ := popBuf_spec hI.wf hBuf
        have hCap := hI.capacity
        -- Here the buffer must fit.
        exact Nat.mod_eq_of_lt (by omega)
      case done_le => exact Nat.zero_le _
      case ended => exact fun hEnd' => nomatch hEnd.symm.trans hEnd'
      case accounted =>
        show t.accepted = t.wire ++ [] ++ t.tx.contents
        rw [List.append_nil]
        exact hAcc
  · exact hI

/-- The bytes of the transfer were sent before they are popped. -/
theorem Inv.onEndtx (hI : t.Inv size) {n : Nat} (hState : t.txState = .transmitting n)
    (hEnd : t.txd.endtx = true) (h : t.onEndtx n = some t') : t'.Inv size := by
  have hT := hI.transmitting n hState
  obtain ⟨hDone, hFifo⟩ := hT.ended hEnd
  obtain ⟨tx, hPop, rfl⟩ := onEndtx_eq h
  obtain ⟨tx', hPop', hContents⟩ := hT.stored.pop_contents hI.wf (Nat.le_refl n)
  cases hPop.symm.trans hPop'
  constructor
  case wf => exact hI.wf.pop hPop
  case capacity => exact (capacity_pop hPop).trans hI.capacity
  case idle =>
    intro _
    refine ⟨?_, rfl, hFifo, ?_⟩
    · show t.txd.running = false
      rw [hT.running, hEnd]
      rfl
    · show t.accepted = t.wire ++ tx.contents
      rw [hT.accounted, hFifo, hDone, hContents, List.append_nil]
  case transmitting => exact fun _ h => nomatch h

/-- The handler keeps the invariant in each of its three cases. -/
theorem Inv.onInterrupt (hI : t.Inv size) (hFits : size < 2 ^ chip.maxcntBits)
    (h : t.onInterrupt chip = some t') : t'.Inv size := by
  rcases onInterrupt_cases h with ⟨hState, hIdle⟩ | ⟨n, m, hState, hEnd, hm, hIdle⟩ | ⟨-, -, -, rfl⟩
  · exact hI.onIdle hFits hState hIdle
  · have hM := hI.onEndtx hState hEnd hm
    obtain ⟨tx, -, rfl⟩ := onEndtx_eq hm
    exact hM.onIdle hFits rfl hIdle
  · exact hI

/-- What is accepted while a transfer is under way goes behind it. -/
theorem Inv.pollWrite [DecidableEq Task] {w : Task} {buf : List UInt8} {ready : Bool}
    (hI : t.Inv size) (h : t.pollWrite w buf = some (t', ready)) : t'.Inv size := by
  obtain ⟨txBuf, hBuf, ⟨-, -, rfl⟩ | ⟨-, -, tx, hPush, rfl⟩⟩ := pollWrite_eq h
  · refine ⟨hI.wf, hI.capacity, hI.idle, fun n hState => ?_⟩
    have hT := hI.transmitting n hState
    exact ⟨hT.running, hT.stored, hT.positive, hT.maxcnt, hT.done_le, hT.ended, hT.accounted⟩
  · -- the bytes go behind those stored, so the transfer under way is not touched
    have hAppended := appended_of_write hI.wf hBuf hPush
    constructor
    case wf => exact hAppended.wf
    case capacity => exact hAppended.capacity.trans hI.capacity
    case idle =>
      intro hState
      obtain ⟨hRunning, hEnd, hFifo, hAcc⟩ := hI.idle hState
      refine ⟨hRunning, hEnd, hFifo, ?_⟩
      show t.accepted ++ _ = t.wire ++ tx.contents
      rw [hAcc, hAppended.contents, List.append_assoc]
    case transmitting =>
      intro n hState
      have hT := hI.transmitting n hState
      refine ⟨hT.running, hAppended.front _ hT.stored, hT.positive, hT.maxcnt, hT.done_le, hT.ended,
        ?_⟩
      show t.accepted ++ _ = t.wire ++ t.txd.fifo ++ tx.contents.drop t.txd.done
      rw [hT.accounted, hAppended.contents,
        List.drop_append_of_le_length (Nat.le_trans hT.done_le (hT.le_len hI.wf)),
        List.append_assoc]

/-- A byte goes from the memory to the FIFO. -/
theorem Inv.dmaRead (hI : t.Inv size) (h : t.dmaRead = some t') : t'.Inv size := by
  obtain ⟨⟨hRunning, hMore⟩, rfl⟩ := dmaRead_eq h
  obtain ⟨n, hState, hT, hEnd⟩ := hI.state_of_running hRunning
  rw [hT.maxcnt] at hMore
  refine ⟨hI.wf, hI.capacity, fun hIdle => (nomatch hState.symm.trans hIdle), fun m hState' => ?_⟩
  -- The byte read is the first of those that are left.
  cases hState.symm.trans hState'
  refine ⟨hT.running, hT.stored, hT.positive, hT.maxcnt, hMore,
    fun hEnd' => (nomatch hEnd.symm.trans hEnd'), ?_⟩
  show t.accepted = t.wire ++ (t.txd.fifo ++ [_]) ++ t.tx.contents.drop (t.txd.done + 1)
  rw [hT.accounted, hT.stored.getD hI.wf hMore]
  simp only [List.append_assoc, List.singleton_append]

/-- A byte goes from the FIFO to the wire. -/
theorem Inv.dmaSend (hI : t.Inv size) (h : t.dmaSend = some t') : t'.Inv size := by
  obtain ⟨x, xs, hFifo, rfl⟩ := dmaSend_eq h
  refine ⟨hI.wf, hI.capacity, fun hIdle => ?_, fun n hState => ?_⟩
  · exact nomatch hFifo.symm.trans (hI.idle hIdle).2.2.1
  · have hT := hI.transmitting n hState
    refine ⟨hT.running, hT.stored, hT.positive, hT.maxcnt, hT.done_le,
      fun hEnd => (nomatch hFifo.symm.trans (hT.ended hEnd).2), ?_⟩
    show t.accepted = t.wire ++ [x] ++ xs ++ t.tx.contents.drop t.txd.done
    rw [hT.accounted, hFifo]
    simp only [List.append_assoc, List.cons_append, List.nil_append]

/-- The hardware ends when the FIFO is empty and all was read. -/
theorem Inv.dmaEnd (hI : t.Inv size) (h : t.dmaEnd = some t') : t'.Inv size := by
  obtain ⟨⟨hRunning, hDone, hFifo⟩, rfl⟩ := dmaEnd_eq h
  obtain ⟨n, hState, hT, -⟩ := hI.state_of_running hRunning
  refine ⟨hI.wf, hI.capacity, fun hIdle => (nomatch hState.symm.trans hIdle), fun m hState' => ?_⟩
  cases hState.symm.trans hState'
  exact ⟨rfl, hT.stored, hT.positive, hT.maxcnt, hT.done_le,
    fun _ => ⟨hDone.trans hT.maxcnt, hFifo⟩, hT.accounted⟩

/-- What the invariant says of accepted bytes. -/
theorem Inv.intact (hI : t.Inv size) : t.Intact := by
  constructor
  case accounted =>
    unfold inFlight remaining
    cases hState : t.txState with
    | idle =>
      obtain ⟨hRunning, -, -, hAcc⟩ := hI.idle hState
      rw [hRunning, hAcc]
      simp
    | transmitting n =>
      have hT := hI.transmitting n hState
      cases hEnd : t.txd.endtx with
      | true =>
        obtain ⟨hDone, hFifo⟩ := hT.ended hEnd
        rw [hT.running, hEnd, hT.accounted, hDone, hFifo]
        simp
      | false =>
        -- The bytes of the transfer that are still to be read come before those that are not part
        -- of it.
        have hSplit : t.tx.contents.drop t.txd.done =
            (t.tx.contents.take n).drop t.txd.done ++ t.tx.contents.drop n := by
          rw [← List.drop_append_of_le_length, List.take_append_drop]
          rw [List.length_take]
          have := hT.done_le
          have := hT.le_len hI.wf
          omega
        rw [hT.running, hEnd, hT.accounted, hT.maxcnt, hT.stored.read_rest hI.wf, hSplit]
        simp only [Bool.not_false, if_true, List.append_assoc]
  case owned =>
    intro hRunning j hj sl hSl i hi hEq
    obtain ⟨n, hState, hT, -⟩ := hI.state_of_running hRunning
    -- What a writer may write to is not stored, and the transfer is.
    rw [hT.maxcnt] at hj
    refine not_stored_of_pushBuf hI.wf hSl hi ?_
    rw [← hEq]
    exact hT.stored.stored hI.wf hj

-- ---------------------------------------------------------------------------
-- A buffer that does not fit
-- ---------------------------------------------------------------------------

/-- If MAXCNT is less than the number of bytes that is popped later, bytes are
lost. -/
theorem not_intact_of_maxcnt (hIdle : t.txState = .idle) (hB : t.tx.WF) (hWire : t.wire = [])
    (hAccepted : t.accepted = t.tx.contents) {buf : Slice} (hBuf : t.tx.popBuf = some buf)
    (hLess : chip.maxcnt buf.len < buf.len) (h : t.onInterrupt chip = some t') : ¬t'.Intact := by
  rcases onInterrupt_cases h with ⟨-, h⟩ | ⟨n, m, hState, -⟩ | ⟨n, hState, -⟩
  · obtain ⟨buf', hBuf', ⟨-, rfl⟩ | ⟨hZero, -⟩⟩ := onIdle_eq h
    · cases hBuf.symm.trans hBuf'
      obtain ⟨-, hLen, -⟩ := popBuf_spec hB hBuf
      intro hIntact
      -- The lengths of the two sides differ.
      have hAcc := congrArg List.length hIntact.accounted
      simp only [inFlight, remaining, start, hWire, hAccepted, List.nil_append, if_true,
        List.length_append, List.length_drop, length_contents, RingBuffer.read,
        List.length_take] at hAcc
      omega
    · cases hBuf.symm.trans hBuf'
      omega
  · cases hIdle.symm.trans hState
  · cases hIdle.symm.trans hState

/-- The first call of `poll_write` accepts any number of bytes up to the length of
the buffer, and has them at its start. -/
theorem pollWrite_new [DecidableEq Task] {txBuffer data : List UInt8} (w : Task)
    (hPos : data ≠ []) (hLen : data.length ≤ txBuffer.length) :
    ∃ t : Sender Task, (new txBuffer).pollWrite w data = some (t, true) ∧ t.tx.WF ∧
      t.txState = .idle ∧ t.wire = [] ∧ t.accepted = data ∧ t.tx.contents = data ∧
      ∃ buf, t.tx.popBuf = some buf ∧ buf.len = data.length := by
  have hB := wf_new txBuffer
  -- an empty ring lends its whole buffer
  have hFree : (RingBuffer.new txBuffer).pushBuf = some ⟨0, txBuffer.length⟩ := by
    rw [hB.pushBuf_eq]
    simp [RingBuffer.new]
  obtain ⟨tx, hPush, hAppended⟩ := push_copy hB hFree hLen
  have hWF := hAppended.wf
  have hContents : tx.contents = data := hAppended.contents
  have hStart : tx.start = 0 := hAppended.start
  obtain ⟨buf, hBuf⟩ := hWF.popBuf_some
  refine ⟨{ new txBuffer with tx := tx, accepted := data }, ?_, hWF, rfl, rfl, rfl, hContents,
    buf, hBuf, ?_⟩
  · have hNonempty : txBuffer.length ≠ 0 := by
      have := List.length_pos_iff.mpr hPos
      omega
    simp only [new, pollWrite, hFree, Option.bind_eq_bind, Option.bind_some, hNonempty, if_false,
      Nat.min_eq_right hLen, List.take_length, List.nil_append]
    exact congrArg (Option.bind · _) hPush
  · rw [popBuf_len_of_start hWF hBuf hStart, ← length_contents, hContents]

end Sender

namespace BufferedUarte

variable [DecidableEq Task] {s s' : BufferedUarte Task} {a : Action Task}

/-- Every action keeps the invariant of a buffer that fits. -/
theorem sender_inv_step {size : Nat} (hFits : size < 2 ^ s.chip.maxcntBits)
    (hI : s.sender.Inv size) (hs : s.step a = some s') : s'.sender.Inv size := by
  obtain ⟨-, hEffect⟩ := step_effect hs
  cases a with
  | register | pend | pollFillBuf | consume | rxByte | rxEnd =>
    rw [hEffect.2.1]
    exact hI
  | pollWrite w buf =>
    obtain ⟨ready, hWrite, -⟩ := hEffect
    exact hI.pollWrite hWrite
  | interrupt => exact hI.onInterrupt hFits hEffect.2
  | txRead => exact hI.dmaRead hEffect.1
  | txSend => exact hI.dmaSend hEffect.1
  | txEnd => exact hI.dmaEnd hEffect.1

/-- Any order of the actions, with any arguments. -/
def Any (_ : BufferedUarte Task) (_ : Action Task) : Prop := True

variable {chip : Chip} {rxBuffer txBuffer : List UInt8}

theorem sender_inv (hFits : txBuffer.length < 2 ^ chip.maxcntBits)
    (hRun : Run step Any (new chip rxBuffer txBuffer) s) : s.sender.Inv txBuffer.length := by
  refine (hRun.invariant (I := fun s => s.chip = chip ∧ s.sender.Inv txBuffer.length)
    ⟨rfl, Sender.inv_new txBuffer⟩ ?_).2
  rintro u a v ⟨hChip, hI⟩ - hs
  refine ⟨(step_effect hs).1.trans hChip, sender_inv_step ?_ hI hs⟩
  rw [hChip]
  exact hFits

/-- A whole number of ranges of MAXCNT is accepted at once, and lost. -/
theorem long_not_intact (Task : Type) [DecidableEq Task] [Inhabited Task] (chip : Chip)
    (rxBuffer txBuffer : List UInt8) (hLong : 2 ^ chip.maxcntBits ≤ txBuffer.length) :
    ∃ s : BufferedUarte Task, Run step Any (new chip rxBuffer txBuffer) s ∧ ¬s.sender.Intact := by
  have hPos : 0 < 2 ^ chip.maxcntBits := Nat.two_pow_pos _
  let data := List.replicate (2 ^ chip.maxcntBits) (0 : UInt8)
  have hData : data.length = 2 ^ chip.maxcntBits := List.length_replicate
  obtain ⟨t, hWrite, hWF, hIdle, hWire, hAccepted, hContents, buf, hBuf, hLen⟩ :=
    Sender.pollWrite_new (default : Task) (List.length_pos_iff.mp (by omega))
      (Nat.le_trans (Nat.le_of_eq hData) hLong)
  -- the handler then starts a transfer of the whole, with MAXCNT zero
  obtain ⟨slot, hSlot⟩ := (wf_new rxBuffer).pushBuf_some
  obtain ⟨r, hr⟩ : ∃ r : Receiver Task, (Receiver.new rxBuffer).onInterrupt chip = some r := by
    simp only [Receiver.onInterrupt, Receiver.new, Receiver.onIdle, hSlot, Option.bind_eq_bind,
      Option.bind_some]
    split <;> exact ⟨_, rfl⟩
  obtain ⟨t', ht'⟩ : ∃ t', t.onInterrupt chip = some t' := by
    simp only [Sender.onInterrupt, hIdle, Sender.onIdle, hBuf, Option.bind_eq_bind,
      Option.bind_some]
    split <;> exact ⟨_, rfl⟩
  let s₁ : BufferedUarte Task := { new chip rxBuffer txBuffer with irqSetupDone := true }
  let s₂ : BufferedUarte Task := { s₁ with sender := t }
  have h₁ : (new chip rxBuffer txBuffer : BufferedUarte Task).step .register = some s₁ := rfl
  have h₂ : s₁.step (.pollWrite default data) = some s₂ := by
    show (((Sender.new txBuffer).pollWrite default data).bind fun p =>
      some ({ s₁ with sender := p.1, pending := true || p.2 } : BufferedUarte Task)) = _
    rw [hWrite]
    rfl
  have h₃ : s₂.step .interrupt =
      some { s₂ with receiver := r, sender := t', pending := false } := by
    show ((Receiver.new rxBuffer).onInterrupt chip).bind (fun r =>
      (t.onInterrupt chip).bind fun t => _) = _
    rw [hr, ht']
    rfl
  refine ⟨_, ((Run.refl.tail trivial h₁).tail trivial h₂).tail trivial h₃, ?_⟩
  have hLess : chip.maxcnt buf.len < buf.len := by
    rw [hLen, hData, Chip.maxcnt, Nat.mod_self]
    exact hPos
  exact Sender.not_intact_of_maxcnt hIdle hWF hWire (hAccepted.trans hContents.symm) hBuf hLess ht'

/-- A buffer of 256 bytes, where MAXCNT has 8 bits. -/
theorem transmit_not_intact : ¬∀ s : BufferedUarte Nat,
    Run step Any (new .nrf52832 [] (List.replicate 256 0)) s → s.sender.Intact := by
  intro hAll
  obtain ⟨s, hRun, hNot⟩ := long_not_intact Nat .nrf52832 [] (List.replicate 256 0)
    (Nat.le_of_eq List.length_replicate.symm)
  exact hNot (hAll s hRun)

/--
**Accepted bytes are sent once and in order, exactly if the buffer fits into the
registers.** Whatever is written, and wherever interrupts and the DMA come in.
-/
theorem transmit_integrity_iff [Inhabited Task] (chip : Chip) (rxBuffer txBuffer : List UInt8) :
    (∀ s : BufferedUarte Task, Run step Any (new chip rxBuffer txBuffer) s → s.sender.Intact) ↔
      txBuffer.length < 2 ^ chip.maxcntBits := by
  constructor
  · intro hAll
    by_contra hLong
    obtain ⟨s, hRun, hNot⟩ := long_not_intact Task chip rxBuffer txBuffer (Nat.le_of_not_lt hLong)
    exact hNot (hAll s hRun)
  · exact fun hFits s hRun => (sender_inv hFits hRun).intact

end BufferedUarte

end Embassy.Nrf
