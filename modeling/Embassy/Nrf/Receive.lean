import Embassy.Lib.Run
import Embassy.Nrf.BufferedUarte

/-!
# What the buffered UARTE receives

The DMA writes into the slice that `push_buf` returned when the transfer was
started, while the reader pops from the same buffer and holds a slice of it. The
slice of the DMA stays a part of what `push_buf` returns, and the slice of the
reader a part of what `pop_buf` returns.

Main results:

* `Receiver.Inv` — the invariant, kept by every action of a reader that keeps to
  the contract of `consume`.
* `receive_integrity` — no received byte is lost, repeated or overwritten.
-/

namespace Embassy.Nrf

open Embassy.Lib Embassy.Extras Embassy.Extras.RingBuffer

variable {Task : Type}

namespace Receiver

/-- The transfer under way, in the state `Receiving`. -/
structure Transfer (r : Receiver Task) : Prop where
  running : r.rxd.running = !r.rxd.endrx
  /-- Its memory is free. -/
  room : ∃ sl, r.rx.pushBuf = some sl ∧ r.rxd.maxcnt ≤ sl.len ∧
    (0 < r.rxd.maxcnt → sl.off = r.rxd.ptr)
  fits : r.rxd.got.length ≤ r.rxd.maxcnt
  written : r.rx.read ⟨r.rxd.ptr, r.rxd.got.length⟩ = r.rxd.got
  amount : r.rxd.endrx = true → r.rxd.amount = r.rxd.got.length

/-- The received bytes that the driver has not seen yet. -/
def unseen (r : Receiver Task) : List UInt8 := if r.rxd.endrx then r.rxd.got else []

structure Inv (r : Receiver Task) : Prop where
  wf : r.rx.WF
  idle : r.rxState = .idle → r.rxd.running = false ∧ r.rxd.endrx = false
  receiving : r.rxState = .receiving → r.Transfer
  /-- The reader holds a part of `pop_buf`. -/
  slice : r.rx.Front r.slice
  accounted : r.received = r.consumed ++ r.rx.contents ++ r.unseen

/-- Nothing was received and nothing is under way. -/
theorem inv_new (rxBuffer : List UInt8) : (new rxBuffer : Receiver Task).Inv := by
  have hB := wf_new rxBuffer
  constructor
  case wf => exact hB
  case idle => exact fun _ => ⟨rfl, rfl⟩
  case receiving => exact fun h => nomatch h
  case slice => exact hB.front_empty 0
  case accounted => rfl

variable {chip : Chip} {r r' : Receiver Task}

/-- The hardware runs only for the transfer of the state. -/
theorem Inv.state_of_running (hI : r.Inv) (h : r.rxd.running = true) :
    r.rxState = .receiving ∧ r.rxd.endrx = false := by
  -- The state tells whether the hardware runs.
  cases hState : r.rxState with
  | idle =>
    rw [(hI.idle hState).1] at h
    cases h
  | receiving =>
    have hOne := (hI.receiving hState).running
    rw [h] at hOne
    exact ⟨rfl, by simpa using hOne⟩

/-- A transfer is started over what `push_buf` shows. -/
theorem Inv.onIdle (hI : r.Inv) (hState : r.rxState = .idle) (h : r.onIdle chip = some r') :
    r'.Inv := by
  obtain ⟨buf, hBuf, ⟨hLen, rfl⟩ | ⟨-, rfl⟩⟩ := onIdle_eq h
  · have hEnd := (hI.idle hState).2
    constructor
    case wf => exact hI.wf
    case idle => exact fun h => nomatch h
    case receiving =>
      intro _
      constructor
      case running =>
        show true = !r.rxd.endrx
        rw [hEnd]
        rfl
      case room => exact ⟨buf, hBuf, Nat.mod_le _ _, fun _ => rfl⟩
      case fits => exact Nat.zero_le _
      case written => exact List.take_zero
      case amount => exact fun hEnd' => nomatch hEnd.symm.trans hEnd'
    case slice => exact hI.slice
    case accounted =>
      have hAcc := hI.accounted
      unfold unseen at hAcc ⊢
      -- A transfer that has just begun holds no bytes.
      show _ = _ ++ _ ++ if r.rxd.endrx = true then [] else []
      rw [hEnd] at hAcc ⊢
      exact hAcc
  · exact hI

/-- The bytes of the transfer are in the memory that is pushed. -/
theorem Inv.onEndrx (hI : r.Inv) (hState : r.rxState = .receiving) (hEnd : r.rxd.endrx = true)
    (h : r.onEndrx = some r') : r'.Inv := by
  have hT := hI.receiving hState
  obtain ⟨sl, hSl, hRoom, hOff⟩ := hT.room
  have hAmount := hT.amount hEnd
  -- The room has only grown since the transfer was started.
  have hn : r.rxd.amount ≤ sl.len := by
    have := hT.fits
    omega
  obtain ⟨rx, hPush, rfl⟩ := onEndrx_eq h
  obtain ⟨rx', hPush', hContents⟩ := push_contents hI.wf hSl hn
  cases hPush.symm.trans hPush'
  -- What is pushed is what the DMA wrote, and nothing else.
  have hGot : (r.rx.read sl).take r.rxd.amount = r.rxd.got := by
    rw [take_read hn, hAmount]
    -- A transfer of nothing may be anywhere.
    by_cases hZero : r.rxd.got.length = 0
    · rw [hZero, List.length_eq_zero_iff.mp hZero]
      exact List.take_zero
    · have hOff' := hOff (by have := hT.fits; omega)
      rw [hOff', hT.written]
  constructor
  case wf => exact hI.wf.push hPush
  case idle =>
    intro _
    refine ⟨?_, rfl⟩
    show r.rxd.running = false
    rw [hT.running, hEnd]
    rfl
  case receiving => exact fun h => nomatch h
  case slice => exact hI.slice.push hI.wf hSl hn hPush
  case accounted =>
    have hAcc := hI.accounted
    unfold unseen at hAcc ⊢
    rw [hEnd, if_pos rfl] at hAcc
    show r.received = r.consumed ++ rx.contents ++ []
    rw [hAcc, hContents, hGot, List.append_nil, List.append_assoc]

/-- The handler keeps the invariant in each of its three cases. -/
theorem Inv.onInterrupt (hI : r.Inv) (h : r.onInterrupt chip = some r') : r'.Inv := by
  rcases onInterrupt_cases h with ⟨hState, hIdle⟩ | ⟨m, hState, hEnd, hm, hIdle⟩ | ⟨-, -, rfl⟩
  · exact hI.onIdle hState hIdle
  · have hM := hI.onEndrx hState hEnd hm
    obtain ⟨rx, -, rfl⟩ := onEndrx_eq hm
    exact hM.onIdle rfl hIdle
  · exact hI

/-- The reader gets `pop_buf` itself, or an empty slice. -/
theorem Inv.pollFillBuf [DecidableEq Task] {w : Task} (hI : r.Inv)
    (h : r.pollFillBuf w = some r') : r'.Inv := by
  obtain ⟨buf, hBuf, ⟨-, rfl⟩ | ⟨-, rfl⟩⟩ := pollFillBuf_eq h
  · exact ⟨hI.wf, hI.idle, fun h => ⟨(hI.receiving h).running, (hI.receiving h).room,
      (hI.receiving h).fits, (hI.receiving h).written, (hI.receiving h).amount⟩,
      front_of_popBuf hBuf, hI.accounted⟩
  · exact ⟨hI.wf, hI.idle, fun h => ⟨(hI.receiving h).running, (hI.receiving h).room,
      (hI.receiving h).fits, (hI.receiving h).written, (hI.receiving h).amount⟩,
      hI.wf.front_empty 0, hI.accounted⟩

/-- What the reader pops was shown to it, and the free memory only grows. -/
theorem Inv.consume (hI : r.Inv) {amt : Nat} (hAmt : amt ≤ r.slice.len)
    (h : r.consume amt = some r') : r'.Inv := by
  obtain ⟨rx, hPop, rfl⟩ := consume_eq h
  constructor
  case wf => exact hI.wf.pop hPop
  case idle => exact hI.idle
  case receiving =>
    intro hState
    have hT := hI.receiving hState
    constructor
    case running => exact hT.running
    case room =>
      obtain ⟨sl, hSl, hRoom, hOff⟩ := hT.room
      obtain ⟨sp, hSp, hLe, -⟩ := hI.slice
      -- Popping makes room behind the free part, so the slice of the DMA stays in it.
      obtain ⟨sl', hSl', hRoom', hOff'⟩ :=
        pushBuf_pop hI.wf hPop hSp (Nat.le_trans hAmt hLe) hSl
      refine ⟨sl', hSl', Nat.le_trans hRoom hRoom', fun hPos => ?_⟩
      rw [hOff' (Nat.lt_of_lt_of_le hPos hRoom), hOff hPos]
    case fits => exact hT.fits
    case written => exact (read_pop hPop _).trans hT.written
    case amount => exact hT.amount
  case slice => exact hI.slice.pop hI.wf hAmt hPop
  case accounted =>
    obtain ⟨rx', hPop', hContents⟩ := hI.slice.pop_contents hI.wf hAmt
    cases hPop.symm.trans hPop'
    -- The bytes that the reader sees are the first of the contents.
    show r.received = r.consumed ++ r.rx.read ⟨r.slice.off, amt⟩ ++ rx.contents ++ r.unseen
    rw [hI.slice.read hI.wf hAmt, hContents, List.append_assoc r.consumed, List.take_append_drop]
    exact hI.accounted

/-- The DMA writes to free memory, and so changes no stored byte. -/
theorem Inv.dmaByte (hI : r.Inv) {x : UInt8} (h : r.dmaByte x = some r') : r'.Inv := by
  obtain ⟨⟨hRunning, hMore⟩, rfl⟩ := dmaByte_eq h
  obtain ⟨hState, hEnd⟩ := hI.state_of_running hRunning
  have hT := hI.receiving hState
  obtain ⟨sl, hSl, hRoom, hOff⟩ := hT.room
  -- The byte goes to free memory.
  have hAt : sl.off = r.rxd.ptr := hOff (Nat.lt_of_le_of_lt (Nat.zero_le _) hMore)
  obtain ⟨hIn, -⟩ := pushBuf_spec hI.wf hSl
  constructor
  case wf => exact hI.wf.set _ _
  case idle => exact hI.idle
  case receiving =>
    intro _
    constructor
    case running => exact hT.running
    case room => exact ⟨sl, (pushBuf_set _ _ _).trans hSl, hRoom, hOff⟩
    case fits =>
      show (r.rxd.got ++ [x]).length ≤ r.rxd.maxcnt
      rw [List.length_append]
      exact hMore
    case written =>
      show (r.rx.set (r.rxd.ptr + r.rxd.got.length) x).read
        ⟨r.rxd.ptr, (r.rxd.got ++ [x]).length⟩ = r.rxd.got ++ [x]
      rw [List.length_append, List.length_singleton, read_set (by omega), hT.written]
    case amount => exact fun hEnd' => nomatch hEnd.symm.trans hEnd'
  case slice => exact hI.slice.set _ _
  case accounted =>
    have hAcc := hI.accounted
    unfold unseen at hAcc ⊢
    show r.received = r.consumed ++ (r.rx.set _ x).contents ++ if r.rxd.endrx then _ else []
    rw [hEnd] at hAcc ⊢
    rw [← hAt, contents_set (not_stored_of_pushBuf hI.wf hSl (Nat.lt_of_lt_of_le hMore hRoom))]
    exact hAcc

/-- The bytes of the transfer become received ones that the driver has not seen. -/
theorem Inv.dmaEnd (hI : r.Inv) (h : r.dmaEnd = some r') : r'.Inv := by
  obtain ⟨hRunning, rfl⟩ := dmaEnd_eq h
  obtain ⟨hState, hEnd⟩ := hI.state_of_running hRunning
  have hT := hI.receiving hState
  constructor
  case wf => exact hI.wf
  case idle =>
    intro hIdle
    -- The state is left to the handler.
    change r.rxState = .idle at hIdle
    rw [hState] at hIdle
    cases hIdle
  case receiving => exact fun _ => ⟨rfl, hT.room, hT.fits, hT.written, fun _ => rfl⟩
  case slice => exact hI.slice
  case accounted =>
    have hAcc := hI.accounted
    unfold unseen at hAcc ⊢
    rw [hEnd] at hAcc
    show r.received ++ r.rxd.got = r.consumed ++ r.rx.contents ++ r.rxd.got
    rw [hAcc]
    exact congrArg (· ++ r.rxd.got) (List.append_nil _)

/-- Received bytes are where they belong. -/
structure Intact (r : Receiver Task) : Prop where
  /-- Consumed and stored are the bytes of the transfers of which the driver knows
  that they have ended. -/
  known : r.rxd.endrx = false → r.received = r.consumed ++ r.rx.contents
  /-- The bytes of the one transfer of which it does not, yet, come after them. -/
  unknown : r.rxd.endrx = true → r.received = r.consumed ++ r.rx.contents ++ r.rxd.got ∧
    r.rxd.running = false
  /-- The reader is shown the next bytes. -/
  shown : r.rx.read r.slice = r.rx.contents.take r.slice.len
  borrowed : ∀ i < r.slice.len, r.rx.Stored (r.slice.off + i)
  /-- The DMA does not write over stored bytes, nor outside of the buffer. -/
  target : r.rxd.running = true → ∀ j < r.rxd.maxcnt,
    r.rxd.ptr + j < r.rx.capacity ∧ ¬r.rx.Stored (r.rxd.ptr + j)

/-- What the invariant says of received bytes. -/
theorem Inv.intact (hI : r.Inv) : r.Intact := by
  have hAcc := hI.accounted
  unfold unseen at hAcc
  constructor
  case known =>
    intro hEnd
    rw [hEnd] at hAcc
    exact hAcc.trans (List.append_nil _)
  case unknown =>
    intro hEnd
    rw [hEnd] at hAcc
    refine ⟨hAcc, Bool.eq_false_iff.mpr fun hRunning => ?_⟩
    -- A transfer that has ended does not run.
    rw [(hI.state_of_running hRunning).2] at hEnd
    cases hEnd
  case shown => exact hI.slice.read hI.wf (Nat.le_refl _)
  case borrowed => exact fun i hi => hI.slice.stored hI.wf hi
  case target =>
    intro hRunning j hj
    have hT := hI.receiving (hI.state_of_running hRunning).1
    obtain ⟨sl, hSl, hRoom, hOff⟩ := hT.room
    obtain ⟨hIn, -⟩ := pushBuf_spec hI.wf hSl
    rw [← hOff (by omega)]
    exact ⟨by omega, not_stored_of_pushBuf hI.wf hSl (by omega)⟩

end Receiver

namespace BufferedUarte

/-- The contract of `consume`: no more than the bytes that `poll_fill_buf`
returned. -/
def Contract (s : BufferedUarte Task) : Action Task → Prop
  | .consume amt => amt ≤ s.receiver.slice.len
  | _ => True

instance (s : BufferedUarte Task) (a : Action Task) : Decidable (s.Contract a) := by
  cases a <;> unfold Contract <;> infer_instance

variable [DecidableEq Task] {s s' : BufferedUarte Task} {a : Action Task}

/-- Every action keeps the invariant, of a reader that keeps to its contract. -/
theorem receiver_inv_step (hI : s.receiver.Inv) (hOk : s.Contract a) (hs : s.step a = some s') :
    s'.receiver.Inv := by
  obtain ⟨-, hEffect⟩ := step_effect hs
  cases a with
  | register | pend =>
    rw [hEffect.1]
    exact hI
  | pollFillBuf w => exact hI.pollFillBuf hEffect.1
  | consume amt => exact hI.consume hOk hEffect.1
  | interrupt => exact hI.onInterrupt hEffect.1
  | rxByte x => exact hI.dmaByte hEffect.1
  | rxEnd => exact hI.dmaEnd hEffect.1
  | pollWrite w buf =>
    obtain ⟨ready, -, hSame, -⟩ := hEffect
    rw [hSame]
    exact hI
  | txRead | txSend | txEnd =>
    rw [hEffect.2.1]
    exact hI

theorem receiver_inv {chip : Chip} {rxBuffer txBuffer : List UInt8}
    (hRun : Run step Contract (new chip rxBuffer txBuffer) s) : s.receiver.Inv :=
  hRun.invariant (I := fun s => s.receiver.Inv) (Receiver.inv_new rxBuffer)
    fun _ _ _ hI hOk hs => receiver_inv_step hI hOk hs

/--
**No received byte is lost, repeated or overwritten.** Whatever the length of the
buffer, the order of the calls and interrupts and the progress of the DMA, the
bytes consumed and then the contents of the ring buffer are the bytes of the
transfers that the driver has seen end; and the memory of a transfer under way is
apart from the stored bytes, of which the slice held by the reader is a part.
-/
theorem receive_integrity {chip : Chip} {rxBuffer txBuffer : List UInt8}
    (hRun : Run step Contract (new chip rxBuffer txBuffer) s) : s.receiver.Intact :=
  (receiver_inv hRun).intact

/-- Four bytes arrive in a buffer of three: the second transfer writes before the
slice that the reader still holds. -/
theorem receive_integrity_wrapped : ∃ s : BufferedUarte Nat,
    Run step Contract (new .nrf52840 [0, 0, 0] []) s ∧
      s.receiver.consumed = [1] ∧ s.receiver.slice = ⟨1, 2⟩ ∧ s.receiver.rxd.got = [4] ∧
      s.receiver.Intact := by
  have hRun : Run step Contract (new .nrf52840 [0, 0, 0] [] : BufferedUarte Nat) _ :=
    Run.execOk_get _ [.register, .interrupt, .rxByte 1, .rxByte 2, .rxByte 3, .rxEnd, .interrupt,
      .pollFillBuf 7, .consume 1, .interrupt, .rxByte 4] (by decide +kernel)
  exact ⟨_, hRun, by decide +kernel, by decide +kernel, by decide +kernel, receive_integrity hRun⟩

end BufferedUarte

end Embassy.Nrf
