import Embassy.Nrf.Receive

/-!
# Why the buffered UARTE does not stall

Nobody looks at the driver again unless a task is woken or the interrupt is
pending. A task waits only while there is nothing for it to do; and if a direction
of the peripheral stands still although it has work, the interrupt is pending.

Main results:

* `never_stalls` — both, for both directions, in every reachable state.
-/

namespace Embassy.Nrf

open Embassy.Lib Embassy.Extras Embassy.Extras.RingBuffer Embassy.Util

variable {Task : Type}

-- ---------------------------------------------------------------------------
-- Receiving
-- ---------------------------------------------------------------------------

namespace Receiver

/-- A reader waits only for bytes. -/
def Waits (r : Receiver Task) : Prop := r.rxWaker.waker ≠ none → r.rx.contents = []

/-- A transfer could be started. -/
def Stalled (r : Receiver Task) : Prop :=
  r.rxState = .idle ∧ r.rx.contents.length < r.rx.capacity

variable {chip : Chip} {r r' : Receiver Task}

theorem onIdle_awake (hB : r.rx.WF) (h : r.onIdle chip = some r') (hW : r.Waits) :
    r'.Waits ∧ ¬r'.Stalled := by
  obtain ⟨buf, hBuf, ⟨-, rfl⟩ | ⟨hZero, rfl⟩⟩ := onIdle_eq h
  · exact ⟨hW, fun hStalled => nomatch hStalled.1⟩
  · obtain ⟨-, -, hFull, -⟩ := pushBuf_spec hB hBuf
    refine ⟨hW, fun hStalled => ?_⟩
    have hLess := hStalled.2
    rw [length_contents, hFull.mp hZero] at hLess
    exact Nat.lt_irrefl _ hLess

/-- The handler wakes the reader when it has bytes for it, and uses the free space. -/
theorem onInterrupt_awake (hB : r.rx.WF) (h : r.onInterrupt chip = some r') (hW : r.Waits) :
    r'.Waits ∧ ¬r'.Stalled := by
  rcases onInterrupt_cases h with ⟨-, hIdle⟩ | ⟨m, -, -, hm, hIdle⟩ | ⟨hState, -, rfl⟩
  · exact onIdle_awake hB hIdle hW
  · obtain ⟨rx, hPush, rfl⟩ := onEndrx_eq hm
    exact onIdle_awake (hB.push hPush) hIdle fun hWaker => absurd rfl hWaker
  · exact ⟨hW, fun hStalled => nomatch hState.symm.trans hStalled.1⟩

/-- The reader registers itself only when there are no bytes. -/
theorem pollFillBuf_awake [DecidableEq Task] {w : Task} (hB : r.rx.WF)
    (h : r.pollFillBuf w = some r') (hW : r.Waits) : r'.Waits ∧ (r'.Stalled → r.Stalled) := by
  obtain ⟨buf, hBuf, ⟨-, rfl⟩ | ⟨hZero, rfl⟩⟩ := pollFillBuf_eq h
  · exact ⟨hW, id⟩
  · obtain ⟨-, -, hEmpty, -⟩ := popBuf_spec hB hBuf
    exact ⟨fun _ => contents_eq_nil.mpr (hEmpty.mp hZero), id⟩

/-- While a reader waits, there is nothing to consume. -/
theorem consume_awake (hI : r.Inv) {amt : Nat} (hAmt : amt ≤ r.slice.len)
    (h : r.consume amt = some r') (hW : r.Waits) : r'.Waits := by
  obtain ⟨rx, hPop, rfl⟩ := consume_eq h
  obtain ⟨rx', hPop', hContents⟩ := hI.slice.pop_contents hI.wf hAmt
  cases hPop.symm.trans hPop'
  intro hWaker
  show rx.contents = []
  rw [hContents, hW hWaker, List.drop_nil]

theorem dmaByte_awake (hI : r.Inv) {x : UInt8} (h : r.dmaByte x = some r') (hW : r.Waits) :
    r'.Waits ∧ ¬r'.Stalled := by
  obtain ⟨⟨hRunning, hMore⟩, rfl⟩ := dmaByte_eq h
  have hState := (hI.state_of_running hRunning).1
  refine ⟨fun hWaker => ?_, fun hStalled => nomatch hState.symm.trans hStalled.1⟩
  obtain ⟨sl, hSl, hRoom, hOff⟩ := (hI.receiving hState).room
  rw [← hW hWaker, ← hOff (Nat.lt_of_le_of_lt (Nat.zero_le _) hMore)]
  exact contents_set (not_stored_of_pushBuf hI.wf hSl (Nat.lt_of_lt_of_le hMore hRoom))

end Receiver

-- ---------------------------------------------------------------------------
-- Sending
-- ---------------------------------------------------------------------------

namespace Sender

/-- A writer waits only for space. -/
def Waits (t : Sender Task) : Prop :=
  t.txWaker.waker ≠ none → t.tx.contents.length = t.tx.capacity

/-- A transfer could be started. -/
def Stalled (t : Sender Task) : Prop := t.txState = .idle ∧ t.tx.contents ≠ []

variable {chip : Chip} {t t' : Sender Task}

theorem onIdle_awake (hB : t.tx.WF) (h : t.onIdle chip = some t') (hW : t.Waits) :
    t'.tx.WF ∧ t'.Waits ∧ ¬t'.Stalled := by
  obtain ⟨buf, hBuf, ⟨-, rfl⟩ | ⟨hZero, rfl⟩⟩ := onIdle_eq h
  · exact ⟨hB, hW, fun hStalled => nomatch hStalled.1⟩
  · obtain ⟨-, -, hEmpty, -⟩ := popBuf_spec hB hBuf
    exact ⟨hB, hW, fun hStalled => hStalled.2 (contents_eq_nil.mpr (hEmpty.mp hZero))⟩

/-- The handler wakes the writer when it has space for it, and sends what is there. -/
theorem onInterrupt_awake (hB : t.tx.WF) (h : t.onInterrupt chip = some t') (hW : t.Waits) :
    t'.tx.WF ∧ t'.Waits ∧ ¬t'.Stalled := by
  rcases onInterrupt_cases h with ⟨-, hIdle⟩ | ⟨n, m, -, -, hm, hIdle⟩ | ⟨n, hState, -, rfl⟩
  · exact onIdle_awake hB hIdle hW
  · obtain ⟨tx, hPop, rfl⟩ := onEndtx_eq hm
    exact onIdle_awake (hB.pop hPop) hIdle fun hWaker => absurd rfl hWaker
  · exact ⟨hB, hW, fun hStalled => nomatch hState.symm.trans hStalled.1⟩

/-- The writer registers itself only when there is no space, and otherwise nobody
was waiting. -/
theorem pollWrite_awake [DecidableEq Task] {w : Task} {buf : List UInt8} {ready : Bool}
    (hB : t.tx.WF) (h : t.pollWrite w buf = some (t', ready)) (hW : t.Waits) :
    t'.tx.WF ∧ t'.Waits ∧ (ready = false → t'.Stalled → t.Stalled) := by
  obtain ⟨txBuf, hBuf, hCases⟩ := pollWrite_eq h
  obtain ⟨-, -, hFull, -⟩ := pushBuf_spec hB hBuf
  rcases hCases with ⟨hZero, -, rfl⟩ | ⟨hSome, rfl, tx, hPush, rfl⟩
  · refine ⟨hB, fun _ => ?_, fun _ => id⟩
    exact (length_contents _).trans (hFull.mp hZero)
  · refine ⟨(appended_of_write hB hBuf hPush).wf, fun hWaker => ?_, fun hReady => nomatch hReady⟩
    have hLen := hW hWaker
    rw [length_contents] at hLen
    exact absurd (hFull.mpr hLen) hSome

end Sender

-- ---------------------------------------------------------------------------
-- The driver
-- ---------------------------------------------------------------------------

namespace BufferedUarte

/-- Nothing waits without a reason. -/
structure Awake (s : BufferedUarte Task) : Prop where
  rxWaker : s.receiver.rxWaker.waker ≠ none → s.receiver.rx.contents = []
  txWaker : s.sender.txWaker.waker ≠ none → s.sender.tx.contents.length = s.sender.tx.capacity
  rxIdle : s.receiver.rxState = .idle →
    s.receiver.rx.contents.length < s.receiver.rx.capacity → s.pending = true
  txIdle : s.sender.txState = .idle → s.sender.tx.contents ≠ [] → s.pending = true

/-- `Awake`, and what it takes to keep it. -/
structure AwakeInv (s : BufferedUarte Task) : Prop where
  receiver : s.receiver.Inv
  wf : s.sender.tx.WF
  rxWaits : s.receiver.Waits
  txWaits : s.sender.Waits
  rxStalled : s.receiver.Stalled → s.pending = true
  txStalled : s.sender.Stalled → s.pending = true

theorem awakeInv_new (chip : Chip) (rxBuffer txBuffer : List UInt8) :
    (new chip rxBuffer txBuffer : BufferedUarte Task).AwakeInv where
  receiver := Receiver.inv_new rxBuffer
  wf := wf_new txBuffer
  rxWaits := fun h => absurd rfl h
  txWaits := fun h => absurd rfl h
  rxStalled := fun _ => rfl
  txStalled := fun _ => rfl

variable [DecidableEq Task] {s s' : BufferedUarte Task} {a : Action Task}

theorem awakeInv_step (hI : s.AwakeInv) (hOk : s.Contract a) (hs : s.step a = some s') :
    s'.AwakeInv := by
  have hRx := receiver_inv_step hI.receiver hOk hs
  have hB := hI.receiver.wf
  -- what a step does to each half and to the pending line
  obtain ⟨-, hEffect⟩ := step_effect hs
  cases a with
  | register =>
    obtain ⟨hR, hT, hP⟩ := hEffect
    exact ⟨hRx, hT ▸ hI.wf, hR ▸ hI.rxWaits, hT ▸ hI.txWaits, hR ▸ hP ▸ hI.rxStalled,
      hT ▸ hP ▸ hI.txStalled⟩
  | pend =>
    obtain ⟨hR, hT, hP⟩ := hEffect
    exact ⟨hRx, hT ▸ hI.wf, hR ▸ hI.rxWaits, hT ▸ hI.txWaits, fun _ => hP, fun _ => hP⟩
  | pollFillBuf w =>
    obtain ⟨h, hT, hP⟩ := hEffect
    obtain ⟨hWaits, hStalled⟩ := Receiver.pollFillBuf_awake hB h hI.rxWaits
    exact ⟨hRx, hT ▸ hI.wf, hWaits, hT ▸ hI.txWaits, fun h => hP ▸ hI.rxStalled (hStalled h),
      hT ▸ hP ▸ hI.txStalled⟩
  -- a call that makes room pends the line
  | consume amt =>
    obtain ⟨h, hT, hP⟩ := hEffect
    exact ⟨hRx, hT ▸ hI.wf, Receiver.consume_awake hI.receiver hOk h hI.rxWaits, hT ▸ hI.txWaits,
      fun _ => hP, fun _ => hP⟩
  | pollWrite w buf =>
    obtain ⟨ready, h, hR, hP⟩ := hEffect
    obtain ⟨hWF, hWaits, hStalled⟩ := Sender.pollWrite_awake hI.wf h hI.txWaits
    refine ⟨hRx, hWF, hR ▸ hI.rxWaits, hWaits, fun hRx' => ?_, fun hTx' => ?_⟩
    · rw [hP, hI.rxStalled (hR ▸ hRx'), Bool.true_or]
    · rw [hP]
      cases ready with
      | true => exact Bool.or_true _
      | false => rw [hI.txStalled (hStalled rfl hTx'), Bool.true_or]
  -- the handler wakes whom it can serve, so nobody is left stalled
  | interrupt =>
    obtain ⟨hWaits, hNot⟩ := Receiver.onInterrupt_awake hB hEffect.1 hI.rxWaits
    obtain ⟨hWF, hWaits', hNot'⟩ := Sender.onInterrupt_awake hI.wf hEffect.2 hI.txWaits
    exact ⟨hRx, hWF, hWaits, hWaits', fun h => absurd h hNot, fun h => absurd h hNot'⟩
  | rxByte x =>
    obtain ⟨h, hT, hP⟩ := hEffect
    obtain ⟨hWaits, hNot⟩ := Receiver.dmaByte_awake hI.receiver h hI.rxWaits
    exact ⟨hRx, hT ▸ hI.wf, hWaits, hT ▸ hI.txWaits, fun h => absurd h hNot,
      hT ▸ hP ▸ hI.txStalled⟩
  -- an END event pends the line
  | rxEnd =>
    obtain ⟨h, hT, hP⟩ := hEffect
    obtain ⟨-, hR⟩ := Receiver.dmaEnd_eq h
    exact ⟨hRx, hT ▸ hI.wf, hR ▸ hI.rxWaits, hT ▸ hI.txWaits, fun _ => hP, fun _ => hP⟩
  | txRead =>
    obtain ⟨h, hR, hP⟩ := hEffect
    obtain ⟨-, hT⟩ := Sender.dmaRead_eq h
    exact ⟨hRx, hT ▸ hI.wf, hR ▸ hI.rxWaits, hT ▸ hI.txWaits, hR ▸ hP ▸ hI.rxStalled,
      hT ▸ hP ▸ hI.txStalled⟩
  | txSend =>
    obtain ⟨h, hR, hP⟩ := hEffect
    obtain ⟨x, xs, -, hT⟩ := Sender.dmaSend_eq h
    exact ⟨hRx, hT ▸ hI.wf, hR ▸ hI.rxWaits, hT ▸ hI.txWaits, hR ▸ hP ▸ hI.rxStalled,
      hT ▸ hP ▸ hI.txStalled⟩
  | txEnd =>
    obtain ⟨h, hR, hP⟩ := hEffect
    obtain ⟨-, hT⟩ := Sender.dmaEnd_eq h
    exact ⟨hRx, hT ▸ hI.wf, hR ▸ hI.rxWaits, hT ▸ hI.txWaits, fun _ => hP, fun _ => hP⟩

/--
**The driver never stalls and never loses a wake-up.** A registered reader waits
for bytes and a registered writer for space; and a direction that could start a
transfer either has one under way, or the interrupt that starts it is pending.
-/
theorem never_stalls {chip : Chip} {rxBuffer txBuffer : List UInt8}
    (hRun : Run step Contract (new chip rxBuffer txBuffer) s) : s.Awake := by
  have hI : s.AwakeInv := hRun.invariant (I := AwakeInv) (awakeInv_new chip rxBuffer txBuffer)
    fun _ _ _ hI hOk hs => awakeInv_step hI hOk hs
  exact ⟨hI.rxWaits, hI.txWaits, fun hIdle hFree => hI.rxStalled ⟨hIdle, hFree⟩,
    fun hIdle hSome => hI.txStalled ⟨hIdle, hSome⟩⟩

/-- Both a reader and a writer wait, each for its interrupt. -/
theorem never_stalls_waiting : ∃ s : BufferedUarte Nat,
    Run step Contract (new .nrf52810 [0] [0]) s ∧ s.receiver.rxWaker.waker = some 1 ∧
      s.sender.txWaker.waker = some 2 ∧ s.pending = false ∧ s.Awake := by
  have hRun : Run step Contract (new .nrf52810 [0] [0] : BufferedUarte Nat) _ :=
    Run.execOk_get _ [.register, .pollFillBuf 1, .pollWrite 2 [5], .pollWrite 2 [6], .interrupt]
      (by decide +kernel)
  exact ⟨_, hRun, by decide +kernel, by decide +kernel, by decide +kernel, never_stalls hRun⟩

end BufferedUarte

end Embassy.Nrf
