import Embassy.Lib.Run
import Embassy.Extras.UsbSerial

/-!
# Wake-ups of the USB serial class

A task that is registered is woken only by the operations that call `wake`:
`endpoint_out` with a packet, and `endpoint_in_complete`. Three steps give the task
something to do without that. An error of `read_packet` sets `read_error`; a reset
makes room in the write buffer; and `consume` of a slice from before a reset puts
bytes into the read buffer.

Main results:

* `WaitInv` — the invariant, kept by the other steps.
* `waits_of_attentive` — without those three, a registered task waits with reason.
-/

namespace Embassy.Extras

open Embassy.Lib Embassy.Util Embassy.Extras.RingBuffer

variable {Task : Type}

namespace UsbSerial

/-- The read buffer is empty, and there is no error to report. -/
def Unreadable (u : UsbSerial Task) : Prop := u.readError = false ∧ u.readBuf.contents = []

/-- The write buffer is full, and there is no error to report. -/
def Unwritable (u : UsbSerial Task) : Prop :=
  u.writeError = false ∧ u.writeBuf.contents.length = u.writeBuf.capacity

variable {u : UsbSerial Task}

/-- A poll that finds no byte and no error is pending. -/
theorem pollFillBuf_pending [DecidableEq Task] (hB : u.readBuf.WF) (h : u.Unreadable) (w : Task) :
    ∃ u', u.pollFillBuf w = some (u', .pending) := by
  obtain ⟨buf, hBuf⟩ := hB.popBuf_some
  obtain ⟨-, -, hZero, -⟩ := popBuf_spec hB hBuf
  have hLen : buf.len = 0 := hZero.mpr (contents_eq_nil.mp h.2)
  simp only [pollFillBuf, h.1, Bool.false_eq_true, if_false, hBuf, Option.bind_eq_bind,
    Option.bind_some, hLen, if_true]
  exact ⟨_, rfl⟩

/-- A poll that finds no room and no error is pending. -/
theorem pollWrite_pending [DecidableEq Task] (hB : u.writeBuf.WF) (h : u.Unwritable) (w : Task)
    (buf : List UInt8) (result : Except UsbError Nat) :
    ∃ u', u.pollWrite w buf result = some (u', .pending, none) := by
  obtain ⟨pushBuf, hBuf⟩ := hB.pushBuf_some
  obtain ⟨-, -, hZero, -⟩ := pushBuf_spec hB hBuf
  have hFull := h.2
  rw [length_contents] at hFull
  have hLen : pushBuf.len = 0 := hZero.mpr hFull
  simp only [pollWrite, h.1, Bool.false_eq_true, if_false, hBuf, Option.bind_eq_bind,
    Option.bind_some, hLen, if_true]
  exact ⟨_, rfl⟩

end UsbSerial

namespace Session

/-- A task is registered only if the poll that it waits for would return `Pending`. -/
structure Waits [DecidableEq Task] (s : Session Task) : Prop where
  read : s.serial.readWaker.waker ≠ none → s.serial.Unreadable ∧
    ∀ w, ∃ u, s.serial.pollFillBuf w = some (u, .pending)
  write : s.serial.writeWaker.waker ≠ none → s.serial.Unwritable ∧
    ∀ w buf result, buf ≠ [] → ∃ u, s.serial.pollWrite w buf result = some (u, .pending, none)

/-- No error of `read_packet` and no `consume` of a slice from before a reset while
a reader is registered, and no reset while a writer is. -/
def Attentive (s : Session Task) : SerialAction Task → Prop
  | .consume amt => amt ≤ s.slice.len ∧
    (s.shownAt = s.resets ∨ s.serial.readWaker.waker = none ∨ amt = 0)
  | .endpointOut addr (.error .other) =>
    addr = s.serial.readEpAddress → s.serial.readWaker.waker = none
  | .reset => s.serial.writeWaker.waker = none ∨ s.serial.writeBuf.capacity = 0
  | _ => True

instance (s : Session Task) (a : SerialAction Task) : Decidable (s.Attentive a) :=
  match a with
  | .consume amt => inferInstanceAs (Decidable (amt ≤ s.slice.len ∧
      (s.shownAt = s.resets ∨ s.serial.readWaker.waker = none ∨ amt = 0)))
  | .endpointOut addr (.error .other) => inferInstanceAs
      (Decidable (addr = s.serial.readEpAddress → s.serial.readWaker.waker = none))
  | .endpointOut _ (.error .wouldBlock) | .endpointOut _ (.ok _) => isTrue trivial
  | .reset => inferInstanceAs
      (Decidable (s.serial.writeWaker.waker = none ∨ s.serial.writeBuf.capacity = 0))
  | .pollFillBuf _ | .pollWrite .. | .endpointInComplete .. => isTrue trivial

structure WaitInv (s : Session Task) : Prop where
  readWF : s.serial.readBuf.WF
  writeWF : s.serial.writeBuf.WF
  shownAt_le : s.shownAt ≤ s.resets
  fresh : s.shownAt = s.resets → s.serial.readBuf.Front s.slice
  read : s.serial.readWaker.waker ≠ none → s.serial.Unreadable
  write : s.serial.writeWaker.waker ≠ none → s.serial.Unwritable

theorem waitInv_new (readEp writeEp : Nat) (readBuf writeBuf : List UInt8) :
    (new readEp writeEp readBuf writeBuf : Session Task).WaitInv where
  readWF := wf_new readBuf
  writeWF := wf_new writeBuf
  shownAt_le := Nat.le_refl 0
  fresh := fun _ => (wf_new readBuf).front_empty 0
  read := fun h => absurd rfl h
  write := fun h => absurd rfl h

variable [DecidableEq Task] {s s' : Session Task}

/-- A reader that is pending has left its waker. -/
theorem WaitInv.pollFillBuf {w : Task} (hI : s.WaitInv)
    (hs : s.step (.pollFillBuf w) = some s') : s'.WaitInv := by
  obtain ⟨⟨u, p⟩, hPoll, hs⟩ := Option.bind_eq_some_iff.mp hs
  rcases UsbSerial.pollFillBuf_cases hPoll with ⟨hError, rfl, rfl⟩ | ⟨hError, buf, hBuf, hCases⟩
  · cases hs
    exact ⟨hI.readWF, hI.writeWF, hI.shownAt_le, hI.fresh,
      fun hWaker => (nomatch hError.symm.trans (hI.read hWaker).1), hI.write⟩
  · rcases hCases with ⟨hLen, rfl, rfl⟩ | ⟨hLen, rfl, rfl⟩
    · cases hs
      obtain ⟨-, -, hZero, -⟩ := popBuf_spec hI.readWF hBuf
      exact ⟨hI.readWF, hI.writeWF, hI.shownAt_le, hI.fresh,
        fun _ => ⟨hError, contents_eq_nil.mpr (hZero.mp hLen)⟩, hI.write⟩
    · cases hs
      exact ⟨hI.readWF, hI.writeWF, Nat.le_refl _, fun _ => front_of_popBuf hBuf, hI.read, hI.write⟩

/-- A reader that waits has nothing to consume. -/
theorem WaitInv.consume {amt : Nat} (hI : s.WaitInv) (hOk : s.Attentive (.consume amt))
    (hs : s.step (.consume amt) = some s') : s'.WaitInv := by
  obtain ⟨u, hConsume, hs⟩ := Option.bind_eq_some_iff.mp hs
  obtain ⟨readBuf, hPop, rfl⟩ := UsbSerial.consume_eq hConsume
  cases hs
  obtain ⟨hAmt, hReason⟩ := hOk
  refine ⟨hI.readWF.pop hPop, hI.writeWF, hI.shownAt_le,
    fun hFresh => (hI.fresh hFresh).pop hI.readWF hAmt hPop, fun hWaker => ?_, hI.write⟩
  obtain ⟨hError, hEmpty⟩ := hI.read hWaker
  refine ⟨hError, ?_⟩
  show readBuf.contents = []
  rcases hReason with hFresh | hNone | rfl
  · obtain ⟨readBuf', hPop', hContents⟩ := (hI.fresh hFresh).pop_contents hI.readWF hAmt
    cases hPop.symm.trans hPop'
    rw [hContents, hEmpty, List.drop_nil]
  · exact absurd hNone hWaker
  · cases hPop
    exact hEmpty

/-- When the write buffer takes bytes, nobody waits for room in it. -/
theorem WaitInv.pollWrite {w : Task} {buf : List UInt8} {result : Except UsbError Nat}
    (hI : s.WaitInv) (hs : s.step (.pollWrite w buf result) = some s') : s'.WaitInv := by
  obtain ⟨⟨u, p⟩, hWrite, hs⟩ := Option.bind_eq_some_iff.mp hs
  cases hs
  rcases UsbSerial.pollWrite_cases hWrite with ⟨hError, -, -, rfl⟩ | ⟨hError, pushBuf, hBuf, hCases⟩
  · exact ⟨hI.readWF, hI.writeWF, hI.shownAt_le, hI.fresh, hI.read,
      fun hWaker => (nomatch hError.symm.trans (hI.write hWaker).1)⟩
  · obtain ⟨-, -, hZero, -⟩ := pushBuf_spec hI.writeWF hBuf
    rcases hCases with ⟨hLen, -, -, rfl⟩ | ⟨hLen, writeBuf, hPush, hFlush, -⟩
    · exact ⟨hI.readWF, hI.writeWF, hI.shownAt_le, hI.fresh, hI.read,
        fun _ => ⟨hError, (length_contents _).trans (hZero.mp hLen)⟩⟩
    · obtain ⟨writeBuf', writeState, writeError, count, hPop, rfl⟩ :=
        UsbSerial.flushWrite_eq hFlush
      have hAppended := appended_of_write hI.writeWF hBuf hPush
      refine ⟨hI.readWF, hAppended.wf.pop hPop, hI.shownAt_le, hI.fresh, hI.read,
        fun hWaker => ?_⟩
      have hFull := (hI.write hWaker).2
      rw [length_contents] at hFull
      exact absurd (hZero.mpr hFull) hLen

/-- A packet that has gone out wakes the writer. -/
theorem WaitInv.endpointInComplete {addr : Nat} {result : Except UsbError Nat} (hI : s.WaitInv)
    (hs : s.step (.endpointInComplete addr result) = some s') : s'.WaitInv := by
  obtain ⟨⟨u, p⟩, hComplete, hs⟩ := Option.bind_eq_some_iff.mp hs
  cases hs
  rcases UsbSerial.endpointInComplete_cases hComplete with ⟨-, hFlush⟩ | ⟨-, -, rfl⟩
  · obtain ⟨writeBuf, writeState, writeError, count, hPop, rfl⟩ := UsbSerial.flushWrite_eq hFlush
    exact ⟨hI.readWF, hI.writeWF.pop hPop, hI.shownAt_le, hI.fresh, hI.read,
      fun hWaker => absurd rfl hWaker⟩
  · exact hI

/-- A packet that comes in wakes the reader. An error does not. -/
theorem WaitInv.endpointOut {addr : Nat} {result : Except UsbError (List UInt8)}
    (hI : s.WaitInv) (hOk : s.Attentive (.endpointOut addr result))
    (hs : s.step (.endpointOut addr result) = some s') : s'.WaitInv := by
  obtain ⟨u, hOut, hs⟩ := Option.bind_eq_some_iff.mp hs
  cases hs
  rcases UsbSerial.endpointOut_cases hOut with
    ⟨hAddr, rfl, rfl⟩ | ⟨packet, buf, readBuf, -, rfl, -, hBuf, hFits, hPush, rfl⟩ | ⟨-, rfl⟩
  · exact ⟨hI.readWF, hI.writeWF, hI.shownAt_le, hI.fresh,
      fun hWaker => absurd (hOk hAddr) hWaker, hI.write⟩
  · have hAppended := appended_of_push hI.readWF hBuf hFits hPush
    exact ⟨hAppended.wf, hI.writeWF, hI.shownAt_le,
      fun hFresh => hAppended.front _ (hI.fresh hFresh), fun hWaker => absurd rfl hWaker, hI.write⟩
  · exact ⟨hI.readWF, hI.writeWF, hI.shownAt_le, hI.fresh, hI.read, hI.write⟩

/-- A reset empties both buffers: a reader waits on, and a writer would have room. -/
theorem WaitInv.reset (hI : s.WaitInv) (hOk : s.Attentive .reset)
    (hs : s.step .reset = some s') : s'.WaitInv := by
  cases hs
  constructor
  case readWF => exact .clear _
  case writeWF => exact .clear _
  case shownAt_le => exact Nat.le_succ_of_le hI.shownAt_le
  case fresh =>
    intro hFresh
    have hLe := hI.shownAt_le
    change s.shownAt = s.resets + 1 at hFresh
    omega
  case read => exact fun hWaker => ⟨(hI.read hWaker).1, rfl⟩
  case write =>
    intro hWaker
    rcases hOk with hNone | hZero
    · exact absurd hNone hWaker
    · exact ⟨(hI.write hWaker).1, hZero.symm⟩

/-- Every step of an attentive run keeps the invariant. -/
theorem waitInv_step {a : SerialAction Task} (hI : s.WaitInv) (hOk : s.Attentive a)
    (hs : s.step a = some s') : s'.WaitInv := by
  cases a with
  | pollFillBuf w => exact hI.pollFillBuf hs
  | consume amt => exact hI.consume hOk hs
  | pollWrite w buf result => exact hI.pollWrite hs
  | endpointOut addr result => exact hI.endpointOut hOk hs
  | endpointInComplete addr result => exact hI.endpointInComplete hs
  | reset => exact hI.reset hOk hs

/-- What the invariant says of the wakers. -/
theorem WaitInv.waits (hI : s.WaitInv) : s.Waits where
  read := fun hWaker =>
    ⟨hI.read hWaker, UsbSerial.pollFillBuf_pending hI.readWF (hI.read hWaker)⟩
  write := fun hWaker => ⟨hI.write hWaker, fun w buf result _ =>
    UsbSerial.pollWrite_pending hI.writeWF (hI.write hWaker) w buf result⟩

/-- A reader is registered, and then a packet cannot be read. -/
theorem not_waits_of_error : ¬∀ s : Session Nat,
    Run step Contract (new 1 2 [0] [0]) s → s.Waits := by
  intro hAll
  obtain ⟨s, hRun, hWaker, hError⟩ : ∃ s : Session Nat,
      Run step Contract (new 1 2 [0] [0]) s ∧ s.serial.readWaker.waker ≠ none ∧
        s.serial.readError = true := by
    have hRun : Run step Contract (new 1 2 [0] [0] : Session Nat) _ :=
      Run.execOk_get _ [.pollFillBuf 7, .endpointOut 1 (.error .other)] (by decide +kernel)
    exact ⟨_, hRun, by decide +kernel, by decide +kernel⟩
  exact nomatch hError.symm.trans ((hAll s hRun).read hWaker).1.1

/--
**A registered task waits with reason.** Whatever the results of the endpoint calls
and the order of the operations, as long as no read error and no `consume` of a
slice from before a reset come while a reader is registered, and no reset while a
writer is.
-/
theorem waits_of_attentive {readEp writeEp : Nat} {readBuf writeBuf : List UInt8}
    (hRun : Run step Attentive (new readEp writeEp readBuf writeBuf) s) : s.Waits :=
  (hRun.invariant (I := WaitInv) (waitInv_new readEp writeEp readBuf writeBuf)
    fun _ _ _ hI hOk hs => waitInv_step hI hOk hs).waits

/-- A reader and a writer wait; one of them gets what it waits for. -/
theorem waits_of_attentive_both : ∃ s : Session Nat,
    Run step Attentive (new 1 2 [0] [0]) s ∧ s.serial.writeWaker.waker = some 8 ∧
      s.serial.woken = [7] ∧ s.Waits := by
  have hRun : Run step Attentive (new 1 2 [0] [0] : Session Nat) _ :=
    Run.execOk_get _ [.pollFillBuf 7, .pollWrite 8 [4] (.error .wouldBlock),
      .pollWrite 8 [5] (.error .wouldBlock), .endpointOut 1 (.ok [6])] (by decide +kernel)
  exact ⟨_, hRun, by decide +kernel, by decide +kernel, waits_of_attentive hRun⟩

end Session

end Embassy.Extras
