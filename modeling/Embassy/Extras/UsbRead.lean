import Embassy.Lib.Run
import Embassy.Extras.UsbSerial

/-!
# What is read from the USB serial class

`poll_fill_buf` returns a slice of the ring buffer and `consume` pops from it, in
another critical section. The comment on the slice in `ReadInterface::poll_fill_buf`
says that this part of the buffer is not modified until `consume`; a reset does not
keep to that. It clears the buffer, so that the next packet may be written over the
slice, and `consume` pops all the same: the reader obtains bytes of a later packet, and
bytes that were never stored become the contents.

As long as there is no reset between the two, the slice is the front of the contents
whatever else comes in, and both the bytes obtained and those that are left are told by
the bytes received.

Main results:

* `ReadInv` — the invariant, kept as long as no slice from before a reset is consumed.
* `read_integrity` — the bytes obtained are the bytes received since the last reset, in
  this order and once, up to those that are stored.
-/

namespace Embassy.Extras

open Embassy.Lib Embassy.Util Embassy.Extras.RingBuffer

variable {Task : Type}

namespace Session

/-- The bytes obtained were received. -/
structure ReadIntact (s : Session Task) : Prop where
  /-- From slices returned after a reset: the first of the bytes received after it and
  before the next, in this order and each once. -/
  obtained : ∀ e, s.obtained e <+: s.received e
  /-- The buffer holds the bytes received since the last reset that were not obtained. -/
  stored : s.received s.resets = s.obtained s.resets ++ s.serial.readBuf.contents
  /-- As long as there is no reset, the bytes of the slice stay in memory what they were,
  and are those that come next. -/
  shown : s.shownAt = s.resets →
    s.serial.readBuf.read s.slice = s.shown ∧ s.shown <+: s.serial.readBuf.contents

/-- Nothing is consumed of a slice that was returned before the last reset. -/
def Careful (s : Session Task) : SerialAction Task → Prop
  | .consume amt => amt ≤ s.slice.len ∧ (s.shownAt = s.resets ∨ amt = 0)
  | _ => True

instance (s : Session Task) (a : SerialAction Task) : Decidable (s.Careful a) :=
  match a with
  | .consume amt =>
    inferInstanceAs (Decidable (amt ≤ s.slice.len ∧ (s.shownAt = s.resets ∨ amt = 0)))
  | .pollFillBuf _ | .pollWrite .. | .endpointOut .. | .endpointInComplete .. | .reset =>
    isTrue trivial

structure ReadInv (s : Session Task) : Prop where
  wf : s.serial.readBuf.WF
  obtained : ∀ e, s.obtained e <+: s.received e
  stored : s.received s.resets = s.obtained s.resets ++ s.serial.readBuf.contents
  /-- Nothing is received after resets to come. -/
  ahead : ∀ e, s.resets < e → s.received e = []
  shownAt_le : s.shownAt ≤ s.resets
  /-- A slice from after the last reset is the front of the contents. -/
  fresh : s.shownAt = s.resets → s.serial.readBuf.Front s.slice ∧
    s.shown = s.serial.readBuf.contents.take s.slice.len

/-- Nothing was received of a new class, and nothing is stored. -/
theorem readInv_new (readEp writeEp : Nat) (readBuf writeBuf : List UInt8) :
    (new readEp writeEp readBuf writeBuf : Session Task).ReadInv := by
  have hB := wf_new readBuf
  constructor
  case wf => exact hB
  case obtained => exact fun _ => List.prefix_refl []
  case stored => rfl
  case ahead => exact fun _ _ => rfl
  case shownAt_le => exact Nat.le_refl 0
  case fresh => exact fun _ => ⟨hB.front_empty 0, rfl⟩

variable {s s' : Session Task} {u : UsbSerial Task}

/-- Operations that leave the read buffer alone. -/
theorem ReadInv.frame (hI : s.ReadInv) (hBuf : u.readBuf = s.serial.readBuf) :
    { s with serial := u }.ReadInv := by
  refine ⟨?_, hI.obtained, ?_, hI.ahead, hI.shownAt_le, ?_⟩
  · exact hBuf ▸ hI.wf
  · exact hBuf ▸ hI.stored
  · exact hBuf ▸ hI.fresh

/-- A call of `poll_fill_buf` that returns a slice takes it from the front of the contents. -/
theorem ReadInv.pollFillBuf [DecidableEq Task] {w : Task} (hI : s.ReadInv)
    (hs : s.step (.pollFillBuf w) = some s') : s'.ReadInv := by
  obtain ⟨⟨u, p⟩, hPoll, hs⟩ := Option.bind_eq_some_iff.mp hs
  rcases UsbSerial.pollFillBuf_cases hPoll with ⟨-, rfl, rfl⟩ | ⟨-, buf, hBuf, hCases⟩
  · cases hs
    exact hI.frame rfl
  · rcases hCases with ⟨-, rfl, rfl⟩ | ⟨-, rfl, rfl⟩
    · cases hs
      exact hI.frame rfl
    · cases hs
      -- the slice is all that `pop_buf` has found, and is from after the last reset
      exact ⟨hI.wf, hI.obtained, hI.stored, hI.ahead, Nat.le_refl _,
        fun _ => ⟨front_of_popBuf hBuf, read_popBuf hI.wf hBuf⟩⟩

/-- What is in memory at a slice from after the last reset, and what is popped with it. -/
theorem ReadInv.pop_fresh (hI : s.ReadInv) {amt : Nat} (hAmt : amt ≤ s.slice.len)
    (hFresh : s.shownAt = s.resets) {readBuf : RingBuffer}
    (hPop : s.serial.readBuf.pop amt = some readBuf) :
    s.serial.readBuf.contents = s.serial.readBuf.read ⟨s.slice.off, amt⟩ ++ readBuf.contents ∧
      readBuf.contents = s.serial.readBuf.contents.drop amt := by
  obtain ⟨hFront, -⟩ := hI.fresh hFresh
  obtain ⟨readBuf', hPop', hContents⟩ := hFront.pop_contents hI.wf hAmt
  cases hPop.symm.trans hPop'
  refine ⟨?_, hContents⟩
  rw [hFront.read hI.wf hAmt, hContents, List.take_append_drop]

/-- Bytes are consumed of a slice that was returned since the last reset. -/
theorem ReadInv.consume_fresh (hI : s.ReadInv) {amt : Nat} (hAmt : amt ≤ s.slice.len)
    (hFresh : s.shownAt = s.resets) {readBuf : RingBuffer}
    (hPop : s.serial.readBuf.pop amt = some readBuf) (hBuf : u.readBuf = readBuf) :
    (s.afterConsume u amt).ReadInv := by
  subst hBuf
  obtain ⟨hFront, hShown⟩ := hI.fresh hFresh
  obtain ⟨hSplit, hDrop⟩ := hI.pop_fresh hAmt hFresh hPop
  -- the bytes move from the contents to those obtained
  have hNow : s.received s.resets = s.obtained s.shownAt ++
      s.serial.readBuf.read ⟨s.slice.off, amt⟩ ++ u.readBuf.contents := by
    rw [hI.stored, hSplit, hFresh, List.append_assoc]
  constructor
  case wf => exact hI.wf.pop hPop
  case obtained =>
    refine (Function.forall_update_iff s.obtained fun e got => got <+: s.received e).mpr
      ⟨?_, fun e _ => hI.obtained e⟩
    exact ⟨u.readBuf.contents, hFresh ▸ hNow.symm⟩
  case stored =>
    show s.received s.resets = Function.update s.obtained s.shownAt _ s.resets ++ _
    rw [← hFresh, Function.update_self, hFresh]
    exact hFresh ▸ hNow
  case ahead => exact hI.ahead
  case shownAt_le => exact hI.shownAt_le
  case fresh =>
    intro _
    refine ⟨hFront.pop hI.wf hAmt hPop, ?_⟩
    show s.shown.drop amt = u.readBuf.contents.take (s.slice.len - amt)
    rw [hShown, hDrop, List.drop_take]

/-- No byte is consumed, whatever the slice is from. -/
theorem ReadInv.consume_zero (hI : s.ReadInv) (hBuf : u.readBuf = s.serial.readBuf) :
    (s.afterConsume u 0).ReadInv := by
  have hNone : s.obtained s.shownAt ++ s.serial.readBuf.read ⟨s.slice.off, 0⟩ =
      s.obtained s.shownAt := by
    rw [RingBuffer.read, List.take_zero, List.append_nil]
  have hSame : s.afterConsume u 0 = { s with serial := u } := by
    unfold afterConsume
    rw [hNone, Function.update_eq_self]
    rfl
  rw [hSame]
  exact hI.frame hBuf

theorem ReadInv.consume [DecidableEq Task] {amt : Nat} (hI : s.ReadInv)
    (hOk : s.Careful (.consume amt)) (hs : s.step (.consume amt) = some s') : s'.ReadInv := by
  obtain ⟨u, hConsume, hs⟩ := Option.bind_eq_some_iff.mp hs
  obtain ⟨readBuf, hPop, rfl⟩ := UsbSerial.consume_eq hConsume
  cases hs
  obtain ⟨hAmt, hFresh | rfl⟩ := hOk
  · exact hI.consume_fresh hAmt hFresh hPop rfl
  · cases hPop
    exact hI.consume_zero rfl

/-- Nothing is received from another endpoint, or without a packet. -/
theorem packetBytes_eq_nil (s : Session Task) {addr : Nat} {result : Except UsbError (List UInt8)}
    (h : addr = s.serial.readEpAddress → result = .error .wouldBlock ∨ result = .ok []) :
    s.packetBytes addr result = [] := by
  rcases result with (_ | _) | packet
  · rfl
  · rfl
  · show (if addr = s.serial.readEpAddress then packet else []) = []
    split
    · rcases h ‹_› with h | h <;> cases h
      rfl
    · rfl

theorem received_same {addr : Nat} {result : Except UsbError (List UInt8)}
    (h : s.packetBytes addr result = []) : Function.update s.received s.resets
      (s.received s.resets ++ s.packetBytes addr result) = s.received := by
  rw [h, List.append_nil, Function.update_eq_self]

/-- A packet that is received goes behind the contents, and leaves the slice in front. -/
theorem ReadInv.endpointOut [DecidableEq Task] {addr : Nat}
    {result : Except UsbError (List UInt8)} (hI : s.ReadInv)
    (hs : s.step (.endpointOut addr result) = some s') : s'.ReadInv := by
  obtain ⟨u, hOut, hs⟩ := Option.bind_eq_some_iff.mp hs
  cases hs
  rcases UsbSerial.endpointOut_cases hOut with
    ⟨-, rfl, rfl⟩ | ⟨packet, buf, readBuf, hAddr, rfl, -, hBuf, hFits, hPush, rfl⟩ | ⟨hSame, rfl⟩
  · rw [received_same rfl]
    exact hI.frame rfl
  · -- a packet is stored behind what is there
    have hAppended := appended_of_push hI.wf hBuf hFits hPush
    have hContents := hAppended.contents
    have hBytes : s.packetBytes addr (.ok packet) = packet := if_pos hAddr
    rw [hBytes]
    constructor
    case wf => exact hAppended.wf
    case obtained =>
      exact (Function.forall_update_iff s.received fun e all => s.obtained e <+: all).mpr
        ⟨(hI.obtained _).trans (List.prefix_append _ _), fun e _ => hI.obtained e⟩
    case stored =>
      show Function.update s.received s.resets _ s.resets = _ ++ readBuf.contents
      rw [Function.update_self, hI.stored, hContents, List.append_assoc]
    case ahead =>
      intro e he
      exact (Function.update_of_ne (Nat.ne_of_gt he) _ _).trans (hI.ahead e he)
    case shownAt_le => exact hI.shownAt_le
    -- the bytes shown are still the first, as the packet goes behind them
    case fresh =>
      intro hFresh
      obtain ⟨hFront, hShown⟩ := hI.fresh hFresh
      refine ⟨hAppended.front _ hFront, ?_⟩
      show s.shown = readBuf.contents.take s.slice.len
      have hLe := hFront.len_le hI.wf
      rw [← length_contents] at hLe
      rw [hContents, List.take_append_of_le_length hLe, hShown]
  · rw [received_same (s.packetBytes_eq_nil hSame)]
    exact hI.frame rfl

/-- After a reset nothing is received yet, and what was obtained before it stays. -/
theorem ReadInv.reset [DecidableEq Task] (hI : s.ReadInv) (hs : s.step .reset = some s') :
    s'.ReadInv := by
  cases hs
  have hNew : s.received (s.resets + 1) = [] := hI.ahead _ (Nat.lt_succ_self _)
  constructor
  case wf => exact .clear _
  case obtained => exact hI.obtained
  case stored =>
    have hNone : s.obtained (s.resets + 1) = [] :=
      List.prefix_nil.mp (hNew ▸ hI.obtained (s.resets + 1))
    show s.received (s.resets + 1) = s.obtained (s.resets + 1) ++ []
    rw [hNew, hNone, List.append_nil]
  case ahead => exact fun e he => hI.ahead e (Nat.lt_of_succ_lt he)
  case shownAt_le => exact Nat.le_succ_of_le hI.shownAt_le
  case fresh =>
    -- no slice was returned after this reset
    intro hFresh
    have hLe := hI.shownAt_le
    change s.shownAt = s.resets + 1 at hFresh
    omega

theorem readInv_step [DecidableEq Task] {a : SerialAction Task} (hI : s.ReadInv)
    (hOk : s.Careful a) (hs : s.step a = some s') : s'.ReadInv := by
  cases a with
  | pollFillBuf w => exact hI.pollFillBuf hs
  | consume amt => exact hI.consume hOk hs
  | endpointOut addr result => exact hI.endpointOut hs
  | reset => exact hI.reset hs
  | pollWrite w buf result =>
    obtain ⟨⟨u, p⟩, hWrite, hs⟩ := Option.bind_eq_some_iff.mp hs
    cases hs
    exact hI.frame (UsbSerial.pollWrite_frame hWrite).1
  | endpointInComplete addr result =>
    obtain ⟨⟨u, p⟩, hComplete, hs⟩ := Option.bind_eq_some_iff.mp hs
    cases hs
    exact hI.frame (UsbSerial.endpointInComplete_frame hComplete).1

theorem ReadInv.intact (hI : s.ReadInv) : s.ReadIntact := by
  refine ⟨hI.obtained, hI.stored, fun hFresh => ?_⟩
  obtain ⟨hFront, hShown⟩ := hI.fresh hFresh
  rw [hShown]
  exact ⟨hFront.read hI.wf (Nat.le_refl _), List.take_prefix _ _⟩

/-- A slice of two bytes is consumed after a reset: the buffer then holds two bytes
that were never received. -/
theorem read_not_intact : ¬∀ s : Session Nat,
    Run step Contract (new 1 2 [0, 0, 0, 0] []) s → s.ReadIntact := by
  intro hAll
  obtain ⟨s, hRun, hReceived, hContents⟩ : ∃ s : Session Nat,
      Run step Contract (new 1 2 [0, 0, 0, 0] []) s ∧ s.received s.resets = [] ∧
        s.serial.readBuf.contents ≠ [] := by
    have hRun : Run step Contract (new 1 2 [0, 0, 0, 0] [] : Session Nat) _ :=
      Run.execOk_get _ [.endpointOut 1 (.ok [5, 6]), .pollFillBuf 7, .reset, .consume 2]
        (by decide +kernel)
    exact ⟨_, hRun, by decide +kernel, by decide +kernel⟩
  have hStored := (hAll s hRun).stored
  rw [hReceived] at hStored
  exact hContents (List.append_eq_nil_iff.mp hStored.symm).2

/--
**Bytes read were received since the last reset, in order and once.** Whatever the
packets and the order of the calls, as long as nothing is consumed of a slice from
before a reset.
-/
theorem read_integrity [DecidableEq Task] {readEp writeEp : Nat} {readBuf writeBuf : List UInt8}
    (hRun : Run step Careful (new readEp writeEp readBuf writeBuf) s) : s.ReadIntact :=
  (hRun.invariant (I := ReadInv) (readInv_new readEp writeEp readBuf writeBuf)
    fun _ _ _ hI hOk hs => readInv_step hI hOk hs).intact

/-- A byte is consumed before a reset and no more of that slice after it; the next packet
overwrites the slice, and is read through one of its own. -/
theorem read_integrity_reset : ∃ s : Session Nat,
    Run step Careful (new 1 2 [0, 0, 0] []) s ∧ s.obtained 0 = [5] ∧ s.obtained 1 = [7] ∧
      s.serial.readBuf.contents = [8, 9] ∧ s.ReadIntact := by
  have hRun : Run step Careful (new 1 2 [0, 0, 0] [] : Session Nat) _ :=
    Run.execOk_get _ [.endpointOut 1 (.ok [5, 6]), .pollFillBuf 3, .consume 1, .reset,
      .consume 0, .endpointOut 1 (.ok [7, 8, 9]), .pollFillBuf 3, .consume 1] (by decide +kernel)
  exact ⟨_, hRun, by decide +kernel, by decide +kernel, by decide +kernel, read_integrity hRun⟩

end Session

end Embassy.Extras
