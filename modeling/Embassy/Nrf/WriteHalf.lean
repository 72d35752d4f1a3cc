import Embassy.Io.Forward
import Embassy.Nrf.Progress

/-!
# The half of a split port that writes

`WriteHalf` of `embassy/src/io/util/split.rs`, of a `BufferedUarte`, with a schedule as the
half that reads has one. A round of service puts one byte on the wire at most, so the
writer may have to wait for many of them.

Main results:

* `WriteHalf` is a `ByteSink`.
* `reliable` — it does not fail.
* `takes`, `exists_serve` — if its buffer is not empty and fits into MAXCNT it does not wait
  forever, and what it accepted is sent.
-/

namespace Embassy.Nrf

open Lib Extras Extras.RingBuffer Util Io

variable {Task : Type}

def Action.writes : Action Task → Bool
  | .pollWrite _ _ => true
  | _ => false

-- ---------------------------------------------------------------------------
-- What the sender does
-- ---------------------------------------------------------------------------

namespace Sender

variable {chip : Chip} {size : Nat} {t t' : Sender Task}

/-- What `poll_write` returns. -/
def written (t : Sender Task) (buf : List UInt8) : Poll (Except Io.Error Nat) :=
  match t.tx.pushBuf with
  | some txBuf => if txBuf.len = 0 then .pending else .ready (.ok (min txBuf.len buf.length))
  | none => .pending

/-- The handler accepts no bytes: `poll_write` does. -/
theorem onInterrupt_accepted (h : t.onInterrupt chip = some t') : t'.accepted = t.accepted := by
  have hIdle : ∀ m : Sender Task, m.onIdle chip = some t' → t'.accepted = m.accepted := by
    intro m h
    obtain ⟨buf, -, ⟨-, rfl⟩ | ⟨-, rfl⟩⟩ := onIdle_eq h <;> rfl
  rcases onInterrupt_cases h with ⟨-, h⟩ | ⟨n, m, -, -, hm, h⟩ | ⟨n, -, -, rfl⟩
  · exact hIdle t h
  · have hSame : m.accepted = t.accepted := by
      obtain ⟨tx, -, rfl⟩ := onEndtx_eq hm
      rfl
    exact (hIdle m h).trans hSame
  · rfl

/-- As many bytes are accepted as are reported. -/
theorem pollWrite_written [DecidableEq Task] (hB : t.tx.WF) (w : Task) (buf : List UInt8) :
    ∃ t' ready, t.pollWrite w buf = some (t', ready) ∧
      ((t.written buf = .pending ∧ ready = false ∧ t'.accepted = t.accepted ∧ t'.tx = t.tx ∧
          t'.txd = t.txd ∧ t'.txState = t.txState ∧ t.tx.contents.length = t.tx.capacity) ∨
        ∃ n, t.written buf = .ready (.ok n) ∧ n ≤ buf.length ∧ (buf ≠ [] → n ≠ 0) ∧
          t'.accepted = t.accepted ++ buf.take n) := by
  obtain ⟨txBuf, hBuf⟩ := hB.pushBuf_some
  obtain ⟨-, -, hFull, -⟩ := pushBuf_spec hB hBuf
  unfold written pollWrite
  simp only [hBuf, Option.bind_eq_bind, Option.bind_some]
  -- no room in the ring: the call waits and writes nothing
  by_cases hZero : txBuf.len = 0
  · simp only [hZero, if_true]
    exact ⟨_, _, rfl, .inl ⟨trivial, rfl, rfl, rfl, rfl, rfl,
      (length_contents _).trans (hFull.mp hZero)⟩⟩
  · have hLen : (buf.take (min txBuf.len buf.length)).length = min txBuf.len buf.length :=
      List.length_take_of_le (Nat.min_le_right ..)
    have hFits : (buf.take (min txBuf.len buf.length)).length ≤ txBuf.len := by
      rw [hLen]
      exact Nat.min_le_left ..
    obtain ⟨tx, hPush, -⟩ := push_copy hB hBuf hFits
    rw [hLen] at hPush
    simp only [hZero, if_false, hPush, Option.bind_some]
    refine ⟨_, _, rfl, .inr ⟨_, rfl, Nat.min_le_right .., fun hNe => ?_, rfl⟩⟩
    have hPos := List.length_pos_iff.mpr hNe
    omega

/-- A sender that only waits for the DMA to send what it is to send. -/
structure Settled (t : Sender Task) : Prop where
  endtx : t.txd.endtx = false
  busy : ¬t.Stalled

/-- The bytes that are to be read by the DMA, and those that it has read, to be sent. -/
def work (t : Sender Task) : Nat := 2 * (t.txd.maxcnt - t.txd.done) + t.txd.fifo.length

/-- The handler does nothing while a transfer is under way. -/
theorem onInterrupt_settled {n : Nat} (hState : t.txState = .transmitting n)
    (hEnd : t.txd.endtx = false) (h : t.onInterrupt chip = some t') : t' = t := by
  rcases onInterrupt_cases h with ⟨hIdle, -⟩ | ⟨-, -, -, hEnd', -⟩ | ⟨-, -, -, rfl⟩
  · cases hState.symm.trans hIdle
  · cases hEnd.symm.trans hEnd'
  · rfl

/-- At its end the handler makes room. -/
theorem onInterrupt_room {n : Nat} (hI : t.Inv size) (hState : t.txState = .transmitting n)
    (hEnd : t.txd.endtx = true) (h : t.onInterrupt chip = some t') :
    t'.tx.contents.length < t.tx.contents.length := by
  have hT := hI.transmitting n hState
  rcases onInterrupt_cases h with ⟨hIdle, -⟩ | ⟨k, m, hState', -, hm, hIdle⟩ | ⟨-, -, hEnd', -⟩
  · cases hState.symm.trans hIdle
  · cases hState.symm.trans hState'
    obtain ⟨tx, hPop, rfl⟩ := onEndtx_eq hm
    obtain ⟨tx', hPop', hContents⟩ := hT.stored.pop_contents hI.wf (Nat.le_refl n)
    cases hPop.symm.trans hPop'
    have hTx : t'.tx = tx := by
      obtain ⟨buf, -, ⟨-, rfl⟩ | ⟨-, rfl⟩⟩ := onIdle_eq hIdle <;> rfl
    have hPos := hT.positive
    have hMany := hT.le_len hI.wf
    rw [hTx, hContents, List.length_drop]
    omega
  · cases hEnd.symm.trans hEnd'

/-- The transfer of `n` bytes has not ended. -/
structure Underway (n : Nat) (t : Sender Task) : Prop where
  state : t.txState = .transmitting n
  endtx : t.txd.endtx = false
  running : t.txd.running = true

/-- After the handler there is nothing to send, or a transfer of it is under way. -/
theorem Settled.cases (h : t.Settled) (hI : t.Inv size) :
    (t.txState = .idle ∧ t.tx.contents = []) ∨ ∃ n, t.Underway n := by
  cases hState : t.txState with
  | idle => exact .inl ⟨rfl, by_contra fun hSome => h.busy ⟨hState, hSome⟩⟩
  | transmitting n =>
    refine .inr ⟨n, hState, h.endtx, ?_⟩
    rw [(hI.transmitting n hState).running, h.endtx]
    rfl

end Sender

namespace BufferedUarte

variable [DecidableEq Task] {chip : Chip} {rxSize txSize n : Nat} {s : BufferedUarte Task}

/-- The DMA reads one byte more, unless it has read all. -/
theorem attempt_txRead (hUnder : s.sender.Underway n) :
    (s.attempt .txRead).sender.Underway n ∧ (s.attempt .txRead).sender.tx = s.sender.tx ∧
      ((s.attempt .txRead).sender.work < s.sender.work ∨
        s.attempt .txRead = s ∧ s.sender.txd.maxcnt ≤ s.sender.txd.done) := by
  rcases attempt_cases s .txRead with ⟨hNone, hEq⟩ | ⟨s', hs, hEq⟩
  · rw [hEq]
    refine ⟨hUnder, rfl, .inr ⟨rfl, Nat.le_of_not_lt fun hLess => ?_⟩⟩
    simp [step, Sender.dmaRead, hUnder.running, hLess] at hNone
  · rw [hEq]
    obtain ⟨-, hT, -⟩ := step_effect hs
    obtain ⟨⟨-, hLess⟩, hT'⟩ := Sender.dmaRead_eq hT
    rw [hT']
    refine ⟨⟨hUnder.state, hUnder.endtx, hUnder.running⟩, rfl, .inl ?_⟩
    simp only [Sender.work, List.length_append, List.length_singleton]
    omega

/-- A byte leaves the FIFO, unless it is empty. -/
theorem attempt_txSend (hUnder : s.sender.Underway n) :
    (s.attempt .txSend).sender.Underway n ∧ (s.attempt .txSend).sender.tx = s.sender.tx ∧
      ((s.attempt .txSend).sender.work < s.sender.work ∨
        s.attempt .txSend = s ∧ s.sender.txd.fifo = []) := by
  rcases attempt_cases s .txSend with ⟨hNone, hEq⟩ | ⟨s', hs, hEq⟩
  · rw [hEq]
    refine ⟨hUnder, rfl, .inr ⟨rfl, ?_⟩⟩
    cases hFifo : s.sender.txd.fifo with
    | nil => rfl
    | cons x xs => simp [step, Sender.dmaSend, hFifo] at hNone
  · rw [hEq]
    obtain ⟨-, hT, -⟩ := step_effect hs
    obtain ⟨x, xs, hFifo, hT'⟩ := Sender.dmaSend_eq hT
    rw [hT']
    refine ⟨⟨hUnder.state, hUnder.endtx, hUnder.running⟩, rfl, .inl ?_⟩
    simp only [Sender.work, hFifo, List.length_cons]
    omega

/-- Before the end of a transfer the handler does nothing to it. -/
theorem attempt_interrupt (hUnder : s.sender.Underway n) :
    (s.attempt .interrupt).sender = s.sender := by
  rcases attempt_cases s .interrupt with ⟨-, hEq⟩ | ⟨s', hs, hEq⟩
  · rw [hEq]
  · rw [hEq]
    obtain ⟨-, -, hT⟩ := step_effect hs
    exact Sender.onInterrupt_settled hUnder.state hUnder.endtx hT

/-- A transfer that is done ends, and makes room. -/
theorem room_of_done (hS : s.Sound chip rxSize txSize) (hFits : txSize < 2 ^ chip.maxcntBits)
    (hSetup : s.irqSetupDone = true) (hUnder : s.sender.Underway n)
    (hDone : s.sender.txd.done = s.sender.txd.maxcnt) (hFifo : s.sender.txd.fifo = []) :
    ((s.attempt .txEnd).attempt .interrupt).sender.tx.contents.length <
      s.sender.tx.contents.length := by
  obtain ⟨u, hu⟩ : ∃ u, s.step .txEnd = some u := by
    simp [step, Sender.dmaEnd, hUnder.running, hDone, hFifo]
  have hEq : s.attempt .txEnd = u := by
    rw [attempt, hu]
    rfl
  obtain ⟨-, hT, -, hPending⟩ := step_effect hu
  obtain ⟨-, hT'⟩ := Sender.dmaEnd_eq hT
  have hSound := hS.step (a := .txEnd) trivial hu
  obtain ⟨v, hv⟩ := interrupt_some hSound (setup_step hSetup hu) hPending
  obtain ⟨-, -, hEnd⟩ := step_effect hv
  have hTx : s.sender.tx = u.sender.tx := by rw [hT']
  rw [hEq, attempt, hv, hTx]
  refine Sender.onInterrupt_room (hSound.sender hFits) (n := n) ?_ ?_ hEnd
  · rw [hT']
    exact hUnder.state
  · rw [hT']

/-- A round of the handler and the DMA. -/
def round (s : BufferedUarte Task) : BufferedUarte Task :=
  ((((s.attempt .interrupt).attempt .txRead).attempt .txSend).attempt .txEnd).attempt .interrupt

/-- A round of the DMA and the handler sends something of the transfer, or ends it. -/
theorem round_progress (hS : s.Sound chip rxSize txSize) (hFits : txSize < 2 ^ chip.maxcntBits)
    (hSetup : s.irqSetupDone = true) (hUnder : s.sender.Underway n) :
    s.round.sender.tx.contents.length < s.sender.tx.contents.length ∨
      s.round.sender.tx.contents.length = s.sender.tx.contents.length ∧
        s.round.sender.work < s.sender.work := by
  have hSame := attempt_interrupt hUnder
  have hS₁ := hS.attempt (a := .interrupt) trivial
  have hSetup₁ := setup_attempt (a := .interrupt) hSetup
  have hUnder₁ : (s.attempt .interrupt).sender.Underway n := hSame ▸ hUnder
  obtain ⟨hUnder₂, hTx₂, hRead⟩ := attempt_txRead hUnder₁
  have hS₂ := hS₁.attempt (a := .txRead) trivial
  have hSetup₂ := setup_attempt (a := .txRead) hSetup₁
  obtain ⟨hUnder₃, hTx₃, hSend⟩ := attempt_txSend hUnder₂
  have hS₃ := hS₂.attempt (a := .txSend) trivial
  have hSetup₃ := setup_attempt (a := .txSend) hSetup₂
  have hTx := (hTx₃.trans hTx₂).trans (congrArg Sender.tx hSame)
  unfold round
  generalize (((s.attempt .interrupt).attempt .txRead).attempt .txSend) = u at *
  by_cases hEnds : u.sender.txd.done = u.sender.txd.maxcnt ∧ u.sender.txd.fifo = []
  · left
    rw [← hTx]
    exact room_of_done hS₃ hFits hSetup₃ hUnder₃ hEnds.1 hEnds.2
  · right
    have hSkip : u.attempt .txEnd = u := by
      simp [attempt, step, Sender.dmaEnd, hEnds]
    rw [hSkip, attempt_interrupt hUnder₃, hTx, ← hSame]
    refine ⟨rfl, ?_⟩
    -- neither read nor sent means done
    rcases hRead with hLess | ⟨hReadEq, hAll⟩
    · rcases hSend with hLess' | ⟨hSendEq, -⟩
      · exact Nat.lt_trans hLess' hLess
      · rw [hSendEq]
        exact hLess
    · rcases hSend with hLess' | ⟨hSendEq, hNil⟩
      · rwa [hReadEq] at hLess'
      · refine absurd ⟨?_, ?_⟩ hEnds
        · rw [hSendEq, hReadEq]
          have hT := (hS₁.sender hFits).transmitting n hUnder₁.state
          have := hT.done_le
          have := hT.maxcnt
          omega
        · rw [hSendEq, hNil]

/-- After a round the sender waits for the DMA only. -/
theorem settled_round (hS : s.Sound chip rxSize txSize) (hSetup : s.irqSetupDone = true) :
    s.round.sender.Settled := by
  have hS' := (((hS.attempt (a := .interrupt) trivial).attempt (a := .txRead)
    trivial).attempt (a := .txSend) trivial).attempt (a := .txEnd) trivial
  have hSetup' := setup_attempt (a := .txEnd) (setup_attempt (a := .txSend) (setup_attempt
    (a := .txRead) (setup_attempt (a := .interrupt) hSetup)))
  obtain ⟨hEnd, hBusy⟩ := interrupt_sender hS' hSetup'
  exact ⟨hEnd, hBusy⟩

end BufferedUarte

-- ---------------------------------------------------------------------------
-- The half
-- ---------------------------------------------------------------------------

structure WriteHalf (Task : Type) [DecidableEq Task] (chip : Chip) (rxSize txSize : Nat) where
  handle : BufferedUarte Task
  sound : handle.Sound chip rxSize txSize
  task : Task
  /-- What happens up to each call. -/
  schedule : List (List (Action Task))

namespace WriteHalf

variable [DecidableEq Task] {chip : Chip} {rxSize txSize : Nat}

/-- The half of a new driver. -/
def new (chip : Chip) (rxBuffer txBuffer : List UInt8) (task : Task)
    (schedule : List (List (Action Task))) :
    WriteHalf Task chip rxBuffer.length txBuffer.length where
  handle := .new chip rxBuffer txBuffer
  sound := BufferedUarte.sound_new chip rxBuffer txBuffer
  task := task
  schedule := schedule

def act (h : WriteHalf Task chip rxSize txSize) (a : Action Task) (hOk : h.handle.Contract a) :
    WriteHalf Task chip rxSize txSize :=
  { h with handle := h.handle.attempt a, sound := h.sound.attempt hOk }

/-- Only this half writes, and the other keeps to the contract of `consume`. -/
def elsewhere (h : WriteHalf Task chip rxSize txSize) (a : Action Task) :
    WriteHalf Task chip rxSize txSize :=
  if ha : a.writes = false ∧ h.handle.Contract a then h.act a ha.2 else h

def run (h : WriteHalf Task chip rxSize txSize) (as : List (Action Task)) :
    WriteHalf Task chip rxSize txSize :=
  as.foldl elsewhere h

/-- A round of the handler and the DMA. -/
def served : List (Action Task) := [.interrupt, .txRead, .txSend, .txEnd, .interrupt]

def elapse (h : WriteHalf Task chip rxSize txSize) : WriteHalf Task chip rxSize txSize :=
  match h.schedule with
  | [] => h.run served
  | now :: later => { h with schedule := later }.run now

/-- `register_interrupt`, and what happens up to the call. -/
def enter (h : WriteHalf Task chip rxSize txSize) : WriteHalf Task chip rxSize txSize :=
  (h.act .register trivial).elapse

/-- The call of the driver in `poll_write`. -/
def write (h : WriteHalf Task chip rxSize txSize) (buf : List UInt8) :
    WriteHalf Task chip rxSize txSize :=
  h.enter.act (.pollWrite h.task buf) trivial

instance : AsyncWrite (WriteHalf Task chip rxSize txSize) where
  pollWrite h buf := (h.write buf, h.enter.handle.sender.written buf)

variable {h h' : WriteHalf Task chip rxSize txSize}

/-- Only the writer changes what was accepted. -/
theorem act_keeps {a : Action Task} (ha : a.writes = false) (hOk : h.handle.Contract a) :
    (h.act a hOk).handle.sender.accepted = h.handle.sender.accepted := by
  show (BufferedUarte.attempt _ _).sender.accepted = _
  rcases BufferedUarte.attempt_cases h.handle a with ⟨-, hEq⟩ | ⟨s, hs, hEq⟩
  · rw [hEq]
  · rw [hEq]
    obtain ⟨-, hEffect⟩ := BufferedUarte.step_effect hs
    cases a with
    | pollWrite => cases ha
    | register | pend | pollFillBuf | consume | rxByte | rxEnd => rw [hEffect.2.1]
    | interrupt => exact Sender.onInterrupt_accepted hEffect.2
    | txRead =>
      obtain ⟨-, hT⟩ := Sender.dmaRead_eq hEffect.1
      rw [hT]
    | txSend =>
      obtain ⟨x, xs, -, hT⟩ := Sender.dmaSend_eq hEffect.1
      rw [hT]
    | txEnd =>
      obtain ⟨-, hT⟩ := Sender.dmaEnd_eq hEffect.1
      rw [hT]

/-- Nothing is accepted elsewhere. -/
theorem run_keeps (h : WriteHalf Task chip rxSize txSize) (as : List (Action Task)) :
    (h.run as).handle.sender.accepted = h.handle.sender.accepted ∧
      (h.run as).schedule = h.schedule ∧
      (h.handle.irqSetupDone = true → (h.run as).handle.irqSetupDone = true) := by
  induction as generalizing h with
  | nil => exact ⟨rfl, rfl, id⟩
  | cons a as ih =>
    obtain ⟨hAccepted, hSchedule, hSetup⟩ := ih (h.elsewhere a)
    have hFirst : (h.elsewhere a).handle.sender.accepted = h.handle.sender.accepted ∧
        (h.elsewhere a).schedule = h.schedule ∧
        (h.handle.irqSetupDone = true → (h.elsewhere a).handle.irqSetupDone = true) := by
      unfold elsewhere
      split
      · rename_i ha
        exact ⟨act_keeps ha.1 ha.2, rfl, BufferedUarte.setup_attempt⟩
      · exact ⟨rfl, rfl, id⟩
    exact ⟨hAccepted.trans hFirst.1, hSchedule.trans hFirst.2.1,
      fun h => hSetup (hFirst.2.2 h)⟩

/-- The entries of the schedule before a call accept nothing. -/
theorem elapse_keeps (h : WriteHalf Task chip rxSize txSize) :
    h.elapse.handle.sender.accepted = h.handle.sender.accepted ∧
      h.elapse.schedule = h.schedule.tail ∧
      (h.handle.irqSetupDone = true → h.elapse.handle.irqSetupDone = true) := by
  unfold elapse
  split
  · rename_i hNil
    obtain ⟨hAccepted, hSchedule, hSetup⟩ := run_keeps h served
    rw [hNil]
    exact ⟨hAccepted, hSchedule.trans hNil, hSetup⟩
  · rename_i now later hCons
    rw [hCons]
    exact run_keeps { h with schedule := later } now

theorem enter_keeps (h : WriteHalf Task chip rxSize txSize) :
    h.enter.handle.sender.accepted = h.handle.sender.accepted ∧
      h.enter.schedule = h.schedule.tail ∧ h.enter.handle.irqSetupDone = true := by
  obtain ⟨hAccepted, hSchedule, hSetup⟩ := elapse_keeps (h.act .register trivial)
  exact ⟨hAccepted.trans (act_keeps (h := h) (a := .register) rfl trivial), hSchedule, hSetup rfl⟩

/-- What `poll_write` does with the driver, and what it returns. -/
theorem write_cases (h : WriteHalf Task chip rxSize txSize) (buf : List UInt8) :
    (h.write buf).schedule = h.schedule.tail ∧
    ((h.enter.handle.sender.written buf = .pending ∧
        (h.write buf).handle.sender.accepted = h.handle.sender.accepted ∧
        (h.write buf).handle.sender.tx = h.enter.handle.sender.tx ∧
        (h.write buf).handle.sender.txd = h.enter.handle.sender.txd ∧
        (h.write buf).handle.sender.txState = h.enter.handle.sender.txState ∧
        h.enter.handle.sender.tx.contents.length = h.enter.handle.sender.tx.capacity) ∨
      ∃ n, h.enter.handle.sender.written buf = .ready (.ok n) ∧ n ≤ buf.length ∧
        (buf ≠ [] → n ≠ 0) ∧
        (h.write buf).handle.sender.accepted = h.handle.sender.accepted ++ buf.take n) := by
  obtain ⟨hSame, hSchedule, hSetup⟩ := enter_keeps h
  obtain ⟨t, ready, hWrite, hCases⟩ :=
    Sender.pollWrite_written h.enter.sound.awake.wf h.task buf
  -- the call always returns, so the default of the model is never taken
  have hStep : h.enter.handle.step (.pollWrite h.task buf) =
      some { h.enter.handle with
        sender := t
        pending := h.enter.handle.pending || ready } := by
    rw [BufferedUarte.step, if_pos hSetup, hWrite]
    rfl
  have hHandle : (h.write buf).handle = _ := congrArg (Option.getD · _) hStep
  rw [hHandle, ← hSame]
  refine ⟨hSchedule, ?_⟩
  rcases hCases with ⟨hPending, -, hAccepted, hTx, hTxd, hState, hFull⟩ | hReady
  · exact .inl ⟨hPending, hAccepted, hTx, hTxd, hState, hFull⟩
  · exact .inr hReady

instance : ByteSink (WriteHalf Task chip rxSize txSize) where
  accepted h := h.handle.sender.accepted
  write := by
    intro h buf n hReady
    have hWritten : h.enter.handle.sender.written buf = .ready (.ok n) := hReady
    obtain ⟨-, ⟨hPending, -⟩ | ⟨m, hSome, hLe, -, hAccepted⟩⟩ := write_cases h buf
    · cases hPending.symm.trans hWritten
    · cases hSome.symm.trans hWritten
      exact ⟨hLe, hAccepted⟩
  refuse := by
    intro h buf hNot
    obtain ⟨-, ⟨-, hAccepted, -⟩ | ⟨m, hSome, -⟩⟩ := write_cases h buf
    · exact hAccepted
    · exact absurd hSome (hNot m)

/-- A write half returns no error. -/
theorem reliable : Reliable (WriteHalf Task chip rxSize txSize) := by
  intro h h' buf p hWrite
  have hWritten : h.enter.handle.sender.written buf = .ready p := congrArg Prod.snd hWrite
  obtain ⟨-, ⟨hPending, -⟩ | ⟨n, hSome, -, hPos, -⟩⟩ := write_cases h buf
  · cases hPending.symm.trans hWritten
  · cases hSome.symm.trans hWritten
    exact ⟨n, rfl, hPos⟩

-- ---------------------------------------------------------------------------
-- Writers do not wait forever
-- ---------------------------------------------------------------------------

/-- Between calls that find no room: nothing more is scheduled, and the sender waits for the
DMA only. -/
structure Waiting (h : WriteHalf Task chip rxSize txSize) : Prop where
  schedule : h.schedule = []
  settled : h.handle.sender.Settled
  full : h.handle.sender.tx.contents.length = h.handle.sender.tx.capacity

/-- A sender without room that is settled has a transfer under way. -/
theorem Waiting.underway (hW : Waiting h) (hTx : 0 < txSize)
    (hFits : txSize < 2 ^ chip.maxcntBits) : ∃ n, h.handle.sender.Underway n := by
  have hI := h.sound.sender hFits
  rcases hW.settled.cases hI with ⟨-, hNil⟩ | hUnder
  · have hFull := hW.full
    rw [hNil, List.length_nil, hI.capacity] at hFull
    omega
  · exact hUnder

/-- A call that returns `Pending` found no room, and left the sender as it was. -/
theorem blocked (hBlocks : Blocks h' h) : h'.schedule = h.schedule.tail ∧
    h.enter.handle.sender.tx.contents.length = h.enter.handle.sender.tx.capacity ∧
    h'.handle.sender.tx = h.enter.handle.sender.tx ∧
    h'.handle.sender.txd = h.enter.handle.sender.txd ∧
    h'.handle.sender.txState = h.enter.handle.sender.txState := by
  obtain ⟨buf, hWrite⟩ := hBlocks
  have hWritten : h.enter.handle.sender.written buf = .pending := congrArg Prod.snd hWrite
  have hEq : h' = h.write buf := (congrArg Prod.fst hWrite).symm
  obtain ⟨hSchedule, ⟨-, -, hTx, hTxd, hState, hFull⟩ | ⟨n, hSome, -⟩⟩ := write_cases h buf
  · rw [hEq]
    exact ⟨hSchedule, hFull, hTx, hTxd, hState⟩
  · cases hSome.symm.trans hWritten

/-- The entries of a round do to the driver what the round does. -/
theorem run_served (h : WriteHalf Task chip rxSize txSize) :
    (h.run served).handle = h.handle.round := by
  have hAct : ∀ (g : WriteHalf Task chip rxSize txSize) (a : Action Task), a.writes = false →
      g.handle.Contract a → (g.elsewhere a).handle = g.handle.attempt a := by
    intro g a ha hOk
    unfold elsewhere
    rw [dif_pos ⟨ha, hOk⟩]
    rfl
  show ((((((h.elsewhere .interrupt).elsewhere .txRead).elsewhere .txSend).elsewhere
    .txEnd).elsewhere .interrupt)).handle = _
  rw [hAct _ .interrupt rfl trivial, hAct _ .txEnd rfl trivial, hAct _ .txSend rfl trivial,
    hAct _ .txRead rfl trivial, hAct _ .interrupt rfl trivial]
  rfl

/-- With nothing scheduled a round of service is what elapses. -/
theorem enter_served (hNil : h.schedule = []) :
    h.enter.handle = (h.act .register trivial).handle.round := by
  unfold enter elapse
  rw [show (h.act .register trivial).schedule = [] from hNil]
  exact run_served (h.act .register trivial)

/-- A writer that waits has found the buffer full, and the schedule is over. -/
theorem waiting_of_blocks (hNil : h.schedule = []) (hBlocks : Blocks h' h) : Waiting h' := by
  obtain ⟨hSchedule, hFull, hTx, hTxd, hState⟩ := blocked hBlocks
  have hSettled := BufferedUarte.settled_round (h.act .register trivial).sound rfl
  rw [← enter_served hNil] at hSettled
  refine ⟨hSchedule.trans (by rw [hNil]; rfl), ⟨?_, ?_⟩, ?_⟩
  · rw [hTxd]
    exact hSettled.endtx
  · have hBusy := hSettled.busy
    unfold Sender.Stalled at hBusy ⊢
    rwa [hState, hTx]
  · rw [hTx]
    exact hFull

/-- Every further wait is for less. -/
theorem work_of_blocks (hTx : 0 < txSize) (hFits : txSize < 2 ^ chip.maxcntBits)
    (hW : Waiting h) (hBlocks : Blocks h' h) :
    h'.handle.sender.work < h.handle.sender.work := by
  obtain ⟨n, hUnder⟩ := hW.underway hTx hFits
  obtain ⟨-, hFull, -, hTxd, -⟩ := blocked hBlocks
  have hCapacity := (h.enter.sound.sender hFits).capacity.trans
    (h.sound.sender hFits).capacity.symm
  have hProgress := BufferedUarte.round_progress (h.act .register trivial).sound hFits rfl
    (n := n) hUnder
  rw [← enter_served hW.schedule] at hProgress
  rcases hProgress with hRoom | ⟨-, hLess⟩
  · rw [hFull, hCapacity] at hRoom
    exact absurd (hW.full ▸ hRoom) (Nat.lt_irrefl _)
  · unfold Sender.work at hLess ⊢
    rwa [hTxd]

/-- A writer that waits has less to wait for after every round. -/
theorem acc_waiting (hTx : 0 < txSize) (hFits : txSize < 2 ^ chip.maxcntBits)
    (hW : Waiting h) : Acc Blocks h := by
  induction hn : h.handle.sender.work using Nat.strong_induction_on generalizing h with
  | _ n ih =>
    refine ⟨h, fun h' hBlocks => ?_⟩
    exact ih _ (hn ▸ work_of_blocks hTx hFits hW hBlocks)
      (waiting_of_blocks hW.schedule hBlocks) rfl

/-- The writer waits for the rest of its schedule and for the transfer under way. -/
theorem takes (hTx : 0 < txSize) (hFits : txSize < 2 ^ chip.maxcntBits)
    (h : WriteHalf Task chip rxSize txSize) : Acc Blocks h := by
  induction hn : h.schedule.length generalizing h with
  | zero =>
    refine ⟨h, fun h' hBlocks => acc_waiting hTx hFits ?_⟩
    exact waiting_of_blocks (List.eq_nil_of_length_eq_zero hn) hBlocks
  | succ n ih =>
    refine ⟨h, fun h' hBlocks => ih h' ?_⟩
    obtain ⟨hSchedule, -⟩ := blocked hBlocks
    rw [hSchedule, List.length_tail, hn]
    rfl

-- ---------------------------------------------------------------------------
-- What was accepted is sent
-- ---------------------------------------------------------------------------

/-- A round of service, after a poll. -/
def serve (h : WriteHalf Task chip rxSize txSize) : WriteHalf Task chip rxSize txSize :=
  (h.act .register trivial).run served

theorem serve_keeps (h : WriteHalf Task chip rxSize txSize) :
    h.serve.handle.sender.accepted = h.handle.sender.accepted ∧
      h.serve.handle.irqSetupDone = true := by
  obtain ⟨hAccepted, -, hSetup⟩ := run_keeps (h.act .register trivial) served
  exact ⟨hAccepted.trans (act_keeps (h := h) (a := .register) rfl trivial), hSetup rfl⟩

/-- A round ends with the handler. -/
theorem settled_serve (h : WriteHalf Task chip rxSize txSize) :
    h.serve.handle.sender.Settled := by
  unfold serve
  rw [run_served]
  exact BufferedUarte.settled_round (h.act .register trivial).sound rfl

/-- Nothing is left to send in a settled sender without a transfer. -/
theorem exists_serve_of_settled (hFits : txSize < 2 ^ chip.maxcntBits)
    (hSettled : h.handle.sender.Settled) :
    ∃ n, (serve^[n] h).handle.sender.wire = h.handle.sender.accepted := by
  -- on the bytes that are stored, and then on the work that is left of the transfer
  induction hm : h.handle.sender.tx.contents.length using Nat.strong_induction_on
    generalizing h with
  | _ m ihStored =>
    induction hk : h.handle.sender.work using Nat.strong_induction_on generalizing h with
    | _ k ihWork =>
      have hI := h.sound.sender hFits
      rcases hSettled.cases hI with ⟨hIdle, hNil⟩ | ⟨n, hUnder⟩
      · refine ⟨0, ?_⟩
        obtain ⟨-, -, -, hAll⟩ := hI.idle hIdle
        rw [hNil, List.append_nil] at hAll
        exact hAll.symm
      · have hEq : h.serve.handle = (h.act .register trivial).handle.round := run_served _
        have hProgress := BufferedUarte.round_progress (h.act .register trivial).sound hFits
          rfl (n := n) hUnder
        rw [← hEq] at hProgress
        have hRest : ∃ n, (serve^[n] h.serve).handle.sender.wire =
            h.serve.handle.sender.accepted := by
          rcases hProgress with hLess | ⟨hSame, hLess⟩
          · exact ihStored _ (hm ▸ hLess) (settled_serve h) rfl
          · exact ihWork _ (hk ▸ hLess) (settled_serve h) (hSame.trans hm) rfl
        obtain ⟨j, hj⟩ := hRest
        exact ⟨j + 1, hj.trans (serve_keeps h).1⟩

/-- All that was accepted gets on the wire, if the buffer fits into MAXCNT. -/
theorem exists_serve (hFits : txSize < 2 ^ chip.maxcntBits)
    (h : WriteHalf Task chip rxSize txSize) :
    ∃ n, (serve^[n] h).handle.sender.wire = h.handle.sender.accepted := by
  obtain ⟨n, hn⟩ := exists_serve_of_settled hFits (settled_serve h)
  exact ⟨n + 1, hn.trans (serve_keeps h).1⟩

end WriteHalf

end Embassy.Nrf
