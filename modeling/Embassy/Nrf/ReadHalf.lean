import Embassy.Io.Traits
import Embassy.Nrf.Progress

/-!
# The half of a split port that reads

`ReadHalf` of `embassy/src/io/util/split.rs`, of a `BufferedUarte`. The driver is not
`Unpin`, so what is split is a pinned reference to it, and the halves call its methods
through that. The `schedule` of a half is what the rest of the system does up to the point
where each call has disabled the interrupt: the handler, the DMA, the other half. It does
so up to `consume` as up to `poll_fill_buf`, while the reader holds the slice that it was
shown. When the schedule is at its end the system is served once in every further call, so
a schedule is any delay that ends.

Main results:

* `ReadHalf` is a `ByteStream`: it shows what is in the driver and on the line.
* `read_elapse` — the slice that a reader holds stays as it was shown.
* `infallible`, `arrives` — it does not fail, and does not wait forever if its buffer is not
  empty and fits into MAXCNT.
-/

namespace Embassy.Nrf

open Stream' (Seq)
open Lib Extras Extras.RingBuffer Util Io

variable {Task : Type}

/-- What a reader does, and the arrival of a byte. -/
def Action.reads : Action Task → Bool
  | .pollFillBuf _ | .consume _ | .rxByte _ => true
  | _ => false

/-- Only the reader has a contract to keep. -/
theorem Action.contract_of_not_reads {s : BufferedUarte Task} {a : Action Task}
    (h : a.reads = false) : s.Contract a := by
  cases a with
  | consume => cases h
  | _ => trivial

/-- The half that reads. The bytes of the line wait until the DMA takes them. -/
structure ReadHalf (Task : Type) [DecidableEq Task] (chip : Chip) (rxSize txSize : Nat) where
  handle : BufferedUarte Task
  sound : handle.Sound chip rxSize txSize
  task : Task
  line : List UInt8
  /-- What happens up to each call; `none` is the arrival of the next byte. -/
  schedule : List (List (Option (Action Task)))

namespace ReadHalf

variable [DecidableEq Task] {chip : Chip} {rxSize txSize : Nat}

/-- The half of a new driver. -/
def new (chip : Chip) (rxBuffer txBuffer : List UInt8) (task : Task) (line : List UInt8)
    (schedule : List (List (Option (Action Task)))) :
    ReadHalf Task chip rxBuffer.length txBuffer.length where
  handle := .new chip rxBuffer txBuffer
  sound := BufferedUarte.sound_new chip rxBuffer txBuffer
  task := task
  line := line
  schedule := schedule

def act (h : ReadHalf Task chip rxSize txSize) (a : Action Task) (hOk : h.handle.Contract a) :
    ReadHalf Task chip rxSize txSize :=
  { h with handle := h.handle.attempt a, sound := h.sound.attempt hOk }

def elsewhere (h : ReadHalf Task chip rxSize txSize) :
    Option (Action Task) → ReadHalf Task chip rxSize txSize
  | none =>
    match h.line with
    | [] => h
    | x :: xs =>
      match hs : h.handle.step (.rxByte x) with
      | some s =>
        { h with
          handle := s
          sound := h.sound.step (a := .rxByte x) trivial hs
          line := xs }
      | none => h
  | some a =>
    if ha : a.reads = false then h.act a (Action.contract_of_not_reads ha) else h

def run (h : ReadHalf Task chip rxSize txSize) (as : List (Option (Action Task))) :
    ReadHalf Task chip rxSize txSize :=
  as.foldl elsewhere h

/-- A round of the handler and the DMA. -/
def served : List (Option (Action Task)) := [some .interrupt, none, some .rxEnd, some .interrupt]

def elapse (h : ReadHalf Task chip rxSize txSize) : ReadHalf Task chip rxSize txSize :=
  match h.schedule with
  | [] => h.run served
  | now :: later => { h with schedule := later }.run now

/-- Every call starts with `register_interrupt`. What happens before that may as well happen
after it. -/
def enter (h : ReadHalf Task chip rxSize txSize) : ReadHalf Task chip rxSize txSize :=
  (h.act .register trivial).elapse

/-- The call of the driver in `poll_fill_buf`. -/
def fill (h : ReadHalf Task chip rxSize txSize) : ReadHalf Task chip rxSize txSize :=
  h.enter.act (.pollFillBuf h.task) trivial

/-- What `poll_fill_buf` returns, of the slice that it leaves. -/
def shown (h : ReadHalf Task chip rxSize txSize) : Fill :=
  if h.handle.receiver.slice.len = 0 then .pending
  else .ready (.ok (h.handle.receiver.rx.read h.handle.receiver.slice))

instance : AsyncBufRead (ReadHalf Task chip rxSize txSize) where
  pollFillBuf h := (h.fill, h.fill.shown)
  consume h amt :=
    -- more than was shown must not be consumed
    if hOk : amt ≤ h.enter.handle.receiver.slice.len then h.enter.act (.consume amt) hOk
    else h.enter

/-- The bytes that the reader has not consumed. -/
def left (h : ReadHalf Task chip rxSize txSize) : List UInt8 :=
  h.handle.receiver.rx.contents ++ h.handle.receiver.held ++ h.line

/-- What happens elsewhere moves bytes towards the reader. -/
structure Moves (h h' : ReadHalf Task chip rxSize txSize) : Prop where
  left : h'.left = h.left
  contents : ∃ t, h'.handle.receiver.rx.contents = h.handle.receiver.rx.contents ++ t
  consumed : h'.handle.receiver.consumed = h.handle.receiver.consumed
  slice : h'.handle.receiver.slice = h.handle.receiver.slice
  schedule : h'.schedule = h.schedule
  task : h'.task = h.task
  setup : h.handle.irqSetupDone = true → h'.handle.irqSetupDone = true

variable {h h' h'' : ReadHalf Task chip rxSize txSize}

theorem Moves.refl : Moves h h := ⟨rfl, ⟨[], (List.append_nil _).symm⟩, rfl, rfl, rfl, rfl, id⟩

theorem Moves.trans (h₁ : Moves h h') (h₂ : Moves h' h'') : Moves h h'' := by
  obtain ⟨t, ht⟩ := h₁.contents
  obtain ⟨u, hu⟩ := h₂.contents
  exact ⟨h₂.left.trans h₁.left, ⟨t ++ u, by rw [hu, ht, List.append_assoc]⟩,
    h₂.consumed.trans h₁.consumed, h₂.slice.trans h₁.slice, h₂.schedule.trans h₁.schedule,
    h₂.task.trans h₁.task, fun hSetup => h₂.setup (h₁.setup hSetup)⟩

/-- What leaves the receiver and the line alone moves nothing. -/
theorem Moves.of_receiver (hHandle : h'.handle.receiver = h.handle.receiver)
    (hLine : h'.line = h.line) (hSchedule : h'.schedule = h.schedule) (hTask : h'.task = h.task)
    (hSetup : h.handle.irqSetupDone = true → h'.handle.irqSetupDone = true) : Moves h h' := by
  refine ⟨?_, ⟨[], ?_⟩, ?_, ?_, hSchedule, hTask, hSetup⟩
  · unfold ReadHalf.left
    rw [hHandle, hLine]
  · rw [hHandle, List.append_nil]
  · rw [hHandle]
  · rw [hHandle]

/-- An action of the handler, the DMA or the writer moves bytes towards the reader. -/
theorem moves_act {a : Action Task} (ha : a.reads = false) (hOk : h.handle.Contract a) :
    Moves h (h.act a hOk) := by
  have hSetup : h.handle.irqSetupDone = true → (h.act a hOk).handle.irqSetupDone = true :=
    BufferedUarte.setup_attempt
  rcases BufferedUarte.attempt_cases h.handle a with ⟨-, hEq⟩ | ⟨s, hs, hEq⟩
  · exact .of_receiver (congrArg BufferedUarte.receiver hEq) rfl rfl rfl hSetup
  obtain ⟨-, hEffect⟩ := BufferedUarte.step_effect hs
  have hHandle : (h.act a hOk).handle = s := hEq
  -- none of these actions takes a byte off the ring or the line
  cases a with
  | pollFillBuf | consume | rxByte => cases ha
  | register | pend =>
    exact .of_receiver (by rw [hHandle]; exact hEffect.1) rfl rfl rfl hSetup
  | txRead | txSend | txEnd =>
    exact .of_receiver (by rw [hHandle]; exact hEffect.2.1) rfl rfl rfl hSetup
  | pollWrite w buf =>
    obtain ⟨ready, -, hR, -⟩ := hEffect
    exact .of_receiver (by rw [hHandle]; exact hR) rfl rfl rfl hSetup
  -- the handler moves what the DMA holds into the ring
  | interrupt =>
    have hHandled := Receiver.onInterrupt_handled h.sound.awake.receiver hEffect.1
    refine ⟨?_, ?_, ?_, ?_, rfl, rfl, hSetup⟩
    · unfold ReadHalf.left
      rw [hHandle, hHandled.stored]
      rfl
    · rw [hHandle]
      exact ⟨_, hHandled.moved⟩
    · rw [hHandle]
      exact hHandled.consumed
    · rw [hHandle]
      exact hHandled.slice
  -- the transfer ends with what it has got
  | rxEnd =>
    obtain ⟨hRx, hHeld, hConsumed, hSlice, -⟩ := Receiver.dmaEnd_stored hEffect.1
    refine ⟨?_, ⟨[], ?_⟩, ?_, ?_, rfl, rfl, hSetup⟩
    · unfold ReadHalf.left
      rw [hHandle, hRx, hHeld]
      rfl
    · rw [hHandle, hRx, List.append_nil]
    · rw [hHandle]
      exact hConsumed
    · rw [hHandle]
      exact hSlice

/-- The next byte of the line arrives, if the DMA takes it. -/
theorem elsewhere_none (h : ReadHalf Task chip rxSize txSize) :
    h.elsewhere none = h ∧ (∀ x xs, h.line = x :: xs → h.handle.step (.rxByte x) = none) ∨
      ∃ x xs s, h.line = x :: xs ∧ h.handle.step (.rxByte x) = some s ∧
        (h.elsewhere none).handle = s ∧ (h.elsewhere none).line = xs ∧
        (h.elsewhere none).schedule = h.schedule ∧ (h.elsewhere none).task = h.task := by
  unfold elsewhere
  dsimp only
  split
  · rename_i hLine
    exact .inl ⟨rfl, fun x xs hCons => nomatch hLine.symm.trans hCons⟩
  · rename_i x xs hLine
    split
    · rename_i s hs
      exact .inr ⟨x, xs, s, hLine, hs, rfl, rfl, rfl, rfl⟩
    · rename_i hs
      refine .inl ⟨rfl, fun y ys hCons => ?_⟩
      cases hLine.symm.trans hCons
      exact hs

/-- The same of an entry of the schedule, which may be a byte on the line. -/
theorem moves_elsewhere (h : ReadHalf Task chip rxSize txSize) (a : Option (Action Task)) :
    Moves h (h.elsewhere a) := by
  cases a with
  | none =>
    rcases elsewhere_none h with ⟨hEq, -⟩ | ⟨x, xs, s, hLine, hs, hHandle, hLine', hRest, hTask⟩
    · rw [hEq]
      exact .refl
    · -- the hardware takes the next byte of the line
      obtain ⟨-, hR, -, -⟩ := BufferedUarte.step_effect hs
      obtain ⟨hContents, hHeld, hConsumed, hSlice⟩ :=
        Receiver.dmaByte_stored h.sound.awake.receiver hR
      refine ⟨?_, ⟨[], ?_⟩, ?_, ?_, hRest, hTask, fun hSetup => ?_⟩
      · unfold ReadHalf.left
        rw [hHandle, hLine', hLine, hContents, hHeld]
        simp only [List.append_assoc, List.singleton_append]
      · rw [hHandle, hContents, List.append_nil]
      · rw [hHandle]
        exact hConsumed
      · rw [hHandle]
        exact hSlice
      · rw [hHandle]
        exact BufferedUarte.setup_step hSetup hs
  | some a =>
    by_cases ha : a.reads = false
    · simp only [elsewhere, ha, dite_true]
      exact moves_act ha _
    · simp only [elsewhere, ha]
      exact .refl

theorem moves_run (as : List (Option (Action Task))) : Moves h (h.run as) := by
  induction as generalizing h with
  | nil => exact .refl
  | cons a as ih => exact (moves_elsewhere h a).trans ih

/-- The entries that a call finds before it. -/
theorem moves_elapse (h : ReadHalf Task chip rxSize txSize) :
    Moves { h with schedule := h.schedule.tail } h.elapse := by
  unfold elapse
  split
  · rename_i hNil
    have hSame : { h with schedule := h.schedule.tail } = h := by
      rw [hNil]
      cases h
      cases hNil
      rfl
    rw [hSame]
    exact moves_run served
  · rename_i now later hCons
    rw [hCons]
    exact moves_run now

/-- A call registers the interrupt and then finds the entries. -/
theorem moves_enter (h : ReadHalf Task chip rxSize txSize) :
    Moves { h with schedule := h.schedule.tail } h.enter :=
  (moves_act (h := { h with schedule := h.schedule.tail }) (a := .register) rfl trivial).trans
    (moves_elapse (h.act .register trivial))

/-- The interrupt is registered when a call begins. -/
theorem setup_enter (h : ReadHalf Task chip rxSize txSize) :
    h.enter.handle.irqSetupDone = true :=
  (moves_elapse (h.act .register trivial)).setup rfl

theorem left_enter (h : ReadHalf Task chip rxSize txSize) : h.enter.left = h.left :=
  (moves_enter h).left

/-- What is left after a call of `poll_fill_buf`, and what it returns. -/
structure Filled (h h' : ReadHalf Task chip rxSize txSize) : Prop where
  left : h'.left = h.left
  consumed : h'.handle.receiver.consumed = h.handle.receiver.consumed
  schedule : h'.schedule = h.schedule.tail
  contents : h'.handle.receiver.rx.contents = h.enter.handle.receiver.rx.contents
  /-- It returns `Pending` when there is nothing to show. -/
  empty : h'.handle.receiver.slice.len = 0 ↔ h'.handle.receiver.rx.contents = []

/-- What `poll_fill_buf` finds after the entries of its schedule. -/
theorem filled (h : ReadHalf Task chip rxSize txSize) : Filled h h.fill := by
  have hB := h.enter.sound.awake.receiver.wf
  -- `poll_fill_buf` always returns
  obtain ⟨buf, hBuf⟩ := hB.popBuf_some
  obtain ⟨r, hr⟩ : ∃ r, h.enter.handle.receiver.pollFillBuf h.task = some r := by
    simp only [Receiver.pollFillBuf, hBuf, Option.bind_eq_bind, Option.bind_some]
    split <;> exact ⟨_, rfl⟩
  have hStep : h.enter.handle.step (.pollFillBuf h.task) =
      some { h.enter.handle with receiver := r } := by
    rw [BufferedUarte.step, if_pos (setup_enter h), hr]
    rfl
  -- so the default of the model is never taken
  have hHandle : h.fill.handle.receiver = r := by
    show (Option.getD (h.enter.handle.step (.pollFillBuf h.task)) _).receiver = r
    rw [hStep]
    rfl
  obtain ⟨hRx, hHeld, hConsumed, -⟩ := Receiver.pollFillBuf_stored hr
  obtain ⟨-, -, hEmpty, -⟩ := popBuf_spec hB hBuf
  constructor
  case left =>
    rw [← left_enter h]
    unfold ReadHalf.left
    rw [hHandle, hRx, hHeld]
    rfl
  case consumed =>
    rw [hHandle, hConsumed]
    exact (moves_enter h).consumed
  case schedule => exact (moves_enter h).schedule
  case contents => rw [hHandle, hRx]
  -- the slice is empty only when the ring is
  case empty =>
    rw [hHandle, hRx, contents_eq_nil, ← hEmpty]
    obtain ⟨buf', hBuf', ⟨hLen, rfl⟩ | ⟨hLen, rfl⟩⟩ := Receiver.pollFillBuf_eq hr
    · cases hBuf.symm.trans hBuf'
      exact Iff.rfl
    · cases hBuf.symm.trans hBuf'
      exact ⟨fun _ => hLen, fun _ => rfl⟩

/-- What a slice of the reader shows is the first of what is left. -/
theorem read_slice (h : ReadHalf Task chip rxSize txSize) {n : Nat}
    (hn : n ≤ h.handle.receiver.slice.len) :
    h.handle.receiver.rx.read ⟨h.handle.receiver.slice.off, n⟩ = h.left.take n ∧
      n ≤ h.handle.receiver.rx.contents.length := by
  have hI := h.sound.awake.receiver
  have hLen : n ≤ h.handle.receiver.rx.contents.length := by
    rw [length_contents]
    exact Nat.le_trans hn (hI.slice.len_le hI.wf)
  refine ⟨?_, hLen⟩
  unfold ReadHalf.left
  rw [List.append_assoc, List.take_append_of_le_length hLen]
  exact hI.slice.read hI.wf hn

/-- Neither the handler nor the DMA nor the other half writes to the slice that a reader
holds. -/
theorem read_elapse (h : ReadHalf Task chip rxSize txSize) :
    h.elapse.handle.receiver.rx.read h.handle.receiver.slice =
      h.handle.receiver.rx.read h.handle.receiver.slice := by
  have hMoves := moves_elapse h
  have hLeft : h.elapse.left = h.left := hMoves.left
  have hSlice : h.elapse.handle.receiver.slice = h.handle.receiver.slice := hMoves.slice
  rw [(read_slice h (Nat.le_refl _)).1, ← hLeft, ← hSlice]
  exact (read_slice h.elapse (Nat.le_refl _)).1

/-- Of the bytes that are shown, the reader consumes the first, whatever happens before. -/
theorem left_consume {n : Nat} (hn : n ≤ h.handle.receiver.slice.len) :
    (consume h n).left = h.left.drop n ∧
      (consume h n).handle.receiver.consumed = h.handle.receiver.consumed ++ h.left.take n ∧
      n ≤ h.left.length := by
  -- what runs before the call moves no byte out of the slice
  have hMoves := moves_enter h
  have hConsumed : h.enter.handle.receiver.consumed = h.handle.receiver.consumed :=
    hMoves.consumed
  have hSetup := setup_enter h
  have hn' : n ≤ h.enter.handle.receiver.slice.len := by
    rw [hMoves.slice]
    exact hn
  obtain ⟨hRead, hLen⟩ := read_slice h.enter hn'
  have hAct : consume h n = h.enter.act (.consume n) hn' := dif_pos hn'
  rw [hAct, ← left_enter h, ← hConsumed]
  generalize h.enter = g at hSetup hn' hRead hLen ⊢
  have hI := g.sound.awake.receiver
  -- the pop takes the bytes the slice shows
  obtain ⟨rx, hPop, hContents⟩ := hI.slice.pop_contents hI.wf hn'
  have hHandle : (g.act (.consume n) hn').handle.receiver =
      { g.handle.receiver with
        rx := rx
        consumed := g.handle.receiver.consumed ++
          g.handle.receiver.rx.read ⟨g.handle.receiver.slice.off, n⟩
        slice := ⟨g.handle.receiver.slice.off + n, g.handle.receiver.slice.len - n⟩ } := by
    show (BufferedUarte.attempt _ _).receiver = _
    rw [BufferedUarte.attempt, BufferedUarte.step, if_pos hSetup]
    simp only [Receiver.consume, hPop, Option.bind_eq_bind, Option.bind_some, Option.getD_some]
  have hHeld : (g.act (.consume n) hn').handle.receiver.held = g.handle.receiver.held := by
    rw [hHandle]
    rfl
  refine ⟨?_, ?_, ?_⟩
  · unfold ReadHalf.left
    rw [hHeld, hHandle]
    show rx.contents ++ _ ++ g.line = _
    rw [hContents, List.append_assoc, List.append_assoc, List.drop_append_of_le_length hLen]
  · rw [hHandle]
    exact congrArg (g.handle.receiver.consumed ++ ·) hRead
  · unfold ReadHalf.left
    simp only [List.length_append]
    omega

instance : ByteStream (ReadHalf Task chip rxSize txSize) where
  unread h := .ofList h.left
  consumed h := h.handle.receiver.consumed.length
  fill h := ⟨congrArg Seq.ofList (filled h).left, congrArg List.length (filled h).consumed⟩
  buffer := by
    intro h buf hShown
    have hFilled := filled h
    generalize hFill : h.fill = g at hFilled
    have hFst : (pollFillBuf h).1 = g := hFill
    have hShown' : g.shown = .ready (.ok buf) := hFill ▸ hShown
    unfold shown at hShown'
    split at hShown'
    · cases hShown'
    · rename_i hLen
      cases hShown'
      rw [(read_slice g (Nat.le_refl _)).1, hFst]
      obtain ⟨-, -, hAll⟩ := left_consume (h := g) (Nat.le_refl _)
      refine ⟨.ofList (g.left.drop g.handle.receiver.slice.len), ?_, fun hNil => ?_,
        fun n hn => ?_⟩
      · unfold front
        rw [← Seq.ofList_append, List.take_append_drop]
        exact congrArg Seq.ofList hFilled.left.symm
      · have hLength := congrArg List.length hNil
        rw [List.length_take, List.length_nil] at hLength
        omega
      · rw [List.length_take_of_le hAll] at hn
        obtain ⟨hLeft, hConsumed, hCount⟩ := left_consume hn
        refine ⟨?_, ?_⟩
        · show Seq.ofList (consume g n).left = _
          unfold front
          rw [hLeft, ← Seq.ofList_append, ← List.drop_append_of_le_length ?_,
            List.take_append_drop]
          rwa [List.length_take_of_le hAll]
        · show (consume g n).handle.receiver.consumed.length = _
          rw [hConsumed, List.length_append, List.length_take_of_le hCount, hFilled.consumed]

/-- A read half returns no error. -/
theorem infallible : Infallible (ReadHalf Task chip rxSize txSize) := by
  intro h h' e hFill
  have hShown : h.fill.shown = .ready (.error e) := congrArg Prod.snd hFill
  unfold shown at hShown
  split at hShown <;> cases hShown

/-- The end of a stream is never shown. -/
theorem never_ends (h h' : ReadHalf Task chip rxSize txSize) :
    pollFillBuf h ≠ (h', .ready (.ok [])) := by
  intro hFill
  have hShown : h.fill.shown = .ready (.ok []) := congrArg Prod.snd hFill
  unfold shown at hShown
  split at hShown
  · cases hShown
  · rename_i hLen
    have hNil := Except.ok.inj (Poll.ready.inj hShown)
    have hRead := (read_slice h.fill (Nat.le_refl _)).1
    have hLength := congrArg List.length (hRead.symm.trans hNil)
    obtain ⟨-, -, hAll⟩ := left_consume (h := h.fill) (Nat.le_refl _)
    rw [List.length_take_of_le hAll] at hLength
    exact hLen hLength

-- ---------------------------------------------------------------------------
-- Readers do not wait forever
-- ---------------------------------------------------------------------------

/-- Stored bytes stay stored until the reader consumes them. -/
theorem contents_mono (hMoves : Moves h h') (hSome : h.handle.receiver.rx.contents ≠ []) :
    h'.handle.receiver.rx.contents ≠ [] := by
  obtain ⟨t, ht⟩ := hMoves.contents
  rw [ht]
  exact fun hNil => hSome (List.append_eq_nil_iff.mp hNil).1

/-- The transfer under way, that has not ended, can take a byte or has one. -/
structure Underway (h : ReadHalf Task chip rxSize txSize) : Prop where
  state : h.handle.receiver.rxState = .receiving
  endrx : h.handle.receiver.rxd.endrx = false
  running : h.handle.receiver.rxd.running = true
  maxcnt : 0 < h.handle.receiver.rxd.maxcnt

/-- After the handler has run, a reader without bytes has a transfer for them. -/
theorem underway_of_interrupt (hRx : 0 < rxSize) (hFits : rxSize < 2 ^ chip.maxcntBits)
    (hSetup : h.handle.irqSetupDone = true)
    (hNil : (h.elsewhere (some .interrupt)).handle.receiver.rx.contents = []) :
    Underway (h.elsewhere (some .interrupt)) := by
  have hSound := (h.elsewhere (some .interrupt)).sound
  obtain ⟨hHandled, hStalled⟩ := BufferedUarte.interrupt_receiver h.sound hSetup
  have hState : (h.elsewhere (some .interrupt)).handle.receiver.rxState = .receiving := by
    cases hIdle : (h.elsewhere (some .interrupt)).handle.receiver.rxState with
    | receiving => rfl
    | idle =>
      have hLess : (h.elsewhere (some .interrupt)).handle.receiver.rx.contents.length <
          (h.elsewhere (some .interrupt)).handle.receiver.rx.capacity := by
        rw [hNil, hSound.capacity]
        exact hRx
      exact absurd ⟨hIdle, hLess⟩ hStalled
  have hEnd : (h.elsewhere (some .interrupt)).handle.receiver.rxd.endrx = false :=
    hHandled.endrx
  have hT := hSound.awake.receiver.receiving hState
  refine ⟨hState, hEnd, ?_, hSound.armed hFits hState⟩
  rw [hT.running, hEnd]
  rfl

/-- The transfer gets a byte, if there is one. -/
theorem got_of_arrival (hUnder : Underway h) (hLeft : h.left ≠ [])
    (hNil : h.handle.receiver.rx.contents = []) :
    Underway (h.elsewhere none) ∧ (h.elsewhere none).handle.receiver.rxd.got ≠ [] := by
  rcases elsewhere_none h with ⟨hEq, hNone⟩ | ⟨x, xs, s, -, hs, hHandle, -⟩
  · -- no byte could arrive: the line is empty, or the transfer is full
    rw [hEq]
    refine ⟨hUnder, fun hGot => ?_⟩
    cases hLine : h.line with
    | nil =>
      refine hLeft ?_
      unfold ReadHalf.left
      rw [hNil, Receiver.held_receiving hUnder.state, hGot, hLine]
      rfl
    | cons x xs =>
      have hStep := hNone x xs hLine
      have hMore : h.handle.receiver.rxd.got.length < h.handle.receiver.rxd.maxcnt := by
        rw [hGot]
        exact hUnder.maxcnt
      simp [BufferedUarte.step, Receiver.dmaByte, hUnder.running, hMore] at hStep
  · -- the byte is in the transfer now
    obtain ⟨-, hR, -⟩ := BufferedUarte.step_effect hs
    obtain ⟨-, hR'⟩ := Receiver.dmaByte_eq hR
    rw [← hHandle] at hR'
    refine ⟨⟨?_, ?_, ?_, ?_⟩, ?_⟩
    · rw [hR']
      exact hUnder.state
    · rw [hR']
      exact hUnder.endrx
    · rw [hR']
      exact hUnder.running
    · rw [hR']
      exact hUnder.maxcnt
    · rw [hR']
      exact List.append_ne_nil_of_right_ne_nil _ (List.cons_ne_nil x [])

/-- A round of the handler and the DMA stores a byte, if there is one to come. -/
theorem contents_served (hRx : 0 < rxSize) (hFits : rxSize < 2 ^ chip.maxcntBits)
    (hSetup : h.handle.irqSetupDone = true) (hLeft : h.left ≠ []) :
    (h.run served).handle.receiver.rx.contents ≠ [] := by
  generalize h₁Eq : h.elsewhere (some .interrupt) = h₁
  generalize h₂Eq : h₁.elsewhere none = h₂
  generalize h₃Eq : h₂.elsewhere (some .rxEnd) = h₃
  have hRun : h.run served = h₃.elsewhere (some .interrupt) := by
    rw [← h₃Eq, ← h₂Eq, ← h₁Eq]
    rfl
  have hMoves₁ : Moves h h₁ := h₁Eq ▸ moves_elsewhere h _
  have hMoves₂ : Moves h₁ h₂ := h₂Eq ▸ moves_elsewhere h₁ _
  have hMoves₃ : Moves h₂ h₃ := h₃Eq ▸ moves_elsewhere h₂ _
  rw [hRun]
  by_cases hNil : h₁.handle.receiver.rx.contents = []
  · have hUnder : Underway h₁ := by
      rw [← h₁Eq]
      exact underway_of_interrupt hRx hFits hSetup (h₁Eq ▸ hNil)
    obtain ⟨hUnder₂, hGot⟩ : Underway h₂ ∧ h₂.handle.receiver.rxd.got ≠ [] := by
      rw [← h₂Eq]
      exact got_of_arrival hUnder (hMoves₁.left ▸ hLeft) hNil
    -- the transfer ends, and the handler sees its bytes
    obtain ⟨s, hs⟩ : ∃ s, h₂.handle.step .rxEnd = some s := by
      simp [BufferedUarte.step, Receiver.dmaEnd, hUnder₂.running]
    have hHandle : h₃.handle = s := by
      rw [← h₃Eq]
      show (BufferedUarte.step _ .rxEnd).getD _ = s
      rw [hs]
      rfl
    obtain ⟨-, hR, -⟩ := BufferedUarte.step_effect hs
    obtain ⟨-, -, -, -, hGot₃, hEnd₃⟩ := Receiver.dmaEnd_stored hR
    have hSetup₃ := hMoves₃.setup (hMoves₂.setup (hMoves₁.setup hSetup))
    obtain ⟨hHandled, -⟩ := BufferedUarte.interrupt_receiver h₃.sound hSetup₃
    have hMoved := hHandled.moved
    rw [hHandle, hEnd₃, if_pos rfl, hGot₃] at hMoved
    show (BufferedUarte.attempt _ _).receiver.rx.contents ≠ []
    rw [hHandle, hMoved]
    exact fun hEmpty => hGot (List.append_eq_nil_iff.mp hEmpty).2
  · exact contents_mono (((hMoves₂.trans hMoves₃)).trans (moves_elsewhere h₃ _)) hNil

/-- A served reader with bytes to come does not wait. -/
theorem not_pends_served (hRx : 0 < rxSize) (hFits : rxSize < 2 ^ chip.maxcntBits)
    (hLeft : h.left ≠ []) (hNil : h.schedule = []) : ¬Pends h' h := by
  intro hPends
  have hShown : h.fill.shown = .pending := congrArg Prod.snd hPends
  have hFilled := filled h
  have hEnter : h.enter = (h.act .register trivial).run served := by
    unfold enter elapse
    rw [show (h.act .register trivial).schedule = [] from hNil]
  unfold shown at hShown
  split at hShown
  · rename_i hLen
    have hEmpty := hFilled.empty.mp hLen
    rw [hFilled.contents, hEnter] at hEmpty
    exact contents_served (h := h.act .register trivial) hRx hFits rfl hLeft hEmpty
  · cases hShown

/-- The reader waits for the rest of its schedule. -/
theorem arrives (hRx : 0 < rxSize) (hFits : rxSize < 2 ^ chip.maxcntBits) :
    Arrives (ReadHalf Task chip rxSize txSize) := by
  -- induction on the schedule that is left; once it is empty a byte arrives
  have hSchedule : ∀ n (h : ReadHalf Task chip rxSize txSize), h.schedule.length = n →
      h.left ≠ [] → Acc Pends h := by
    intro n
    induction n with
    | zero =>
      intro h hLen hLeft
      exact ⟨h, fun h' hPends => absurd hPends
        (not_pends_served hRx hFits hLeft (List.eq_nil_of_length_eq_zero hLen))⟩
    | succ n ih =>
      intro h hLen hLeft
      refine ⟨h, fun h' hPends => ?_⟩
      have hFilled : Filled h h' := by
        rw [show h' = h.fill from (congrArg Prod.fst hPends).symm]
        exact filled h
      refine ih h' ?_ (hFilled.left ▸ hLeft)
      rw [hFilled.schedule, List.length_tail, hLen]
      rfl
  intro h hUnread
  refine hSchedule _ h rfl fun hNil => hUnread ?_
  show Seq.ofList h.left = .nil
  rw [hNil]
  exact Seq.ofList_nil

end ReadHalf

end Embassy.Nrf
