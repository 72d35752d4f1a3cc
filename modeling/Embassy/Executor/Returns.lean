import Embassy.Executor.Timers

/-!
# `run_queued` returns

The loops of `run_queued` end: each goes along a list that gets shorter. In
`retain` it is the rest of the timer queue behind the cell `prev`, in
`dequeue_all` the rest of the batch. What is left of a call is measured by its
phase, by the length of that list and by the place within the loop's body, and
every operation of the executor makes it smaller.

Only the executor takes steps here. Another context can make it repeat a
compare-and-exchange, and the measure of the enqueue in `dequeue_expired` says
that the next attempt succeeds if nobody interferes again.

Main results:

* `progress` — the executor always has a next operation, and less is left after
  it.
* `returns` — from every reachable state the executor can finish its call.
-/

namespace Embassy.Executor

open Embassy.Lib

-- ---------------------------------------------------------------------------
-- What is left of a call
-- ---------------------------------------------------------------------------

section Measure

variable {Task Agent : Type}

/-- The operations of the executor itself; a task that it polls returns
`Pending` at once. -/
def Action.Own : Action Task Unit Agent → Prop
  | .drain _ => True
  | .advance (.drain _) weak => weak = false
  | .pollReturn _ ready => ready = false
  | _ => False

def Drain.phase : Drain Task → Nat
  | .idle => 0
  | .setAlarm _ => 1
  | .swap => 4
  | d => match d.closure with
    | some (.nextExpiration _) => 2
    | some (.dequeueExpired _) => 5
    | none => 3

section Swap

variable {Exec : Type} [DecidableEq Task] [DecidableEq Exec] [DecidableEq Agent]
  {hasAlarm : Exec → Bool} {s s' : State Task Exec Agent} {a : Action Task Exec Agent} {e : Exec}

/-- Outside of a call the executor is left alone. -/
theorem idle_step (h : step hasAlarm s a = some s') (hIdle : s.drain e = .idle)
    (hNot : ∀ now, a ≠ .runQueued e now) : s'.drain e = .idle := by
  have ha : a ≠ .drain e := by
    rintro rfl
    simp [step, drainStep, hIdle] at h
  rcases drain_of_ne h ha with hD | ⟨now, hEq, -⟩ | ⟨t, next, -, -, hD, -⟩
  · rwa [hD]
  · exact absurd hEq (hNot now)
  · simp [hIdle] at hD

/-- The alarm is set by `run_queued` only. -/
theorem alarm_step (h : step hasAlarm s a = some s') (hIdle : s.drain e = .idle) :
    s'.alarm e = s.alarm e := by
  rcases step_op h with ⟨x, h⟩ | ⟨e', h⟩
  · cases h <;> rfl
  · cases h with
    | setAlarm hD =>
      refine Function.update_of_ne ?_ _ _
      rintro rfl
      simp [hIdle] at hD
    | @unlink f prev p hD => cases prev <;> rfl
    | _ => rfl

/-- A drain that gets past the swap has emptied the queue. -/
theorem phase_of_swap (h : step hasAlarm s a = some s') (hAfter : (s'.drain e).phase ≤ 3) :
    (s.drain e).phase ≤ 3 ∨ s'.head e = none := by
  rcases step_op h with ⟨x, h⟩ | ⟨e', h⟩
  · -- an operation of a context moves no drain
    rw [h.drain_eq] at hAfter
    exact .inl hAfter
  · by_cases he : e = e'
    · subst he
      cases h with
      -- only the swap brings a phase down to the walk, and it empties the head
      | swap hD => exact .inr (by simp)
      | start hD now => exact .inl (by simp [hD, Drain.phase])
      | @retain_end f prev hD => cases f <;> simp_all [Closure.finish, Drain.phase, Drain.closure]
      | registerTimer hD => exact .inl hAfter
      | filter_expired hD | filter_keep hD => simp [Drain.phase, Drain.closure] at hAfter
      | retain_next hD | onTask hD | unlink hD | clearTimerQueued hD =>
        left
        simpa [hD, Drain.phase, Drain.closure] using hAfter
      | filter_next hD | filter_drop hD | walk hD | walk_end hD | setExpires hD
      | clear_spawned hD | clear_ignored hD | poll hD
      | poll_ready hD | poll_pending hD | dropFuture hD | release hD | update_none hD
      | update_some hD | updateOr_old hD | updateOr_new hD | updateNext hD | updateHead hD
      | setAlarm hD => simp [hD, Drain.phase, Drain.closure]
    · rw [h.drain_of_ne he] at hAfter
      exact .inl hAfter

end Swap

/-- The cell that `retain` stands at. -/
def Drain.cell : Drain Task → Option (Link Task)
  | .retain _ prev | .filter _ prev _ | .onTask _ prev _ | .unlink _ prev _
  | .clearTimerQueued _ prev _ => some prev
  | _ => none

variable [DecidableEq Task]

/-- How far `TaskHeader::enqueue` is from its end. An attempt that has read an
old value fails once. -/
def Pc.rank (s : State Task Unit Agent) : Pc Task Unit → Nat
  | .loadState _ => 9
  | .casState t current => if s.word t = current then 8 else 9
  | .getExecutor _ => 7
  | .loadHead _ _ => 6
  | .storeNext _ e prev => if s.head e = prev then 3 else 5
  | .casHead _ e prev => if s.head e = prev then 2 else 4
  | .signal _ => 1
  | _ => 0

namespace State

/-- The tasks that the running loop has before it. -/
def Left (s : State Task Unit Agent) (l : List Task) : Prop :=
  match (s.drain ()).cell with
  | some prev => Seg s.timerNext (s.linkGet () prev) l none
  | none => Seg s.next (s.drain ()).rest l none

/-- How far the drain is from the next round of its loop. -/
def rank (s : State Task Unit Agent) : Nat :=
  match s.drain () with
  | .clearTimerQueued _ _ _ => 21
  | .retain _ _ => 20
  | .filter _ _ _ => 19
  | .onTask _ _ _ => 4 + (s.pc (.drain ())).rank s
  | .unlink _ _ _ => 3
  | .setExpires _ _ => 11
  | .clearRunQueued _ _ => 10
  | .poll _ _ => 9
  | .polling _ _ => 8
  | .dropFuture _ _ => 7
  | .release _ _ => 6
  | .updateTest _ _ => 5
  | .updateOr _ _ => 4
  | .updateNext _ _ => 3
  | .updateHead _ _ => 2
  | .walk _ => 1
  | .idle | .swap | .setAlarm _ => 0

/-- What is left in `s'`, with the tasks `l'` before the loop, is less than what
is left in `s`. -/
def Less (s' : State Task Unit Agent) (l' : List Task) (s : State Task Unit Agent)
    (l : List Task) : Prop :=
  Prod.Lex (· < ·) (Prod.Lex (· < ·) (· < ·))
    ((s'.drain ()).phase, l'.length, s'.rank) ((s.drain ()).phase, l.length, s.rank)

end State

end Measure

variable {Task Agent : Type} [DecidableEq Task] [DecidableEq Agent] {s s' : State Task Unit Agent}
  {l : List Task}

-- ---------------------------------------------------------------------------
-- The enqueue in `dequeue_expired`
-- ---------------------------------------------------------------------------

def Pc.enqueuing {Exec : Type} : Pc Task Exec → Bool
  | .allocate _ | .writePollFn _ | .writeFuture _ | .token _ => false
  | _ => true

/-- An executor enqueues, and does not spawn. -/
theorem enqueuing_of_run (hRun : Reaches (fun _ => true) (init Task Unit Agent) s) :
    (s.pc (.drain ())).enqueuing = true := by
  refine hRun.invariant (I := fun s => (s.pc (.drain ())).enqueuing = true) rfl ?_
  rintro u a v hI - hs
  -- the drain's own context never spawns, it only enqueues expired tasks
  rcases step_op hs with ⟨x, h⟩ | ⟨⟨⟩, h⟩
  · by_cases hx : x = .drain ()
    · subst hx
      cases h with
      | spawnPool hx' | wake hx' => cases hx'
      | allocate_ok hPc | allocate_busy hPc | writePollFn hPc | writeFuture hPc =>
        simp [hPc, Pc.enqueuing] at hI
      | casHead hPc =>
        simp only [State.setPc_pc, Function.update_self]
        split <;> rfl
      | _ => simp [Pc.enqueuing]
    · -- another context's step
      have hEq : v.pc (.drain ()) = u.pc (.drain ()) := by
        cases h <;> exact Function.update_of_ne (Ne.symm hx) _ _
      rwa [hEq]
  · cases h with
    | filter_expired hD hP => simp [Pc.enqueuing]
    | @unlink f prev p hD => cases prev <;> exact hI
    | _ => exact hI

/-- The next operation of an enqueue, without interference. -/
theorem enqueue_progress {L : Layout Task Unit Agent} (hQ : QueueInv s L)
    {x : Context Agent Unit} (hPc : s.pc x ≠ .idle) (hEnq : (s.pc x).enqueuing = true) :
    ∃ s', advance s x false = some s' ∧ (s'.pc x).rank s' < (s.pc x).rank s := by
  -- running alone, no exchange fails twice: the rank of each point falls
  cases hk : s.pc x with
  | idle => exact absurd hk hPc
  | loadState t =>
    simp only [advance, hk]
    refine ⟨_, rfl, ?_⟩
    by_cases hW : (s.word t).inert = true <;> simp [Pc.rank, hW]
  | casState t current =>
    simp only [advance, hk]
    -- a word that has changed is read again, and compared to itself
    by_cases hEq : s.word t = current
    · simp only [hEq, and_self, if_true]
      exact ⟨_, rfl, by simp [Pc.rank, hEq]⟩
    · simp only [hEq, and_false, if_false]
      refine ⟨_, rfl, ?_⟩
      by_cases hW : (s.word t).inert = true <;> simp [Pc.rank, hW, hEq]
  | getExecutor t =>
    cases hE : s.executor t with
    -- the executor of a marked task is stored
    | none => exact absurd hE (hQ.found x t hk)
    | some e =>
      simp only [advance, hk, hE]
      exact ⟨_, rfl, by simp [Pc.rank]⟩
  | loadHead t e | signal e =>
    simp only [advance, hk]
    exact ⟨_, rfl, by simp [Pc.rank]⟩
  | storeNext t e prev =>
    simp only [advance, hk]
    refine ⟨_, rfl, ?_⟩
    by_cases hEq : s.head e = prev <;> simp [Pc.rank, hEq]
  | casHead t e prev =>
    simp only [advance, hk]
    by_cases hEq : s.head e = prev
    · simp only [hEq, and_self, if_true]
      refine ⟨_, rfl, ?_⟩
      by_cases hPrev : prev = none <;> simp [Pc.rank, hEq, hPrev]
    · simp only [hEq, and_false, if_false]
      exact ⟨_, rfl, by simp [Pc.rank, hEq]⟩
  | allocate | writePollFn | writeFuture | token => simp [hk, Pc.enqueuing] at hEnq

-- ---------------------------------------------------------------------------
-- The loops
-- ---------------------------------------------------------------------------

omit [DecidableEq Task] [DecidableEq Agent] in
/-- From the cell on, the rest of the queue is a list that ends. -/
theorem State.Cursor.left {tq mid : List Task} {f : Closure} {prev : Link Task}
    (h : s.Cursor tq f prev mid) (hSeg : Seg s.timerNext (s.timerHead ()) tq none) :
    ∃ r, Seg s.timerNext (s.linkGet () prev) (mid ++ r) none := by
  obtain ⟨v, r, rfl, hEnds, -⟩ := h
  rw [List.append_assoc] at hSeg
  exact ⟨r, seg_linkGet hSeg hEnds⟩

omit [DecidableEq Task] [DecidableEq Agent] in
/-- Wherever the drain stands, what is left to it is a list that ends. -/
theorem exists_left {L : Layout Task Unit Agent} {tq : List Task} (hQ : QueueInv s L)
    (hT : TimerInv s tq) : ∃ l, s.Left l := by
  have hHere := hT.here
  have hBatch := hQ.batch ()
  unfold State.Left
  cases hD : s.drain () <;> rw [hD] at hHere hBatch <;> simp only [Drain.cell]
  case retain | clearTimerQueued =>
    obtain ⟨r, hSeg⟩ := State.Cursor.left hHere hT.seg
    exact ⟨r, hSeg⟩
  case filter =>
    obtain ⟨r, hSeg⟩ := State.Cursor.left hHere hT.seg
    exact ⟨_, hSeg⟩
  case onTask | unlink =>
    obtain ⟨r, hSeg⟩ := hHere.1.left hT.seg
    exact ⟨_, hSeg⟩
  all_goals exact ⟨_, hBatch⟩

omit [DecidableEq Task] [DecidableEq Agent] in
/-- What is left is about the links and the place of the drain. -/
theorem State.Left.congr (hLeft : s.Left l) (hCell : (s'.drain ()).cell = (s.drain ()).cell)
    (hRest : (s'.drain ()).rest = (s.drain ()).rest) (hNext : s'.next = s.next)
    (hTimerNext : s'.timerNext = s.timerNext) (hTimerHead : s'.timerHead = s.timerHead) :
    s'.Left l := by
  unfold State.Left at hLeft ⊢
  rw [hCell]
  split at hLeft
  case h_1 prev _ => cases prev <;> simpa only [State.linkGet, hTimerNext, hTimerHead] using hLeft
  case h_2 => rwa [hNext, hRest]

omit [DecidableEq Task] [DecidableEq Agent] in
/-- The task that `retain` is at is the first one it has before it. -/
theorem State.Left.cons_of_cursor {tq : List Task} {f : Closure} {prev : Link Task} {p : Task}
    (hLeft : s.Left l) (hCell : (s.drain ()).cell = some prev) (h : s.Cursor tq f prev [p])
    (hSeg : Seg s.timerNext (s.timerHead ()) tq none) :
    ∃ r, l = p :: r ∧ Seg s.timerNext (s.timerNext p) r none := by
  obtain ⟨r, hRest⟩ := h.left hSeg
  simp only [State.Left, hCell] at hLeft
  exact ⟨r, hLeft.eq_of_none hRest, hRest.2⟩

section Less

variable {l' : List Task}

omit [DecidableEq Agent] in
/-- A later part of the drain. -/
theorem less_of_phase (h : (s'.drain ()).phase < (s.drain ()).phase) : s'.Less l' s l :=
  .left _ _ h

omit [DecidableEq Agent] in
/-- Fewer tasks left in the same part. -/
theorem less_of_length (hPhase : (s'.drain ()).phase = (s.drain ()).phase)
    (h : l'.length < l.length) : s'.Less l' s l := by
  unfold State.Less
  rw [hPhase]
  exact .right _ (.left _ _ h)

omit [DecidableEq Agent] in
theorem less_of_rank (hPhase : (s'.drain ()).phase = (s.drain ()).phase)
    (h : s'.rank < s.rank) : s'.Less l s l := by
  unfold State.Less
  rw [hPhase]
  exact .right _ (.right _ h)

end Less

/-- Every operation of `run_queued` leaves less to do. -/
theorem DrainOp.less {tq : List Task} (hT : TimerInv s tq) (h : DrainOp (fun _ => true) s () s')
    (hNext : ∃ l', s'.Left l') (hBusy : s.drain () ≠ .idle)
    (hReturn : ∀ t next, s.drain () = .polling t next → s'.drain () ≠ .polling t next)
    (hLeft : s.Left l) : ∃ l', s'.Left l' ∧ s'.Less l' s l := by
  have hHere := hT.here
  -- the phase falls, or the list left gets shorter, or the rank of the point falls
  obtain ⟨l₁, hLeft₁⟩ := hNext
  cases h with
  | start hD => exact absurd hD hBusy
  | registerTimer hD => exact absurd hD (hReturn _ _ hD)
  | @retain_end f prev hD =>
    refine ⟨l₁, hLeft₁, less_of_phase ?_⟩
    cases f <;> simp [hD, Closure.finish, Drain.phase, Drain.closure]
  | swap hD | walk_end hD | setAlarm hD =>
    refine ⟨l₁, hLeft₁, less_of_phase ?_⟩
    simp [hD, Drain.phase, Drain.closure]
  -- the filter keeps the cell: the cursor moves on by one
  | @filter_keep now prev p hD hP =>
    rw [hD] at hHere
    obtain ⟨r, rfl, hRest⟩ := hLeft.cons_of_cursor (by simp [hD, Drain.cell]) hHere hT.seg
    refine ⟨r, ?_, less_of_length ?_ (by simp)⟩
    · simpa [State.Left, Drain.cell, State.linkGet] using hRest
    · simp [hD, Drain.phase, Drain.closure]
  | @filter_next res prev p hD hP =>
    rw [hD] at hHere
    obtain ⟨r, rfl, hRest⟩ := hLeft.cons_of_cursor (by simp [hD, Drain.cell]) hHere hT.seg
    refine ⟨r, ?_, less_of_length ?_ (by simp)⟩
    · simpa [State.Left, Drain.cell, State.linkGet] using hRest
    · simp [hD, Drain.phase, Drain.closure]
  -- the filter drops the cell: what the cursor points at is the rest of the list
  | @unlink f prev p hD =>
    rw [hD] at hHere
    obtain ⟨r, rfl, -⟩ := hLeft.cons_of_cursor (by simp [hD, Drain.cell]) hHere.1 hT.seg
    obtain ⟨⟨v, r', rfl, hEnds, -⟩, -⟩ := hHere
    have hSeg := hT.seg
    simp only [List.append_assoc, List.singleton_append] at hSeg
    have hOld := seg_linkGet hSeg hEnds
    simp only [State.Left, hD, Drain.cell] at hLeft
    -- the list before the unlink is the one the cursor still sees
    cases hLeft.eq_of_none hOld
    refine ⟨r, ?_, less_of_length ?_ (by simp)⟩
    · have hNew := seg_linkGet (seg_linkSet hSeg hEnds) hEnds
      cases prev <;> simpa [State.Left, Drain.cell, State.linkGet] using hNew
    · simp [hD, Drain.phase, Drain.closure]
  -- the walk goes on to the next task of the batch
  | @walk t hD =>
    cases l with
    | nil => simp [State.Left, hD, Drain.cell, Drain.rest] at hLeft
    | cons u r =>
      simp only [State.Left, hD, Drain.cell, Drain.rest, Seg.cons_iff, Option.some.injEq] at hLeft
      obtain ⟨rfl, hRest⟩ := hLeft
      refine ⟨r, ?_, less_of_length ?_ (by simp)⟩
      · simpa [State.Left, Drain.cell, Drain.rest] using hRest
      · simp [hD, Drain.phase, Drain.closure]
  | onTask hD hPc =>
    refine ⟨l, hLeft.congr ?_ ?_ rfl rfl rfl, less_of_rank ?_ ?_⟩ <;>
      simp [hD, hPc, Drain.cell, Drain.rest, Drain.phase, Drain.closure, State.rank, Pc.rank]
  | filter_expired hD | retain_next hD | filter_drop hD | clearTimerQueued hD | setExpires hD
  | clear_spawned hD | clear_ignored hD | poll hD | poll_ready hD | poll_pending hD
  | dropFuture hD | release hD | update_none hD | update_some hD | updateOr_old hD
  | updateOr_new hD =>
    refine ⟨l, hLeft.congr ?_ ?_ rfl rfl rfl, less_of_rank ?_ ?_⟩ <;>
      simp [hD, Drain.cell, Drain.rest, Drain.phase, Drain.closure, State.rank, Pc.rank]
  | updateNext hD | updateHead hD =>
    refine ⟨l, ?_, less_of_rank ?_ ?_⟩
    · simpa [State.Left, hD, Drain.cell, Drain.rest] using hLeft
    · simp [hD, Drain.phase, Drain.closure]
    · simp [hD, State.rank]

/-- Outside of a poll, and of an enqueue, the drain makes the next operation. -/
theorem drainStep_isSome {Exec : Type} [DecidableEq Exec] {hasAlarm : Exec → Bool}
    {s : State Task Exec Agent} {e : Exec} (hBusy : s.drain e ≠ .idle)
    (hPoll : ∀ t next, s.drain e ≠ .polling t next)
    (hPc : ∀ f prev p, s.drain e = .onTask f prev p → s.pc (.drain e) = .idle) :
    ∃ s', drainStep hasAlarm s e = some s' := by
  -- every point of the drain but the two that wait for another has its step
  cases hD : s.drain e with
  | idle => exact absurd hD hBusy
  | polling t next => exact absurd hD (hPoll t next)
  | onTask f prev p =>
    simp only [drainStep, hD, hPc f prev p hD, if_true]
    exact ⟨_, rfl⟩
  | retain f prev =>
    cases hP : s.linkGet e prev with
    | none =>
      simp only [drainStep, hD, hP]
      exact ⟨_, rfl⟩
    | some p =>
      simp only [drainStep, hD, hP]
      exact ⟨_, rfl⟩
  | walk task =>
    cases task with
    | none =>
      simp only [drainStep, hD]
      exact ⟨_, rfl⟩
    | some t =>
      simp only [drainStep, hD]
      exact ⟨_, rfl⟩
  | clearRunQueued t next =>
    simp only [drainStep, hD]
    split <;> exact ⟨_, rfl⟩
  | _ =>
    simp only [drainStep, hD]
    exact ⟨_, rfl⟩

/-- **The executor is never stuck**, and every operation of its own leaves less to
do. -/
theorem progress (hReach : Reaches (fun _ => true) (init Task Unit Agent) s) (hLeft : s.Left l)
    (hBusy : s.drain () ≠ .idle) :
    ∃ (a : Action Task Unit Agent) (s' : State Task Unit Agent) (l' : List Task),
      a.Own ∧ step (fun _ => true) s a = some s' ∧ s'.Left l' ∧ s'.Less l' s l := by
  obtain ⟨⟨L, hQ⟩, -⟩ := queueInv_of_run hReach
  obtain ⟨tq, hT⟩ := timerInv_of_run hReach
  -- after any step the list left is again one
  have hNext : ∀ {a s'}, step (fun _ => true) s a = some s' → ∃ l', s'.Left l' := by
    intro a s' hs
    obtain ⟨L', hQ', -⟩ := hQ.step hs
    obtain ⟨tq', hT'⟩ := hT.step hQ hs
    exact exists_left hQ' hT'
  by_cases hPoll : ∃ t next, s.drain () = .polling t next
  · -- the task returns
    obtain ⟨t, next, hD⟩ := hPoll
    have hs : step (fun _ => true) s (.pollReturn () false) =
        some ((s.record t .pollPending).setDrain () (.updateTest t next)) := by
      simp [step, hD]
    obtain ⟨l', hLeft', hLess⟩ := (DrainOp.poll_pending hD).less hT (hNext hs) hBusy (by simp) hLeft
    exact ⟨.pollReturn () false, _, l', rfl, hs, hLeft', hLess⟩
  by_cases hEnq : (∃ f prev p, s.drain () = .onTask f prev p) ∧ s.pc (.drain ()) ≠ .idle
  · -- the enqueue goes on
    obtain ⟨⟨f, prev, p, hD⟩, hPc⟩ := hEnq
    obtain ⟨s', hs, hRank⟩ := enqueue_progress hQ hPc (enqueuing_of_run hReach)
    have hOp := advance_op hs
    have hSame := hOp.sameTimers
    refine ⟨.advance (.drain ()) false, s', l, rfl, hs, ?_, less_of_rank ?_ ?_⟩
    · simp only [State.Left, hOp.drain_eq, hD, Drain.cell] at hLeft ⊢
      cases prev <;> simpa only [State.linkGet, hSame.timerNext, hSame.timerHead] using hLeft
    · rw [hOp.drain_eq]
    · simp only [State.rank, hOp.drain_eq, hD]
      omega
  · -- neither: the drain itself steps
    have hNone : ∀ t next, s.drain () ≠ .polling t next := fun t next hD => hPoll ⟨t, next, hD⟩
    obtain ⟨s', hs⟩ : ∃ s', drainStep (fun _ => true) s () = some s' := by
      refine drainStep_isSome hBusy hNone fun f prev p hD => ?_
      by_contra hPc
      exact hEnq ⟨⟨f, prev, p, hD⟩, hPc⟩
    obtain ⟨l', hLeft', hLess⟩ := (drainStep_op hs).less hT (hNext (a := .drain ()) hs) hBusy
      (fun t next hD => absurd hD (hNone t next)) hLeft
    exact ⟨.drain (), s', l', trivial, hs, hLeft', hLess⟩

/-- By induction on what is left, the drain returns. -/
theorem returns_of_left {s : State Task Unit Agent} {l : List Task}
    (hReach : Reaches (fun _ => true) (init Task Unit Agent) s) (hLeft : s.Left l) :
    ∃ s', Run (step fun _ => true) (fun _ a => a.Own) s s' ∧ s'.drain () = .idle := by
  by_cases hBusy : s.drain () = .idle
  · exact ⟨s, .refl, hBusy⟩
  · obtain ⟨a, u, l', hOwn, hs, hLeft', hLess⟩ := progress hReach hLeft hBusy
    obtain ⟨s', hRun, hIdle⟩ := returns_of_left (hReach.tail trivial hs) hLeft'
    have hFirst : Run (step fun _ => true) (fun _ a => a.Own) s u := .tail .refl hOwn hs
    exact ⟨s', hFirst.trans hRun, hIdle⟩
termination_by ((s.drain ()).phase, l.length, s.rank)
decreasing_by exact hLess

/-- **`run_queued` returns.** From every reachable state the executor can finish
its call with operations of its own. -/
theorem returns (hReach : Reaches (fun _ => true) (init Task Unit Agent) s) :
    ∃ s', Run (step fun _ => true) (fun _ a => a.Own) s s' ∧ s'.drain () = .idle := by
  obtain ⟨⟨L, hQ⟩, -⟩ := queueInv_of_run hReach
  obtain ⟨tq, hT⟩ := timerInv_of_run hReach
  obtain ⟨l, hLeft⟩ := exists_left hQ hT
  exact returns_of_left hReach hLeft

end Embassy.Executor
