import Embassy.Executor.RunQueue
import Embassy.Executor.Wake

/-!
# The run queues of the machine

The machine makes, for each of its executors, a run of the run queue on its own: its
contexts are the agents, and what it does elsewhere is no step of the queue, or the
link of a task that is enqueued elsewhere. `QueueInv` is what keeps the promise that no
task is linked when it is enqueued.

* `queueEvents` — what a step of the machine does to one of its queues.
* `View` — where the machine stands is where the queue stands.
* `View.op`, `View.drain_op` — each operation is at most one step of the queue, which
  records these events.
* `runQueue_of_trace` — so every run is a run of the queue, with the history of the machine.
* `linearized_of_trace` — what this says of the history.
-/

namespace Embassy.Executor

open Embassy.Lib

-- ---------------------------------------------------------------------------
-- Views
-- ---------------------------------------------------------------------------

section Accessors

variable {Task Exec : Type} [DecidableEq Exec]

/-- What `enqueue` of the run queue of `e` does next. -/
def Pc.enqueue (e : Exec) : Pc Task Exec → RunQueue.Enqueue Task
  | .loadHead t e' => if e' = e then .loadHead t else .idle
  | .storeNext t e' prev => if e' = e then .storeNext t prev else .idle
  | .casHead t e' prev => if e' = e then .casHead t prev else .idle
  | _ => .idle

/-- What `dequeue_all` does next. -/
def Drain.dequeue : Drain Task → RunQueue.Dequeue Task
  | .swap => .swap
  | .walk task => .walk task
  | .setExpires _ next | .clearRunQueued _ next | .poll _ next | .polling _ next
  | .dropFuture _ next | .release _ next | .updateTest _ next | .updateOr _ next
  | .updateNext _ next | .updateHead _ next => .onTask next
  | _ => .idle

/-- A task that is linked is in the hands of its context. -/
theorem Pc.owned_of_enqueue {e : Exec} {k : Pc Task Exec} {t : Task}
    (h : (k.enqueue e).item = some t) : k.owned = some t := by
  cases k with
  | loadHead t' e' | storeNext t' e' prev | casHead t' e' prev =>
    by_cases he : e' = e
    · simpa [enqueue, owned, he, RunQueue.Enqueue.item] using h
    · simp [enqueue, he, RunQueue.Enqueue.item] at h
  | _ => cases h

omit [DecidableEq Exec] in
/-- The two name the same rest of the batch. -/
theorem Drain.rest_dequeue (d : Drain Task) : d.dequeue.rest = d.rest := by
  cases d <;> rfl

-- ---------------------------------------------------------------------------
-- Histories
-- ---------------------------------------------------------------------------

/-- What the next operation of `run_queued` does to its run queue. -/
def Drain.events : Drain Task → List (StackEvent Task Unit)
  | .swap => [.takeAll ()]
  | .walk (some t) => [.visit () t]
  | .walk none => [.finish ()]
  | _ => []

/-- What a step does to the run queue of `e`: the exchange of its head, if it succeeds, the
swap, and the visits. -/
def queueEvents {Agent : Type} [DecidableEq Task] (e : Exec) (s : State Task Exec Agent) :
    Action Task Exec Agent → List (StackEvent Task Unit)
  | .advance x weak =>
    match s.pc x with
    | .casHead t e' prev =>
      -- the call of `enqueue` returns `prev.is_null()`
      if e' = e ∧ weak = false ∧ s.head e' = prev then [.push t prev.isNone] else []
    | _ => []
  | .drain e' => if e' = e then (s.drain e').events else []
  | _ => []

/-- The exchange has succeeded if the context does not store the link again. -/
def Pc.pushed (e : Exec) (k k' : Pc Task Exec) : List (StackEvent Task Unit) :=
  match k with
  | .casHead t e' prev =>
    match k' with
    | .storeNext _ _ _ => []
    | _ => if e' = e then [.push t prev.isNone] else []
  | _ => []

end Accessors

section Events

variable {Task Exec Agent : Type} [DecidableEq Task] [DecidableEq Exec] [DecidableEq Agent]
  {hasAlarm : Exec → Bool} {s s' : State Task Exec Agent} {e : Exec}

/-- A context records its event when it has exchanged the head. -/
theorem queueEvents_advance {x : Context Agent Exec} {weak : Bool}
    (h : advance s x weak = some s') :
    queueEvents e s (.advance x weak) = (s.pc x).pushed e (s'.pc x) := by
  cases hPc : s.pc x with
  | casHead t e' prev =>
    simp only [advance, hPc] at h
    split at h
    · rename_i hCas
      cases h
      by_cases hPrev : prev = none <;>
        simp [queueEvents, hPc, hCas.1, hCas.2, hPrev, Pc.pushed]
    · rename_i hCas
      cases h
      simp [queueEvents, hPc, hCas, Pc.pushed]
  | _ => simp [queueEvents, hPc, Pc.pushed]

/-- Every step is an operation with these events. -/
theorem queueEvents_op {a : Action Task Exec Agent} (h : step hasAlarm s a = some s') :
    (∃ x, Op s x s' ∧ queueEvents e s a = (s.pc x).pushed e (s'.pc x)) ∨
      ∃ e', DrainOp hasAlarm s e' s' ∧
        queueEvents e s a = if e' = e then (s.drain e').events else [] := by
  -- every action is one operation of a context or one step of a drain
  cases a with
  | advance x weak => exact .inl ⟨x, advance_op h, queueEvents_advance h⟩
  | drain e' => exact .inr ⟨e', drainStep_op h, rfl⟩
  | wake a t =>
    simp only [step, Option.ite_none_right_eq_some] at h
    obtain ⟨hPc, h⟩ := h
    cases h
    exact .inl ⟨_, .wake rfl hPc, by rw [hPc]; rfl⟩
  | spawnPool a pool =>
    simp only [step, Option.ite_none_right_eq_some] at h
    obtain ⟨hPc, h⟩ := h
    cases h
    exact .inl ⟨_, .spawnPool rfl hPc, by rw [hPc]; rfl⟩
  -- the first step of a spawn marks the task and links nothing yet
  | spawn a e' =>
    simp only [step] at h
    split at h
    · rename_i t hPc
      cases h
      exact .inl ⟨_, .spawn hPc, by rw [hPc]; rfl⟩
    · cases h
  | runQueued e' now =>
    simp only [step, Option.ite_none_right_eq_some] at h
    obtain ⟨hD, h⟩ := h
    cases h
    exact .inr ⟨e', .start hD now, by rw [hD]; exact (ite_self _).symm⟩
  -- what the polled task does meanwhile writes no event of the queue
  | registerTimer e' at' =>
    simp only [step] at h
    split at h
    · rename_i t next hD
      obtain ⟨hAt, h⟩ := Option.ite_none_right_eq_some.mp h
      cases h
      exact .inr ⟨e', .registerTimer hD hAt, by rw [hD]; exact (ite_self _).symm⟩
    · cases h
  | pollReturn e' ready =>
    simp only [step] at h
    split at h
    · rename_i t next hD
      split at h
      · cases h
        exact .inr ⟨e', .poll_ready hD, by rw [hD]; exact (ite_self _).symm⟩
      · cases h
        exact .inr ⟨e', .poll_pending hD, by rw [hD]; exact (ite_self _).symm⟩
    · cases h

end Events

namespace RunQueue

variable {Task Exec Agent : Type} [DecidableEq Task] [DecidableEq Exec] [DecidableEq Agent]

/-- The queue of `e` stands where the machine stands. -/
structure View (s : State Task Exec Agent) (e : Exec)
    (q : RunQueue Task (Context Agent Exec) Unit) : Prop where
  head : q.head = s.head e
  next : q.next = s.next
  enq : ∀ x, q.enq x = (s.pc x).enqueue e
  deq : q.deq () = (s.drain e).dequeue

variable {s s' : State Task Exec Agent} {e : Exec} {q : RunQueue Task (Context Agent Exec) Unit}
  {L : Layout Task Exec Agent} {hasAlarm : Exec → Bool}

/-- The queue gets from where it stands to where the machine stands, with these events. -/
def Follows (q : RunQueue Task (Context Agent Exec) Unit) (s : State Task Exec Agent) (e : Exec)
    (events : List (StackEvent Task Unit)) : Prop :=
  ∃ q', Run step Unlinked q q' ∧ View s e q' ∧ q'.log = q.log ++ events

/-- One action of the queue, with its events. -/
theorem Follows.one {q' : RunQueue Task (Context Agent Exec) Unit}
    {a : Action Task (Context Agent Exec) Unit} {events : List (StackEvent Task Unit)}
    (hStep : q.step a = some q') (hOk : q.Unlinked a) (h : View s e q')
    (hLog : q'.log = q.log ++ events) : Follows q s e events :=
  ⟨q', .tail .refl hOk hStep, h, hLog⟩

/-- A step of the queue that takes no effect yet. -/
theorem Follows.quiet {q' : RunQueue Task (Context Agent Exec) Unit}
    {a : Action Task (Context Agent Exec) Unit} (hStep : q.step a = some q') (hOk : q.Unlinked a)
    (h : View s e q') (hLog : q'.log = q.log) : Follows q s e [] :=
  .one hStep hOk h (hLog.trans (List.append_nil _).symm)

/-- `run_queued` enqueues nothing but through its context. -/
theorem enqueue_of_drain_op (hQ : QueueInv s L) {e' : Exec} (hOp : DrainOp hasAlarm s e' s')
    (x : Context Agent Exec) : (s'.pc x).enqueue e = (s.pc x).enqueue e := by
  cases hOp with
  | @filter_expired now prev p hD =>
    have hPc : s.pc (.drain e') = .idle := hQ.idle_of_drain (by simp [hD])
    by_cases hx : x = .drain e'
    · simp [hx, hPc, Pc.enqueue]
    · simp [hx]
  | @unlink f prev p hD => cases prev <;> rfl
  | _ => rfl

namespace View

omit [DecidableEq Task] [DecidableEq Agent] in
/-- The queue is left alone. -/
theorem congr (h : View s e q) (hHead : s'.head e = s.head e) (hNext : s'.next = s.next)
    (hEnq : ∀ x, (s'.pc x).enqueue e = (s.pc x).enqueue e)
    (hDeq : (s'.drain e).dequeue = (s.drain e).dequeue) : View s' e q where
  head := h.head.trans hHead.symm
  next := h.next.trans hNext.symm
  enq x := (h.enq x).trans (hEnq x).symm
  deq := h.deq.trans hDeq.symm

/-- A step that does not concern the queue. -/
theorem stay (h : View s e q) (hHead : s'.head e = s.head e) (hNext : s'.next = s.next)
    (hEnq : ∀ x, (s'.pc x).enqueue e = (s.pc x).enqueue e)
    (hDeq : (s'.drain e).dequeue = (s.drain e).dequeue) : Follows q s' e [] :=
  ⟨q, .refl, h.congr hHead hNext hEnq hDeq, (List.append_nil _).symm⟩

/-- A context goes on, and the queue is left alone. -/
theorem stay_pc (h : View s e q) {x : Context Agent Exec} {k : Pc Task Exec}
    (hHead : s'.head e = s.head e) (hNext : s'.next = s.next)
    (hPc : s'.pc = Function.update s.pc x k) (hEnq : k.enqueue e = (s.pc x).enqueue e)
    (hDrain : s'.drain = s.drain) : Follows q s' e [] := by
  refine h.stay hHead hNext (fun y => ?_) (by rw [hDrain])
  rw [hPc]
  by_cases hy : y = x
  · simp [hy, hEnq]
  · simp [hy]

omit [DecidableEq Task] [DecidableEq Agent] in
/-- A task that a context owns, and does not enqueue here, is not linked here. -/
theorem not_linked (h : View s e q) (hQ : QueueInv s L) {x : Context Agent Exec} {t : Task}
    (hOwned : (s.pc x).owned = some t) (hIdle : (s.pc x).enqueue e = .idle) :
    ¬ q.Linked t := by
  obtain ⟨hNotQueue, hNotBatch⟩ := hQ.notMem_queue hOwned e
  rintro (⟨y, hItem⟩ | hLeads | ⟨⟨⟩, hLeads⟩)
  · rw [h.enq] at hItem
    obtain rfl := hQ.owner_unique hOwned (Pc.owned_of_enqueue hItem)
    rw [hIdle] at hItem
    cases hItem
  · rw [h.next, h.head] at hLeads
    exact hNotQueue ((hQ.queue e).mem_of_leads hLeads)
  · rw [h.next, h.deq, Drain.rest_dequeue] at hLeads
    exact hNotBatch ((hQ.batch e).mem_of_leads hLeads)

omit [DecidableEq Task] [DecidableEq Agent] in
theorem record (h : View s e q) (ev : StackEvent Task Unit) : View s e (q.record ev) :=
  ⟨h.head, h.next, h.enq, h.deq⟩

omit [DecidableEq Task] in
/-- The queue goes on with the context. -/
theorem setEnq (h : View s e q) {x : Context Agent Exec} {k : Pc Task Exec}
    {q₁ : RunQueue Task (Context Agent Exec) Unit} (hEnq : q₁.enq = q.enq) (hDeq : q₁.deq = q.deq)
    (hHead : q₁.head = s'.head e) (hNext : q₁.next = s'.next)
    (hPc : s'.pc = Function.update s.pc x k) (hDrain : s'.drain = s.drain) :
    View s' e (q₁.setEnq x (k.enqueue e)) where
  head := hHead
  next := hNext
  enq y := by
    rw [hPc]
    by_cases hy : y = x
    · simp [RunQueue.setEnq, hy]
    · simp [RunQueue.setEnq, hy, hEnq, h.enq]
  deq := by
    rw [hDrain, ← h.deq, ← hDeq]
    rfl

/-- A context starts to enqueue a task that it owns. -/
theorem begin (h : View s e q) (hQ : QueueInv s L) {x : Context Agent Exec} {t : Task} {e' : Exec}
    (hOwned : (s.pc x).owned = some t) (hIdle : (s.pc x).enqueue e = .idle)
    (hHead : s'.head e = s.head e) (hNext : s'.next = s.next)
    (hPc : s'.pc = Function.update s.pc x (.loadHead t e')) (hDrain : s'.drain = s.drain) :
    Follows q s' e [] := by
  by_cases he : e' = e
  · subst he
    have hOk : q.Unlinked (.enqueue x t) := h.not_linked hQ hOwned hIdle
    have hEnq : q.enq x = .idle := (h.enq x).trans hIdle
    have hStep : q.step (.enqueue x t) =
        some (q.setEnq x ((Pc.loadHead t e').enqueue e')) := by
      simp [step, hEnq, Pc.enqueue]
    exact .quiet hStep hOk (h.setEnq rfl rfl (h.head.trans hHead.symm) (h.next.trans hNext.symm)
      hPc hDrain) rfl
  · refine h.stay_pc hHead hNext hPc ?_ hDrain
    rw [hIdle]
    simp [Pc.enqueue, he]

/-- An operation of a context is a step of `enqueue`, or none, or links a task elsewhere. -/
theorem op (h : View s e q) (hQ : QueueInv s L) {x : Context Agent Exec} (hOp : Op s x s') :
    Follows q s' e ((s.pc x).pushed e (s'.pc x)) := by
  -- only the three steps of `enqueue` on this executor's queue move the view
  cases hOp with
  | @enqueue_return t k hPc hk hW =>
    obtain rfl | ⟨current, rfl⟩ := hk <;>
    · rw [hPc]
      exact h.stay_pc rfl rfl rfl (by simp [hPc, Pc.enqueue]) rfl
  | @enqueue_retry t k hPc hk hW =>
    obtain rfl | ⟨current, rfl⟩ := hk <;>
    · rw [hPc]
      exact h.stay_pc rfl rfl rfl (by simp [hPc, Pc.enqueue]) rfl
  | casState hPc | signal hPc | allocate_none hPc | allocate_ok hPc | allocate_busy hPc
  | writePollFn hPc | writeFuture hPc | wake _ hPc | spawnPool _ hPc =>
    rw [hPc]
    exact h.stay_pc rfl rfl rfl (by simp [hPc, Pc.enqueue]) rfl
  -- the task is owned now, and enters the queue of its executor
  | getExecutor hPc hE =>
    rw [hPc]
    exact h.begin hQ (by simp [hPc, Pc.owned]) (by simp [hPc, Pc.enqueue]) rfl rfl rfl rfl
  | spawn hPc =>
    rw [hPc]
    exact h.begin hQ (by simp [hPc, Pc.owned]) (by simp [hPc, Pc.enqueue]) rfl rfl rfl rfl
  | @loadHead t e' k hPc hk =>
    have hQuiet : k.pushed e ((s.setPc x (.storeNext t e' (s.head e'))).pc x) = [] := by
      rcases hk with rfl | ⟨prev, rfl⟩ <;> simp [Pc.pushed]
    rw [hPc, hQuiet]
    by_cases he : e' = e
    · subst he
      have hStep : ∃ weak, q.step (.advance x weak) =
          some (q.setEnq x ((Pc.storeNext t e' (s.head e')).enqueue e')) := by
        rcases hk with rfl | ⟨prev, rfl⟩
        · exact ⟨false, by simp [step, advance, h.enq, hPc, Pc.enqueue, h.head]⟩
        · exact ⟨true, by simp [step, advance, h.enq, hPc, Pc.enqueue, h.head]⟩
      obtain ⟨weak, hStep⟩ := hStep
      exact .quiet hStep trivial (h.setEnq rfl rfl h.head h.next rfl rfl) rfl
    · refine h.stay_pc rfl rfl rfl ?_ rfl
      rcases hk with rfl | ⟨_, rfl⟩ <;> simp [hPc, Pc.enqueue, he]
  | @storeNext t e' prev hPc =>
    rw [hPc]
    by_cases he : e' = e
    · subst he
      -- the store of `run_queue_item.next`
      have hStep : q.step (.advance x false) =
          some ({ q with next := Function.update q.next t prev }.setEnq x
            ((Pc.casHead t e' prev).enqueue e')) := by
        simp [step, advance, h.enq, hPc, Pc.enqueue]
      exact .quiet hStep trivial (h.setEnq rfl rfl h.head (by simp [h.next]) rfl rfl) rfl
    · -- the task is enqueued elsewhere
      have hIdle : (s.pc x).enqueue e = .idle := by simp [hPc, Pc.enqueue, he]
      have hOk : q.Unlinked (.other t prev) :=
        h.not_linked hQ (show (s.pc x).owned = some t by simp [hPc, Pc.owned]) hIdle
      have hOther : View { s with next := Function.update s.next t prev } e
          { q with next := Function.update q.next t prev } :=
        ⟨h.head, by rw [h.next], h.enq, h.deq⟩
      refine .quiet rfl hOk (hOther.congr rfl rfl (fun y => ?_) rfl) rfl
      by_cases hy : y = x
      · rw [hy, hIdle]
        simp [Pc.enqueue, he]
      · simp [hy]
  | @casHead t e' hPc =>
    -- the exchange that succeeds is the push
    have hPushed : (Pc.casHead t e' (s.head e') : Pc Task Exec).pushed e
        (if s.head e' = none then .signal e' else .idle) =
          if e' = e then [.push t (s.head e').isNone] else [] := by
      split <;> rfl
    simp only [hPc, State.setPc_pc, Function.update_self, hPushed]
    by_cases he : e' = e
    · subst he
      have hStep : q.step (.advance x false) =
          some (({ q with head := some t }.setEnq x .idle).record
            (.push t (s.head e').isNone)) := by
        simp [step, advance, h.enq, hPc, Pc.enqueue, h.head]
      have hIdle : (if s.head e' = none then .signal e' else .idle : Pc Task Exec).enqueue e' =
          .idle := by
        split <;> rfl
      rw [if_pos rfl]
      refine .one hStep trivial (View.record ?_ _) rfl
      rw [← hIdle]
      exact h.setEnq rfl rfl (by simp) h.next rfl rfl
    · rw [if_neg he]
      refine h.stay_pc (by simp [Ne.symm he]) rfl rfl ?_ rfl
      rw [hPc]
      split <;> simp [Pc.enqueue, he]

omit [DecidableEq Task] [DecidableEq Agent] in
/-- The queue goes on with the executor. -/
theorem setDeq (h : View s e q) {d : Drain Task}
    {q₁ : RunQueue Task (Context Agent Exec) Unit} (hEnq : q₁.enq = q.enq)
    (hHead : q₁.head = s'.head e) (hNext : q₁.next = s'.next) (hPc : s'.pc = s.pc)
    (hDrain : s'.drain = Function.update s.drain e d) : View s' e (q₁.setDeq () d.dequeue) where
  head := hHead
  next := hNext
  enq y := by
    rw [hPc, ← h.enq, ← hEnq]
    rfl
  deq := by
    rw [hDrain]
    simp [RunQueue.setDeq]

/-- An operation of `run_queued` is a step of `dequeue_all`, or none. -/
theorem drain_op (h : View s e q) (hQ : QueueInv s L) {e' : Exec}
    (hOp : DrainOp hasAlarm s e' s') :
    Follows q s' e (if e' = e then (s.drain e').events else []) := by
  -- the drains of other executors leave this queue alone
  by_cases he : e' = e
  · subst he
    rw [if_pos rfl]
    have hDeq := h.deq
    have hEnq := enqueue_of_drain_op (e := e') hQ hOp
    cases hOp with
    | start hD now =>
      rw [hD]
      -- without an alarm the run starts with the swap of the head
      by_cases hAlarm : hasAlarm e' = true
      · simp only [hAlarm, if_true]
        exact h.stay rfl rfl (fun _ => rfl) (by simp [hD, Drain.dequeue])
      · have hStep : q.step (.dequeueAll ()) = some (q.setDeq () (Drain.dequeue .swap)) := by
          simp [step, hDeq, hD, Drain.dequeue]
        simp only [hAlarm]
        exact .quiet hStep trivial (h.setDeq rfl h.head h.next rfl rfl) rfl
    | @retain_end f prev hD hP =>
      rw [hD]
      cases f with
      | dequeueExpired now =>
        have hStep : q.step (.dequeueAll ()) = some (q.setDeq () (Drain.dequeue .swap)) := by
          simp [step, hDeq, hD, Drain.dequeue]
        exact .quiet hStep trivial (h.setDeq rfl h.head h.next rfl rfl) rfl
      | nextExpiration res =>
        exact h.stay rfl rfl (fun _ => rfl) (by simp [hD, Drain.dequeue, Closure.finish])
    -- the swap takes the whole stack at once
    | swap hD =>
      have hStep : q.step (.drain ()) = some (({ q with head := none }.setDeq ()
          (Drain.walk (s.head e')).dequeue).record (.takeAll ())) := by
        simp [step, drain, hDeq, hD, Drain.dequeue, h.head]
      rw [hD]
      refine .one hStep trivial (View.record ?_ _) rfl
      exact h.setDeq rfl (by simp) h.next rfl rfl
    -- the drain reads the task's link and visits it
    | @walk t hD =>
      have hStep : q.step (.drain ()) = some ((q.setDeq ()
          (Drain.setExpires t (s.next t)).dequeue).record (.visit () t)) := by
        simp [step, drain, hDeq, hD, Drain.dequeue, h.next]
      rw [hD]
      refine .one hStep trivial (View.record ?_ _) rfl
      exact h.setDeq rfl h.head h.next rfl rfl
    -- at the end of the list the batch is finished
    | walk_end hD =>
      have hIdle : (if hasAlarm e' then .retain (.nextExpiration instantMax) .head else .idle :
          Drain Task).dequeue = .idle := by
        split <;> rfl
      have hStep : q.step (.drain ()) = some ((q.setDeq () .idle).record (.finish ())) := by
        simp [step, drain, hDeq, hD, Drain.dequeue]
      rw [hD]
      refine .one hStep trivial (View.record ?_ _) rfl
      rw [← hIdle]
      exact h.setDeq rfl h.head h.next rfl rfl
    -- the four ways in which the closure returns to the walk
    | @clear_ignored t next hD | @update_none t next hD | @updateOr_old t next hD
    | @updateHead t next hD =>
      have hStep : q.step (.returned ()) = some (q.setDeq () (Drain.walk next).dequeue) := by
        simp [step, hDeq, hD, Drain.dequeue]
      rw [hD]
      exact .quiet hStep trivial (h.setDeq rfl h.head h.next rfl rfl) rfl
    -- a timer that expired is enqueued by the drain itself
    | filter_expired hD =>
      rw [hD]
      exact h.stay rfl rfl hEnq (by simp [hD, Drain.dequeue])
    | @unlink f prev p hD =>
      rw [hD]
      cases prev <;> exact h.stay rfl rfl (fun _ => rfl) (by simp [hD, Drain.dequeue])
    | registerTimer hD =>
      rw [hD]
      exact h.stay rfl rfl (fun _ => rfl) rfl
    | _ hD =>
      rw [hD]
      exact h.stay rfl rfl (fun _ => rfl) (by simp [hD, Drain.dequeue])
  · rw [if_neg he]
    have hStay : s'.head e = s.head e ∧ s'.next = s.next := by
      cases hOp with
      | swap hD => exact ⟨by simp [Ne.symm he], rfl⟩
      | @unlink f prev p hD => cases prev <;> exact ⟨rfl, rfl⟩
      | _ => exact ⟨rfl, rfl⟩
    exact h.stay hStay.1 hStay.2 (enqueue_of_drain_op hQ hOp)
      (by rw [hOp.drain_of_ne (Ne.symm he)])

end View

omit [DecidableEq Task] [DecidableEq Agent] in
theorem view_init : View (init Task Exec Agent) e .new := ⟨rfl, rfl, fun _ => rfl, rfl⟩

/-- Every run of the machine is, for each of its executors, a run of its run queue, which has
recorded what the steps of the machine did to it. -/
theorem runQueue_of_trace {events : List (StackEvent Task Unit)}
    (hTrace : Trace (Executor.step hasAlarm) (queueEvents e) (init Task Exec Agent) events s) :
    ∃ q, Run step Unlinked .new q ∧ View s e q ∧ q.log = events := by
  have hAll : (∃ q, Run step Unlinked .new q ∧ View s e q ∧ q.log = events) ∧
      ∃ L, QueueInv s L := by
    refine hTrace.invariant (I := fun events s =>
      (∃ q, Run step Unlinked .new q ∧ View s e q ∧ q.log = events) ∧ ∃ L, QueueInv s L)
      ⟨⟨.new, .refl, view_init, rfl⟩, _, queueInv_init⟩ ?_
    rintro events s a s' ⟨⟨q, hBefore, hView, hLog⟩, L, hQ⟩ hStep
    obtain ⟨L', hQ', -⟩ := hQ.step hStep
    refine ⟨?_, L', hQ'⟩
    obtain ⟨q', hOn, hView', hLog'⟩ : Follows q s' e (queueEvents e s a) := by
      rcases queueEvents_op (e := e) hStep with ⟨x, hOp, hEvents⟩ | ⟨e', hOp, hEvents⟩
      · rw [hEvents]
        exact hView.op hQ hOp
      · rw [hEvents]
        exact hView.drain_op hQ hOp
    exact ⟨q', hBefore.trans hOn, hView', hLog'.trans (hLog ▸ rfl)⟩
  exact hAll.1

/-- The run queue of each executor is the one of `RunQueue`, with what happened to it as its
history. So every swap takes what was enqueued since the one before, and the tasks that are
then visited are these, the latest first. -/
theorem linearized_of_trace {events : List (StackEvent Task Unit)}
    (hTrace : Trace (Executor.step hasAlarm) (queueEvents e) (init Task Exec Agent) events s) :
    (∃ q, Run step Unlinked .new q ∧ View s e q ∧ q.log = events ∧ q.Linearized) ∧
    (∀ pre post t wasEmpty, events = pre ++ .push t wasEmpty :: post →
      (wasEmpty = true ↔ BatchStack.pending pre [] = [])) ∧
    ∀ pre post, events = pre ++ .takeAll () :: post →
      (BatchStack.pending pre []).Nodup ∧
        ∃ rest, BatchStack.pending pre [] = BatchStack.visits () post ++ rest ∧
          (.finish () ∈ post → rest = []) := by
  obtain ⟨q, hQueue, hView, rfl⟩ := runQueue_of_trace hTrace
  have hLin := linearized_of_run hQueue
  refine ⟨⟨q, hQueue, hView, rfl, hLin⟩, fun pre post t wasEmpty hLog => ?_,
    fun pre post hLog => ?_⟩
  · exact BatchStack.Legal.wasEmpty (hLog ▸ hLin.1)
  · exact BatchStack.Legal.visits (hLog ▸ hLin.1)

/-- Two tasks are enqueued, with an exchange that fails, and the second is visited first. -/
theorem linearized_of_trace_two : ∃ (s : State Nat Bool Nat)
    (q : RunQueue Nat (Context Nat Bool) Unit), View s true q ∧ q.Linearized ∧
      q.log = [.push 0 true, .push 1 false, .takeAll (), .visit () 1] := by
  obtain ⟨s, hTrace⟩ : ∃ s : State Nat Bool Nat, Trace (Executor.step fun _ => false)
      (queueEvents true) (init Nat Bool Nat)
      [.push 0 true, .push 1 false, .takeAll (), .visit () 1] s := by
    have hExec : (execTrace (Executor.step fun _ => false) (queueEvents true) (init Nat Bool Nat)
        ([.spawnPool 0 [0]] ++ List.replicate 3 (.advance (.agent 0) false) ++ [.spawn 0 true] ++
        List.replicate 3 (.advance (.agent 0) false) ++ [.spawnPool 1 [0, 1]] ++
        List.replicate 4 (.advance (.agent 1) false) ++ [.spawn 1 true] ++
        List.replicate 2 (.advance (.agent 1) false) ++ [.advance (.agent 1) true] ++
        List.replicate 2 (.advance (.agent 1) false) ++ [.runQueued true 0] ++
        List.replicate 2 (.drain true))).map Prod.fst =
          some [.push 0 true, .push 1 false, .takeAll (), .visit () 1] := by
      decide +kernel
    obtain ⟨⟨events, s⟩, hExec', hEvents⟩ := Option.map_eq_some_iff.mp hExec
    exact ⟨s, hEvents ▸ Trace.of_execTrace hExec'⟩
  obtain ⟨⟨q, -, hView, hLog, hLin⟩, -⟩ := linearized_of_trace hTrace
  exact ⟨s, q, hView, hLin, hLog⟩

end RunQueue

end Embassy.Executor
