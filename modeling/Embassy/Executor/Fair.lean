import Embassy.Executor.Returns
import Embassy.Executor.Slot

/-!
# Fairness

A call of `run_queued` takes the whole queue at once and visits what it took.
Tasks that are queued meanwhile go to the next batch, through the same `next`
field, so a task that keeps waking itself can not stay ahead of the others.

`Layout.ahead` is what the drain of an executor has before it: the task at hand
and the unvisited rest of its batch. It never holds a task twice, a step takes at
most its first task out, and only the swap refills it. So between two swaps no
task is polled twice, and a task that is queued is overtaken by what is left of
one batch, and by its own.

Main results:

* `batch_step` / `ahead_step` — what one step does to a batch.
* `polled_once` — a call polls no task twice.
* `visited_prefix` / `drain_ends` — a drain visits what was linked at its swap,
  and ends.
* `Overtaken` / `Waits.step` — the bound on what is polled before a waiting task.
* `executor_fair` — all of this of every reachable state.
-/

namespace Embassy.Executor

open Embassy.Lib

-- ---------------------------------------------------------------------------
-- What a drain has ahead of it
-- ---------------------------------------------------------------------------

section Accessors

variable {Task : Type}

/-- The task a drain has taken from its batch and not yet polled. -/
def Drain.front : Drain Task → Option Task
  | .setExpires t _ | .clearRunQueued t _ | .poll t _ => some t
  | _ => none

/-- The task whose poll has begun and which is not yet released. -/
def Drain.running : Drain Task → Option Task
  | .polling t _ | .dropFuture t _ | .release t _ => some t
  | _ => none

/-- The operations left in the body of the loop over the batch. -/
def Drain.rank : Drain Task → Nat
  | .setExpires _ _ => 11
  | .clearRunQueued _ _ => 10
  | .poll _ _ => 9
  | .polling _ _ => 8
  | .dropFuture _ _ => 7
  | .release _ _ => 6
  | .updateTest _ _ => 5
  | .updateOr _ _ => 4
  | .updateNext _ _ => 3
  | .updateHead _ _ => 2
  | .walk _ => 1
  | _ => 0

/-- The phase of the loop over the batch. -/
theorem Drain.phase_eq_three_iff {d : Drain Task} : d.phase = 3 ↔ 0 < d.rank := by
  cases d with
  | retain f _ | filter f _ _ | onTask f _ _ | unlink f _ _ | clearTimerQueued f _ _ =>
    cases f <;> simp [phase, closure, rank]
  | _ => simp [phase, closure, rank]

end Accessors

variable {Task Exec Agent : Type}

/-- The tasks that a drain has before it, in their order. -/
def Layout.ahead (L : Layout Task Exec Agent) (s : State Task Exec Agent) (e : Exec) :
    List Task :=
  (s.drain e).front.toList ++ L.batch e

/-- A drain outside of the loop over its batch has none. -/
theorem QueueInv.batch_eq_nil {s : State Task Exec Agent} {L : Layout Task Exec Agent} {e : Exec}
    (hQ : QueueInv s L) (h : (s.drain e).rest = none) : L.batch e = [] := by
  have := hQ.batch e
  rw [h] at this
  exact this.eq_nil

variable [DecidableEq Task] [DecidableEq Exec] [DecidableEq Agent]

/-- The polls that begin with a step, of an executor. -/
def polled (e : Exec) (s : State Task Exec Agent) (a : Action Task Exec Agent) : List Task :=
  if a = .drain e then
    match s.drain e with
    | .poll t _ => [t]
    | _ => []
  else []

/-- The task that `dequeue_all` of an executor goes on to with a step. -/
def visited (e : Exec) (s : State Task Exec Agent) (a : Action Task Exec Agent) : List Task :=
  if a = .drain e then
    match s.drain e with
    | .walk (some t) => [t]
    | _ => []
  else []

/-- The steps of an executor in `run_queued`: its operations, and the returns of
the polls it makes. -/
def ownStep (e : Exec) (_ : State Task Exec Agent) : Action Task Exec Agent → List Unit
  | .drain e' | .pollReturn e' _ => if e' = e then [()] else []
  | _ => []

variable {hasAlarm : Exec → Bool} {s s' : State Task Exec Agent} {L L' : Layout Task Exec Agent}
  {e : Exec} {a : Action Task Exec Agent}

-- ---------------------------------------------------------------------------
-- One step
-- ---------------------------------------------------------------------------

/-- The link of a task that is in a queue or a batch is not written. -/
theorem next_step (hQ : QueueInv s L) (h : step hasAlarm s a = some s') {t : Task}
    (ht : t ∈ L.queue e ∨ t ∈ L.batch e) : s'.next t = s.next t := by
  rcases step_op h with ⟨x, h⟩ | ⟨e', h⟩
  · cases h with
    | @storeNext u e' prev hPc =>
      have hu : t ≠ u := by
        rintro rfl
        obtain ⟨hQueue, hBatch⟩ := hQ.notMem_queue (x := x) (t := t) (by simp [hPc, Pc.owned]) e
        exact ht.elim hQueue hBatch
      simp [hu]
    | _ => rfl
  · cases h with
    | @unlink f prev p hD => cases prev <;> rfl
    | _ => rfl

/-- **The batch**: filled by the swap with the whole queue, and then only visited. -/
theorem batch_step (hQ : QueueInv s L) (hQ' : QueueInv s' L') (h : step hasAlarm s a = some s') :
    (a = .drain e ∧ s.drain e = .swap ∧ L.batch e = [] ∧ L'.batch e = L.queue e) ∨
      L.batch e = visited e s a ++ L'.batch e := by
  have hBatch : Seg s'.next (s.drain e).rest (L.batch e) none :=
    (hQ.batch e).congr fun t ht => next_step hQ h (.inr ht)
  have hBatch' := hQ'.batch e
  -- a step that leaves the rest alone leaves the batch alone
  have hSame : (s'.drain e).rest = (s.drain e).rest → visited e s a = [] →
      L.batch e = visited e s a ++ L'.batch e := by
    intro hRest hVisited
    rw [hVisited, List.nil_append]
    exact hBatch.eq_of_none (hRest ▸ hBatch')
  by_cases ha : a = .drain e
  · subst ha
    have hOp : DrainOp hasAlarm s e s' := drainStep_op h
    cases hOp with
    -- the swap makes the queue the batch
    | swap hD =>
      refine .inl ⟨rfl, hD, hQ.batch_eq_nil (by simp [hD, Drain.rest]), ?_⟩
      refine Seg.eq_of_none ?_ (hQ.queue e)
      simpa [Drain.rest] using hBatch'
    -- the walk takes the first task off the batch
    | @walk t hD =>
      right
      simp only [hD, Drain.rest] at hBatch
      cases hList : L.batch e with
      | nil => simp [hList] at hBatch
      | cons u l =>
        rw [hList] at hBatch
        obtain ⟨hEq, hRest⟩ := hBatch
        cases hEq
        have hl : l = L'.batch e := by
          refine hRest.eq_of_none ?_
          simpa [Drain.rest] using hBatch'
        simp [visited, hD, hl]
    -- the other steps of the drain neither take nor visit
    | start hD | walk_end hD =>
      refine .inr (hSame ?_ (by simp [visited, hD]))
      rw [hD, State.setDrain_drain, Function.update_self]
      split <;> simp [Drain.rest]
    | @retain_end f prev hD =>
      refine .inr (hSame ?_ (by simp [visited, hD]))
      cases f <;> simp [hD, Closure.finish, Drain.rest]
    | registerTimer hD => exact .inr (hSame rfl (by simp [visited, hD]))
    | retain_next hD | filter_expired hD | filter_keep hD | filter_next hD | filter_drop hD
    | onTask hD | unlink hD | clearTimerQueued hD | setExpires hD | clear_spawned hD
    | clear_ignored hD | poll hD | poll_ready hD | poll_pending hD | dropFuture hD | release hD
    | update_none hD | update_some hD | updateOr_old hD | updateOr_new hD | updateNext hD
    | updateHead hD | setAlarm hD =>
      exact .inr (hSame (by simp [hD, Drain.rest]) (by simp [visited, hD]))
  · refine .inr (hSame ?_ (by simp [visited, ha]))
    rcases drain_of_ne h ha with hD | ⟨now, -, hD, hD' | hD'⟩ | ⟨t, next, -, -, hD, hD' | hD'⟩
    · rw [hD]
    all_goals rw [hD, hD', Drain.rest, Drain.rest]

/-- **The tasks ahead**: refilled by the swap when none is left; otherwise the first
one is polled, or ignored as it is not spawned, or nothing changes. -/
theorem ahead_step (hQ : QueueInv s L) (hQ' : QueueInv s' L') (h : step hasAlarm s a = some s') :
    (a = .drain e ∧ s.drain e = .swap ∧ L.ahead s e = [] ∧ L'.ahead s' e = L.queue e) ∨
      L.ahead s e = polled e s a ++ L'.ahead s' e ∨
      ∃ t, L.ahead s e = t :: L'.ahead s' e ∧ polled e s a = [] ∧ (s.word t).spawned = false ∧
        s.skips t < s'.skips t := by
  have hBatch := batch_step (e := e) hQ hQ' h
  -- the tasks ahead are the one at the front and the batch
  by_cases ha : a = .drain e
  · subst ha
    have hOp : DrainOp hasAlarm s e s' := drainStep_op h
    rcases hBatch with ⟨-, hD, hNil, hEq⟩ | hBatch
    · left
      have hD' : s'.drain e = .walk (s.head e) := by
        cases hOp <;> simp_all
      exact ⟨rfl, hD, by simp [Layout.ahead, hD, hNil, Drain.front],
        by simp [Layout.ahead, hD', hEq, Drain.front]⟩
    · right
      cases hOp with
      -- a task that is not spawned leaves the front without a poll
      | @clear_ignored t next hD hW =>
        right
        simp only [visited, hD, if_true, List.nil_append] at hBatch
        exact ⟨t, by simp [Layout.ahead, hD, hBatch, Drain.front], by simp [polled, hD], hW,
          by simp⟩
      | start hD | walk_end hD =>
        left
        simp only [visited, hD, if_true, List.nil_append] at hBatch
        by_cases hA : hasAlarm e = true <;>
          simp [Layout.ahead, hD, hA, hBatch, Drain.front, polled]
      | @retain_end f prev hD =>
        left
        simp only [visited, hD, if_true, List.nil_append] at hBatch
        cases f <;> simp [Layout.ahead, hD, hBatch, Closure.finish, Drain.front, polled]
      | registerTimer hD =>
        left
        simp only [visited, hD, if_true, List.nil_append] at hBatch
        simp [Layout.ahead, hD, hBatch, polled]
      | retain_next hD | filter_expired hD | filter_keep hD | filter_next hD | filter_drop hD
      | onTask hD | unlink hD | clearTimerQueued hD | swap hD | walk hD | setExpires hD
      | clear_spawned hD | poll hD | poll_ready hD | poll_pending hD | dropFuture hD | release hD
      | update_none hD | update_some hD | updateOr_old hD | updateOr_new hD | updateNext hD
      | updateHead hD | setAlarm hD =>
        left
        simp only [visited, hD, if_true, List.nil_append] at hBatch
        simp [Layout.ahead, hD, hBatch, Drain.front, polled]
  · right
    left
    have hBatch : L.batch e = L'.batch e := by
      rcases hBatch with ⟨hEq, -⟩ | hBatch
      · exact absurd hEq ha
      · simpa [visited, ha] using hBatch
    -- steps of others do not move the front
    have hFront : (s'.drain e).front = (s.drain e).front := by
      rcases drain_of_ne h ha with hD | ⟨now, -, hD, hD' | hD'⟩ | ⟨t, next, -, -, hD, hD' | hD'⟩
      · rw [hD]
      all_goals simp [hD, hD', Drain.front]
    simp [Layout.ahead, hBatch, hFront, polled, ha]

/-- What a step polls is counted. -/
theorem polls_of_polled (h : step hasAlarm s a = some s') {t : Task} (ht : t ∈ polled e s a) :
    s.polls t < s'.polls t := by
  by_cases ha : a = .drain e
  · subst ha
    have hOp : DrainOp hasAlarm s e s' := drainStep_op h
    cases hD : s.drain e with
    | poll u next =>
      have hu : t = u := by simpa [polled, hD] using ht
      subst hu
      cases hOp <;> simp_all
    | _ => simp [polled, hD] at ht
  · simp [polled, ha] at ht

theorem calls_step (h : step hasAlarm s a = some s') (e : Exec) : s.calls e ≤ s'.calls e := by
  rcases step_op h with ⟨x, h⟩ | ⟨e', h⟩
  · cases h <;> exact Nat.le_refl _
  · cases h with
    | start hD now =>
      by_cases he : e = e'
      · simp [he]
      · simp [he]
    | @unlink f prev p hD => cases prev <;> exact Nat.le_refl _
    | _ => exact Nat.le_refl _

/-- Within one call a drain goes through its phases in their order. -/
theorem phase_step (h : step hasAlarm s a = some s') (hCall : s'.calls e = s.calls e) :
    (s'.drain e).phase ≤ (s.drain e).phase := by
  rcases step_op h with ⟨x, h⟩ | ⟨e', h⟩
  · exact Nat.le_of_eq (by rw [h.drain_eq])
  · by_cases he : e = e'
    · subst he
      cases h with
      | start hD now => simp at hCall
      | walk_end hD =>
        rw [State.setDrain_drain, Function.update_self]
        split <;> simp [hD, Drain.phase, Drain.closure]
      | @retain_end f prev hD => cases f <;> simp [hD, Closure.finish, Drain.phase, Drain.closure]
      | registerTimer hD => exact Nat.le_refl _
      | retain_next hD | filter_expired hD | filter_keep hD | filter_next hD | filter_drop hD
      | onTask hD | unlink hD | clearTimerQueued hD | swap hD | walk hD | setExpires hD
      | clear_spawned hD | clear_ignored hD | poll hD | poll_ready hD | poll_pending hD
      | dropFuture hD | release hD | update_none hD | update_some hD | updateOr_old hD
      | updateOr_new hD | updateNext hD | updateHead hD | setAlarm hD =>
        simp [hD, Drain.phase, Drain.closure]
    · exact Nat.le_of_eq (by rw [h.drain_of_ne he])

-- ---------------------------------------------------------------------------
-- A call polls no task twice
-- ---------------------------------------------------------------------------

/-- A task at which the drain is, to poll it or after, is not in the rest of its batch. -/
def Fresh (s : State Task Exec Agent) : Prop :=
  ∀ L, QueueInv s L → ∀ e t, (s.drain e).active = some t → t ∉ L.batch e

/-- The drain takes a task out of its batch before it polls it, and only the swap fills a batch. -/
theorem Fresh.step (hF : Fresh s) (hQ : QueueInv s L) (h : step hasAlarm s a = some s') :
    Fresh s' := by
  intro L' hQ' e t hActive hMem
  rcases active_step h hActive with hOld | hClear
  · rcases batch_step (e := e) hQ hQ' h with ⟨-, hD, -⟩ | hBatch
    · simp [hD, Drain.active] at hOld
    · exact hF L hQ e t hOld (by simp [hBatch, hMem])
  · -- the clear has taken the mark away
    obtain ⟨e', next, hD, -⟩ := clears_step h hClear
    have hMarked := (hQ'.marked t).mpr (by simp [(hQ'.batched e t).mp hMem])
    rcases step_op h with ⟨x, hOp⟩ | ⟨e'', hOp⟩
    · cases hOp <;> simp at hClear
    · cases hOp with
      | @clear_spawned u _ _ _ | @clear_ignored u _ _ _ =>
        by_cases hu : t = u
        · simp [hu] at hMarked
        · simp [hu] at hClear
      | @unlink _ prev _ _ => cases prev <;> exact absurd hClear (Nat.lt_irrefl _)
      | _ => exact absurd hClear (Nat.lt_irrefl _)

/-- The invariants of the queues and drains that every reachable state keeps. -/
structure DrainInv (s : State Task Exec Agent) : Prop where
  queues : ∃ L, QueueInv s L
  polls : PollInv s
  fresh : Fresh s

/-- What the drains are at is kept by every step. -/
theorem DrainInv.step (hI : DrainInv s) (h : step hasAlarm s a = some s') : DrainInv s' := by
  obtain ⟨L, hQ⟩ := hI.queues
  obtain ⟨L', hQ', -⟩ := hQ.step h
  exact ⟨⟨L', hQ'⟩, hI.polls.step hQ h, hI.fresh.step hQ h⟩

omit [DecidableEq Task] [DecidableEq Exec] [DecidableEq Agent] in
theorem drainInv_init : DrainInv (init Task Exec Agent) where
  queues := ⟨_, queueInv_init⟩
  polls := pollInv_init
  fresh := by
    intro L hQ e t hActive
    simp [init, Drain.active] at hActive

theorem drainInv_of_run (hRun : Reaches hasAlarm (init Task Exec Agent) s) : DrainInv s :=
  hRun.invariant drainInv_init fun _ _ _ hI _ hs => hI.step hs

omit [DecidableEq Task] [DecidableEq Exec] [DecidableEq Agent] in
/-- No task is ahead twice. -/
theorem DrainInv.ahead_nodup (hI : DrainInv s) (hQ : QueueInv s L) : (L.ahead s e).Nodup := by
  have hBatch := (hQ.batch e).nodup
  have hCons : ∀ t, (s.drain e).front = some t → t ∉ L.batch e := by
    intro t hFront hMem
    cases hD : s.drain e <;> simp [hD, Drain.front] at hFront
    case setExpires | clearRunQueued =>
      have hTaken := (hQ.taken e t).mp (by simp [hD, hFront, Drain.taken])
      simp [(hQ.batched e t).mp hMem] at hTaken
    case poll => exact hI.fresh L hQ e t (by simp [hD, hFront, Drain.active]) hMem
  cases hFront : (s.drain e).front with
  | none => simpa [Layout.ahead, hFront] using hBatch
  | some t => simpa [Layout.ahead, hFront, hCons t hFront] using hBatch

/-- **Invariant rule within one call** of `run_queued`. -/
theorem call_invariant {β : Type} {emit : State Task Exec Agent → Action Task Exec Agent → List β}
    {I : List β → State Task Exec Agent → Prop} {bs : List β} (hI : DrainInv s)
    (hT : Trace (step hasAlarm) emit s bs s') (hCall : s'.calls e = s.calls e) (hInit : I [] s)
    (hStep : ∀ bs u a v, DrainInv u → v.calls e = u.calls e → I bs u →
      step hasAlarm u a = some v → I (bs ++ emit u a) v) : DrainInv s' ∧ I bs s' := by
  have hAll : (DrainInv s' ∧ s.calls e ≤ s'.calls e) ∧ (s'.calls e = s.calls e → I bs s') := by
    refine hT.invariant (I := fun bs s' => (DrainInv s' ∧ s.calls e ≤ s'.calls e) ∧
      (s'.calls e = s.calls e → I bs s')) ⟨⟨hI, Nat.le_refl _⟩, fun _ => hInit⟩ ?_
    rintro bs u a v ⟨⟨hIu, hLe⟩, hOld⟩ hs
    have hMono := calls_step hs e
    exact ⟨⟨hIu.step hs, by omega⟩, fun hSame =>
      hStep bs u a v hIu (by omega) (hOld (by omega)) hs⟩
  exact ⟨hAll.1.1, hAll.2 hCall⟩

/-- **A call polls no task twice.** -/
theorem polled_once (hI : DrainInv s) {ts : List Task}
    (hT : Trace (step hasAlarm) (polled e) s ts s') (hCall : s'.calls e = s.calls e) :
    ts.Nodup := by
  -- those polled and those ahead are together without duplicates
  obtain ⟨hI', hNodup, -⟩ := call_invariant (I := fun ts s' =>
    (∀ L, QueueInv s' L → (ts ++ L.ahead s' e).Nodup) ∧ (4 ≤ (s'.drain e).phase → ts = []))
    hI hT hCall ⟨fun L hQ => hI.ahead_nodup hQ, fun _ => rfl⟩ (by
      rintro bs u a v hIu hSame ⟨hNodup, hEmpty⟩ hs
      have hPhase := phase_step hs hSame
      obtain ⟨M, hM⟩ := hIu.queues
      refine ⟨fun M' hM' => ?_, fun hEarly => ?_⟩
      · have hBefore := hNodup M hM
        rcases ahead_step (e := e) hM hM' hs with ⟨rfl, hD, -, hEq⟩ | hEq | ⟨t, hEq, hNone, -⟩
        · -- the first poll of the call is still to come
          rw [hEmpty (by simp [hD, Drain.phase]), hEq]
          simpa [polled, hD] using (hM.queue e).nodup
        · rwa [hEq, ← List.append_assoc] at hBefore
        · rw [hNone, List.append_nil]
          rw [hEq] at hBefore
          exact hBefore.sublist (List.sublist_cons_self _ _ |>.append_left _)
      · rw [hEmpty (by omega), List.nil_append, polled]
        split
        · split
          · rename_i hD
            have hAt : (u.drain e).phase = 3 := by simp [hD, Drain.phase, Drain.closure]
            omega
          · rfl
        · rfl)
  obtain ⟨L', hQ'⟩ := hI'.queues
  exact (hNodup L' hQ').of_append_left

-- ---------------------------------------------------------------------------
-- A drain visits what was linked at its swap
-- ---------------------------------------------------------------------------

omit [DecidableEq Task] [DecidableEq Exec] [DecidableEq Agent] in
/-- A batch is there only while it is walked. -/
theorem QueueInv.batch_of_phase (hQ : QueueInv s L) (h : (s.drain e).phase ≠ 3) :
    L.batch e = [] := by
  refine hQ.batch_eq_nil ?_
  cases hD : s.drain e <;> simp [hD, Drain.phase, Drain.closure, Drain.rest] at h ⊢

/-- The swap takes the whole queue. -/
theorem swap_takes (hQ : QueueInv s L) (hQ' : QueueInv s' L') (hD : s.drain e = .swap)
    (h : step hasAlarm s (.drain e) = some s') :
    L'.batch e = L.queue e ∧ s'.drain e = .walk (s.head e) ∧ s'.calls = s.calls := by
  have hOp : DrainOp hasAlarm s e s' := drainStep_op h
  obtain ⟨hAt, hCalls, hNext⟩ :
      s'.drain e = .walk (s.head e) ∧ s'.calls = s.calls ∧ s'.next = s.next := by
    cases hOp <;> simp_all
  have hBatch' := hQ'.batch e
  rw [hAt, hNext] at hBatch'
  exact ⟨hBatch'.eq_of_none (hQ.queue e), hAt, hCalls⟩

section Drain

variable {s₁ s₂ : State Task Exec Agent} {q : List Task}

/-- **A drain visits what was linked at its swap**, in that order, and is through
with it when it leaves the loop. -/
theorem visited_prefix (hI : DrainInv s) (hq : Seg s.next (s.head e) q none)
    (hD : s.drain e = .swap) (h : step hasAlarm s (.drain e) = some s₁) {vs : List Task}
    (hT : Trace (step hasAlarm) (visited e) s₁ vs s₂) (hCall : s₂.calls e = s.calls e) :
    vs <+: q ∧ ((s₂.drain e).phase ≠ 3 → vs = q) := by
  obtain ⟨L, hQ⟩ := hI.queues
  obtain ⟨L₁, hQ₁⟩ := (hI.step h).queues
  obtain ⟨-, hAt, hCalls⟩ := swap_takes hQ hQ₁ hD h
  obtain rfl := hq.eq_of_none (hQ.queue e)
  -- what was visited and what is left make up the queue that was taken
  obtain ⟨hI₂, -, hEq⟩ := call_invariant (I := fun vs s₂ =>
    (s₂.drain e).phase ≤ 3 ∧ ∀ M, QueueInv s₂ M → L.queue e = vs ++ M.batch e)
    (hI.step h) hT (by rw [hCall, hCalls])
    ⟨by simp [hAt, Drain.phase, Drain.closure], fun M hM => (swap_takes hQ hM hD h).1.symm⟩ (by
      rintro bs u a v hIu hSame ⟨hPhase, hBatch⟩ hs
      have hLess := phase_step hs hSame
      obtain ⟨M, hM⟩ := hIu.queues
      refine ⟨by omega, fun M' hM' => ?_⟩
      rcases batch_step (e := e) hM hM' hs with ⟨-, hSwap, -⟩ | hEq
      · simp [hSwap, Drain.phase] at hPhase
      · rw [hBatch M hM, hEq, List.append_assoc])
  obtain ⟨M, hM⟩ := hI₂.queues
  refine ⟨⟨_, (hEq M hM).symm⟩, fun hLeft => ?_⟩
  rw [hEq M hM, hM.batch_of_phase hLeft, List.append_nil]

/-- Every step of a drain in the loop over its batch leaves less to do. -/
theorem rank_step (hQ : QueueInv s L) (hQ' : QueueInv s' L') (h : step hasAlarm s a = some s')
    (hRank : 0 < (s.drain e).rank) (hRank' : 0 < (s'.drain e).rank) :
    11 * (L'.batch e).length + (s'.drain e).rank + (ownStep e s a).length ≤
      11 * (L.batch e).length + (s.drain e).rank := by
  -- a visit takes one task off the batch, worth eleven steps
  have hLength : (L.batch e).length = (visited e s a).length + (L'.batch e).length := by
    rw [← List.length_append]
    rcases batch_step (e := e) hQ hQ' h with ⟨-, hSwap, -⟩ | hEq
    · simp [hSwap, Drain.rank] at hRank
    · rw [← hEq]
  by_cases ha : a = .drain e
  · subst ha
    have hOp : DrainOp hasAlarm s e s' := drainStep_op h
    cases hOp with
    | walk_end hD =>
      by_cases hA : hasAlarm e = true <;> simp [hA, Drain.rank] at hRank'
    | registerTimer hD => simp [step, drainStep, hD] at h
    | start hD | retain_next hD | retain_end hD | filter_expired hD | filter_keep hD
    | filter_next hD | filter_drop hD | onTask hD | unlink hD | clearTimerQueued hD | swap hD
    | setAlarm hD => simp [hD, Drain.rank] at hRank
    | walk hD | setExpires hD | clear_spawned hD | clear_ignored hD | poll hD | poll_ready hD
    | poll_pending hD | dropFuture hD | release hD | update_none hD | update_some hD
    | updateOr_old hD | updateOr_new hD | updateNext hD | updateHead hD =>
      simp only [visited, hD, if_true, List.length_nil, List.length_singleton] at hLength
      simp [ownStep, hD, Drain.rank]
      omega
  · -- not a step of the drain: only the return of the poll moves it
    simp only [visited, ha, if_false, List.length_nil] at hLength
    rcases drain_of_ne h ha with hD | ⟨-, -, hD, -⟩ | ⟨t, next, ready, rfl, hD, hD'⟩
    · have hOwn : ownStep e s a = [] := by
        cases a with
        | drain e' =>
          have he : e' ≠ e := fun he => ha (he ▸ rfl)
          simp [ownStep, he]
        | pollReturn e' ready =>
          have he : e' ≠ e := by
            rintro rfl
            simp only [step] at h
            split at h
            · rename_i hPoll
              split at h <;> cases h <;> simp [hPoll] at hD
            · cases h
          simp [ownStep, he]
        | _ => rfl
      rw [hD, hOwn, List.length_nil]
      omega
    · simp [hD, Drain.rank] at hRank
    · rcases hD' with hD' | hD' <;> simp [hD, hD', ownStep, Drain.rank] <;> omega

/-- **A drain ends** if the polls return: it makes boundedly many steps in the loop
over its batch, and only a poll holds it up. -/
theorem drain_ends (hI : DrainInv s) (hq : Seg s.next (s.head e) q none)
    (hD : s.drain e = .swap) (h : step hasAlarm s (.drain e) = some s₁) {os : List Unit}
    (hT : Trace (step hasAlarm) (ownStep e) s₁ os s₂) (hCall : s₂.calls e = s.calls e)
    (hPhase : (s₂.drain e).phase = 3) :
    os.length ≤ 11 * q.length ∧ ((∃ t next, s₂.drain e = .polling t next) ∨
      ∃ s₃, step hasAlarm s₂ (.drain e) = some s₃) := by
  obtain ⟨L, hQ⟩ := hI.queues
  obtain ⟨L₁, hQ₁⟩ := (hI.step h).queues
  obtain ⟨-, hAt, hCalls⟩ := swap_takes hQ hQ₁ hD h
  obtain rfl := hq.eq_of_none (hQ.queue e)
  -- steps done and steps still to do stay within the bound
  obtain ⟨hI₂, -, hBound⟩ := call_invariant (I := fun os s₂ =>
    (s₂.drain e).phase ≤ 3 ∧ ((s₂.drain e).phase = 3 → ∀ M, QueueInv s₂ M →
      11 * (M.batch e).length + (s₂.drain e).rank + os.length ≤ 11 * (L.queue e).length + 1))
    (hI.step h) hT (by rw [hCall, hCalls])
    ⟨by simp [hAt, Drain.phase, Drain.closure], fun _ M hM => by
      simp [hAt, (swap_takes hQ hM hD h).1, Drain.rank]⟩ (by
      rintro bs u a v hIu hSame ⟨hLoop, hBound⟩ hs
      have hLess := phase_step hs hSame
      obtain ⟨M, hM⟩ := hIu.queues
      refine ⟨by omega, fun hThree M' hM' => ?_⟩
      have hBefore : (u.drain e).phase = 3 := by omega
      have hRank := rank_step hM hM' hs (Drain.phase_eq_three_iff.mp hBefore)
        (Drain.phase_eq_three_iff.mp hThree)
      have hOld := hBound hBefore M hM
      rw [List.length_append]
      omega)
  obtain ⟨M, hM⟩ := hI₂.queues
  have hRank := Drain.phase_eq_three_iff.mp hPhase
  have := hBound hPhase M hM
  refine ⟨by omega, ?_⟩
  by_cases hPoll : ∃ t next, s₂.drain e = .polling t next
  · exact .inl hPoll
  · right
    refine drainStep_isSome ?_ (fun t next hD => hPoll ⟨t, next, hD⟩) ?_
    · intro hIdle
      simp [hIdle, Drain.rank] at hRank
    · intro f prev p hOn
      simp [hOn, Drain.rank] at hRank

end Drain

-- ---------------------------------------------------------------------------
-- Waiting for a poll
-- ---------------------------------------------------------------------------

section Overtaken

variable {n k : Nat} {ts ahead : List Task}

/-- Of the polls so far those of the running batch are of tasks that are no longer
ahead, and the older ones are at most `n` of each task. -/
def Overtaken (n : Nat) (ts ahead : List Task) : Prop :=
  ∃ old new, ts = old ++ new ∧ (new ++ ahead).Nodup ∧ ∀ t, old.count t ≤ n

/-- A task of the batch may be one poll ahead of the older ones. -/
theorem Overtaken.count_le (h : Overtaken n ts ahead) (t : Task) : ts.count t ≤ n + 1 := by
  obtain ⟨old, new, rfl, hNodup, hOld⟩ := h
  have hNew := List.nodup_iff_count.mp hNodup.of_append_left t
  have := hOld t
  rw [List.count_append]
  omega

/-- The task that is polled is no longer ahead. -/
theorem Overtaken.poll {t : Task} (h : Overtaken n ts (t :: ahead)) :
    Overtaken n (ts ++ [t]) ahead := by
  obtain ⟨old, new, rfl, hNodup, hOld⟩ := h
  exact ⟨old, new ++ [t], List.append_assoc _ _ _, by simpa using hNodup, hOld⟩

theorem Overtaken.ignore {t : Task} (h : Overtaken n ts (t :: ahead)) : Overtaken n ts ahead := by
  obtain ⟨old, new, rfl, hNodup, hOld⟩ := h
  refine ⟨old, new, rfl, hNodup.sublist ?_, hOld⟩
  exact (List.sublist_cons_self t ahead).append_left new

/-- A new batch begins. -/
theorem Overtaken.swap {queue : List Task} (h : Overtaken n ts ahead) (hQueue : queue.Nodup) :
    Overtaken (n + 1) ts queue :=
  ⟨ts, [], (List.append_nil ts).symm, hQueue, h.count_le⟩

end Overtaken

variable {k : Nat} {u : Task} {ts : List Task}

/-- `u` is in the queue of `e`, or ahead of its drain, and until it is polled no task
is polled more than `k` times. -/
def Waits (k : Nat) (e : Exec) (u : Task) (ts : List Task) (s : State Task Exec Agent) : Prop :=
  ∃ L n, QueueInv s L ∧ Overtaken n ts (L.ahead s e) ∧
    (u ∈ L.queue e ∧ n + 2 ≤ k ∨ u ∈ L.ahead s e ∧ n + 1 ≤ k)

omit [DecidableEq Exec] [DecidableEq Agent] in
/-- No task was polled more often than the bound. -/
theorem Waits.count_le (hW : Waits k e u ts s) (t : Task) : ts.count t ≤ k := by
  obtain ⟨L, n, -, hO, hAt⟩ := hW
  have := hO.count_le t
  omega

omit [DecidableEq Exec] [DecidableEq Agent] in
/-- A task that waits was spawned on the executor. -/
theorem Waits.home (hW : Waits k e u ts s) (hP : PollInv s) : s.executor u = some e := by
  obtain ⟨L, n, hQ, -, ⟨hAt, -⟩ | ⟨hAt, -⟩⟩ := hW
  · exact hQ.home u e (.inl ((hQ.queued e u).mp hAt))
  · rcases List.mem_append.mp hAt with hFront | hBatch
    · -- The front of a drain is the task it has in its hands.
      cases hD : s.drain e <;> simp [hD, Drain.front] at hFront
      case setExpires | clearRunQueued =>
        have hTaken := (hQ.taken e u).mp (by simp [hD, hFront, Drain.taken])
        exact hQ.home u e (.inr (.inr hTaken))
      case poll => exact hP.home e u (by simp [hD, hFront, Drain.active])
    · exact hQ.home u e (.inr (.inl ((hQ.batched e u).mp hBatch)))

/-- **One step**: the task goes on waiting, or is polled, or is ignored. -/
theorem Waits.step (hW : Waits k e u ts s) (h : step hasAlarm s a = some s') :
    Waits k e u (ts ++ polled e s a) s' ∨ s.polls u < s'.polls u ∨
      (s.word u).spawned = false ∧ s.skips u < s'.skips u := by
  obtain ⟨L, n, hQ, hO, hAt⟩ := hW
  obtain ⟨L', hQ', hMoves⟩ := hQ.step h
  -- The task moves from the queue to the batch with all others, or stays ahead.
  have hKeep : (u ∈ L.ahead s e → u ∈ L'.ahead s' e) →
      u ∈ L'.queue e ∧ n + 2 ≤ k ∨ u ∈ L'.ahead s' e ∧ n + 1 ≤ k := by
    intro hAhead
    rcases hAt with ⟨hQueue, hLe⟩ | ⟨hMem, hLe⟩
    · rcases hMoves.queued u e ((hQ.queued e u).mp hQueue) with hStay | ⟨-, hMoved⟩
      · exact .inl ⟨(hQ'.queued e u).mpr hStay, hLe⟩
      · exact .inr ⟨List.mem_append_right _ ((hQ'.batched e u).mpr hMoved), by omega⟩
    · exact .inr ⟨hAhead hMem, hLe⟩
  rcases ahead_step (e := e) hQ hQ' h with ⟨rfl, hD, hNil, hEq⟩ | hEq | ⟨t, hEq, hNone, hNot, hSkip⟩
  · -- the queue becomes the batch
    left
    have hPolled : polled e s (.drain e) = [] := by simp [polled, hD]
    rw [hPolled, List.append_nil]
    rcases hAt with ⟨hQueue, hLe⟩ | ⟨hMem, -⟩
    · refine ⟨L', n + 1, hQ', ?_, .inr ⟨hEq ▸ hQueue, by omega⟩⟩
      rw [hEq]
      exact hO.swap (hQ.queue e).nodup
    · simp [hNil] at hMem
  · cases hPolled : polled e s a with
    | nil =>
      left
      rw [hPolled, List.nil_append] at hEq
      rw [List.append_nil]
      exact ⟨L', n, hQ', hEq ▸ hO, hKeep fun hMem => hEq ▸ hMem⟩
    | cons t rest =>
      -- A step polls one task at most.
      have hRest : rest = [] := by
        unfold polled at hPolled
        split at hPolled
        · split at hPolled <;> simp_all
        · cases hPolled
      subst hRest
      rw [hPolled, List.singleton_append] at hEq
      by_cases hu : u = t
      · exact .inr (.inl (polls_of_polled h (e := e) (by simp [hPolled, hu])))
      · left
        refine ⟨L', n, hQ', (hEq ▸ hO).poll, hKeep fun hMem => ?_⟩
        simpa [hEq, hu] using hMem
  · by_cases hu : u = t
    · subst hu
      exact .inr (.inr ⟨hNot, hSkip⟩)
    · left
      rw [hNone, List.append_nil]
      refine ⟨L', n, hQ', (hEq ▸ hO).ignore, hKeep fun hMem => ?_⟩
      simpa [hEq, hu] using hMem

theorem skips_step (h : step hasAlarm s a = some s') (t : Task) : s.skips t ≤ s'.skips t := by
  rcases step_op h with ⟨x, h⟩ | ⟨e', h⟩
  · cases h <;> exact Nat.le_refl _
  · cases h with
    | @clear_ignored u next hD hW => by_cases hu : t = u <;> simp [hu]
    | @unlink f prev p hD => cases prev <;> exact Nat.le_refl _
    | _ => exact Nat.le_refl _

/-- A poll begins by being counted. -/
theorem running_step (h : step hasAlarm s a = some s') (hR : (s'.drain e).running = some u) :
    (s.drain e).running = some u ∨ s.polls u < s'.polls u := by
  rcases step_op h with ⟨x, h⟩ | ⟨e', h⟩
  · left
    rwa [← h.drain_eq]
  · by_cases he : e = e'
    · subst he
      cases h with
      -- a task starts running by being polled, which counts
      | @poll t next hD =>
        have hu : t = u := by simpa [Drain.running] using hR
        exact .inr (by simp [hu])
      | start hD | walk_end hD =>
        rw [State.setDrain_drain, Function.update_self] at hR
        split at hR <;> simp [Drain.running] at hR
      | @retain_end f prev hD => cases f <;> simp [Closure.finish, Drain.running] at hR
      | registerTimer hD => exact .inl hR
      -- until the release it is the task running
      | poll_ready hD | dropFuture hD =>
        left
        simpa [hD, Drain.running] using hR
      | _ => simp [Drain.running] at hR
    · left
      rwa [← h.drain_of_ne he]

/-- **The bound**: a spawned task that waits is polled before any task is polled more
than `k` times, unless its last poll was running and it is ignored as finished. -/
theorem Waits.bound (hI : DrainInv s) (hW : Waits k e u [] s) (hSpawned : (s.word u).spawned = true)
    (hT : Trace (Executor.step hasAlarm) (polled e) s ts s') (hPolls : s'.polls u = s.polls u) :
    (∀ t, ts.count t ≤ k) ∨ (s.drain e).running = some u ∧ s.skips u < s'.skips u := by
  -- until its poll either the wait goes on or `u` was skipped, which is for a task that ends
  have hInv : (DrainInv s' ∧ s.polls u ≤ s'.polls u ∧ s.skips u ≤ s'.skips u) ∧
      (s.polls u < s'.polls u ∨
        (Waits k e u ts s' ∧ ((s.drain e).running ≠ some u →
          (s'.word u).spawned = true ∧ (s'.drain e).running ≠ some u)) ∨
        (s.drain e).running = some u ∧ s.skips u < s'.skips u) := by
    refine hT.invariant (I := fun ts s' =>
      (DrainInv s' ∧ s.polls u ≤ s'.polls u ∧ s.skips u ≤ s'.skips u) ∧
      (s.polls u < s'.polls u ∨
        (Waits k e u ts s' ∧ ((s.drain e).running ≠ some u →
          (s'.word u).spawned = true ∧ (s'.drain e).running ≠ some u)) ∨
        (s.drain e).running = some u ∧ s.skips u < s'.skips u)) ?_ ?_
    · exact ⟨⟨hI, Nat.le_refl _, Nat.le_refl _⟩, .inr (.inl ⟨hW, fun hNot => ⟨hSpawned, hNot⟩⟩)⟩
    · rintro bs v a w ⟨⟨hIv, hPoll, hSkip⟩, hOld⟩ hs
      have hPoll' := (polls_step hs u).1
      have hSkip' := skips_step hs u
      refine ⟨⟨hIv.step hs, by omega, by omega⟩, ?_⟩
      -- the three cases of the invariant, one step later
      rcases hOld with hLt | ⟨hWv, hKeep⟩ | ⟨hR, hLt⟩
      · left
        omega
      · rcases hWv.step hs with hWw | hLt | ⟨hNot, hLt⟩
        · by_cases hLt : s.polls u < w.polls u
          · exact .inl hLt
          · refine .inr (.inl ⟨hWw, fun hR => ?_⟩)
            obtain ⟨hSp, hNotR⟩ := hKeep hR
            have hHome := hWv.home hIv.polls
            refine ⟨?_, ?_⟩
            · -- it is released at its own executor only
              rcases spawned_step hs hSp with hSp' | ⟨e', next, hD⟩
              · exact hSp'
              · have hAt := hIv.polls.home e' u (by simp [hD, Drain.active])
                have he : e = e' := Option.some.inj (hHome.symm.trans hAt)
                subst he
                simp [hD, Drain.running] at hNotR
            · intro hR'
              rcases running_step hs hR' with hR' | hLt'
              · exact hNotR hR'
              · omega
        · left
          omega
        · right
          right
          refine ⟨?_, by omega⟩
          by_contra hR
          rw [(hKeep hR).1] at hNot
          cases hNot
      · exact .inr (.inr ⟨hR, by omega⟩)
  rcases hInv.2 with hLt | ⟨hW', -⟩ | hSkipped
  · omega
  · exact .inl hW'.count_le
  · exact .inr hSkipped

-- ---------------------------------------------------------------------------
-- Fairness
-- ---------------------------------------------------------------------------

/-- What an executor guarantees to its tasks, from a state on. -/
structure Fair (hasAlarm : Exec → Bool) (s : State Task Exec Agent) (e : Exec) : Prop where
  /-- A call polls every task at most once. -/
  once : ∀ ts s', Trace (step hasAlarm) (polled e) s ts s' → s'.calls e = s.calls e → ts.Nodup
  /-- A drain visits exactly the tasks linked at its swap. -/
  visits : ∀ q s₁, s.drain e = .swap → Seg s.next (s.head e) q none →
    step hasAlarm s (.drain e) = some s₁ → ∀ vs s₂, Trace (step hasAlarm) (visited e) s₁ vs s₂ →
      s₂.calls e = s.calls e → vs <+: q ∧ ((s₂.drain e).phase ≠ 3 → vs = q)
  /-- It ends if the polls return: nothing else holds it up, and the number of its
  steps is bounded. -/
  ends : ∀ q s₁, s.drain e = .swap → Seg s.next (s.head e) q none →
    step hasAlarm s (.drain e) = some s₁ → ∀ os s₂, Trace (step hasAlarm) (ownStep e) s₁ os s₂ →
      s₂.calls e = s.calls e → (s₂.drain e).phase = 3 → os.length ≤ 11 * q.length ∧
        ((∃ t next, s₂.drain e = .polling t next) ∨ ∃ s₃, step hasAlarm s₂ (.drain e) = some s₃)
  /-- While a spawned task is in the queue and not yet polled, every task is polled at
  most twice. A task whose last poll is running is ignored as finished instead. -/
  queued : ∀ u q, Seg s.next (s.head e) q none → u ∈ q → (s.word u).spawned = true →
    ∀ ts s', Trace (step hasAlarm) (polled e) s ts s' → s'.polls u = s.polls u →
      (∀ t, ts.count t ≤ 2) ∨ (s.drain e).running = some u ∧ s.skips u < s'.skips u
  /-- While it is in the batch being drained, at most once. -/
  batched : ∀ u b, Seg s.next (s.drain e).rest b none → u ∈ (s.drain e).front.toList ++ b →
    (s.word u).spawned = true → ∀ ts s', Trace (step hasAlarm) (polled e) s ts s' →
      s'.polls u = s.polls u → ∀ t, ts.count t ≤ 1

/--
**The executor is fair.** In every state that any number of wakers, spawners and
drains reach: a call of `run_queued` polls no task twice, and its drain ends
after visiting exactly the tasks linked at its swap. A spawned task that is
linked is polled before any other is polled a third time, and before any other
is polled a second time if it is already in the batch; only a task that was
woken during a poll that returns `Ready` is ignored when its turn comes.
-/
theorem executor_fair (hRun : Reaches hasAlarm (init Task Exec Agent) s) (e : Exec) :
    Fair hasAlarm s e := by
  have hI := drainInv_of_run hRun
  obtain ⟨L, hQ⟩ := hI.queues
  constructor
  case once => exact fun ts s' hT hCall => polled_once hI hT hCall
  case visits => exact fun q s₁ hD hq h vs s₂ hT hCall => visited_prefix hI hq hD h hT hCall
  case ends => exact fun q s₁ hD hq h os s₂ hT hCall => drain_ends hI hq hD h hT hCall
  case queued =>
    intro u q hq hMem hSpawned ts s' hT hPolls
    obtain rfl := hq.eq_of_none (hQ.queue e)
    have hW : Waits 2 e u [] s :=
      ⟨L, 0, hQ, ⟨[], [], rfl, hI.ahead_nodup hQ, by simp⟩, .inl ⟨hMem, Nat.le_refl 2⟩⟩
    exact hW.bound hI hSpawned hT hPolls
  case batched =>
    intro u b hb hMem hSpawned ts s' hT hPolls
    obtain rfl := hb.eq_of_none (hQ.batch e)
    have hW : Waits 1 e u [] s :=
      ⟨L, 0, hQ, ⟨[], [], rfl, hI.ahead_nodup hQ, by simp⟩, .inr ⟨hMem, Nat.le_refl 1⟩⟩
    refine (hW.bound hI hSpawned hT hPolls).resolve_right ?_
    -- a task that is running has been taken from the batch
    rintro ⟨hR, -⟩
    have hActive : (s.drain e).active = some u ∧ (s.drain e).front = none := by
      cases hD : s.drain e <;> simp_all [Drain.running, Drain.active, Drain.front]
    rw [hActive.2, Option.toList_none, List.nil_append] at hMem
    exact hI.fresh L hQ e u hActive.1 hMem

/-- Tasks 0 and 1 are linked, in a batch that is swapped next; 1 is polled first. -/
theorem executor_fair_at_swap : ∃ s, Reaches (fun _ => false) (init Nat Unit Bool) s ∧
    s.drain () = .swap ∧ Seg s.next (s.head ()) [1, 0] none ∧ (s.word 0).spawned = true ∧
    Fair (fun _ => false) s () := by
  have hRun : Reaches (fun _ => false) (init Nat Unit Bool) _ :=
    Run.execOk_get _ (spawnActions false 0 () ++ (spawnActions true 1 ()).dropLast ++
      [.runQueued () 0]) (by decide +kernel)
  refine ⟨_, hRun, by decide +kernel, ⟨by decide +kernel, by decide +kernel,
    Seg.nil_iff.mpr (by decide +kernel)⟩, by decide +kernel, executor_fair hRun ()⟩

/-- A task woken during its last poll is linked and still spawned. It is then
ignored, and task 1 is polled three times before the slot, spawned anew, is polled
again. -/
theorem finished_task_overtaken : ∃ (s s' : State Nat Unit Bool) (ts : List Nat),
    Reaches (fun _ => false) (init Nat Unit Bool) s ∧ Seg s.next (s.head ()) [0] none ∧
    (s.word 0).spawned = true ∧ Trace (step fun _ => false) (polled ()) s ts s' ∧
    s'.polls 0 = s.polls 0 ∧ s'.drain () = .poll 0 none ∧ ts.count 1 = 3 := by
  have hRun : Reaches (fun _ => false) (init Nat Unit Bool) _ :=
    Run.execOk_get _ (spawnActions false 0 () ++ drainToPoll () ++ wakeActions true 0)
      (by decide +kernel)
  have hTrace : Trace (step fun _ => false) (polled ()) _ _ _ := Trace.execTrace_get
    ((execOk (step fun _ => false) (fun _ _ => True) (init Nat Unit Bool)
      (spawnActions false 0 () ++ drainToPoll () ++ wakeActions true 0)).get (by decide +kernel))
    ([.pollReturn () true] ++ List.replicate 4 (.drain ()) ++ (spawnActions true 1 ()).dropLast ++
      drainToPoll () ++ [.pollReturn () false] ++ List.replicate 5 (.drain ()) ++
      wakeActions true 1 ++ drainToPoll () ++ [.pollReturn () false, .drain (), .drain ()] ++
      wakeActions true 1 ++ drainToPoll () ++ [.pollReturn () false, .drain (), .drain ()] ++
      spawnActions false 0 () ++ (drainToPoll ()).dropLast) (by decide +kernel)
  exact ⟨_, _, _, hRun, ⟨by decide +kernel, Seg.nil_iff.mpr (by decide +kernel)⟩,
    by decide +kernel, hTrace, by decide +kernel, by decide +kernel, by decide +kernel⟩

end Embassy.Executor
