import Embassy.Executor.Fair

/-!
# The end of a task

A poll that returns `Ready` drops the future and releases the slot by clearing
`STATE_SPAWNED`. The slot can be spawned anew when its whole state word is 0, so
the bit `STATE_TIMER_QUEUED` has to go as well: `next_expiration` takes a task
out of the timer queue at the end of the call if it has no deadline.

But `TimerQueue::update` comes after every poll, also after the last. A task that
has registered a deadline in its last poll, as a `select` of a timer and of
something that is ready does, is put in the timer queue after it has finished,
and stays there until the deadline has passed.

Main results:

* `next_of_run` — the alarm is set to the minimum over the timer queue, from
  which the tasks without a deadline have been removed.
* `Finished.step` — what becomes of a finished task in the rest of the call.
* `freed_iff` — the slot is free after the call if and only if the last poll has
  registered no deadline.
-/

namespace Embassy.Executor

open Embassy.Lib

variable {Task Agent : Type} {s s' : State Task Unit Agent} {t : Task} {tq : List Task}

-- ---------------------------------------------------------------------------
-- What `next_expiration` computes
-- ---------------------------------------------------------------------------

namespace State

/-- The first expiration of these tasks. -/
def minExpires (s : State Task Unit Agent) (l : List Task) : Nat :=
  (l.map s.expiresAt).foldl min instantMax

/-- `next_expiration` has kept the tasks `v`, and is at those in `mid`. -/
def Kept (s : State Task Unit Agent) (tq : List Task) (res : Nat) (prev : Link Task)
    (mid : List Task) : Prop :=
  ∃ v r, tq = v ++ mid ++ r ∧ prev.Ends v ∧ (∀ t ∈ v, s.expiresAt t ≠ instantMax) ∧
    res = s.minExpires v

/-- How far `next_expiration` has come with the timer queue `tq`. -/
def NextOk (s : State Task Unit Agent) (tq : List Task) : Drain Task → Prop
  | .retain (.nextExpiration res) prev => s.Kept tq res prev []
  | .filter (.nextExpiration res) prev p => s.Kept tq res prev [p]
  | .onTask (.nextExpiration _) _ _ => False
  | .unlink (.nextExpiration res) prev p => s.Kept tq res prev [p] ∧ s.expiresAt p = instantMax
  | .clearTimerQueued (.nextExpiration res) prev p =>
    s.Kept tq res prev [] ∧ s.expiresAt p = instantMax
  | .setAlarm value => (∀ t ∈ tq, s.expiresAt t ≠ instantMax) ∧ value = s.minExpires tq
  | .idle => s.calls () = 0 ∧ tq = [] ∨
    (∀ t ∈ tq, s.expiresAt t ≠ instantMax) ∧ s.alarm () = some (s.minExpires tq)
  | _ => True

theorem minExpires_append_singleton (s : State Task Unit Agent) (l : List Task) (p : Task) :
    s.minExpires (l ++ [p]) = min (s.minExpires l) (s.expiresAt p) := by
  simp [minExpires]

/-- A minimum of deadlines is one, or the end of time. -/
theorem minExpires_le (s : State Task Unit Agent) (l : List Task) :
    s.minExpires l ≤ instantMax :=
  (foldl_min_le _ _).1

/-- `next_expiration` goes past a task that has a deadline. -/
theorem Kept.keep {res : Nat} {prev : Link Task} {p : Task} (h : s.Kept tq res prev [p])
    (hp : s.expiresAt p ≠ instantMax) :
    s.Kept tq (min res (s.expiresAt p)) (.next p) [] := by
  obtain ⟨v, r, rfl, -, hAll, rfl⟩ := h
  refine ⟨v ++ [p], r, by simp, ⟨v, rfl⟩, ?_, (s.minExpires_append_singleton v p).symm⟩
  intro t ht
  rcases List.mem_append.mp ht with ht | ht
  · exact hAll t ht
  · rwa [List.mem_singleton.mp ht]

/-- What holds where the drain stands is about the deadlines and the alarm. -/
theorem NextOk.congr {d : Drain Task} (h : s.NextOk tq d) (hExpires : s'.expiresAt = s.expiresAt)
    (hAlarm : s'.alarm = s.alarm) (hCalls : s'.calls = s.calls) : s'.NextOk tq d := by
  have hMin : s'.minExpires = s.minExpires := by
    funext l
    simp only [minExpires, hExpires]
  have hEq : s'.NextOk tq d = s.NextOk tq d := by
    cases d with
    | retain f _ | filter f _ _ | onTask f _ _ | unlink f _ _ | clearTimerQueued f _ _ =>
      cases f <;> simp only [NextOk, Kept, hMin, hExpires]
    | idle | setAlarm => simp only [NextOk, hMin, hExpires, hAlarm, hCalls]
    | _ => rfl
  rw [hEq]
  exact h

end State

variable [DecidableEq Task] [DecidableEq Agent] {tq' : List Task}

theorem Op.same_alarm {x : Context Agent Unit} (h : Op s x s') :
    s'.expiresAt = s.expiresAt ∧ s'.alarm = s.alarm ∧ s'.calls = s.calls := by
  cases h <;> exact ⟨rfl, rfl, rfl⟩

/-- **`next_expiration`** keeps what has a deadline, and computes the minimum. -/
theorem nextOk_step {a : Action Task Unit Agent} (hT : TimerInv s tq) (hT' : TimerInv s' tq')
    (hN : s.NextOk tq (s.drain ())) (h : step (fun _ => true) s a = some s') :
    s'.NextOk tq' (s'.drain ()) := by
  have hSame : s'.timerNext = s.timerNext → s'.timerHead = s.timerHead → tq' = tq := by
    intro hNext hHead
    have hSeg := hT'.seg
    rw [hNext, hHead] at hSeg
    exact hSeg.eq_of_none hT.seg
  have hGoto : ∀ d : Drain Task, s'.drain () = d → s'.expiresAt = s.expiresAt →
      s'.alarm = s.alarm → s'.calls = s.calls → s.NextOk tq' d → s'.NextOk tq' (s'.drain ()) := by
    rintro d rfl hExpires hAlarm hCalls hd
    exact hd.congr hExpires hAlarm hCalls
  rcases step_op h with ⟨x, h⟩ | ⟨⟨⟩, h⟩
  · have hTimers := h.sameTimers
    obtain ⟨hExpires, hAlarm, hCalls⟩ := h.same_alarm
    obtain rfl := hSame hTimers.timerNext hTimers.timerHead
    rw [h.drain_eq]
    exact hN.congr hExpires hAlarm hCalls
  · cases h with
    | @retain_next f prev p hD hP =>
      obtain rfl := hSame rfl rfl
      rw [hD] at hN
      refine hGoto (.filter f prev p) (by simp) rfl rfl rfl ?_
      cases f with
      | dequeueExpired now => trivial
      | nextExpiration res =>
        obtain ⟨v, r, rfl, hEnds, hAll, hRes⟩ := hN
        obtain ⟨r, rfl⟩ := eq_cons_of_linkGet (by simpa using hT.seg) hEnds hP
        exact ⟨v, r, by simp, hEnds, hAll, hRes⟩
    | @retain_end f prev hD hP =>
      obtain rfl := hSame rfl rfl
      rw [hD] at hN
      refine hGoto f.finish (by simp) rfl rfl rfl ?_
      cases f with
      | dequeueExpired now => trivial
      | nextExpiration res =>
        -- nothing follows the cell
        obtain ⟨v, r, rfl, hEnds, hAll, hRes⟩ := hN
        obtain rfl := eq_nil_of_linkGet (by simpa using hT.seg) hEnds hP
        rw [List.append_nil, List.append_nil]
        exact ⟨hAll, hRes⟩
    | @filter_next res prev p hD hP =>
      obtain rfl := hSame rfl rfl
      rw [hD] at hN
      exact hGoto (.retain (.nextExpiration (min res (s.expiresAt p))) (.next p)) (by simp)
        rfl rfl rfl (State.Kept.keep hN hP)
    | @filter_drop res prev p hD hP =>
      obtain rfl := hSame rfl rfl
      rw [hD] at hN
      refine hGoto (.unlink (.nextExpiration (min res (s.expiresAt p))) prev p) (by simp)
        rfl rfl rfl ⟨?_, hP⟩
      obtain ⟨v, r, hEq, hEnds, hAll, rfl⟩ := hN
      refine ⟨v, r, hEq, hEnds, hAll, ?_⟩
      rw [hP, Nat.min_eq_left (s.minExpires_le v)]
    | @unlink f prev p hD =>
      rw [hD] at hN
      cases f with
      | dequeueExpired now => cases prev <;> simp [State.NextOk]
      | nextExpiration res =>
        obtain ⟨⟨v, r, rfl, hEnds, hAll, hRes⟩, hp⟩ := hN
        have hSeg := hT.seg
        simp only [List.append_assoc, List.singleton_append] at hSeg
        have hNew := seg_linkSet hSeg hEnds
        obtain rfl : tq' = v ++ r := hT'.seg.eq_of_none hNew
        have hTo : s.NextOk (v ++ r) (.clearTimerQueued (.nextExpiration res) prev p) :=
          ⟨⟨v, r, by simp, hEnds, hAll, hRes⟩, hp⟩
        cases prev <;>
          exact hGoto (.clearTimerQueued (.nextExpiration res) _ p) (by simp) rfl rfl rfl hTo
    | @clearTimerQueued f prev p hD =>
      obtain rfl := hSame rfl rfl
      rw [hD] at hN
      refine hGoto (.retain f prev) (by simp) rfl rfl rfl ?_
      cases f with
      | dequeueExpired now => trivial
      | nextExpiration res => exact hN.1
    | setAlarm hD =>
      obtain rfl := hSame rfl rfl
      rw [hD] at hN
      obtain ⟨hAll, rfl⟩ := hN
      rw [State.setDrain_drain, Function.update_self]
      exact .inr ⟨hAll, by simp [State.minExpires]⟩
    | @walk_end hD =>
      refine hGoto (.retain (.nextExpiration instantMax) .head) (by simp) rfl rfl rfl ?_
      exact ⟨[], tq', by simp, rfl, by simp, rfl⟩
    | registerTimer hD hAt => simp [hD, State.NextOk]
    | @onTask f prev p hD =>
      rw [hD] at hN
      cases f with
      | dequeueExpired now => simp [State.NextOk]
      | nextExpiration res => cases hN
    | start hD | filter_expired hD | filter_keep hD | swap hD | walk hD
    | setExpires hD | clear_spawned hD | clear_ignored hD | poll hD | poll_ready hD
    | poll_pending hD | dropFuture hD | release hD | update_none hD | update_some hD
    | updateOr_old hD | updateOr_new hD | updateNext hD | updateHead hD =>
      simp [State.NextOk]

theorem next_of_run (hRun : Reaches (fun _ => true) (init Task Unit Agent) s) :
    DrainInv s ∧ ∃ tq, TimerInv s tq ∧ s.NextOk tq (s.drain ()) := by
  refine hRun.invariant (I := fun s => DrainInv s ∧ ∃ tq, TimerInv s tq ∧
    s.NextOk tq (s.drain ())) ⟨drainInv_init, [], timerInv_init, .inl ⟨rfl, rfl⟩⟩ ?_
  rintro u a v ⟨hI, tq, hT, hN⟩ - hs
  obtain ⟨L, hQ⟩ := hI.queues
  obtain ⟨tq', hT'⟩ := hT.step hQ hs
  exact ⟨hI.step hs, tq', hT', nextOk_step hT hT' hN hs⟩

/-- A drain that is under way has been called. -/
theorem calls_of_run (hRun : Reaches (fun _ => true) (init Task Unit Agent) s)
    (hBusy : s.drain () ≠ .idle) : 0 < s.calls () := by
  refine hRun.invariant (I := fun s => s.drain () ≠ .idle → 0 < s.calls ())
    (fun h => absurd rfl h) ?_ hBusy
  intro u a v hOld _ hs hNow
  have hMono := calls_step hs ()
  by_cases hIdle : u.drain () = .idle
  · rcases step_op hs with ⟨x, h⟩ | ⟨⟨⟩, h⟩
    · rw [h.drain_eq] at hNow
      exact absurd hIdle hNow
    · cases h <;> simp_all
  · have := hOld hIdle
    omega

-- ---------------------------------------------------------------------------
-- The rest of the call in which a task finishes
-- ---------------------------------------------------------------------------

/-- The finished task that is not yet released. -/
def Drain.dropping : Drain Task → Option Task
  | .dropFuture t _ | .release t _ => some t
  | _ => none

/-- The finished task for which the timer queue is not yet updated. -/
def Drain.outdated : Drain Task → Option Task
  | .dropFuture t _ | .release t _ | .updateTest t _ | .updateOr t _ => some t
  | _ => none

/-- The last poll of `t` has returned, with `expires` in its `expires_at`, and the call
in which it did goes on. -/
structure Finished (t : Task) (expires : Nat) (s : State Task Unit Agent) : Prop where
  phase : (s.drain ()).phase ≤ 3
  past : ∀ L, QueueInv s L → t ∉ L.ahead s ()
  settled : ∀ next, s.drain () ≠ .polling t next
  unchanged : s.expiresAt t = expires
  released : (s.drain ()).dropping ≠ some t → (s.word t).runQueued = false →
    (s.word t).spawned = false
  updated : expires ≠ instantMax → (s.drain ()).outdated ≠ some t → (s.word t).timerQueued = true

/-- `expires_at` is written by the drain that visits the task, and while it polls it. -/
theorem expiresAt_step {a : Action Task Unit Agent} (h : step (fun _ => true) s a = some s')
    (t : Task) : s'.expiresAt t = s.expiresAt t ∨ (∃ next, s.drain () = .setExpires t next) ∨
      ∃ next, s.drain () = .polling t next := by
  rcases step_op h with ⟨x, h⟩ | ⟨⟨⟩, h⟩
  · left
    cases h <;> rfl
  · cases h with
    | @setExpires u next hD =>
      by_cases hu : t = u
      · exact .inr (.inl ⟨next, hu ▸ hD⟩)
      · exact .inl (by simp [hu])
    | @registerTimer u next at' hD hAt =>
      by_cases hu : t = u
      · exact .inr (.inr ⟨next, hu ▸ hD⟩)
      · exact .inl (by simp [hu])
    | @unlink f prev p hD => cases prev <;> exact .inl rfl
    | _ => exact .inl rfl

/-- `next_expiration` takes out only what has no deadline. -/
theorem timerQueued_step {a : Action Task Unit Agent} (h : step (fun _ => true) s a = some s')
    (hN : s.NextOk tq (s.drain ())) (hPhase : (s.drain ()).phase ≤ 3) {t : Task}
    (hBit : (s.word t).timerQueued = true) :
    (s'.word t).timerQueued = true ∨ s.expiresAt t = instantMax := by
  -- an operation keeps the bit; allocation needs a free word, which has none
  rcases step_op h with ⟨x, h⟩ | ⟨⟨⟩, h⟩
  · left
    cases h with
    | @casState u hPc =>
      by_cases hu : t = u
      · simp [← hu, hBit]
      · simpa [hu] using hBit
    | @allocate_ok u pool hPc hW =>
      have hu : t ≠ u := by
        rintro rfl
        simp [hW, StateWord.free] at hBit
      simpa [hu] using hBit
    | _ => exact hBit
  · cases h with
    -- the bit is cleared by the two filters; after the drain only by the second
    | @clearTimerQueued f prev p hD =>
      by_cases hu : t = p
      · subst hu
        rw [hD] at hN hPhase
        cases f with
        | dequeueExpired now => simp [Drain.phase, Drain.closure] at hPhase
        | nextExpiration res => exact .inr hN.2
      · exact .inl (by simpa [hu] using hBit)
    | @clear_spawned u _ _ _ | @clear_ignored u _ _ _ | @release u _ _ | @updateOr_old u _ _ _
    | @updateOr_new u _ _ _ =>
      left
      by_cases hu : t = u
      · simp [← hu, hBit]
      · simpa [hu] using hBit
    | @unlink f prev p hD => cases prev <;> exact .inl hBit
    | _ => exact .inl hBit

namespace Finished

variable {expires : Nat}

omit [DecidableEq Task] [DecidableEq Agent] in
/-- A task that has finished is not in the drain's hands. -/
theorem front_ne (hF : Finished t expires s) (hI : DrainInv s) :
    (s.drain ()).front ≠ some t := by
  intro hFront
  obtain ⟨L, hQ⟩ := hI.queues
  exact hF.past L hQ (by simp [Layout.ahead, hFront])

/-- What has been released stays so, or is spawned anew, which marks it. -/
theorem released_step {a : Action Task Unit Agent} (hF : Finished t expires s) (hI : DrainInv s)
    (h : Executor.step (fun _ => true) s a = some s')
    (hDropping : (s'.drain ()).dropping ≠ some t) (hMark : (s'.word t).runQueued = false) :
    (s'.word t).spawned = false := by
  have hOld := hF.released
  have hFront := hF.front_ne hI
  -- the word of `t` is written by others before and after the drain's visit
  rcases step_op h with ⟨x, h⟩ | ⟨⟨⟩, h⟩
  · rw [h.drain_eq] at hDropping
    have hOld := hOld hDropping
    cases h with
    | @casState u hPc | @allocate_ok u pool hPc hW =>
      by_cases hu : t = u
      · simp [hu, StateWord.allocated] at hMark
      · simpa [hu] using hOld (by simpa [hu] using hMark)
    | _ => exact hOld hMark
  · cases h with
    -- the release itself clears `STATE_SPAWNED`
    | @release u next hD =>
      by_cases hu : t = u
      · simp [hu]
      · have hOld := hOld (by simpa [hD, Drain.dropping] using Ne.symm hu)
        simpa [hu] using hOld (by simpa [hu] using hMark)
    | @dropFuture u next hD =>
      -- `t` is being dropped, so it is not the task before the drain
      have hu : t ≠ u := by
        rintro rfl
        simp [Drain.dropping] at hDropping
      exact hOld (by simpa [hD, Drain.dropping] using Ne.symm hu) hMark
    | @clear_spawned u next hD hW | @clear_ignored u next hD hW =>
      have hu : t ≠ u := by
        rintro rfl
        simp [hD, Drain.front] at hFront
      simpa [hu] using hOld (by simp [hD, Drain.dropping]) (by simpa [hu] using hMark)
    | @clearTimerQueued f prev u hD | @updateOr_old u next hD hW | @updateOr_new u next hD hW =>
      have hOld := hOld (by simp [hD, Drain.dropping])
      by_cases hu : t = u
      · subst hu
        simpa using hOld (by simpa using hMark)
      · simpa [hu] using hOld (by simpa [hu] using hMark)
    | @unlink f prev p hD => cases prev <;> exact hOld (by simp [hD, Drain.dropping]) hMark
    -- the points that write no word
    | start hD | retain_next hD | retain_end hD | filter_expired hD | filter_keep hD
    | filter_next hD | filter_drop hD | onTask hD | swap hD | walk hD | walk_end hD
    | setExpires hD | poll hD | registerTimer hD | poll_ready hD | poll_pending hD
    | update_none hD | update_some hD | updateNext hD | updateHead hD | setAlarm hD =>
      exact hOld (by simp [hD, Drain.dropping]) hMark

/-- What has been updated keeps its bit while it has a deadline. -/
theorem updated_step {a : Action Task Unit Agent} (hF : Finished t expires s)
    (hN : s.NextOk tq (s.drain ())) (h : Executor.step (fun _ => true) s a = some s')
    (hExpires : expires ≠ instantMax) (hOutdated : (s'.drain ()).outdated ≠ some t) :
    (s'.word t).timerQueued = true := by
  by_cases hBit : (s.drain ()).outdated = some t
  · -- the update sets it, as the task has a deadline
    rcases step_op h with ⟨x, h⟩ | ⟨⟨⟩, h⟩
    · rw [h.drain_eq] at hOutdated
      exact absurd hBit hOutdated
    · cases h with
      -- no bit is set for a task without a deadline, but `t` has one
      | @update_none u next hD hE =>
        have hu : u = t := by simpa [hD, Drain.outdated] using hBit
        exact absurd (hF.unchanged.symm.trans (hu ▸ hE)) hExpires
      | @updateOr_old u next hD hW | @updateOr_new u next hD hW =>
        have hu : u = t := by simpa [hD, Drain.outdated] using hBit
        simp [hu]
      | dropFuture hD | release hD | update_some hD =>
        simp only [hD, Drain.outdated] at hBit
        simp [Drain.outdated, hBit] at hOutdated
      | @unlink f prev p hD => simp [hD, Drain.outdated] at hBit
      | registerTimer hD => exact absurd hBit hOutdated
      | start hD | retain_next hD | retain_end hD | filter_expired hD | filter_keep hD
      | filter_next hD | filter_drop hD | onTask hD | clearTimerQueued hD | swap hD | walk hD
      | walk_end hD | setExpires hD | clear_spawned hD | clear_ignored hD | poll hD
      | poll_ready hD | poll_pending hD | updateNext hD | updateHead hD | setAlarm hD =>
        simp [hD, Drain.outdated] at hBit
  · rcases timerQueued_step h hN hF.phase (hF.updated hExpires hBit) with hKeep | hMax
    · exact hKeep
    · exact absurd (hF.unchanged.symm.trans hMax) hExpires

/-- Every action within one call keeps a finished task finished. -/
theorem step {a : Action Task Unit Agent} (hF : Finished t expires s) (hI : DrainInv s)
    (hN : s.NextOk tq (s.drain ())) (h : Executor.step (fun _ => true) s a = some s')
    (hCall : s'.calls () = s.calls ()) : Finished t expires s' := by
  obtain ⟨L, hQ⟩ := hI.queues
  have hFront := hF.front_ne hI
  constructor
  case phase => exact Nat.le_trans (phase_step h hCall) hF.phase
  -- `t` was taken out of the batch before its poll, and the batch only shrinks
  case past =>
    intro L' hQ' hMem
    have hOld := hF.past L hQ
    rcases ahead_step (e := ()) hQ hQ' h with ⟨-, hD, -⟩ | hEq | ⟨u, hEq, -⟩
    · have hPhase := hF.phase
      simp [hD, Drain.phase] at hPhase
    · exact hOld (by simp [hEq, hMem])
    · exact hOld (by simp [hEq, hMem])
  -- a poll of `t` would need `t` at the front
  case settled =>
    intro next hD
    rcases step_op h with ⟨x, h⟩ | ⟨⟨⟩, h⟩
    · rw [h.drain_eq] at hD
      exact hF.settled next hD
    · cases h with
      | @poll u next' hD' =>
        have hu : u = t := by simpa using (Drain.polling.inj (by simpa using hD)).1
        simp [hD', hu, Drain.front] at hFront
      | registerTimer => exact hF.settled next hD
      | @retain_end f prev => cases f <;> simp [Closure.finish] at hD
      | _ => simp at hD
  -- `expires_at` is written for the task at the front or the one polled
  case unchanged =>
    rcases expiresAt_step h t with hEq | ⟨next, hD⟩ | ⟨next, hD⟩
    · rw [hEq, hF.unchanged]
    · simp [hD, Drain.front] at hFront
    · exact absurd hD (hF.settled next)
  case released => exact fun hDropping hMark => hF.released_step hI h hDropping hMark
  case updated => exact fun hExpires hOutdated => hF.updated_step hN h hExpires hOutdated

end Finished

-- ---------------------------------------------------------------------------
-- The slot of a finished task
-- ---------------------------------------------------------------------------

/-- The slot of `t` is free: its state word is 0, the task is not in the timer queue,
over which the alarm has been computed, and the slot can be spawned again. -/
structure Freed (s : State Task Unit Agent) (t : Task) : Prop where
  word : s.word t = .free
  timers : ∀ tq, Seg s.timerNext (s.timerHead ()) tq none →
    t ∉ tq ∧ s.alarm () = some (s.minExpires tq)
  spawn : ∀ x pool weak, s.pc x = .allocate (t :: pool) → ∃ s',
    step (fun _ => true) s (.advance x weak) = some s' ∧ s'.pc x = .writePollFn t

/-- The task is not linked in the run queue. -/
def Unlinked (s : State Task Unit Agent) (t : Task) : Prop :=
  ∀ q, Seg s.next (s.head ()) q none → t ∉ q

variable {r r' : State Task Unit Agent} {next : Option Task}

omit [DecidableEq Task] [DecidableEq Agent] in
/-- With an empty queue no task is linked. -/
theorem unlinked_of_empty (hHead : s.head () = none) : Unlinked s t := by
  intro q hq hMem
  rw [hHead] at hq
  rw [hq.eq_nil] at hMem
  cases hMem

omit [DecidableEq Task] [DecidableEq Agent] in
/-- After a call, a task that is not linked is marked by a context that links it next. -/
theorem Unlinked.marked_iff (hOff : Unlinked s t) (hI : DrainInv s) (hIdle : s.drain () = .idle) :
    (s.word t).runQueued = true ↔ ∃ x, (s.pc x).owned = some t := by
  obtain ⟨L, hQ⟩ := hI.queues
  rw [hQ.marked]
  constructor
  · intro hPlace
    cases hp : L.place t with
    | off => exact absurd hp hPlace
    | owned x => exact ⟨x, (hQ.owned x t).mpr hp⟩
    | queued e => exact absurd ((hQ.queued e t).mpr hp) (hOff _ (hQ.queue e))
    | batched e =>
      have hMem := (hQ.batched e t).mpr hp
      rw [hQ.batch_of_phase (e := e) (by simp [hIdle, Drain.phase])] at hMem
      cases hMem
    | taken e =>
      have hTaken := (hQ.taken e t).mpr hp
      simp [hIdle, Drain.taken] at hTaken
  · rintro ⟨x, hOwned⟩
    simp [(hQ.owned x t).mp hOwned]

/-- The task has just returned `Ready`. -/
theorem finished_of_ready (hI : DrainInv r) (hD : r.drain () = .polling t next)
    (hReady : step (fun _ => true) r (.pollReturn () true) = some r') :
    Finished t (r.expiresAt t) r' ∧ r'.calls = r.calls := by
  have hI' := hI.step hReady
  simp only [step, hD, if_true, Option.some.injEq] at hReady
  subst hReady
  refine ⟨⟨by simp [Drain.phase, Drain.closure], ?_, by simp, rfl, ?_, ?_⟩, rfl⟩
  · intro L hQ
    have hFresh := hI'.fresh L hQ () t (by simp [Drain.active])
    simpa [Layout.ahead, Drain.front] using hFresh
  · simp [Drain.dropping]
  · simp [Drain.outdated]

/-- **The end of a task.** `t` is polled in state `r`, in any reachable state, and
returns `Ready`; `s` is where the same call of `run_queued` returns, whatever
happens meanwhile. If `t` is not linked then, its slot is free if and only if the
last poll has registered no deadline, and nobody has marked the task to link it next:
a late wake of it, or its next spawn. -/
theorem freed_iff (hReach : Reaches (fun _ => true) (init Task Unit Agent) r)
    (hD : r.drain () = .polling t next)
    (hReady : step (fun _ => true) r (.pollReturn () true) = some r')
    (hRun : Reaches (fun _ => true) r' s) (hCall : s.calls () = r.calls ())
    (hIdle : s.drain () = .idle) (hOff : Unlinked s t) :
    Freed s t ↔ r.minDeadline t = instantMax ∧ ∀ x, (s.pc x).owned ≠ some t := by
  -- the invariant holds from the poll to the end of the call
  obtain ⟨hI, tq₀, hT₀, hN₀⟩ := next_of_run hReach
  obtain ⟨hStart, hCalls⟩ := finished_of_ready hI hD hReady
  have hReach' := hReach.tail trivial hReady
  obtain ⟨bs, hT⟩ : ∃ bs, Trace (step fun _ => true) (polled ()) r' bs s := Trace.of_run hRun
  obtain ⟨hI', ⟨tq, hTimers, hN⟩, hF⟩ := call_invariant (I := fun _ u =>
    (∃ tq, TimerInv u tq ∧ u.NextOk tq (u.drain ())) ∧ Finished t (r.expiresAt t) u)
    (hI.step hReady) hT (by rw [hCall, hCalls]) ⟨(next_of_run hReach').2, hStart⟩ (by
      rintro - u a v hIu hSame ⟨⟨tq, hTu, hNu⟩, hFu⟩ hs
      obtain ⟨L, hQ⟩ := hIu.queues
      obtain ⟨tq', hTv⟩ := hTu.step hQ hs
      exact ⟨⟨tq', hTv, nextOk_step hTu hTv hNu hs⟩, hFu.step hIu hNu hs hSame⟩)
  -- the task's `expires_at` is the least deadline its poll asked for
  have hExpires : r.expiresAt t = r.minDeadline t :=
    hT₀.current t (.inr (by simp [hD, Drain.polled])) (by simp [hD])
  -- after the call every task of the timer queue has a deadline
  obtain ⟨hAll, hAlarm⟩ : (∀ u ∈ tq, s.expiresAt u ≠ instantMax) ∧
      s.alarm () = some (s.minExpires tq) := by
    rw [hIdle] at hN
    refine hN.resolve_left fun hNone => ?_
    have hPos := calls_of_run hReach (by simp [hD])
    omega
  rw [← hExpires]
  have hMarked := hOff.marked_iff hI' hIdle
  constructor
  · intro hFreed
    refine ⟨?_, fun x hOwned => ?_⟩
    · -- the update would have set the bit
      by_contra hNot
      have hBit := hF.updated hNot (by simp [hIdle, Drain.outdated])
      simp [hFreed.word, StateWord.free] at hBit
    · have hMark := hMarked.mpr ⟨x, hOwned⟩
      simp [hFreed.word, StateWord.free] at hMark
  · -- without a deadline the second filter has taken it out of the timer queue
    rintro ⟨hMax, hFree⟩
    have hNotIn : t ∉ tq := fun hMem => hAll t hMem (hF.unchanged.trans hMax)
    have hMark : (s.word t).runQueued = false := by
      by_contra hMark
      obtain ⟨x, hOwned⟩ := hMarked.mp (by simpa using hMark)
      exact hFree x hOwned
    have hSpawned := hF.released (by simp [hIdle, Drain.dropping]) hMark
    have hBit : (s.word t).timerQueued = false := by
      by_contra hBit
      rcases (hTimers.bit t).mp (by simpa using hBit) with hMem | hFloat
      · exact hNotIn hMem
      · simp [hIdle, Drain.floating] at hFloat
    have hWord : s.word t = .free := by
      cases hW : s.word t
      simp_all [StateWord.free]
    refine ⟨hWord, ?_, ?_⟩
    · intro tq' hSeg
      obtain rfl := hSeg.eq_of_none hTimers.seg
      exact ⟨hNotIn, hAlarm⟩
    · intro x pool weak hPc
      refine ⟨((s.setWord t .allocated).record t .allocate).setPc x (.writePollFn t), ?_, by simp⟩
      simp [step, advance, hPc, hWord]

/-- Up to the first poll of the task in slot 0. -/
def pollFirst : List (Action Nat Unit Unit) :=
  spawnActions () 0 () ++ .runQueued () 0 :: List.replicate 6 (.drain ())

/-- The task returns `Ready` and has registered no deadline. -/
theorem freed_iff_without_deadline : ∃ r r' s : State Nat Unit Unit,
    Reaches (fun _ => true) (init Nat Unit Unit) r ∧ r.drain () = .polling 0 none ∧
    step (fun _ => true) r (.pollReturn () true) = some r' ∧ Reaches (fun _ => true) r' s ∧
    s.drain () = .idle ∧ Freed s 0 := by
  obtain ⟨r, r', s, hReach, hD, hReady, hRun, hIdle, hCall, hHead, hMin, hFree⟩ :
      ∃ r r' s : State Nat Unit Unit, Reaches (fun _ => true) (init Nat Unit Unit) r ∧
        r.drain () = .polling 0 none ∧ step (fun _ => true) r (.pollReturn () true) = some r' ∧
        Reaches (fun _ => true) r' s ∧ s.drain () = .idle ∧ s.calls () = r.calls () ∧
        s.head () = none ∧ r.minDeadline 0 = instantMax ∧ ∀ x, (s.pc x).owned ≠ some 0 := by
    refine ⟨_, _, _, Run.execOk_get _ pollFirst (by decide +kernel), by decide +kernel,
      (Option.some_get (by decide +kernel)).symm,
      Run.execOk_get _ (List.replicate 6 (.drain ())) (by decide +kernel), by decide +kernel,
      by decide +kernel, by decide +kernel, by decide +kernel, ?_⟩
    rintro (⟨⟨⟩⟩ | ⟨⟨⟩⟩) <;> decide +kernel
  exact ⟨r, r', s, hReach, hD, hReady, hRun, hIdle,
    (freed_iff hReach hD hReady hRun hCall hIdle (unlinked_of_empty hHead)).mpr ⟨hMin, hFree⟩⟩

/-- In its last poll the task registers the deadline 10 and returns `Ready`. After the
call the alarm is set for it, and a spawn on its slot finds it busy. -/
theorem finished_task_keeps_slot : ∃ r r' s s₁ : State Nat Unit Unit,
    Reaches (fun _ => true) (init Nat Unit Unit) r ∧ r.drain () = .polling 0 none ∧
    step (fun _ => true) r (.pollReturn () true) = some r' ∧ Reaches (fun _ => true) r' s ∧
    s.drain () = .idle ∧ s.calls () = r.calls () ∧ Unlinked s 0 ∧
    s.word 0 = ⟨false, false, true⟩ ∧ s.timerHead () = some 0 ∧ s.alarm () = some 10 ∧
    (∀ x, s.pc x = .idle) ∧ Run (step fun _ => true) (fun _ a => a = .spawnPool () [0] ∨
      a = .advance (.agent ()) false) s s₁ ∧ s₁.pc (.agent ()) = .allocate [] := by
  -- a task that registers a timer and then returns `Ready`
  obtain ⟨r, r', s, s₁, hReach, hD, hReady, hRun, hIdle, hCall, hHead, hRest⟩ :
      ∃ r r' s s₁ : State Nat Unit Unit, Reaches (fun _ => true) (init Nat Unit Unit) r ∧
        r.drain () = .polling 0 none ∧ step (fun _ => true) r (.pollReturn () true) = some r' ∧
        Reaches (fun _ => true) r' s ∧ s.drain () = .idle ∧ s.calls () = r.calls () ∧
        s.head () = none ∧ s.word 0 = ⟨false, false, true⟩ ∧ s.timerHead () = some 0 ∧
        s.alarm () = some 10 ∧ (∀ x, s.pc x = .idle) ∧
        Run (step fun _ => true) (fun _ a => a = .spawnPool () [0] ∨
          a = .advance (.agent ()) false) s s₁ ∧ s₁.pc (.agent ()) = .allocate [] := by
    refine ⟨_, _, _, _, Run.execOk_get _ (pollFirst ++ [.registerTimer () 10]) (by decide +kernel),
      by decide +kernel, (Option.some_get (by decide +kernel)).symm,
      Run.execOk_get _ (List.replicate 11 (.drain ())) (by decide +kernel), by decide +kernel,
      by decide +kernel, by decide +kernel, by decide +kernel, by decide +kernel,
      by decide +kernel, ?_, Run.execOk_get _ [.spawnPool () [0], .advance (.agent ()) false]
        (by decide +kernel), by decide +kernel⟩
    rintro (⟨⟨⟩⟩ | ⟨⟨⟩⟩) <;> decide +kernel
  exact ⟨r, r', s, s₁, hReach, hD, hReady, hRun, hIdle, hCall, unlinked_of_empty hHead, hRest⟩

end Embassy.Executor
