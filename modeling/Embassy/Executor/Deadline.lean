import Embassy.Executor.Slot
import Embassy.Executor.Returns

/-!
# Deadlines

What the timer queue is for, with the invariant of the previous modules: a task
that sleeps with a deadline is polled by the first call of `run_queued` after it,
and the alarm makes sure that there is such a call.

The call that reads the time `now` looks through the queue (`Seeks`). No deadline
changes on the way to the swap of the run queue, and a task that is due cannot
stay asleep: it would still be in the timer queue, where `dequeue_expired` leaves
only what expires later. So it is marked when the run queue is swapped, and the
drain polls it.

Main result:

* `timers_sound` — a sleeping task with a deadline is in the timer queue, the
  alarm is set for it, and a call of `run_queued` at or after its deadline polls
  it.
-/

namespace Embassy.Executor

open Embassy.Lib

section Runs

variable {Task Agent : Type} [DecidableEq Task] [DecidableEq Agent] {s s' : State Task Unit Agent}

/-- A call that read the time `now` is on its way to the swap, and `t` is due: if
the swap is reached, `t` has been marked. -/
def Seeks (now : Nat) (t : Task) (s : State Task Unit Agent) : Prop :=
  (s.word t).spawned = true ∧ s.minDeadline t ≤ now ∧ s.minDeadline t < instantMax ∧
    ((s.drain ()).closure = some (.dequeueExpired now) ∨
      s.drain () = .swap ∧ (s.word t).runQueued = true)

/-- On the way to the swap no deadline changes, and a task that is due does not
stay asleep: it would be in the timer queue, where `dequeue_expired` leaves only
what expires later. -/
theorem Seeks.step {tq : List Task} (hT : TimerInv s tq) {a : Action Task Unit Agent}
    (h : step (fun _ => true) s a = some s') {now : Nat} {t : Task} (hS : Seeks now t s)
    (hStay : s.drain () = .swap → s'.drain () = .swap) : Seeks now t s' := by
  obtain ⟨hW, hDue, hMax, hAt⟩ := hS
  -- the drain has not come to the run queue, so it runs no task
  have hActive : ∀ e, (s.drain e).active ≠ some t := by
    rintro ⟨⟩ hActive
    cases hD : s.drain () <;> simp [hD, Drain.active, Drain.closure] at hActive hAt
  have hW' : (s'.word t).spawned = true := by
    rcases spawned_step h hW with hW' | ⟨e, next, hE⟩
    · exact hW'
    · exact absurd (by simp [hE, Drain.active]) (hActive e)
  rcases step_op h with ⟨x, h⟩ | ⟨⟨⟩, h⟩
  · have hMin := h.sameTimers.minDeadline t
    refine ⟨hW', by rwa [hMin], by rwa [hMin], ?_⟩
    rw [h.drain_eq]
    -- an operation keeps the mark a task has
    rcases hAt with hAt | ⟨hSwap, hMark⟩
    · exact .inl hAt
    · refine .inr ⟨hSwap, ?_⟩
      by_contra hNot
      have hA := h.sameTimers.asleep t ⟨hW', Bool.not_eq_true _ ▸ hNot⟩
      simp [hA.2] at hMark
  · cases h with
    | @retain_next f prev p hD hP | @onTask f prev p hD hP | @clearTimerQueued f prev p hD =>
      refine ⟨hW', hDue, hMax, ?_⟩
      simpa [hD, Drain.closure] using hAt
    -- the filter and its enqueue: the closure stays
    | @unlink f prev p hD =>
      have hMin : ((s.linkSet () prev (s.timerNext p)).setDrain ()
          (.clearTimerQueued f prev p)).minDeadline t = s.minDeadline t := by
        cases prev <;> rfl
      refine ⟨hW', hMin ▸ hDue, hMin ▸ hMax, ?_⟩
      simpa [hD, Drain.closure] using hAt
    | filter_expired hD hP | filter_keep hD hP =>
      refine ⟨hW', hDue, hMax, ?_⟩
      simpa [hD, Drain.closure] using hAt
    -- the filter has passed the whole queue, so a due task was marked on the way
    | @retain_end f prev hD hP =>
      have hf : f = .dequeueExpired now := by simpa [hD, Drain.closure] using hAt
      subst hf
      refine ⟨hW', hDue, hMax, .inr ⟨by simp [Closure.finish], ?_⟩⟩
      by_contra hNot
      have hA : s.Asleep t := ⟨hW, Bool.not_eq_true _ ▸ hNot⟩
      have hMem := hT.kept t hA (Nat.ne_of_lt hMax) (by simp [hD, Drain.visiting, Drain.polled])
      have hLater : now + 1 ≤ s.expiresAt t := hT.behind hD hP t hMem
      have hEq := hT.current t (.inl hA) (by simp [hD])
      omega
    | swap hD => simp [hD] at hStay
    | start hD | filter_next hD | filter_drop hD | walk hD | walk_end hD | setExpires hD
    | clear_spawned hD | clear_ignored hD | poll hD | registerTimer hD | poll_ready hD
    | poll_pending hD | dropFuture hD | release hD | update_none hD | update_some hD
    | updateOr_old hD | updateOr_new hD | updateNext hD | updateHead hD | setAlarm hD =>
      simp [hD, Drain.closure] at hAt

/-- No context is about to link `t` when the run queue is swapped. -/
def LinkedAtSwap (t : Task) (s : State Task Unit Agent) (a : Action Task Unit Agent) : Prop :=
  s.drain () = .swap → a = .drain () → ∀ x, (s.pc x).owned ≠ some t

theorem agent_pc_of_own {a : Action Task Unit Agent} (hOwn : a.Own)
    (h : step (fun _ => true) s a = some s') (b : Agent) :
    s'.pc (.agent b) = s.pc (.agent b) := by
  cases a with
  | drain e =>
    have hOp : DrainOp (fun _ => true) s e s' := drainStep_op h
    cases hOp with
    | filter_expired hD hP => simp
    | @unlink f prev p hD => cases prev <;> rfl
    | _ => rfl
  | advance x weak =>
    cases x with
    | agent c => exact hOwn.elim
    | drain e => cases advance_op h <;> simp
  | pollReturn e ready =>
    simp only [step] at h
    split at h
    · split at h <;> cases h <;> rfl
    · cases h
  | wake | spawnPool | spawn | runQueued | registerTimer => exact hOwn.elim

/-- The executor can finish its call, and if no agent is about to link `t`, none
is at the swap. -/
theorem returns_linked {t : Task} (hReach : Reaches (fun _ => true) (init Task Unit Agent) s)
    (hFree : ∀ b, (s.pc (.agent b)).owned ≠ some t) :
    ∃ s', Run (step fun _ => true) (LinkedAtSwap t) s s' ∧ s'.drain () = .idle := by
  obtain ⟨s', hRun, hIdle⟩ := returns hReach
  refine ⟨s', hRun.strengthen (I := fun u => Reaches (fun _ => true) (init Task Unit Agent) u ∧
    ∀ b, (u.pc (.agent b)).owned ≠ some t) ⟨hReach, hFree⟩ ?_ ?_, hIdle⟩
  · rintro u a v ⟨hReach, hFree⟩ hOwn hs
    refine ⟨.tail hReach trivial hs, fun b => ?_⟩
    rw [agent_pc_of_own hOwn hs]
    exact hFree b
  · rintro u a ⟨hReach, hFree⟩ - hSwap - x
    obtain ⟨⟨L, hQ⟩, -⟩ := queueInv_of_run hReach
    rcases x with b | ⟨⟩
    · exact hFree b
    · rw [hQ.idle_of_drain (by simp [hSwap])]
      simp [Pc.owned]

omit [DecidableEq Task] [DecidableEq Agent] in
/-- A marked task that no context owns is in the queue that is about to be
swapped. -/
theorem carries_of_marked {L : Layout Task Unit Agent} (hQ : QueueInv s L)
    (hSwap : s.drain () = .swap) {t : Task} (hMark : (s.word t).runQueued = true)
    (hFree : ∀ x, (s.pc x).owned ≠ some t) : Carries s () t := by
  refine ⟨L, hQ, .inl ⟨hSwap, ?_⟩⟩
  cases hPlace : L.place t with
  | off => exact absurd hPlace ((hQ.marked t).mp hMark)
  | owned x => exact absurd ((hQ.owned x t).mpr hPlace) (hFree x)
  | queued e => rfl
  | batched e =>
    have hNil : L.batch () = [] := by
      have := hQ.batch ()
      rw [hSwap] at this
      exact this.eq_nil
    simpa [hNil] using (hQ.batched () t).mpr hPlace
  | taken e =>
    have := (hQ.taken () t).mpr hPlace
    simp [hSwap, Drain.taken] at this

/-- A call that has begun at or after the deadline of a task polls it. -/
theorem serves_of_seeks {s₁ s₂ : State Task Unit Agent} {now : Nat} {t : Task}
    (hReach : Reaches (fun _ => true) (init Task Unit Agent) s₁) (hS : Seeks now t s₁)
    (hRun : Run (step fun _ => true) (LinkedAtSwap t) s₁ s₂) :
    Seeks now t s₂ ∨ Serves (s₁.polls t) s₂ () t := by
  -- first the filter seeks the task, then the drain serves it
  have hInv : Reaches (fun _ => true) (init Task Unit Agent) s₂ ∧
      (s₁.polls t ≤ s₂.polls t ∧ Seeks now t s₂ ∨ Serves (s₁.polls t) s₂ () t) := by
    refine hRun.invariant (I := fun u => Reaches (fun _ => true) (init Task Unit Agent) u ∧
      (s₁.polls t ≤ u.polls t ∧ Seeks now t u ∨ Serves (s₁.polls t) u () t))
      ⟨hReach, .inl ⟨Nat.le_refl _, hS⟩⟩ ?_
    rintro u a v ⟨hReach, hI⟩ hOk hs
    refine ⟨.tail hReach trivial hs, ?_⟩
    obtain ⟨⟨L, hQ⟩, hP⟩ := queueInv_of_run hReach
    obtain ⟨tq, hT⟩ := timerInv_of_run hReach
    rcases hI with ⟨hLe, hSeeks⟩ | hServes
    · by_cases hLeave : u.drain () = .swap ∧ a = .drain ()
      · -- the swap itself: the task is marked, and so in the queue
        right
        obtain ⟨hSwap, ha⟩ := hLeave
        obtain ⟨hW, -, -, hAt⟩ := hSeeks
        have hMark : (u.word t).runQueued = true := by simpa [hSwap, Drain.closure] using hAt
        have hC := carries_of_marked hQ hSwap hMark (hOk hSwap ha)
        have hServes : Serves (s₁.polls t) u () t :=
          .inr ⟨hLe, .inr ⟨hC, hW, by simp [hSwap, Drain.active]⟩⟩
        exact hServes.step hP hs
      · refine .inl ⟨Nat.le_trans hLe (polls_step hs t).1, hSeeks.step hT hs fun hSwap => ?_⟩
        exact swap_of_ne hs hSwap fun ha => hLeave ⟨hSwap, ha⟩
    · exact .inr (hServes.step hP hs)
  exact hInv.2.imp_left And.right

/-- What the timer queue guarantees in a state. -/
structure TimersSound (s : State Task Unit Agent) : Prop where
  /-- Nothing but the deadlines of the latest poll is in `expires_at`. -/
  current : ∀ t, 0 < s.polls t → s.expiresAt t = s.minDeadline t ∨ s.expiresAt t = instantMax
  /-- When `run_queued` has returned, a sleeping task with a deadline is in the
  timer queue, and the alarm is set for it or for something earlier. -/
  returned : s.drain () = .idle → ∀ t, s.Asleep t → s.expiresAt t = s.minDeadline t ∧
    ((∀ at' ∈ s.deadlines t, instantMax ≤ at') ∨
      (∃ tq, Seg s.timerNext (s.timerHead ()) tq none ∧ t ∈ tq) ∧
        ∃ value, s.alarm () = some value ∧ value ≤ s.minDeadline t)
  /-- A later call that begins at or after the deadline polls the task before it
  returns, unless a context is still about to link it when the run queue is
  swapped; and if no context is at the start, the call can return so. -/
  due : s.drain () = .idle → ∀ t now s₁, (s.word t).spawned = true →
    s.minDeadline t < instantMax → s.minDeadline t ≤ now →
    step (fun _ => true) s (.runQueued () now) = some s₁ →
    (∀ s₂, Run (step fun _ => true) (LinkedAtSwap t) s₁ s₂ → s₂.drain () = .idle →
      s.polls t < s₂.polls t) ∧
    ((∀ x, (s.pc x).owned ≠ some t) →
      ∃ s₂, Run (step fun _ => true) (LinkedAtSwap t) s₁ s₂ ∧ s₂.drain () = .idle)

/--
**A deadline is never lost.** One executor with an alarm, any tasks that do
anything in their polls, and any wakes and spawns between any two operations.
When `run_queued` has returned, every task that sleeps with a deadline is in the
timer queue with the minimum of the deadlines its latest poll registered, and the
alarm is not set for later; a call of `run_queued` at or after that time polls
it. Deadlines of earlier polls are forgotten.
-/
theorem timers_sound (hRun : Reaches (fun _ => true) (init Task Unit Agent) s) :
    TimersSound s := by
  obtain ⟨tq, hT⟩ := timerInv_of_run hRun
  constructor
  case current => exact hT.fresh
  -- between two calls: the task is in the queue and the alarm not later
  case returned =>
    intro hIdle t hA
    have hEq := hT.current t (.inl hA) (by simp [hIdle])
    refine ⟨hEq, ?_⟩
    by_cases hM : s.minDeadline t = instantMax
    · exact .inl fun at' hAt => hM ▸ s.minDeadline_le hAt
    · have hMem := hT.kept t hA hM (by simp [hIdle, Drain.visiting, Drain.polled])
      have hHere := hT.here
      rw [hIdle] at hHere
      rcases hHere with rfl | ⟨value, hAlarm, hLe⟩
      · simp at hMem
      · exact .inr ⟨⟨tq, hT.seg, hMem⟩, value, hAlarm, hEq ▸ hLe t hMem⟩
  -- the next call dequeues what is due, and polls it
  case due =>
    intro hIdle t now s₁ hW hMax hDue hStart
    have hReach := hRun.tail trivial hStart
    have hPolls := (polls_step hStart t).1
    simp only [step, hIdle, if_true, Option.some.injEq] at hStart
    refine ⟨fun s₂ hCall hIdle' => ?_, fun hFree => ?_⟩
    · have hSeeks : Seeks now t s₁ := by
        subst hStart
        exact ⟨hW, hDue, hMax, .inl (by simp [Drain.closure])⟩
      rcases serves_of_seeks hReach hSeeks hCall with ⟨-, -, -, hAt⟩ | hServes
      · simp [hIdle', Drain.closure] at hAt
      · exact Nat.lt_of_le_of_lt hPolls (hServes.polled hIdle')
    · refine returns_linked hReach fun b => ?_
      subst hStart
      exact hFree (.agent b)

/-- Task 0 is spawned and polled, registers the deadlines 12 and 10 and sleeps; the
alarm is set for 10, and the call that starts then polls it again. -/
theorem timers_sound_at_ten : ∃ s, Reaches (fun _ => true) (init Nat Unit Unit) s ∧
    s.drain () = .idle ∧ s.Asleep 0 ∧ s.minDeadline 0 = 10 ∧ s.alarm () = some 10 ∧
    TimersSound s ∧ ∃ s₁ s₂, step (fun _ => true) s (.runQueued () 10) = some s₁ ∧
      Run (step fun _ => true) (LinkedAtSwap 0) s₁ s₂ ∧ s₂.drain () = .idle ∧
      s.polls 0 < s₂.polls 0 := by
  obtain ⟨s, hRun, hIdle, hA, hMin, hAlarm, hFree⟩ :
      ∃ s, Reaches (fun _ => true) (init Nat Unit Unit) s ∧ s.drain () = .idle ∧ s.Asleep 0 ∧
        s.minDeadline 0 = 10 ∧ s.alarm () = some 10 ∧ ∀ x, (s.pc x).owned ≠ some 0 := by
    have hRun : Reaches (fun _ => true) (init Nat Unit Unit) _ :=
      Run.execOk_get _ (spawnActions () 0 () ++ .runQueued () 0 :: List.replicate 6 (.drain ()) ++
        [.registerTimer () 12, .registerTimer () 10, .pollReturn () false] ++
        List.replicate 9 (.drain ())) (by decide +kernel)
    exact ⟨_, hRun, by decide +kernel, ⟨by decide +kernel, by decide +kernel⟩,
      by decide +kernel, by decide +kernel, by rintro (⟨⟨⟩⟩ | ⟨⟨⟩⟩) <;> decide +kernel⟩
  have hSound := timers_sound hRun
  obtain ⟨s₁, hStart⟩ : ∃ s₁, step (fun _ => true) s (.runQueued () 10) = some s₁ :=
    ⟨_, if_pos hIdle⟩
  obtain ⟨hPolled, hReturns⟩ :=
    hSound.due hIdle 0 10 s₁ hA.1 (by rw [hMin]; decide)
      (Nat.le_of_eq hMin) hStart
  obtain ⟨s₂, hCall, hEnd⟩ := hReturns hFree
  exact ⟨s, hRun, hIdle, hA, hMin, hAlarm, hSound, s₁, s₂, hStart, hCall, hEnd,
    hPolled s₂ hCall hEnd⟩

end Runs

end Embassy.Executor
