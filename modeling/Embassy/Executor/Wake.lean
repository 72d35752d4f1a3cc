import Embassy.Executor.Queue

/-!
# No wake is lost

A wake either marks a task or finds it marked. A marked task stays marked until
a drain clears it, and a drain that clears a spawned task polls it next
(`PollInv`). Together with the invariant of the run queues this is what a waker
relies on.

Main results:

* `queueInv_of_run` — every reachable state keeps the invariants.
* `Carries.cleared` / `Serves.polled` — a drain clears all it finds in the queue,
  and polls what is spawned.
* `run_queues_sound` — the invariants in terms of the state alone, and that no
  wake is lost.
-/

namespace Embassy.Executor

open Embassy.Lib

variable {Task Exec Agent : Type}

-- ---------------------------------------------------------------------------
-- The task being polled
-- ---------------------------------------------------------------------------

/-- The task that a drain has cleared and is polling, or about to. -/
def Drain.active : Drain Task → Option Task
  | .poll t _ | .polling t _ | .dropFuture t _ | .release t _ => some t
  | _ => none

/-- A task is polled only by its executor, and is spawned all the while; every
clear of a spawned task is followed by a poll. -/
structure PollInv (s : State Task Exec Agent) : Prop where
  spawned : ∀ e t, (s.drain e).active = some t → (s.word t).spawned = true
  home : ∀ e t, (s.drain e).active = some t → s.executor t = some e
  settled : ∀ e t x, (s.drain e).active = some t → (s.pc x).spawning ≠ some t
  counted : ∀ t, (∀ e next, s.drain e ≠ .poll t next) → s.clears t = s.skips t + s.polls t
  counting : ∀ t e next, s.drain e = .poll t next → s.clears t = s.skips t + s.polls t + 1

theorem pollInv_init : PollInv (init Task Exec Agent) := by
  constructor <;> simp [init, Drain.active]

namespace PollInv

variable {s s' : State Task Exec Agent} {L : Layout Task Exec Agent}

/-- At most one drain is at a task. -/
theorem active_unique (hP : PollInv s) {e e' : Exec} {t : Task}
    (h : (s.drain e).active = some t) (h' : (s.drain e').active = some t) : e = e' := by
  have := (hP.home e t h).symm.trans (hP.home e' t h')
  exact Option.some.inj this

variable [DecidableEq Exec] [DecidableEq Agent] [DecidableEq Task]

/-- A context spawns tasks that are not spawned, so none that is being polled. -/
theorem context_op (hP : PollInv s) {x : Context Agent Exec} (h : Op s x s') : PollInv s' := by
  -- What a context may change: words that stay spawned, and its own place.
  have hLocal : ∀ {k : Pc Task Exec} {s' : State Task Exec Agent}, s'.drain = s.drain →
      s'.pc = Function.update s.pc x k → s'.clears = s.clears → s'.skips = s.skips →
      s'.polls = s.polls → (∀ t, (s.word t).spawned = true → (s'.word t).spawned = true) →
      (∀ e t, (s.drain e).active = some t → s'.executor t = s.executor t) →
      (∀ e t, (s.drain e).active = some t → k.spawning ≠ some t) → PollInv s' := by
    intro k s' hDrain hPc hClears hSkips hPolls hWord hExec hSpawning
    constructor
    case spawned =>
      rw [hDrain]
      exact fun e t h => hWord t (hP.spawned e t h)
    case home =>
      rw [hDrain]
      exact fun e t h => (hExec e t h).trans (hP.home e t h)
    case settled =>
      rw [hDrain, hPc]
      intro e t y h
      by_cases hy : y = x
      · simpa [hy] using hSpawning e t h
      · simpa [hy] using hP.settled e t y h
    case counted => rw [hDrain, hClears, hSkips, hPolls]; exact hP.counted
    case counting => rw [hDrain, hClears, hSkips, hPolls]; exact hP.counting
  cases h with
  | @casState t hPc =>
    refine hLocal rfl rfl rfl rfl rfl ?_ (fun _ _ _ => rfl) (by simp [Pc.spawning])
    intro u h
    by_cases hu : u = t
    · simpa [hu] using h
    · simpa [hu] using h
  | @allocate_ok t pool hPc hW =>
    refine hLocal rfl rfl rfl rfl rfl ?_ (fun _ _ _ => rfl) ?_
    · intro u h
      by_cases hu : u = t
      · simp [hu, StateWord.allocated]
      · simpa [hu] using h
    · -- The slot was free, and a task that is polled is spawned.
      intro e u h hk
      cases hk
      have := hP.spawned e t h
      simp [hW, StateWord.free] at this
  | @writePollFn t hPc | @writeFuture t hPc =>
    refine hLocal rfl rfl rfl rfl rfl (fun _ => id) (fun _ _ _ => rfl) ?_
    intro e u h hk
    cases hk
    exact hP.settled e t x h (by simp [hPc, Pc.spawning])
  | @spawn t e hPc =>
    refine hLocal rfl rfl rfl rfl rfl (fun _ => id) ?_ (by simp [Pc.spawning])
    intro e' u h
    have hu : u ≠ t := by
      rintro rfl
      exact hP.settled e' u x h (by simp [hPc, Pc.spawning])
    simp [hu]
  | casHead hPc =>
    refine hLocal rfl rfl rfl rfl rfl (fun _ => id) (fun _ _ _ => rfl) ?_
    intro e t _
    split <;> simp [Pc.spawning]
  | _ => exact hLocal rfl rfl rfl rfl rfl (fun _ => id) (fun _ _ _ => rfl) (by simp [Pc.spawning])

omit [DecidableEq Agent] [DecidableEq Task] in
/-- A drain goes on, apart from clearing a task and beginning its poll. -/
theorem local_drain (hP : PollInv s) {e : Exec} {d : Drain Task}
    (hDrain : s'.drain = Function.update s.drain e d)
    (hSpawning : ∀ x t, (s'.pc x).spawning = some t → (s.pc x).spawning = some t)
    (hExec : s'.executor = s.executor)
    (hSpawned : ∀ e' t, (s'.drain e').active = some t → (s'.word t).spawned = (s.word t).spawned)
    (hActive : ∀ t, d.active = some t → (s.drain e).active = some t)
    (hFrom : ∀ t next, s.drain e ≠ .poll t next) (hTo : ∀ t next, d ≠ .poll t next)
    (hCount : ∀ t, s'.clears t + (s.skips t + s.polls t) = s.clears t + (s'.skips t + s'.polls t)) :
    PollInv s' := by
  have hOld : ∀ e' t, (s'.drain e').active = some t → (s.drain e').active = some t := by
    intro e' t h
    rw [hDrain] at h
    by_cases he : e' = e
    · subst he
      exact hActive t (by simpa using h)
    · simpa [he] using h
  -- Nobody begins a poll or ends one, so the counts agree as before.
  have hPoll : ∀ e' t next, s'.drain e' = .poll t next ↔ s.drain e' = .poll t next := by
    intro e' t next
    rw [hDrain]
    by_cases he : e' = e
    · simp [he, hFrom, hTo]
    · simp [he]
  constructor
  case spawned =>
    intro e' t h
    rw [hSpawned e' t h]
    exact hP.spawned e' t (hOld e' t h)
  case home =>
    intro e' t h
    rw [hExec]
    exact hP.home e' t (hOld e' t h)
  case settled => exact fun e' t x h hx => hP.settled e' t x (hOld e' t h) (hSpawning x t hx)
  case counted =>
    intro t h
    have := hP.counted t fun e' next hPoll' => h e' next ((hPoll e' t next).mpr hPoll')
    have := hCount t
    omega
  case counting =>
    intro t e' next h
    have := hP.counting t e' next ((hPoll e' t next).mp h)
    have := hCount t
    omega

omit [DecidableEq Agent] in
/-- The bit of a spawned task is cleared; its poll comes next. -/
theorem clear_spawned (hP : PollInv s) (hQ : QueueInv s L) {e : Exec} {t : Task}
    {next : Option Task} (hD : s.drain e = .clearRunQueued t next)
    (hW : (s.word t).spawned = true) :
    PollInv ({ s.setWord t { s.word t with runQueued := false } with
      clears := Function.update s.clears t (s.clears t + 1) }.setDrain e (.poll t next)) := by
  have hPlace : L.place t = .taken e := (hQ.taken e t).mp (by simp [hD, Drain.taken])
  have hHome := hQ.home t e (.inr (.inr hPlace))
  -- a drain at the task would be this one
  have hNoOther : ∀ e', (s.drain e').active ≠ some t := by
    intro e' h
    have he : e = e' := Option.some.inj (hHome.symm.trans (hP.home e' t h))
    simp [← he, hD, Drain.active] at h
  constructor
  case spawned =>
    intro e' u h
    by_cases hu : u = t
    · simp [hu, hW]
    · by_cases he : e' = e
      · simp [he, Drain.active, Ne.symm hu] at h
      · simpa [hu] using hP.spawned e' u (by simpa [he] using h)
  case home =>
    intro e' u h
    by_cases he : e' = e
    · have hu : t = u := by simpa [he, Drain.active] using h
      simpa [← hu, he] using hHome
    · exact hP.home e' u (by simpa [he] using h)
  case settled =>
    intro e' u x h hx
    by_cases he : e' = e
    · have hu : t = u := by simpa [he, Drain.active] using h
      have hOwn := (hQ.owned x t).mp (Pc.owned_of_spawning (hu ▸ hx))
      simp [hPlace] at hOwn
    · exact hP.settled e' u x (by simpa [he] using h) hx
  case counted =>
    intro u h
    have hu : u ≠ t := by
      rintro rfl
      exact h e next (by simp)
    have hOld : ∀ e' next', s.drain e' ≠ .poll u next' := by
      intro e' next' h'
      have he : e' ≠ e := by
        rintro rfl
        simp [hD] at h'
      exact h e' next' (by simpa [he] using h')
    simpa [hu] using hP.counted u hOld
  case counting =>
    intro u e' next' h
    by_cases he : e' = e
    · have hu : t = u := by
        have : t = u ∧ next = next' := by simpa [he] using h
        exact this.1
      have := hP.counted t fun e'' next'' h'' => hNoOther e'' (by simp [h'', Drain.active])
      simp [← hu, this]
    · have hPoll : s.drain e' = .poll u next' := by simpa [he] using h
      have hu : u ≠ t := by
        rintro rfl
        exact hNoOther e' (by simp [hPoll, Drain.active])
      simpa [hu] using hP.counting u e' next' hPoll

omit [DecidableEq Agent] in
/-- The poll begins. -/
theorem poll (hP : PollInv s) {e : Exec} {t : Task} {next : Option Task}
    (hD : s.drain e = .poll t next) :
    PollInv ({ s.record t .pollStart with
      polls := Function.update s.polls t (s.polls t + 1)
      deadlines := Function.update s.deadlines t [] }.setDrain e (.polling t next)) := by
  have hOld : ∀ e' u, (Function.update s.drain e (.polling t next) e').active = some u →
      (s.drain e').active = some u := by
    intro e' u h
    by_cases he : e' = e
    · simpa [he, hD, Drain.active] using h
    · simpa [he] using h
  constructor
  case spawned => exact fun e' u h => hP.spawned e' u (hOld e' u h)
  case home => exact fun e' u h => hP.home e' u (hOld e' u h)
  case settled => exact fun e' u x h => hP.settled e' u x (hOld e' u h)
  case counted =>
    intro u h
    by_cases hu : u = t
    · subst hu
      -- The clear was counted before the poll, which is counted now.
      have := hP.counting u e next hD
      simp only [State.setDrain_clears, State.setDrain_skips, State.setDrain_polls,
        State.record_clears, State.record_skips, Function.update_self]
      omega
    · have hAll : ∀ e' next', s.drain e' ≠ .poll u next' := by
        intro e' next' h'
        have he : e' ≠ e := by
          rintro rfl
          simp [hD, Ne.symm hu] at h'
        exact h e' next' (by simpa [he] using h')
      simpa [hu] using hP.counted u hAll
  case counting =>
    intro u e' next' h
    have he : e' ≠ e := by
      rintro rfl
      simp at h
    have hPoll : s.drain e' = .poll u next' := by simpa [he] using h
    have hu : u ≠ t := by
      rintro rfl
      exact he (hP.active_unique (t := u) (by simp [hPoll, Drain.active])
        (by simp [hD, Drain.active]))
    simpa [hu] using hP.counting u e' next' hPoll

/-- What a drain does is about the task in its hands. -/
theorem drain_op {hasAlarm : Exec → Bool} (hP : PollInv s) (hQ : QueueInv s L) {e : Exec}
    (h : DrainOp hasAlarm s e s') : PollInv s' := by
  cases h with
  | clear_spawned hD hW => exact hP.clear_spawned hQ hD hW
  | poll hD => exact hP.poll hD
  | @clear_ignored t next hD hW =>
    refine hP.local_drain (e := e) rfl (fun _ _ => id) rfl ?_ ?_ ?_ ?_ ?_
    · intro e' u _
      by_cases hu : u = t <;> simp [hu]
    · simp [Drain.active]
    · simp [hD]
    · simp
    · intro u
      by_cases hu : u = t
      · subst hu
        simp only [State.setDrain_clears, State.setDrain_skips, State.setDrain_polls,
          State.setWord_polls, Function.update_self]
        omega
      · simp [hu]
  | @release t next hD =>
    refine hP.local_drain (e := e) rfl (fun _ _ => id) rfl ?_ ?_ ?_ ?_ (fun _ => rfl)
    · intro e' u h
      have he : e' ≠ e := by
        rintro rfl
        simp [Drain.active] at h
      have hAct : (s.drain e').active = some u := by simpa [he] using h
      -- A task is polled by one drain only, so the others' are not released.
      have hu : u ≠ t := by
        rintro rfl
        exact he (hP.active_unique hAct (by simp [hD, Drain.active]))
      simp [hu]
    · simp [Drain.active]
    · simp [hD]
    · simp
  | start hD | walk_end hD =>
    refine hP.local_drain (e := e) rfl (fun _ _ => id) rfl (fun _ _ _ => rfl) ?_ ?_ ?_
      (fun _ => rfl)
    · split <;> simp [Drain.active]
    · simp [hD]
    · split <;> simp
  | @retain_end f prev hD =>
    cases f <;>
      refine hP.local_drain (e := e) rfl (fun _ _ => id) rfl (fun _ _ _ => rfl) ?_ ?_ ?_
        (fun _ => rfl) <;>
      simp [hD, Closure.finish, Drain.active]
  | filter_expired hD hP' =>
    refine hP.local_drain (e := e) rfl ?_ rfl (fun _ _ _ => rfl) ?_ ?_ ?_ (fun _ => rfl)
    · intro x t h
      by_cases hx : x = .drain e
      · simp [hx, Pc.spawning] at h
      · simpa [hx] using h
    · simp [Drain.active]
    · simp [hD]
    · simp
  | @clearTimerQueued f prev t hD | @updateOr_old t next hD hW | @updateOr_new t next hD hW =>
    refine hP.local_drain (e := e) rfl (fun _ _ => id) rfl ?_ ?_ ?_ ?_ (fun _ => rfl)
    · intro e' u _
      by_cases hu : u = t <;> simp [hu]
    · simp [Drain.active]
    · simp [hD]
    · simp
  | @unlink f prev p hD =>
    cases prev <;>
      refine hP.local_drain (e := e) rfl (fun _ _ => id) rfl (fun _ _ _ => rfl) ?_ ?_ ?_
        (fun _ => rfl) <;>
      simp [hD, Drain.active]
  | registerTimer hD hAt =>
    refine hP.local_drain (Function.update_eq_self e s.drain).symm (fun _ _ => id) rfl
      (fun _ _ _ => rfl) (fun _ => id) ?_ ?_ (fun _ => rfl) <;>
    simp [hD]
  | retain_next hD | filter_keep hD | filter_next hD | filter_drop hD | onTask hD | swap hD
  | walk hD | setExpires hD | poll_ready hD | poll_pending hD | dropFuture hD | update_none hD
  | update_some hD | updateNext hD | updateHead hD | setAlarm hD =>
    refine hP.local_drain (e := e) rfl (fun _ _ => id) rfl (fun _ _ _ => rfl) ?_ ?_ ?_
      (fun _ => rfl) <;>
    simp [hD, Drain.active]

/-- Every action keeps what holds of polls. -/
theorem step {hasAlarm : Exec → Bool} {a : Action Task Exec Agent} (hP : PollInv s)
    (hQ : QueueInv s L) (h : step hasAlarm s a = some s') : PollInv s' := by
  rcases step_op h with ⟨x, h⟩ | ⟨e, h⟩
  · exact hP.context_op h
  · exact hP.drain_op hQ h

end PollInv

-- ---------------------------------------------------------------------------
-- Runs
-- ---------------------------------------------------------------------------

section Runs

variable [DecidableEq Task] [DecidableEq Exec] [DecidableEq Agent] {hasAlarm : Exec → Bool}
  {s s' : State Task Exec Agent}

/-- Any steps in any order. -/
abbrev Reaches (hasAlarm : Exec → Bool) (s s' : State Task Exec Agent) : Prop :=
  Run (step hasAlarm) (fun _ _ => True) s s'

/-- In every reachable state there is a layout of the queues. -/
theorem queueInv_of_run (hRun : Reaches hasAlarm (init Task Exec Agent) s) :
    (∃ L, QueueInv s L) ∧ PollInv s := by
  refine hRun.invariant (I := fun s => (∃ L, QueueInv s L) ∧ PollInv s)
    ⟨⟨_, queueInv_init⟩, pollInv_init⟩ ?_
  rintro u a v ⟨⟨L, hQ⟩, hP⟩ - h
  obtain ⟨L', hQ', -⟩ := hQ.step h
  exact ⟨⟨L', hQ'⟩, hP.step hQ h⟩

/-- The bit is cleared by a drain only, and every clear is counted. -/
theorem runQueued_step {a : Action Task Exec Agent} (h : step hasAlarm s a = some s') (t : Task) :
    s.clears t < s'.clears t ∨ s'.clears t = s.clears t ∧
      ((s.word t).runQueued = true → (s'.word t).runQueued = true) := by
  rcases step_op h with ⟨x, h⟩ | ⟨e, h⟩
  · right
    cases h with
    | @casState u _ | @allocate_ok u _ _ _ =>
      refine ⟨rfl, ?_⟩
      by_cases hu : t = u <;> simp [hu, StateWord.allocated]
    | _ => exact ⟨rfl, id⟩
  · cases h with
    | @clear_spawned u _ _ _ | @clear_ignored u _ _ _ =>
      by_cases hu : t = u
      · exact .inl (by simp [hu])
      · exact .inr (by simp [hu])
    | @clearTimerQueued _ _ u _ | @release u _ _ | @updateOr_old u _ _ _ | @updateOr_new u _ _ _ =>
      refine .inr ⟨rfl, ?_⟩
      by_cases hu : t = u <;> simp [hu]
    | @unlink _ prev _ _ => cases prev <;> exact .inr ⟨rfl, id⟩
    | _ => exact .inr ⟨rfl, id⟩

/-- A marked task stays so until a drain clears it. -/
theorem runQueued_of_run (hRun : Reaches hasAlarm s s') {t : Task}
    (h : (s.word t).runQueued = true) :
    s.clears t < s'.clears t ∨ s'.clears t = s.clears t ∧ (s'.word t).runQueued = true := by
  refine hRun.invariant (I := fun s' => s.clears t < s'.clears t ∨
    s'.clears t = s.clears t ∧ (s'.word t).runQueued = true) (.inr ⟨rfl, h⟩) ?_
  rintro u a v hI - hs
  rcases runQueued_step hs t with hlt | ⟨hEq, hKeep⟩
  · left
    omega
  · rcases hI with hI | ⟨hI, hW⟩
    · left
      omega
    · exact .inr ⟨hEq.trans hI, hKeep hW⟩

/-- A drain that is at the swap goes on by emptying the queue. -/
theorem swap_step {a : Action Task Exec Agent} (h : step hasAlarm s a = some s') {e : Exec}
    (hD : s.drain e = .swap) : s'.drain e = .swap ∨ s'.head e = none := by
  rcases step_op h with ⟨x, h⟩ | ⟨e', h⟩
  · left
    rw [h.drain_eq]
    exact hD
  · by_cases he : e = e'
    · subst he
      right
      cases h <;> simp_all
    · left
      rw [h.drain_of_ne he]
      exact hD

/-- What the drain of `e` does that is not an operation of its own: `run_queued` is
called, or a poll returns. -/
theorem drain_of_ne {a : Action Task Exec Agent} (h : step hasAlarm s a = some s') {e : Exec}
    (ha : a ≠ .drain e) : s'.drain e = s.drain e ∨
      (∃ now, a = .runQueued e now ∧ s.drain e = .idle ∧
        (s'.drain e = .swap ∨ s'.drain e = .retain (.dequeueExpired now) .head)) ∨
      ∃ t next ready, a = .pollReturn e ready ∧ s.drain e = .polling t next ∧
        (s'.drain e = .dropFuture t next ∨ s'.drain e = .updateTest t next) := by
  cases a with
  | drain e' =>
    have he : e ≠ e' := by
      rintro rfl
      exact ha rfl
    exact .inl ((drainStep_op h).drain_of_ne he)
  | advance x weak =>
    left
    rw [(advance_op h).drain_eq]
  | wake | spawnPool | spawn =>
    simp only [step] at h
    split at h
    · cases h
      exact .inl rfl
    · cases h
  -- A call begins.
  | runQueued e' now =>
    simp only [step] at h
    split at h
    · rename_i hIdle
      cases h
      by_cases he : e = e'
      · subst he
        refine .inr (.inl ⟨now, rfl, hIdle, ?_⟩)
        by_cases hA : hasAlarm e = true
        · exact .inr (by simp [hA])
        · exact .inl (by simp [hA])
      · exact .inl (by simp [he])
    · cases h
  | registerTimer e' at' =>
    simp only [step] at h
    split at h
    · split at h
      · cases h
        exact .inl rfl
      · cases h
    · cases h
  -- A future returns.
  | pollReturn e' ready =>
    simp only [step] at h
    split at h
    · rename_i t next hD
      by_cases he : e = e'
      · subst he
        refine .inr (.inr ⟨t, next, ready, rfl, hD, ?_⟩)
        split at h
        · cases h
          exact .inl (by simp)
        · cases h
          exact .inr (by simp)
      · left
        split at h <;> cases h <;> simp [he]
    · cases h

/-- Only the drain itself leaves the swap. -/
theorem swap_of_ne {a : Action Task Exec Agent} (h : step hasAlarm s a = some s') {e : Exec}
    (hD : s.drain e = .swap) (ha : a ≠ .drain e) : s'.drain e = .swap := by
  rcases drain_of_ne h ha with hSame | ⟨-, -, hIdle, -⟩ | ⟨t, next, -, -, hPoll, -⟩
  · rwa [hSame]
  · simp [hD] at hIdle
  · simp [hD] at hPoll

/-- A clear is made by a drain that has taken the task, and the poll of a spawned
task comes next. -/
theorem clears_step {a : Action Task Exec Agent} (h : step hasAlarm s a = some s') {t : Task}
    (hlt : s.clears t < s'.clears t) : ∃ e next, s.drain e = .clearRunQueued t next ∧
      ((s.word t).spawned = true → s'.drain e = .poll t next) := by
  rcases step_op h with ⟨x, h⟩ | ⟨e, h⟩
  · cases h <;> simp at hlt
  · cases h with
    | @clear_spawned u next hD hW =>
      have hu : t = u := by
        by_contra hu
        simp [hu] at hlt
      subst hu
      exact ⟨e, next, hD, fun _ => by simp⟩
    | @clear_ignored u next hD hW =>
      have hu : t = u := by
        by_contra hu
        simp [hu] at hlt
      subst hu
      exact ⟨e, next, hD, fun hW' => by simp [hW] at hW'⟩
    | @unlink _ prev _ _ => cases prev <;> exact absurd hlt (Nat.lt_irrefl _)
    | _ => exact absurd hlt (Nat.lt_irrefl _)

/-- A task is released only by a drain that has polled it. -/
theorem spawned_step {a : Action Task Exec Agent} (h : step hasAlarm s a = some s') {t : Task}
    (hW : (s.word t).spawned = true) :
    (s'.word t).spawned = true ∨ ∃ e next, s.drain e = .release t next := by
  rcases step_op h with ⟨x, h⟩ | ⟨e, h⟩
  · left
    cases h with
    | @casState u _ | @allocate_ok u _ _ _ =>
      by_cases hu : t = u
      · simp [← hu, hW, StateWord.allocated]
      · simpa [hu] using hW
    | _ => exact hW
  · cases h with
    -- Only the release of a finished task ends its being spawned.
    | @release u next hD =>
      by_cases hu : t = u
      · exact .inr ⟨e, next, hu ▸ hD⟩
      · exact .inl (by simpa [hu] using hW)
    | @clear_spawned u _ _ _ | @clear_ignored u _ _ _ | @clearTimerQueued _ _ u _
    | @updateOr_old u _ _ _ | @updateOr_new u _ _ _ =>
      left
      by_cases hu : t = u
      · simpa [← hu] using hW
      · simpa [hu] using hW
    | @unlink _ prev _ _ => cases prev <;> exact .inl hW
    | _ => exact .inl hW

/-- A poll that is about to begin does begin. -/
theorem polls_step {a : Action Task Exec Agent} (h : step hasAlarm s a = some s') (t : Task) :
    s.polls t ≤ s'.polls t ∧ ∀ e next, s.drain e = .poll t next →
      s'.drain e = .poll t next ∨ s.polls t < s'.polls t := by
  rcases step_op h with ⟨x, h⟩ | ⟨e, h⟩
  · refine ⟨by cases h <;> simp, fun e next hD => .inl ?_⟩
    rw [h.drain_eq]
    exact hD
  · refine ⟨?_, fun e' next hD => ?_⟩
    · cases h with
      | @poll u _ _ => by_cases hu : t = u <;> simp [hu]
      | @unlink _ prev _ _ => cases prev <;> exact Nat.le_refl _
      | _ => exact Nat.le_refl _
    · by_cases he : e' = e
      · subst he
        right
        cases h <;> simp_all
      · left
        rw [h.drain_of_ne he]
        exact hD

/-- Only a clear brings a drain to a task. -/
theorem active_step {a : Action Task Exec Agent} (h : step hasAlarm s a = some s') {e : Exec}
    {t : Task} (hActive : (s'.drain e).active = some t) :
    (s.drain e).active = some t ∨ s.clears t < s'.clears t := by
  rcases step_op h with ⟨x, h⟩ | ⟨e', h⟩
  · left
    rwa [← h.drain_eq]
  · by_cases he : e = e'
    · subst he
      cases h with
      -- Only a clear brings a task to the drain.
      | @clear_spawned u next hD hW =>
        have hu : u = t := by simpa [Drain.active] using hActive
        exact .inr (by simp [hu])
      | start hD | walk_end hD =>
        rw [State.setDrain_drain, Function.update_self] at hActive
        split at hActive <;> simp [Drain.active] at hActive
      | @retain_end f prev hD => cases f <;> simp [Closure.finish, Drain.active] at hActive
      | registerTimer hD => exact .inl hActive
      | poll hD | poll_ready hD | dropFuture hD =>
        left
        simpa [hD, Drain.active] using hActive
      | _ => simp [Drain.active] at hActive
    · left
      rwa [← h.drain_of_ne he]

/-- The drain of `e` has the task in its batch, or will have it there: it is in
the queue when the head is swapped. -/
def Carries (s : State Task Exec Agent) (e : Exec) (t : Task) : Prop :=
  ∃ L, QueueInv s L ∧ (s.drain e = .swap ∧ L.place t = .queued e ∨ L.place t = .batched e ∨
    L.place t = .taken e)

namespace Carries

variable {e : Exec} {t : Task}

/-- It has the task until it clears it. -/
theorem step {a : Action Task Exec Agent} (hC : Carries s e t) (h : step hasAlarm s a = some s') :
    Carries s' e t ∧ s'.clears t = s.clears t ∨ s.clears t < s'.clears t ∧
      ((s.word t).spawned = true → ∃ next, s'.drain e = .poll t next) := by
  obtain ⟨L, hQ, hAt⟩ := hC
  rcases runQueued_step h t with hlt | ⟨hEq, -⟩
  · refine .inr ⟨hlt, fun hW => ?_⟩
    obtain ⟨e', next, hD, hPoll⟩ := clears_step h hlt
    have hTaken := (hQ.taken e' t).mp (by simp [hD, Drain.taken])
    have he : e' = e := by simpa [hTaken] using hAt
    exact ⟨next, he ▸ hPoll hW⟩
  · obtain ⟨L', hQ', hMoves⟩ := hQ.step h
    refine .inl ⟨⟨L', hQ', ?_⟩, hEq⟩
    -- From the queue by the swap to the batch, and from there to the drain.
    rcases hAt with ⟨hSwap, hAt⟩ | hAt | hAt
    · rcases hMoves.queued t e hAt with hAt' | ⟨-, hAt'⟩
      · rcases swap_step h hSwap with hSwap' | hEmpty
        · exact .inl ⟨hSwap', hAt'⟩
        · have hNil : L'.queue e = [] := by
            have := hQ'.queue e
            rw [hEmpty] at this
            exact this.eq_nil
          simpa [hNil] using (hQ'.queued e t).mpr hAt'
      · exact .inr (.inl hAt')
    · exact .inr (hMoves.batched t e hAt)
    · rcases hMoves.taken t e hAt with hAt' | hlt
      · exact .inr (.inr hAt')
      · omega

omit [DecidableEq Task] [DecidableEq Exec] [DecidableEq Agent] in
theorem not_idle (hC : Carries s e t) : s.drain e ≠ .idle := by
  intro hIdle
  obtain ⟨L, hQ, ⟨hSwap, -⟩ | hAt | hAt⟩ := hC
  · simp [hIdle] at hSwap
  · have hNil : L.batch e = [] := by
      have := hQ.batch e
      rw [hIdle] at this
      exact this.eq_nil
    simpa [hNil] using (hQ.batched e t).mpr hAt
  · have := (hQ.taken e t).mpr hAt
    simp [hIdle, Drain.taken] at this

omit [DecidableEq Task] [DecidableEq Exec] [DecidableEq Agent] in
/-- A task that is carried was spawned on the executor. -/
theorem home (hC : Carries s e t) : s.executor t = some e := by
  obtain ⟨L, hQ, ⟨-, hAt⟩ | hAt | hAt⟩ := hC
  · exact hQ.home t e (.inl hAt)
  · exact hQ.home t e (.inr (.inl hAt))
  · exact hQ.home t e (.inr (.inr hAt))

/-- What a drain has is cleared before it returns. -/
theorem cleared (hC : Carries s e t) (hRun : Reaches hasAlarm s s') (hIdle : s'.drain e = .idle) :
    s.clears t < s'.clears t := by
  have hInv : s.clears t < s'.clears t ∨ s'.clears t = s.clears t ∧ Carries s' e t := by
    refine hRun.invariant (I := fun s' => s.clears t < s'.clears t ∨
      s'.clears t = s.clears t ∧ Carries s' e t) (.inr ⟨rfl, hC⟩) ?_
    rintro u a v hI - hs
    rcases hI with hI | ⟨hI, hCu⟩
    · rcases runQueued_step hs t with hlt | ⟨hEq, -⟩ <;> left <;> omega
    · rcases hCu.step hs with ⟨hCv, hEq⟩ | ⟨hlt, -⟩
      · exact .inr ⟨hEq.trans hI, hCv⟩
      · left
        omega
  rcases hInv with h | ⟨-, hC'⟩
  · exact h
  · exact absurd hIdle hC'.not_idle

end Carries

/-- The task has been polled more than `n` times, or the drain of `e` is going to
poll it. -/
def Serves (n : Nat) (s : State Task Exec Agent) (e : Exec) (t : Task) : Prop :=
  n < s.polls t ∨ n ≤ s.polls t ∧ ((∃ next, s.drain e = .poll t next) ∨
    Carries s e t ∧ (s.word t).spawned = true ∧ (s.drain e).active ≠ some t)

namespace Serves

variable {n : Nat} {e : Exec} {t : Task}

/-- Every action keeps a task served, until it is polled. -/
theorem step {a : Action Task Exec Agent} (hS : Serves n s e t) (hP : PollInv s)
    (h : step hasAlarm s a = some s') : Serves n s' e t := by
  obtain ⟨hMono, hPolls⟩ := polls_step h t
  rcases hS with hlt | ⟨hLe, ⟨next, hPoll⟩ | ⟨hC, hW, hActive⟩⟩
  · left
    omega
  · rcases hPolls e next hPoll with hPoll' | hlt
    · exact .inr ⟨by omega, .inl ⟨next, hPoll'⟩⟩
    · left
      omega
  · refine .inr ⟨by omega, ?_⟩
    rcases hC.step h with ⟨hC', hEq⟩ | ⟨-, hPoll⟩
    · -- the task is released and visited at its executor only
      have hNone : ∀ e', (s.drain e').active ≠ some t := by
        intro e' h'
        have he : e' = e := Option.some.inj ((hP.home e' t h').symm.trans hC.home)
        exact hActive (he ▸ h')
      refine .inr ⟨hC', (spawned_step h hW).resolve_right ?_, ?_⟩
      · rintro ⟨e', next, h'⟩
        exact hNone e' (by simp [h', Drain.active])
      · intro h'
        rcases active_step h h' with h' | hlt
        · exact hActive h'
        · omega
    · exact .inl (hPoll hW)

theorem of_run {L : Layout Task Exec Agent} (hS : Serves n s e t) (hQ : QueueInv s L)
    (hP : PollInv s) (hRun : Reaches hasAlarm s s') : Serves n s' e t := by
  have hAll : ((∃ L, QueueInv s' L) ∧ PollInv s') ∧ Serves n s' e t := by
    refine hRun.invariant (I := fun s' => ((∃ L, QueueInv s' L) ∧ PollInv s') ∧
      Serves n s' e t) ⟨⟨⟨L, hQ⟩, hP⟩, hS⟩ ?_
    rintro u a v ⟨⟨⟨M, hM⟩, hPu⟩, hSu⟩ - hs
    obtain ⟨M', hM', -⟩ := hM.step hs
    exact ⟨⟨⟨M', hM'⟩, hPu.step hM hs⟩, hSu.step hPu hs⟩
  exact hAll.2

omit [DecidableEq Task] [DecidableEq Exec] [DecidableEq Agent] in
/-- When the drain returns, the task has been polled. -/
theorem polled (hS : Serves n s e t) (hIdle : s.drain e = .idle) : n < s.polls t := by
  rcases hS with hlt | ⟨-, ⟨next, hPoll⟩ | ⟨hC, -⟩⟩
  · exact hlt
  · simp [hIdle] at hPoll
  · exact absurd hIdle hC.not_idle

end Serves

/-- The run queues `queue` and the unvisited rests `batch` of the batches, as
the links and the drains describe them, and what holds of them. -/
structure RunQueues (s : State Task Exec Agent) (queue batch : Exec → List Task) : Prop where
  queueSeg : ∀ e, Seg s.next (s.head e) (queue e) none
  batchSeg : ∀ e, Seg s.next (s.drain e).rest (batch e) none
  -- a task is linked at most once, over all executors
  once : ∀ e t, (queue e ++ batch e).count t ≤ 1
  apart : ∀ e e' t, t ∈ queue e ++ batch e → t ∈ queue e' ++ batch e' → e = e'
  -- a linked task is marked, and linked at its executor
  linked : ∀ e t, t ∈ queue e ++ batch e → (s.word t).runQueued = true ∧ s.executor t = some e
  -- a marked task is linked, or owned by one context, or taken by one drain
  marked : ∀ t, (s.word t).runQueued = true → (∃ e, t ∈ queue e ++ batch e) ∨
    (∃! x, (s.pc x).owned = some t) ∨ ∃! e, (s.drain e).taken = some t
  -- and only one of these
  owned : ∀ x t, (s.pc x).owned = some t →
    (∀ e, t ∉ queue e ++ batch e) ∧ ∀ e, (s.drain e).taken ≠ some t
  taken : ∀ e t, (s.drain e).taken = some t → ∀ e', t ∉ queue e' ++ batch e'

omit [DecidableEq Exec] [DecidableEq Agent] in
/-- The layout names what is linked. -/
theorem QueueInv.runQueues {L : Layout Task Exec Agent} (hQ : QueueInv s L) :
    RunQueues s L.queue L.batch := by
  -- the lists are the places of the layout, so a task is in one of them at most
  have hLinked : ∀ e t, t ∈ L.queue e ++ L.batch e ↔
      L.place t = .queued e ∨ L.place t = .batched e := by
    intro e t
    rw [List.mem_append, hQ.queued, hQ.batched]
  constructor
  case queueSeg => exact hQ.queue
  case batchSeg => exact hQ.batch
  case once =>
    intro e t
    refine List.nodup_iff_count.mp ?_ t
    refine List.nodup_append.mpr ⟨(hQ.queue e).nodup, (hQ.batch e).nodup, ?_⟩
    rintro u hu v hv rfl
    have h1 := (hQ.queued e u).mp hu
    have h2 := (hQ.batched e u).mp hv
    simp [h1] at h2
  case apart =>
    intro e e' t h h'
    rw [hLinked] at h h'
    rcases h with h | h <;> simpa [h] using h'
  case linked =>
    intro e t h
    rw [hLinked] at h
    refine ⟨(hQ.marked t).mpr ?_, hQ.home t e (h.imp_right .inl)⟩
    rcases h with h | h <;> simp [h]
  case marked =>
    intro t h
    have hPlace := (hQ.marked t).mp h
    -- a marked task is owned, linked or taken, by one each
    cases hp : L.place t with
    | off => exact absurd hp hPlace
    | owned x =>
      refine .inr (.inl ⟨x, (hQ.owned x t).mpr hp, ?_⟩)
      intro y hy
      exact hQ.owner_unique hy ((hQ.owned x t).mpr hp)
    | queued e => exact .inl ⟨e, (hLinked e t).mpr (.inl hp)⟩
    | batched e => exact .inl ⟨e, (hLinked e t).mpr (.inr hp)⟩
    | taken e =>
      refine .inr (.inr ⟨e, (hQ.taken e t).mpr hp, ?_⟩)
      intro e' he'
      have := (hQ.taken e' t).mp he'
      rw [hp] at this
      exact (Place.taken.inj this).symm
  case owned =>
    intro x t h
    have hp := (hQ.owned x t).mp h
    refine ⟨fun e => by simp [hLinked, hp], fun e => ?_⟩
    rw [Ne, hQ.taken, hp]
    simp
  case taken =>
    intro e t h e'
    have hp := (hQ.taken e t).mp h
    simp [hLinked, hp]

/-- A wake of `t` reads the state word for the last time, or marks the task. -/
def WakeDecides (hasAlarm : Exec → Bool) (t : Task) (s s' : State Task Exec Agent) : Prop :=
  ∃ x weak, (s.pc x = .loadState t ∨ ∃ current, s.pc x = .casState t current) ∧
    step hasAlarm s (.advance x weak) = some s' ∧ ∀ current, s'.pc x ≠ .casState t current

/-- A wake that has decided leaves the mark. -/
theorem marked_of_wake {t : Task} (h : WakeDecides hasAlarm t s s')
    (hW : (s.word t).spawned = true) : (s'.word t).runQueued = true := by
  obtain ⟨x, weak, hPc, hs, hEnd⟩ := h
  cases advance_op hs with
  | @enqueue_return u k hPc' hk hInert =>
    have hu : u = t := by
      rcases hk with rfl | ⟨_, rfl⟩ <;> simpa [hPc'] using hPc
    subst hu
    simpa [StateWord.inert, hW] using hInert
  | @enqueue_retry u k hPc' hk hInert =>
    have hu : u = t := by
      rcases hk with rfl | ⟨_, rfl⟩ <;> simpa [hPc'] using hPc
    exact absurd (by simp [hu]) (hEnd (s.word t))
  | @casState u hPc' =>
    have hu : u = t := by simpa [hPc'] using hPc
    simp [hu]
  | loadHead hPc' hk => rcases hk with rfl | ⟨_, rfl⟩ <;> simp [hPc'] at hPc
  | wake hx hPc' | spawnPool hx hPc' | getExecutor hPc' | storeNext hPc' | casHead hPc'
  | signal hPc' | allocate_none hPc' | allocate_ok hPc' | allocate_busy hPc' | writePollFn hPc'
  | writeFuture hPc' | spawn hPc' => simp [hPc'] at hPc

/-- What the run queues guarantee in a state. -/
structure QueuesSound (hasAlarm : Exec → Bool) (s : State Task Exec Agent) : Prop where
  /-- The queues and batches are sound, and what is in a queue when its head is
  swapped is cleared, and if it is spawned polled, by the time the drain returns. -/
  layout : ∃ queue batch, RunQueues s queue batch ∧ ∀ e t, s.drain e = .swap → t ∈ queue e →
    ∀ s', Reaches hasAlarm s s' → s'.drain e = .idle →
      s.clears t < s'.clears t ∧ ((s.word t).spawned = true → s.polls t < s'.polls t)
  /-- Every clear of a task that was spawned has been followed by its poll,
  unless a drain is right between the two. -/
  followed : ∀ t, (∀ e next, s.drain e ≠ .poll t next) → s.clears t = s.skips t + s.polls t
  /-- Once a wake of a spawned task has decided, the task is marked until a later
  clear. -/
  wake : ∀ t s₁ s₂, (s.word t).spawned = true → WakeDecides hasAlarm t s s₁ →
    Reaches hasAlarm s₁ s₂ → (s₂.word t).runQueued = true ∨ s₁.clears t < s₂.clears t

/--
**The run queues are sound and lose no wake.** In every state that any number of
wakers, spawners and drains reach in any interleaving of their single
operations: a task is linked at most once, in a run queue or in the unvisited
rest of a batch; a linked task is marked and linked at the executor it was
spawned on; a marked task is linked, or owned by one context that is about to
link it, or taken by a drain that is about to clear it. So a task that a wake
finds or leaves marked stays marked until a drain clears it, and every clear of
a spawned task is followed by its poll.
-/
theorem run_queues_sound (hRun : Reaches hasAlarm (init Task Exec Agent) s) :
    QueuesSound hasAlarm s := by
  obtain ⟨⟨L, hQ⟩, hP⟩ := queueInv_of_run hRun
  constructor
  case layout =>
    refine ⟨L.queue, L.batch, hQ.runQueues, ?_⟩
    intro e t hD ht s' hRun' hIdle
    have hC : Carries s e t := ⟨L, hQ, .inl ⟨hD, (hQ.queued e t).mp ht⟩⟩
    refine ⟨hC.cleared hRun' hIdle, fun hW => ?_⟩
    have hS : Serves (s.polls t) s e t :=
      .inr ⟨Nat.le_refl _, .inr ⟨hC, hW, by simp [hD, Drain.active]⟩⟩
    exact (hS.of_run hQ hP hRun').polled hIdle
  case followed => exact hP.counted
  case wake =>
    intro t s₁ s₂ hW hWake hRun'
    rcases runQueued_of_run hRun' (marked_of_wake hWake hW) with h | ⟨-, h⟩
    · exact .inr h
    · exact .inl h

/-- Task 0 is spawned and linked, and the drain is about to take it, while a wake
of it is under way. -/
theorem run_queues_sound_at_swap : ∃ s, Reaches (fun _ => false) (init Nat Unit Bool) s ∧
    s.drain () = .swap ∧ s.head () = some 0 ∧ s.pc (.agent true) = .loadState 0 ∧
    QueuesSound (fun _ => false) s := by
  have hRun : Reaches (fun _ => false) (init Nat Unit Bool) _ :=
    Run.execOk_get _ ([.spawnPool false [0], .advance (.agent false) false,
      .advance (.agent false) false, .advance (.agent false) false, .spawn false (),
      .advance (.agent false) false, .advance (.agent false) false,
      .advance (.agent false) false, .wake true 0, .runQueued () 0])
      (by decide +kernel)
  exact ⟨_, hRun, by decide +kernel, by decide +kernel, by decide +kernel,
    run_queues_sound hRun⟩

end Runs

end Embassy.Executor
