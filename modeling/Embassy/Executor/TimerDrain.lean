import Embassy.Executor.Slot
import Embassy.Executor.TimerQueue

/-!
# The timer queue in `run_queued`

The machine takes the methods of the timer queue apart into single operations. An
executor that is not interrupted makes them as a whole, with `TaskHeader::enqueue` as
`on_task`.

* `enqueue_quiet` — `enqueue` keeps the promise of `on_task`.
* `reach_update`, `reach_dequeueExpired`, `reach_nextExpiration` — the methods, where
  `run_queued` calls them.
* `dequeue_of_run`, `expiration_of_run` — what they do in a state of the machine that is reached.
-/

namespace Embassy.Executor

open Embassy.Lib

namespace TimerQueue

variable {Task Exec Agent : Type} [DecidableEq Task] [DecidableEq Exec] [DecidableEq Agent]
  {hasAlarm : Exec → Bool} {s s' : State Task Exec Agent} {e : Exec}

/-- An operation of the executor. -/
def ByDrain (e : Exec) (_ : State Task Exec Agent) (a : Executor.Action Task Exec Agent) : Prop :=
  a = .drain e ∨ a = .advance (.drain e) false

/-- The executor stands at `d`, and at `k` in `enqueue`. -/
def stand (s : State Task Exec Agent) (e : Exec) (d : Drain Task) (k : Pc Task Exec) :
    State Task Exec Agent :=
  (s.setPc (.drain e) k).setDrain e d

/-- `TaskHeader::enqueue` as a whole. -/
def enqueue (s : State Task Exec Agent) (t : Task) : State Task Exec Agent :=
  if (s.word t).inert then s
  else
    match s.executor t with
    | none => s
    | some e =>
      let prev := s.head e
      let s := s.setWord t { s.word t with runQueued := true }
      let s := { s with
        next := Function.update s.next t prev
        head := Function.update s.head e (some t) }
      if prev = none then { s with signals := Function.update s.signals e (s.signals e + 1) }
      else s

/-- The executor gets from one state to the other without being interrupted. -/
abbrev Reach (hasAlarm : Exec → Bool) (e : Exec) (s s' : State Task Exec Agent) : Prop :=
  Run (Executor.step hasAlarm) (ByDrain e) s s'

section Single

variable {d d' : Drain Task} {k k' : Pc Task Exec}

/-- A step of the drain is one of the machine. -/
theorem reach_drain (h : drainStep hasAlarm (stand s e d k) e = some (stand s' e d' k')) :
    Reach hasAlarm e (stand s e d k) (stand s' e d' k') :=
  .tail .refl (.inl rfl) h

theorem reach_advance (h : advance (stand s e d k) (.drain e) false = some (stand s' e d' k')) :
    Reach hasAlarm e (stand s e d k) (stand s' e d' k') :=
  .tail .refl (.inr rfl) h

end Single

/-- The call that marks and links a task runs to its end. -/
theorem reach_enqueue (d : Drain Task) (t : Task)
    (hExec : (s.word t).inert = false → s.executor t ≠ none) :
    Reach hasAlarm e (stand s e d (.loadState t)) (stand (enqueue s t) e d .idle) := by
  cases hInert : (s.word t).inert with
  | true =>
    refine reach_advance ?_
    simp [advance, enqueue, hInert, stand, State.setPc, State.setDrain]
  | false =>
    obtain ⟨e', hE⟩ := Option.ne_none_iff_exists'.mp (hExec hInert)
    -- the marks, the link and the head, in the order of the source
    let s₁ := s.setWord t { s.word t with runQueued := true }
    let s₂ := { s₁ with next := Function.update s.next t (s.head e') }
    let s₃ := { s₂ with head := Function.update s.head e' (some t) }
    have hLoad : Reach hasAlarm e (stand s e d (.loadState t))
        (stand s e d (.casState t (s.word t))) :=
      reach_advance (by simp [advance, hInert, stand, State.setPc, State.setDrain])
    have hCas : Reach hasAlarm e (stand s e d (.casState t (s.word t)))
        (stand s₁ e d (.getExecutor t)) :=
      reach_advance (by simp [s₁, advance, stand, State.setPc, State.setDrain, State.setWord])
    have hGet : Reach hasAlarm e (stand s₁ e d (.getExecutor t)) (stand s₁ e d (.loadHead t e')) :=
      reach_advance (by simp [s₁, advance, hE, stand, State.setPc, State.setDrain, State.setWord])
    have hHead : Reach hasAlarm e (stand s₁ e d (.loadHead t e'))
        (stand s₁ e d (.storeNext t e' (s.head e'))) :=
      reach_advance (by simp [s₁, advance, stand, State.setPc, State.setDrain, State.setWord])
    have hStore : Reach hasAlarm e (stand s₁ e d (.storeNext t e' (s.head e')))
        (stand s₂ e d (.casHead t e' (s.head e'))) :=
      reach_advance (by simp [s₁, s₂, advance, stand, State.setPc, State.setDrain, State.setWord])
    have hPush : Reach hasAlarm e (stand s₂ e d (.casHead t e' (s.head e')))
        (stand s₃ e d (if s.head e' = none then .signal e' else .idle)) :=
      reach_advance (by
        simp [s₁, s₂, s₃, advance, stand, State.setPc, State.setDrain, State.setWord])
    refine (((((hLoad.trans hCas).trans hGet).trans hHead).trans hStore).trans hPush).trans ?_
    -- the first task of a queue signals its executor
    by_cases hNone : s.head e' = none
    · simp only [hNone, if_true]
      refine reach_advance ?_
      simp [s₁, s₂, s₃, advance, enqueue, hInert, hE, hNone, stand, State.setPc, State.setDrain,
        State.setWord]
    · have hEq : enqueue s t = s₃ := by simp [enqueue, hInert, hE, hNone, s₁, s₂, s₃]
      rw [hEq, if_neg hNone]
      exact .refl

/-- A task that can be woken has an executor. -/
def Spawned (s : State Task Exec Agent) : Prop :=
  ∀ t, (s.word t).inert = false → s.executor t ≠ none

omit [DecidableEq Agent] in
/-- A task that is enqueued leaves the timers as they are. -/
theorem enqueue_quiet (t : Task) (s : State Task Exec Agent) :
    Quiet s (enqueue s t) ∧ (enqueue s t).expiresAt = s.expiresAt := by
  unfold enqueue
  split
  · exact ⟨{}, rfl⟩
  · split
    · exact ⟨{}, rfl⟩
    · dsimp only
      split
      · exact ⟨{ timerQueued := timerQueued_of_word rfl rfl }, rfl⟩
      · exact ⟨{ timerQueued := timerQueued_of_word rfl rfl }, rfl⟩

omit [DecidableEq Agent] in
/-- Being spawned does not end by it. -/
theorem Spawned.enqueue (h : Spawned s) (t : Task) : Spawned (enqueue s t) := by
  unfold TimerQueue.enqueue
  split
  · exact h
  · split
    · exact h
    · rename_i e' hE
      have hWord : ∀ u, (Function.update s.word t { s.word t with runQueued := true } u).inert =
          false → s.executor u ≠ none := by
        intro u hInert
        by_cases hu : u = t
        · simp [hu, StateWord.inert] at hInert
        · exact h u (by simpa [hu] using hInert)
      dsimp only
      split
      · exact hWord
      · exact hWord

omit [DecidableEq Agent] in
theorem Spawned.remove (h : Spawned s) (prev : Link Task) (p : Task) :
    Spawned ((s.linkSet e prev (s.timerNext p)).setWord p
      { (s.linkSet e prev (s.timerNext p)).word p with timerQueued := false }) := by
  have hWord : (s.linkSet e prev (s.timerNext p)).word = s.word := by cases prev <;> rfl
  have hExec : (s.linkSet e prev (s.timerNext p)).executor = s.executor := by cases prev <;> rfl
  intro u hInert
  rw [State.setWord_executor, hExec]
  refine h u ?_
  by_cases hu : u = p
  · simpa [hu, hWord, StateWord.inert] using hInert
  · simpa [hu, hWord] using hInert

/-- `TimerQueue::update` after a poll. -/
theorem reach_update (t : Task) (next : Option Task) :
    Reach hasAlarm e (stand s e (.updateTest t next) .idle)
      (stand (update s e t) e (.walk next) .idle) := by
  by_cases hMax : s.expiresAt t = instantMax
  · refine reach_drain ?_
    simp [drainStep, hMax, update, stand, State.setDrain]
  · have hTest : Reach hasAlarm e (stand s e (.updateTest t next) .idle)
        (stand s e (.updateOr t next) .idle) :=
      reach_drain (by simp [drainStep, hMax, stand, State.setDrain])
    refine hTest.trans ?_
    -- the bit, then the link, then the head
    let s₁ := s.setWord t { s.word t with timerQueued := true }
    let s₂ := { s₁ with timerNext := Function.update s.timerNext t (s.timerHead e) }
    cases hBit : (s.word t).timerQueued with
    | true =>
      refine reach_drain ?_
      simp [drainStep, hMax, hBit, update, stand, State.setPc, State.setDrain]
    | false =>
      have hOr : Reach hasAlarm e (stand s e (.updateOr t next) .idle)
          (stand s₁ e (.updateNext t next) .idle) :=
        reach_drain (by simp [s₁, drainStep, hBit, stand, State.setPc, State.setDrain])
      have hNext : Reach hasAlarm e (stand s₁ e (.updateNext t next) .idle)
          (stand s₂ e (.updateHead t next) .idle) :=
        reach_drain (by simp [s₁, s₂, drainStep, stand, State.setPc, State.setDrain])
      refine (hOr.trans hNext).trans (reach_drain ?_)
      simp [s₁, s₂, drainStep, hMax, hBit, update, stand, State.setPc, State.setDrain]

/-- `retain` takes a task out. -/
theorem reach_unlink (f : Closure) (prev : Link Task) (p : Task) :
    Reach hasAlarm e (stand s e (.unlink f prev p) .idle)
      (stand ((s.linkSet e prev (s.timerNext p)).setWord p
        { (s.linkSet e prev (s.timerNext p)).word p with timerQueued := false }) e
        (.retain f prev) .idle) := by
  have hUnlink : Reach hasAlarm e (stand s e (.unlink f prev p) .idle)
      (stand (s.linkSet e prev (s.timerNext p)) e (.clearTimerQueued f prev p) .idle) := by
    refine reach_drain ?_
    cases prev <;> simp [drainStep, State.linkSet, stand, State.setPc, State.setDrain]
  refine hUnlink.trans (reach_drain ?_)
  simp [drainStep, stand, State.setPc, State.setDrain]

/-- The machine's closure `c k` does what `f` does. -/
theorem reach_retain {κ : Type} {f : Callback Task Exec Agent κ} {c : κ → Closure}
    (hCall : ∀ p k s prev, Spawned s → Spawned (f p k s).2.2 ∧
      Reach hasAlarm e (stand s e (.filter (c k) prev p) .idle)
        (stand (f p k s).2.2 e (if (f p k s).1 then .retain (c (f p k s).2.1) (.next p)
          else .unlink (c (f p k s).2.1) prev p) .idle))
    {fuel : Nat} {prev : Link Task} {k k' : κ} (hSpawned : Spawned s)
    (h : retainFrom e f fuel prev k s = some (k', s')) :
    Reach hasAlarm e (stand s e (.retain (c k) prev) .idle) (stand s' e (c k').finish .idle) := by
  -- induction on the fuel; the cursor is the link before the task
  induction fuel generalizing prev k s with
  | zero => cases h
  | succ fuel ih =>
    have hGet : (stand s e (.retain (c k) prev) .idle).linkGet e prev = s.linkGet e prev := by
      cases prev <;> rfl
    have hDrain : (stand s e (.retain (c k) prev) .idle).drain e = .retain (c k) prev := by
      simp [stand]
    cases hP : s.linkGet e prev with
    | none =>
      simp only [retainFrom, hP] at h
      cases h
      refine reach_drain ?_
      unfold drainStep
      rw [hDrain]
      simp only [hGet, hP]
      simp [stand, State.setDrain]
    | some p =>
      -- the drain reads the cursor and calls the closure
      have hNext : Reach hasAlarm e (stand s e (.retain (c k) prev) .idle)
          (stand s e (.filter (c k) prev p) .idle) := by
        refine reach_drain ?_
        unfold drainStep
        rw [hDrain]
        simp only [hGet, hP]
        simp [stand, State.setDrain]
      refine hNext.trans ?_
      obtain ⟨hSpawned₁, hReach⟩ := hCall p k s prev hSpawned
      refine hReach.trans ?_
      simp only [retainFrom, hP] at h
      rcases hF : f p k s with ⟨answer, k₁, s₁⟩
      rw [hF] at h hSpawned₁
      cases answer with
      | true => exact ih hSpawned₁ h
      | false =>
        exact (reach_unlink _ prev p).trans (ih (hSpawned₁.remove prev p) h)

/-- `dequeue_expired` at the start of `run_queued`. -/
theorem reach_dequeueExpired (hSpawned : Spawned s) {now fuel : Nat} {reported : List Task}
    (h : dequeueExpired s e now (fun p s => enqueue s p) fuel = some (reported, s')) :
    Reach hasAlarm e (stand s e (.retain (.dequeueExpired now) .head) .idle)
      (stand s' e .swap .idle) := by
  refine reach_retain (c := fun _ => .dequeueExpired now) ?_ hSpawned h
  intro p k s prev hSpawned
  by_cases hDue : s.expiresAt p ≤ now
  · have hFilter : Reach hasAlarm e (stand s e (.filter (.dequeueExpired now) prev p) .idle)
        (stand s e (.onTask (.dequeueExpired now) prev p) (.loadState p)) := by
      refine reach_drain ?_
      simp [drainStep, applyFilter, hDue, stand, State.setPc, State.setDrain]
    have hTask : Reach hasAlarm e
        (stand (enqueue s p) e (.onTask (.dequeueExpired now) prev p) .idle)
        (stand (enqueue s p) e (.unlink (.dequeueExpired now) prev p) .idle) := by
      refine reach_drain ?_
      simp [drainStep, stand, State.setPc, State.setDrain]
    simp only [hDue, if_true]
    exact ⟨hSpawned.enqueue p,
      (hFilter.trans (reach_enqueue _ p (hSpawned p))).trans hTask⟩
  · simp only [hDue, if_false]
    refine ⟨hSpawned, reach_drain ?_⟩
    simp [drainStep, applyFilter, hDue, stand, State.setPc, State.setDrain]

/-- `next_expiration` at the end of `run_queued`. -/
theorem reach_nextExpiration (hSpawned : Spawned s) {fuel res : Nat}
    (h : nextExpiration s e fuel = some (res, s')) :
    Reach hasAlarm e (stand s e (.retain (.nextExpiration instantMax) .head) .idle)
      (stand s' e (.setAlarm res) .idle) := by
  refine reach_retain (c := .nextExpiration) ?_ hSpawned h
  intro p res s prev hSpawned
  refine ⟨hSpawned, reach_drain ?_⟩
  by_cases hMax : s.expiresAt p = instantMax
  · simp [drainStep, applyFilter, hMax, stand, State.setPc, State.setDrain]
  · simp [drainStep, applyFilter, hMax, stand, State.setPc, State.setDrain]

-- ---------------------------------------------------------------------------
-- Runs of the machine
-- ---------------------------------------------------------------------------

/-- An operation of a context, at whatever point, leaves the queue alone. -/
theorem quiet_of_op {x : Context Agent Exec} (h : Op s x s') :
    Quiet s s' ∧ s'.expiresAt = s.expiresAt := by
  cases h with
  | casState hPc => exact ⟨{ timerQueued := timerQueued_of_word rfl rfl }, rfl⟩
  | allocate_ok hPc hW =>
    exact ⟨{ timerQueued := timerQueued_of_word rfl (by rw [hW]; rfl) }, rfl⟩
  | _ => exact ⟨{}, rfl⟩

/-- No deadline is after the end of time. -/
theorem expiresAt_le_of_run (hRun : Reaches hasAlarm (init Task Exec Agent) s) :
    ∀ t, s.expiresAt t ≤ instantMax := by
  refine hRun.invariant (I := fun s => ∀ t, s.expiresAt t ≤ instantMax)
    (fun _ => Nat.zero_le _) ?_
  rintro s a s' hMax - hStep u
  rcases step_op hStep with ⟨x, h⟩ | ⟨e, h⟩
  · rw [(quiet_of_op h).2]
    exact hMax u
  · cases h with
    | @setExpires t next hD =>
      by_cases hu : u = t
      · simp [hu]
      · simpa [hu] using hMax u
    | @registerTimer t next at' hD hAt =>
      by_cases hu : u = t
      · simp [hu, hAt]
      · simpa [hu] using hMax u
    | @unlink f prev p hD => cases prev <;> exact hMax u
    | _ => exact hMax u

section Machine

variable {s : State Task Unit Agent}

omit [DecidableEq Task] [DecidableEq Agent] in
/-- The list of the invariant is the queue of the specification. -/
theorem queueOf_of_timerInv {tq : List Task} (h : TimerInv s tq)
    (hF : (s.drain ()).floating = none) : QueueOf s () tq where
  seg := h.seg
  bit t := by
    rw [h.bit t, hF]
    simp

omit [DecidableEq Task] [DecidableEq Exec] [DecidableEq Agent] in
/-- Tasks with an executor are those that were spawned. -/
theorem spawned_of_queueInv {s : State Task Exec Agent} {L : Layout Task Exec Agent}
    (h : QueueInv s L) : Spawned s := by
  intro t hInert
  obtain ⟨hMark, hSpawned⟩ : (s.word t).runQueued = false ∧ (s.word t).spawned = true := by
    simpa [StateWord.inert] using hInert
  refine (h.homed t hSpawned).resolve_right ?_
  rintro ⟨x, hx⟩
  have hPlace := (h.owned x t).mp (Pc.owned_of_spawning hx)
  cases (h.not_marked hMark).symm.trans hPlace

/-- The executor, where it neither enqueues nor links, with its queue. -/
theorem stand_of_reaches (hRun : Reaches (fun _ => true) (init Task Unit Agent) s) {d : Drain Task}
    (hD : s.drain () = d) (hIdle : ∀ f prev p, d ≠ .onTask f prev p) (hF : d.floating = none) :
    stand s () d .idle = s ∧ Spawned s ∧ ∃ q, QueueOf s () q := by
  obtain ⟨q, hT⟩ := timerInv_of_run hRun
  obtain ⟨⟨L, hQ⟩, -⟩ := queueInv_of_run hRun
  refine ⟨?_, spawned_of_queueInv hQ, q, queueOf_of_timerInv hT (hD ▸ hF)⟩
  have hPc : s.pc (.drain ()) = .idle := hQ.idle_of_drain (by simpa only [hD] using hIdle)
  simp [stand, State.setPc, State.setDrain, ← hD, ← hPc]

/-- `run_queued` enqueues what is due when it is called, and takes it out. -/
theorem dequeue_of_run (hRun : Reaches (fun _ => true) (init Task Unit Agent) s) {now : Nat}
    (hD : s.drain () = .retain (.dequeueExpired now) .head) :
    ∃ q s', QueueOf s () q ∧ Reach (fun _ => true) () s (stand s' () .swap .idle) ∧
      dequeueExpired s () now (fun p s => enqueue s p) (q.length + 1) =
        some (q.filter fun t => s.expiresAt t ≤ now, s') ∧
      QueueOf s' () (q.filter fun t => now < s.expiresAt t) := by
  obtain ⟨hStand, hSpawned, q, hQueue⟩ := stand_of_reaches hRun hD (by simp) rfl
  obtain ⟨s', hDeq, hQueue', -⟩ :=
    dequeueExpired_filter hQueue now enqueue_quiet (Nat.lt_succ_self _)
  refine ⟨q, s', hQueue, ?_, hDeq, hQueue'⟩
  have hReach : Reach (fun _ => true) () (stand s () (.retain (.dequeueExpired now) .head) .idle)
      (stand s' () .swap .idle) := reach_dequeueExpired hSpawned hDeq
  rwa [hStand] at hReach

/-- Task 0 waits for the tick 10, when `run_queued` is called at 12. -/
theorem dequeue_of_run_twelve : ∃ (s : State Nat Unit Unit) (q : List Nat)
    (s' : State Nat Unit Unit), QueueOf s () q ∧ s.expiresAt 0 = 10 ∧
      Reach (fun _ => true) () s (stand s' () .swap .idle) ∧
      QueueOf s' () (q.filter fun t => 12 < s.expiresAt t) := by
  obtain ⟨s, hRun, hD, hExpires⟩ : ∃ s : State Nat Unit Unit,
      Reaches (fun _ => true) (init Nat Unit Unit) s ∧
        s.drain () = .retain (.dequeueExpired 12) .head ∧ s.expiresAt 0 = 10 := by
    have hRun : Reaches (fun _ => true) (init Nat Unit Unit) _ :=
      Run.execOk_get _ (spawnActions () 0 () ++ .runQueued () 0 :: List.replicate 6 (.drain ()) ++
        [.registerTimer () 12, .registerTimer () 10, .pollReturn () false] ++
        List.replicate 9 (.drain ()) ++ [.runQueued () 12]) (by decide +kernel)
    exact ⟨_, hRun, by decide +kernel, by decide +kernel⟩
  obtain ⟨q, s', hQueue, hReach, -, hQueue'⟩ := dequeue_of_run hRun hD
  exact ⟨s, q, s', hQueue, hExpires, hReach, hQueue'⟩

/-- `run_queued` sets the alarm to the earliest deadline in the queue. -/
theorem expiration_of_run (hRun : Reaches (fun _ => true) (init Task Unit Agent) s)
    (hD : s.drain () = .retain (.nextExpiration instantMax) .head) :
    ∃ q s', QueueOf s () q ∧
      Reach (fun _ => true) () s
        (stand s' () (.setAlarm ((q.map s.expiresAt).min?.getD instantMax)) .idle) ∧
      QueueOf s' () (q.filter fun t => s.expiresAt t ≠ instantMax) := by
  obtain ⟨hStand, hSpawned, q, hQueue⟩ := stand_of_reaches hRun hD (by simp) rfl
  obtain ⟨s', hNext, hQueue', -⟩ :=
    nextExpiration_min hQueue (expiresAt_le_of_run hRun) (Nat.lt_succ_self _)
  refine ⟨q, s', hQueue, ?_, hQueue'⟩
  have hReach : Reach (fun _ => true) ()
      (stand s () (.retain (.nextExpiration instantMax) .head) .idle)
      (stand s' () (.setAlarm _) .idle) := reach_nextExpiration hSpawned hNext
  rwa [hStand] at hReach

/-- Task 0 has registered the ticks 12 and 10, and `run_queued` looks for the earliest. -/
theorem expiration_of_run_ten :
    ∃ (s : State Nat Unit Unit) (q : List Nat) (s' : State Nat Unit Unit),
      QueueOf s () q ∧ s.expiresAt 0 = 10 ∧
        Reach (fun _ => true) () s
          (stand s' () (.setAlarm ((q.map s.expiresAt).min?.getD instantMax)) .idle) := by
  obtain ⟨s, hRun, hD, hExpires⟩ : ∃ s : State Nat Unit Unit,
      Reaches (fun _ => true) (init Nat Unit Unit) s ∧
        s.drain () = .retain (.nextExpiration instantMax) .head ∧ s.expiresAt 0 = 10 := by
    have hRun : Reaches (fun _ => true) (init Nat Unit Unit) _ :=
      Run.execOk_get _ (spawnActions () 0 () ++ .runQueued () 0 :: List.replicate 6 (.drain ()) ++
        [.registerTimer () 12, .registerTimer () 10, .pollReturn () false] ++
        List.replicate 5 (.drain ())) (by decide +kernel)
    exact ⟨_, hRun, by decide +kernel, by decide +kernel⟩
  obtain ⟨q, s', hQueue, hReach, -⟩ := expiration_of_run hRun hD
  exact ⟨s, q, s', hQueue, hExpires, hReach⟩

end Machine

end TimerQueue

end Embassy.Executor
