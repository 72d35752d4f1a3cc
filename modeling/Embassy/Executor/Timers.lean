import Mathlib.Data.List.Nodup
import Embassy.Executor.Wake

/-!
# The timer queue

One executor with an alarm. A deadline that a task registers while it is polled
ends in its `expires_at`; after the poll `TimerQueue::update` puts the task in
the timer queue, if it is not there yet. `next_expiration` removes what has no
deadline left and finds the value for the alarm, and `dequeue_expired` of a later
`run_queued` enqueues what is due and removes it.

A task can be woken, finish, be spawned again or be in the queue already at any
point of this. What matters is that only a task that is *asleep* (spawned and not
marked to run) depends on its deadline, that a task falls asleep only when a
drain clears its mark, and that the same drain then polls it and updates the
queue. `TimerInv` says what holds of the sleeping tasks in between.

Main results:

* `TimerInv.step` / `timerInv_of_run` — every operation keeps the invariant, so
  it holds of every reachable state.
-/

namespace Embassy.Executor

open Embassy.Lib

-- ---------------------------------------------------------------------------
-- The drain and the timer queue
-- ---------------------------------------------------------------------------

section Accessors

variable {Task : Type}

/-- The task that has `STATE_TIMER_QUEUED` set and is not linked: it is being
taken out, or put in. -/
def Drain.floating : Drain Task → Option Task
  | .clearTimerQueued _ _ p => some p
  | .updateNext t _ | .updateHead t _ => some t
  | _ => none

/-- The task whose latest poll has begun in this visit of the drain. -/
def Drain.polled : Drain Task → Option Task
  | .polling t _ | .dropFuture t _ | .release t _ | .updateTest t _ | .updateOr t _
  | .updateNext t _ | .updateHead t _ => some t
  | _ => none

/-- The task that the drain has cleared and not yet finished with. -/
def Drain.visiting : Drain Task → Option Task
  | .poll t _ => some t
  | d => d.polled

/-- The closure of the running `retain`. -/
def Drain.closure : Drain Task → Option Closure
  | .retain f _ | .filter f _ _ | .onTask f _ _ | .unlink f _ _ | .clearTimerQueued f _ _ =>
    some f
  | _ => none

/-- What `retain` leaves behind does not expire before this. -/
def Closure.bound : Closure → Nat
  | .dequeueExpired now => now + 1
  | .nextExpiration res => res

/-- The cell `prev` is the last one of the tasks `v`. -/
def Link.Ends : Link Task → List Task → Prop
  | .head, v => v = []
  | .next w, v => ∃ v', v = v' ++ [w]

/-- The drain is not at a task that it has cleared, and not between the word and
the link of a task in the timer queue. -/
def Drain.outside : Drain Task → Bool
  | .idle | .retain _ _ | .filter _ _ _ | .onTask _ _ _ | .unlink _ _ _ | .swap | .walk _
  | .setExpires _ _ | .clearRunQueued _ _ | .setAlarm _ => true
  | _ => false

/-- The drain goes from `d` on to `d'`, and neither begins a poll nor links or
unlinks a task. -/
structure Drain.Precedes (d d' : Drain Task) : Prop where
  floating : d'.floating = d.floating
  notPoll : ∀ t next, d ≠ .poll t next
  notPoll' : ∀ t next, d' ≠ .poll t next
  polled : ∀ t, d'.polled = some t → d.polled = some t

/-- The two differ only at the begin of a poll. -/
theorem Drain.visiting_eq_polled {d : Drain Task} (h : ∀ t next, d ≠ .poll t next) :
    d.visiting = d.polled := by
  cases d <;> simp_all [visiting]

theorem Drain.polled_of_outside {d : Drain Task} (h : d.outside = true) : d.polled = none := by
  cases d <;> first | rfl | cases h

/-- Between two such places the drain begins and links nothing. -/
theorem Drain.Precedes.of_outside {d d' : Drain Task} (h : d.outside = true)
    (h' : d'.outside = true) : d.Precedes d' where
  floating := by
    have hNone : ∀ d : Drain Task, d.outside = true → d.floating = none := by
      intro d h
      cases d <;> first | rfl | cases h
    rw [hNone d h, hNone d' h']
  notPoll := by
    rintro t next rfl
    cases h
  notPoll' := by
    rintro t next rfl
    cases h'
  polled := by simp [polled_of_outside h']

end Accessors

/-- A minimum that is accumulated is below the start and below every element. -/
theorem foldl_min_le (l : List Nat) (m : Nat) :
    l.foldl min m ≤ m ∧ ∀ a ∈ l, l.foldl min m ≤ a := by
  induction l generalizing m with
  | nil => simp
  | cons b l ih =>
    -- The accumulator is one of the elements so far.
    obtain ⟨hMin, hAll⟩ := ih (min m b)
    simp only [List.foldl_cons, List.mem_cons, forall_eq_or_imp]
    exact ⟨by omega, by omega, hAll⟩

variable {Task Agent : Type}

namespace State

/-- The task is spawned, and not marked to run. -/
def Asleep (s : State Task Unit Agent) (t : Task) : Prop :=
  (s.word t).spawned = true ∧ (s.word t).runQueued = false

/-- The minimum of the deadlines registered in the latest poll. -/
def minDeadline (s : State Task Unit Agent) (t : Task) : Nat :=
  (s.deadlines t).foldl min instantMax

/-- The minimum is below every registered deadline. -/
theorem minDeadline_le (s : State Task Unit Agent) {t : Task} {at' : Nat}
    (h : at' ∈ s.deadlines t) : s.minDeadline t ≤ at' :=
  (foldl_min_le _ _).2 at' h

/-- `retain` stands at the cell `prev` of the queue `tq`; `mid` is the task it is
at, if any. -/
def Cursor (s : State Task Unit Agent) (tq : List Task) (f : Closure) (prev : Link Task)
    (mid : List Task) : Prop :=
  ∃ v r, tq = v ++ mid ++ r ∧ prev.Ends v ∧ ∀ t ∈ v, f.bound ≤ s.expiresAt t

/-- What holds of the timer queue `tq` where the drain stands. -/
def DrainOk (s : State Task Unit Agent) (tq : List Task) : Drain Task → Prop
  | .idle => tq = [] ∨ ∃ value, s.alarm () = some value ∧ ∀ t ∈ tq, value ≤ s.expiresAt t
  | .retain f prev => s.Cursor tq f prev []
  | .filter f prev p => s.Cursor tq f prev [p]
  | .onTask f prev p => s.Cursor tq f prev [p] ∧
      (s.Asleep p → s.pc (.drain ()) = .loadState p ∨
        ∃ current, s.pc (.drain ()) = .casState p current)
  | .unlink f prev p => s.Cursor tq f prev [p] ∧ (s.Asleep p → s.expiresAt p = instantMax)
  | .clearTimerQueued f prev _ => s.Cursor tq f prev []
  | .clearRunQueued t _ | .poll t _ => s.expiresAt t = instantMax
  | .updateHead t _ => s.timerNext t = s.timerHead ()
  | .setAlarm value => ∀ t ∈ tq, value ≤ s.expiresAt t
  | _ => True

end State

structure TimerInv (s : State Task Unit Agent) (tq : List Task) : Prop where
  seg : Seg s.timerNext (s.timerHead ()) tq none
  bit : ∀ t, (s.word t).timerQueued = true ↔ t ∈ tq ∨ (s.drain ()).floating = some t
  apart : ∀ t ∈ tq, (s.drain ()).floating ≠ some t
  -- deadlines of earlier polls are gone
  current : ∀ t, s.Asleep t ∨ (s.drain ()).polled = some t →
    (∀ next, s.drain () ≠ .poll t next) → s.expiresAt t = s.minDeadline t
  fresh : ∀ t, 0 < s.polls t → s.expiresAt t = s.minDeadline t ∨ s.expiresAt t = instantMax
  kept : ∀ t, s.Asleep t → s.minDeadline t ≠ instantMax → (s.drain ()).visiting ≠ some t → t ∈ tq
  here : s.DrainOk tq (s.drain ())

theorem timerInv_init : TimerInv (init Task Unit Agent) [] := by
  constructor <;>
    simp [init, StateWord.free, State.Asleep, State.DrainOk, Drain.floating, Drain.polled]

-- ---------------------------------------------------------------------------
-- The state word
-- ---------------------------------------------------------------------------

section Word

variable {Exec : Type} [DecidableEq Task] {s s' : State Task Exec Agent} {t : Task} {w : StateWord}

/-- The word of one task is written, and its `STATE_TIMER_QUEUED` is as it was. -/
theorem timerQueued_of_word (hWord : s'.word = Function.update s.word t w)
    (h : w.timerQueued = (s.word t).timerQueued) (u : Task) :
    (s'.word u).timerQueued = (s.word u).timerQueued := by
  rw [hWord]
  by_cases hu : u = t
  · simp [hu, h]
  · simp [hu]

/-- The word of one task is written, which does not put it to sleep. -/
theorem asleep_of_word (hWord : s'.word = Function.update s.word t w)
    (h : w.spawned = true ∧ w.runQueued = false →
      (s.word t).spawned = true ∧ (s.word t).runQueued = false) (u : Task)
    (hA : (s'.word u).spawned = true ∧ (s'.word u).runQueued = false) :
    (s.word u).spawned = true ∧ (s.word u).runQueued = false := by
  rw [hWord] at hA
  by_cases hu : u = t
  · subst hu
    exact h (by simpa using hA)
  · simpa [hu] using hA

end Word

-- ---------------------------------------------------------------------------
-- The cell `prev`
-- ---------------------------------------------------------------------------

section Cell

variable {Exec : Type} [DecidableEq Exec] {s : State Task Exec Agent} {e : Exec}
  {prev : Link Task} {v r : List Task}

omit [DecidableEq Exec] in
/-- What follows the cell is the rest of the queue. -/
theorem seg_linkGet (hSeg : Seg s.timerNext (s.timerHead e) (v ++ r) none)
    (hEnds : prev.Ends v) : Seg s.timerNext (s.linkGet e prev) r none := by
  cases prev with
  | head =>
    cases hEnds
    exact hSeg
  | next w =>
    obtain ⟨v', rfl⟩ := hEnds
    rw [List.append_assoc] at hSeg
    obtain ⟨k, -, -, hRest⟩ := Seg.append_iff.mp hSeg
    exact hRest

omit [DecidableEq Exec] in
/-- The cell holds the first task of the rest. -/
theorem eq_cons_of_linkGet {p : Task} (hSeg : Seg s.timerNext (s.timerHead e) (v ++ r) none)
    (hEnds : prev.Ends v) (hP : s.linkGet e prev = some p) : ∃ r', r = p :: r' := by
  have hRest := seg_linkGet hSeg hEnds
  rw [hP] at hRest
  exact hRest.eq_cons

omit [DecidableEq Exec] in
/-- The cell holds no task at the end of the queue. -/
theorem eq_nil_of_linkGet (hSeg : Seg s.timerNext (s.timerHead e) (v ++ r) none)
    (hEnds : prev.Ends v) (hP : s.linkGet e prev = none) : r = [] := by
  have hRest := seg_linkGet hSeg hEnds
  rw [hP] at hRest
  exact hRest.eq_nil

/-- `prev.set(task.next.get())` takes the task out. -/
theorem seg_linkSet [DecidableEq Task] {p : Task}
    (hSeg : Seg s.timerNext (s.timerHead e) (v ++ p :: r) none) (hEnds : prev.Ends v) :
    Seg (s.linkSet e prev (s.timerNext p)).timerNext
      ((s.linkSet e prev (s.timerNext p)).timerHead e) (v ++ r) none := by
  cases prev with
  | head =>
    cases hEnds
    simpa [State.linkSet] using hSeg.2
  | next w =>
    -- The cell is the link of the last task before it.
    obtain ⟨v', rfl⟩ := hEnds
    simp only [List.append_assoc, List.singleton_append] at hSeg ⊢
    exact hSeg.unlink

end Cell

section Cursor

variable {s : State Task Unit Agent} {prev : Link Task}

/-- `retain` goes past a task that stays. -/
theorem State.Cursor.keep {tq : List Task} {f f' : Closure} {p : Task}
    (h : s.Cursor tq f prev [p]) (hf : f'.bound ≤ f.bound) (hp : f'.bound ≤ s.expiresAt p) :
    s.Cursor tq f' (.next p) [] := by
  obtain ⟨v, r, rfl, -, hBound⟩ := h
  refine ⟨v ++ [p], r, by simp, ⟨v, rfl⟩, ?_⟩
  intro t ht
  rcases List.mem_append.mp ht with ht | ht
  · exact Nat.le_trans hf (hBound t ht)
  · rwa [List.mem_singleton.mp ht]

/-- A smaller bound is kept by more tasks. -/
theorem State.Cursor.mono {tq mid : List Task} {f f' : Closure} (h : s.Cursor tq f prev mid)
    (hf : f'.bound ≤ f.bound) : s.Cursor tq f' prev mid := by
  obtain ⟨v, r, hTq, hEnds, hBound⟩ := h
  exact ⟨v, r, hTq, hEnds, fun t ht => Nat.le_trans hf (hBound t ht)⟩

end Cursor

-- ---------------------------------------------------------------------------
-- Contexts
-- ---------------------------------------------------------------------------

/-- The queue, the deadlines and the polls are as they were, and no task has
fallen asleep. -/
structure SameTimers (s s' : State Task Unit Agent) : Prop where
  timerNext : s'.timerNext = s.timerNext := by rfl
  timerHead : s'.timerHead = s.timerHead := by rfl
  expiresAt : s'.expiresAt = s.expiresAt := by rfl
  deadlines : s'.deadlines = s.deadlines := by rfl
  polls : s'.polls = s.polls := by rfl
  timerQueued : ∀ t, (s'.word t).timerQueued = (s.word t).timerQueued := by exact fun _ => rfl
  asleep : ∀ t, s'.Asleep t → s.Asleep t := by exact fun _ => id

theorem SameTimers.minDeadline {s s' : State Task Unit Agent} (hSame : SameTimers s s')
    (t : Task) : s'.minDeadline t = s.minDeadline t := by
  simp only [State.minDeadline, hSame.deadlines]

/-- What holds where the drain stands is about the queue, the deadlines and the alarm, except for
the task it is about to wake. -/
theorem State.DrainOk.mono {s s' : State Task Unit Agent} {tq : List Task} {d : Drain Task}
    (h : s.DrainOk tq d) (hSame : SameTimers s s') (hAlarm : s'.alarm = s.alarm)
    (hWaking : ∀ f prev p, d = .onTask f prev p → s'.Asleep p →
      s'.pc (.drain ()) = .loadState p ∨ ∃ current, s'.pc (.drain ()) = .casState p current) :
    s'.DrainOk tq d := by
  cases d with
  | onTask f prev p =>
    refine ⟨?_, hWaking f prev p rfl⟩
    simpa only [State.Cursor, hSame.expiresAt] using h.1
  | unlink f prev p =>
    refine ⟨?_, fun hA => ?_⟩
    · simpa only [State.Cursor, hSame.expiresAt] using h.1
    · rw [hSame.expiresAt]
      exact h.2 (hSame.asleep p hA)
  | idle => simpa only [State.DrainOk, hSame.expiresAt, hAlarm] using h
  | retain | filter | clearTimerQueued | setAlarm =>
    simpa only [State.DrainOk, State.Cursor, hSame.expiresAt] using h
  | clearRunQueued | poll => simpa only [State.DrainOk, hSame.expiresAt] using h
  | updateHead => simpa only [State.DrainOk, hSame.timerNext, hSame.timerHead] using h
  | _ => trivial

/-- An executor goes on to enqueue a task until it has marked it, or found that
there is nothing to do. -/
theorem Op.waking {Exec : Type} [DecidableEq Task] [DecidableEq Exec] [DecidableEq Agent]
    {s s' : State Task Exec Agent} {x : Context Agent Exec} {e : Exec} {t : Task} (h : Op s x s')
    (hPc : s.pc (.drain e) = .loadState t ∨ ∃ current, s.pc (.drain e) = .casState t current)
    (hA : (s'.word t).spawned = true ∧ (s'.word t).runQueued = false) :
    s'.pc (.drain e) = .loadState t ∨ ∃ current, s'.pc (.drain e) = .casState t current := by
  -- It is the wake of the drain itself that sees the task marked.
  by_cases hx : x = .drain e
  · subst hx
    cases h with
    | @enqueue_return u k hPc' hk hInert =>
      have hu : u = t := by
        rcases hk with rfl | ⟨_, rfl⟩ <;> simpa [hPc'] using hPc
      subst hu
      have hOld : (s.word u).spawned = true ∧ (s.word u).runQueued = false := hA
      simp [StateWord.inert, hOld.1, hOld.2] at hInert
    | @enqueue_retry u k hPc' hk hInert =>
      have hu : u = t := by
        rcases hk with rfl | ⟨_, rfl⟩ <;> simpa [hPc'] using hPc
      exact .inr ⟨s.word t, by simp [hu]⟩
    | @casState u hPc' =>
      have hu : u = t := by simpa [hPc'] using hPc
      simp [hu] at hA
    | loadHead hPc' hk => rcases hk with rfl | ⟨_, rfl⟩ <;> simp [hPc'] at hPc
    | wake hx hPc' | spawnPool hx hPc' | getExecutor hPc' | storeNext hPc' | casHead hPc'
    | signal hPc' | allocate_none hPc' | allocate_ok hPc' | allocate_busy hPc'
    | writePollFn hPc' | writeFuture hPc' | spawn hPc' => simp [hPc'] at hPc
  · have hEq : s'.pc (.drain e) = s.pc (.drain e) := by
      cases h <;> exact Function.update_of_ne (Ne.symm hx) _ _
    rwa [hEq]

namespace Op

variable [DecidableEq Task] [DecidableEq Agent] {s s' : State Task Unit Agent}
  {x : Context Agent Unit}

/-- A context wakes and allocates, and puts no task to sleep. -/
theorem sameTimers (h : Op s x s') : SameTimers s s' := by
  cases h with
  | casState hPc =>
    exact {
      timerQueued := timerQueued_of_word rfl rfl
      asleep := asleep_of_word rfl (by simp) }
  | allocate_ok hPc hW =>
    exact {
      timerQueued := timerQueued_of_word rfl
        (by simp [hW, StateWord.allocated, StateWord.free])
      asleep := asleep_of_word rfl (by simp [StateWord.allocated]) }
  | _ => exact {}

/-- Only the drain sets the alarm. -/
theorem alarm_eq (h : Op s x s') : s'.alarm = s.alarm := by
  cases h <;> rfl

end Op

namespace TimerInv

variable {s s' : State Task Unit Agent} {tq : List Task}

-- ---------------------------------------------------------------------------
-- Operations that leave the queue alone
-- ---------------------------------------------------------------------------

/-- The drain goes on. The queue may change, but no deadline does. -/
theorem relink (hT : TimerInv s tq) {d : Drain Task} {tq' : List Task} (hDrain : s'.drain () = d)
    (hExp : s'.expiresAt = s.expiresAt) (hDead : s'.deadlines = s.deadlines)
    (hPolls : s'.polls = s.polls) (hAsleep : ∀ t, s'.Asleep t → s.Asleep t)
    (hFrom : ∀ t next, s.drain () ≠ .poll t next) (hTo : ∀ t next, d ≠ .poll t next)
    (hPolled : ∀ t, d.polled = some t → (s.drain ()).polled = some t)
    (hSeg : Seg s'.timerNext (s'.timerHead ()) tq' none)
    (hBit : ∀ t, (s'.word t).timerQueued = true ↔ t ∈ tq' ∨ d.floating = some t)
    (hApart : ∀ t ∈ tq', d.floating ≠ some t)
    (hKept : ∀ t, s.Asleep t → s.minDeadline t ≠ instantMax →
      t ∈ tq ∨ (s.drain ()).polled = some t → t ∈ tq' ∨ d.polled = some t)
    (hHere : s'.DrainOk tq' d) : TimerInv s' tq' := by
  have hMin : ∀ t, s'.minDeadline t = s.minDeadline t := by
    intro t
    simp only [State.minDeadline, hDead]
  constructor
  case seg => exact hSeg
  case bit => rw [hDrain]; exact hBit
  case apart => rw [hDrain]; exact hApart
  case current =>
    intro t h _
    rw [hExp, hMin]
    refine hT.current t (h.imp (hAsleep t) fun hp => ?_) (hFrom t)
    exact hPolled t (hDrain ▸ hp)
  case fresh =>
    intro t
    rw [hExp, hPolls, hMin]
    exact hT.fresh t
  case kept =>
    intro t hA hM hV
    rw [hMin] at hM
    rw [hDrain, Drain.visiting_eq_polled hTo] at hV
    refine (hKept t (hAsleep t hA) hM ?_).resolve_right hV
    -- A task with a deadline was linked or polled, and is so again.
    by_cases hOld : (s.drain ()).polled = some t
    · exact .inr hOld
    · exact .inl (hT.kept t (hAsleep t hA) hM (by rwa [Drain.visiting_eq_polled hFrom]))
  case here => rw [hDrain]; exact hHere

/-- The drain goes on, and leaves the queue and the deadlines alone. -/
theorem goto (hT : TimerInv s tq) {d : Drain Task} (hDrain : s'.drain () = d)
    (hSame : SameTimers s s') (hNext : (s.drain ()).Precedes d)
    (hLeft : ∀ t, (s.drain ()).polled = some t → d.polled = some t ∨
      (s.Asleep t → s.minDeadline t ≠ instantMax → t ∈ tq))
    (hHere : s'.DrainOk tq d) : TimerInv s' tq := by
  refine hT.relink hDrain hSame.expiresAt hSame.deadlines hSame.polls hSame.asleep hNext.notPoll
    hNext.notPoll' hNext.polled ?_ ?_ ?_ ?_ hHere
  · rw [hSame.timerNext, hSame.timerHead]
    exact hT.seg
  · intro t
    rw [hSame.timerQueued, hNext.floating]
    exact hT.bit t
  · rw [hNext.floating]
    exact hT.apart
  · rintro t hA hM (hMem | hOld)
    · exact .inl hMem
    · rcases hLeft t hOld with h | h
      · exact .inr h
      · exact .inl (h hA hM)

/-- The drain goes on in `retain` or in the walk. -/
theorem pass (hT : TimerInv s tq) {d₀ d : Drain Task} (hD : s.drain () = d₀)
    (hDrain : s'.drain = Function.update s.drain () d) (hOut : d₀.outside = true)
    (hOut' : d.outside = true) (hSame : SameTimers s s') (hHere : s'.DrainOk tq d) :
    TimerInv s' tq := by
  subst hD
  refine hT.goto (by simp [hDrain]) hSame (.of_outside hOut hOut') ?_ hHere
  simp [Drain.polled_of_outside hOut]

/-- The drain goes on within the visit of a task. -/
theorem visit (hT : TimerInv s tq) {d₀ d : Drain Task} {t : Task} (hD : s.drain () = d₀)
    (hDrain : s'.drain = Function.update s.drain () d) (hPolled : d₀.polled = some t)
    (hPolled' : d.polled = some t) (hFloating : d₀.floating = none)
    (hFloating' : d.floating = none) (hSame : SameTimers s s') (hHere : s'.DrainOk tq d) :
    TimerInv s' tq := by
  subst hD
  refine hT.goto (by simp [hDrain]) hSame ⟨hFloating'.trans hFloating.symm, ?_, ?_, ?_⟩ ?_ hHere
  · rintro u next h
    simp [h, Drain.polled] at hPolled
  · rintro u next rfl
    simp [Drain.polled] at hPolled'
  · exact fun u hu => hPolled.trans (hPolled'.symm.trans hu)
  · exact fun u hu => .inl (hPolled'.trans (hPolled.symm.trans hu))

variable [DecidableEq Task] [DecidableEq Agent]

/-- What a context does keeps the timers' invariant. -/
theorem context_op (hT : TimerInv s tq) {x : Context Agent Unit} (h : Op s x s') :
    TimerInv s' tq := by
  have hSame := h.sameTimers
  constructor
  case seg => rw [hSame.timerNext, hSame.timerHead]; exact hT.seg
  case bit =>
    intro t
    rw [hSame.timerQueued, h.drain_eq]
    exact hT.bit t
  case apart => rw [h.drain_eq]; exact hT.apart
  case current =>
    intro t hA
    rw [h.drain_eq, hSame.expiresAt, hSame.minDeadline]
    exact hT.current t (hA.imp (hSame.asleep t) (h.drain_eq ▸ id))
  case fresh =>
    intro t
    rw [hSame.expiresAt, hSame.polls, hSame.minDeadline]
    exact hT.fresh t
  case kept =>
    intro t hA
    rw [h.drain_eq, hSame.minDeadline]
    exact hT.kept t (hSame.asleep t hA)
  case here =>
    rw [h.drain_eq]
    refine hT.here.mono hSame h.alarm_eq ?_
    intro f prev p hD hA
    have hHere := hT.here
    rw [hD] at hHere
    -- The task that the drain wakes may be marked by another context meanwhile.
    exact h.waking (hHere.2 (hSame.asleep p hA)) hA

-- ---------------------------------------------------------------------------
-- Operations on the queue
-- ---------------------------------------------------------------------------

omit [DecidableEq Agent] in
/-- `retain` takes a task out of the queue. -/
theorem unlink (hT : TimerInv s tq) {f : Closure} {prev : Link Task} {p : Task}
    (hD : s.drain () = .unlink f prev p) :
    ∃ tq', TimerInv ((s.linkSet () prev (s.timerNext p)).setDrain ()
      (.clearTimerQueued f prev p)) tq' := by
  have hHere := hT.here
  rw [hD] at hHere
  obtain ⟨⟨v, r, rfl, hEnds, hBound⟩, hGone⟩ := hHere
  have hSeg := hT.seg
  simp only [List.append_assoc, List.singleton_append] at hSeg
  have hNodup := hSeg.nodup
  refine ⟨v ++ r, ?_⟩
  -- Only one link changes, that of the head or of the task before.
  have hWord : (s.linkSet () prev (s.timerNext p)).word = s.word := by cases prev <;> rfl
  have hExp : (s.linkSet () prev (s.timerNext p)).expiresAt = s.expiresAt := by
    cases prev <;> rfl
  have hDead : (s.linkSet () prev (s.timerNext p)).deadlines = s.deadlines := by
    cases prev <;> rfl
  have hPolls : (s.linkSet () prev (s.timerNext p)).polls = s.polls := by cases prev <;> rfl
  refine hT.relink (d := .clearTimerQueued f prev p) (by simp) hExp hDead hPolls ?_
    (by simp [hD]) (by simp) (by simp [Drain.polled]) (seg_linkSet hSeg hEnds) ?_ ?_ ?_
    ⟨v, r, by simp, hEnds, ?_⟩
  · intro t hA
    simpa [State.Asleep, hWord] using hA
  · intro t
    rw [State.setDrain_word, hWord, hT.bit t, hD]
    simp only [Drain.floating, List.mem_append, List.mem_singleton, Option.some.injEq,
      reduceCtorEq, or_false, eq_comm (a := p)]
    tauto
  · -- the task was linked once
    rintro t hMem hEq
    cases hEq
    have hOut := (List.nodup_middle.mp hNodup).notMem
    exact hOut hMem
  · rintro t hA hM (hMem | hOld)
    · have ht : t ≠ p := by
        rintro rfl
        have hEq := hT.current t (.inl hA) (by simp [hD])
        exact hM (hEq ▸ hGone hA)
      left
      simpa [ht] using hMem
    · simp [hD, Drain.polled] at hOld
  · simpa [hExp] using hBound

omit [DecidableEq Agent] in
/-- The task that was taken out loses its bit, and the cursor stays. -/
theorem clearTimerQueued (hT : TimerInv s tq) {f : Closure} {prev : Link Task} {p : Task}
    (hD : s.drain () = .clearTimerQueued f prev p) :
    TimerInv ((s.setWord p { s.word p with timerQueued := false }).setDrain () (.retain f prev))
      tq := by
  have hHere := hT.here
  rw [hD] at hHere
  refine hT.relink (d := .retain f prev) (by simp) rfl rfl rfl (asleep_of_word rfl id)
    (by simp [hD]) (by simp) (by simp [Drain.polled]) hT.seg ?_ (by simp [Drain.floating]) ?_ hHere
  · intro t
    by_cases ht : t = p
    · -- The task stands apart from the queue, so its bit may go.
      have hOut : p ∉ tq := fun hMem => hT.apart p hMem (by simp [hD, Drain.floating])
      simp [ht, hOut, Drain.floating]
    · have := hT.bit t
      simpa [hD, ht, Ne.symm ht, Drain.floating] using this
  · rintro t - - (hMem | hOld)
    · exact .inl hMem
    · simp [hD, Drain.polled] at hOld

omit [DecidableEq Agent] in
/-- `update` finds that the task is not in the queue, and claims it. -/
theorem updateOr_new (hT : TimerInv s tq) {t : Task} {next : Option Task}
    (hD : s.drain () = .updateOr t next) (hW : (s.word t).timerQueued = false) :
    TimerInv ((s.setWord t { s.word t with timerQueued := true }).setDrain ()
      (.updateNext t next)) tq := by
  -- A task of the queue would have the bit already.
  have hOut : t ∉ tq := by
    intro hMem
    simp [(hT.bit t).mpr (.inl hMem)] at hW
  refine hT.relink (d := .updateNext t next) (by simp) rfl rfl rfl (asleep_of_word rfl id)
    (by simp [hD]) (by simp) (by simp [hD, Drain.polled]) hT.seg ?_ ?_ ?_ trivial
  · intro u
    by_cases hu : u = t
    · simp [hu, Drain.floating]
    · have := hT.bit u
      simpa [hD, hu, Ne.symm hu, Drain.floating] using this
  · rintro u hMem hEq
    cases hEq
    exact hOut hMem
  · intro u _ _ h
    simpa [hD, Drain.polled] using h

omit [DecidableEq Agent] in
/-- The task that was claimed gets the old head as its successor. -/
theorem updateNext (hT : TimerInv s tq) {t : Task} {next : Option Task}
    (hD : s.drain () = .updateNext t next) :
    TimerInv ({ s with timerNext := Function.update s.timerNext t (s.timerHead ()) }.setDrain ()
      (.updateHead t next)) tq := by
  have hOut : t ∉ tq := fun hMem => hT.apart t hMem (by simp [hD, Drain.floating])
  refine hT.relink (d := .updateHead t next) (by simp) rfl rfl rfl (fun _ => id) (by simp [hD])
    (by simp) (by simp [hD, Drain.polled]) (hT.seg.update_of_notMem hOut) ?_ ?_ ?_ ?_
  · intro u
    have := hT.bit u
    simpa [hD, Drain.floating] using this
  · have := hT.apart
    simpa [hD, Drain.floating] using this
  · intro u _ _ h
    simpa [hD, Drain.polled] using h
  · simp [State.DrainOk]

omit [DecidableEq Agent] in
/-- The task is put in front of the queue. -/
theorem updateHead (hT : TimerInv s tq) {t : Task} {next : Option Task}
    (hD : s.drain () = .updateHead t next) :
    TimerInv ({ s with timerHead := Function.update s.timerHead () (some t) }.setDrain ()
      (.walk next)) (t :: tq) := by
  have hHere := hT.here
  rw [hD] at hHere
  refine hT.relink (d := .walk next) (by simp) rfl rfl rfl (fun _ => id) (by simp [hD])
    (by simp) (by simp [Drain.polled]) ?_ ?_ (by simp [Drain.floating]) ?_ trivial
  · refine ⟨by simp, ?_⟩
    have hLink : s.timerNext t = s.timerHead () := hHere
    simpa [hLink] using hT.seg
  · intro u
    have := hT.bit u
    simp only [hD, Drain.floating, Option.some.injEq] at this
    simp only [State.setDrain_word, this, List.mem_cons, Drain.floating, reduceCtorEq, or_false,
      eq_comm (a := t)]
    tauto
  · rintro u - - (hMem | hOld)
    · exact .inl (List.mem_cons_of_mem t hMem)
    · have hu : t = u := by simpa [hD, Drain.polled] using hOld
      exact .inl (hu ▸ List.mem_cons_self)

-- ---------------------------------------------------------------------------
-- Operations on the deadlines
-- ---------------------------------------------------------------------------

omit [DecidableEq Agent] in
/-- The task that the drain has taken forgets its deadline. It is still marked,
so it is not asleep. -/
theorem setExpires (hT : TimerInv s tq) {t : Task} {next : Option Task}
    (hD : s.drain () = .setExpires t next) (hW : (s.word t).runQueued = true) :
    TimerInv ({ s with expiresAt := Function.update s.expiresAt t instantMax }.setDrain ()
      (.clearRunQueued t next)) tq := by
  constructor
  case seg => exact hT.seg
  case bit =>
    have := hT.bit
    simpa [hD, Drain.floating] using this
  case apart => simp [Drain.floating]
  case current =>
    intro u h _
    -- The task is marked, so nothing is asked of its deadline yet.
    have hA : s.Asleep u := h.resolve_right (by simp [Drain.polled])
    have hu : u ≠ t := by
      rintro rfl
      simp [hA.2] at hW
    simpa [State.minDeadline, hu] using hT.current u (.inl hA) (by simp [hD])
  case fresh =>
    intro u hPos
    by_cases hu : u = t
    · exact .inr (by simp [hu])
    · simpa [State.minDeadline, hu] using hT.fresh u hPos
  case kept =>
    intro u hA hM _
    exact hT.kept u hA hM (by simp [hD, Drain.visiting, Drain.polled])
  case here => simp [State.DrainOk]

omit [DecidableEq Agent] in
/-- The task falls asleep; its poll comes next. -/
theorem clear_spawned (hT : TimerInv s tq) {t : Task} {next : Option Task}
    (hD : s.drain () = .clearRunQueued t next) :
    TimerInv ({ s.setWord t { s.word t with runQueued := false } with
      clears := Function.update s.clears t (s.clears t + 1) }.setDrain () (.poll t next)) tq := by
  have hHere := hT.here
  rw [hD] at hHere
  -- Only this task is no longer marked.
  have hOld : ∀ u, u ≠ t → ({ s.setWord t { s.word t with runQueued := false } with
      clears := Function.update s.clears t (s.clears t + 1) }.setDrain ()
        (.poll t next)).Asleep u → s.Asleep u := by
    intro u hu hA
    simpa [State.Asleep, hu] using hA
  constructor
  case seg => exact hT.seg
  case bit =>
    intro u
    have := hT.bit u
    by_cases hu : u = t
    · simpa [hu, hD, Drain.floating] using this
    · simpa [hu, hD, Drain.floating] using this
  case apart => simp [Drain.floating]
  case current =>
    intro u h hNot
    have hu : u ≠ t := by
      rintro rfl
      exact hNot next (by simp)
    exact hT.current u (.inl (hOld u hu (h.resolve_right (by simp [Drain.polled]))))
      (by simp [hD])
  case fresh => exact hT.fresh
  case kept =>
    intro u hA hM hV
    have hu : u ≠ t := by
      rintro rfl
      exact hV (by simp [Drain.visiting])
    exact hT.kept u (hOld u hu hA) hM (by simp [hD, Drain.visiting, Drain.polled])
  case here => exact hHere

omit [DecidableEq Agent] in
/-- The poll begins, with no deadline registered. -/
theorem poll (hT : TimerInv s tq) {t : Task} {next : Option Task}
    (hD : s.drain () = .poll t next) :
    TimerInv ({ s.record t .pollStart with
      polls := Function.update s.polls t (s.polls t + 1)
      deadlines := Function.update s.deadlines t [] }.setDrain () (.polling t next)) tq := by
  have hHere : s.expiresAt t = instantMax := by
    have := hT.here
    rwa [hD] at this
  constructor
  case seg => exact hT.seg
  case bit =>
    have := hT.bit
    simpa [hD, Drain.floating] using this
  case apart => simp [Drain.floating]
  case current =>
    intro u h _
    by_cases hu : u = t
    · -- Nothing is registered in the new poll yet.
      simp [State.minDeadline, hu, hHere]
    · have hA : s.Asleep u := h.resolve_right (by simp [Drain.polled, Ne.symm hu])
      simpa [State.minDeadline, hu] using hT.current u (.inl hA) (by simp [hD, Ne.symm hu])
  case fresh =>
    intro u hPos
    by_cases hu : u = t
    · exact .inr (by simp [hu, hHere])
    · simpa [State.minDeadline, hu] using hT.fresh u (by simpa [hu] using hPos)
  case kept =>
    intro u hA hM hV
    have hu : u ≠ t := by
      rintro rfl
      exact hV (by simp [Drain.visiting, Drain.polled])
    refine hT.kept u hA (by simpa [State.minDeadline, hu] using hM) ?_
    simp [hD, Drain.visiting, Ne.symm hu]
  case here => trivial

omit [DecidableEq Agent] in
/-- The task being polled registers a deadline. -/
theorem registerTimer (hT : TimerInv s tq) {t : Task} {next : Option Task} {at' : Nat}
    (hD : s.drain () = .polling t next) :
    TimerInv { s with
      expiresAt := Function.update s.expiresAt t (min (s.expiresAt t) at')
      deadlines := Function.update s.deadlines t (s.deadlines t ++ [at']) } tq := by
  have hNow := hT.current t (.inr (by simp [hD, Drain.polled])) (by simp [hD])
  -- The deadline is kept as a running minimum.
  have hEq : min (s.expiresAt t) at' = (s.deadlines t ++ [at']).foldl min instantMax := by
    rw [List.foldl_append, hNow]
    rfl
  constructor
  case seg => exact hT.seg
  case bit => exact hT.bit
  case apart => exact hT.apart
  case current =>
    intro u h hNot
    by_cases hu : u = t
    · simp only [State.minDeadline, hu, Function.update_self, hEq]
    · simpa [State.minDeadline, hu] using hT.current u h hNot
  case fresh =>
    intro u hPos
    by_cases hu : u = t
    · left
      simp only [State.minDeadline, hu, Function.update_self, hEq]
    · simpa [State.minDeadline, hu] using hT.fresh u hPos
  case kept =>
    intro u hA hM hV
    have hu : u ≠ t := by
      rintro rfl
      exact hV (by simp [hD, Drain.visiting, Drain.polled])
    exact hT.kept u hA (by simpa [State.minDeadline, hu] using hM) hV
  case here => simp [hD, State.DrainOk]

-- ---------------------------------------------------------------------------
-- Steps
-- ---------------------------------------------------------------------------

omit [DecidableEq Task] [DecidableEq Agent] in
/-- `retain` finds the next task in the cell. -/
theorem ahead (hT : TimerInv s tq) {f : Closure} {prev : Link Task} {p : Task}
    (hD : s.drain () = .retain f prev) (hP : s.linkGet () prev = some p) :
    s.Cursor tq f prev [p] := by
  have hHere := hT.here
  rw [hD] at hHere
  obtain ⟨v, r, rfl, hEnds, hBound⟩ := hHere
  obtain ⟨r, rfl⟩ := eq_cons_of_linkGet (by simpa using hT.seg) hEnds hP
  exact ⟨v, r, by simp, hEnds, hBound⟩

omit [DecidableEq Task] [DecidableEq Agent] in
/-- At the end of the queue all of it lies behind. -/
theorem behind (hT : TimerInv s tq) {f : Closure} {prev : Link Task}
    (hD : s.drain () = .retain f prev) (hP : s.linkGet () prev = none) :
    ∀ t ∈ tq, f.bound ≤ s.expiresAt t := by
  have hHere := hT.here
  rw [hD] at hHere
  obtain ⟨v, r, rfl, hEnds, hBound⟩ := hHere
  obtain rfl := eq_nil_of_linkGet (by simpa using hT.seg) hEnds hP
  simpa using hBound

/-- What the drain does keeps the timers' invariant, of a queue that may have changed. -/
theorem drain_op (hT : TimerInv s tq) {L : Layout Task Unit Agent} (hQ : QueueInv s L)
    (h : DrainOp (fun _ => true) s () s') : ∃ tq', TimerInv s' tq' := by
  have hHere := hT.here
  cases h with
  | unlink hD => exact hT.unlink hD
  | clearTimerQueued hD => exact ⟨_, hT.clearTimerQueued hD⟩
  | updateOr_new hD hW => exact ⟨_, hT.updateOr_new hD hW⟩
  | updateNext hD => exact ⟨_, hT.updateNext hD⟩
  | updateHead hD => exact ⟨_, hT.updateHead hD⟩
  | clear_spawned hD hW => exact ⟨_, hT.clear_spawned hD⟩
  | poll hD => exact ⟨_, hT.poll hD⟩
  | registerTimer hD hAt => exact ⟨_, hT.registerTimer hD⟩
  | @setExpires t next hD =>
    have hPlace := (hQ.taken () t).mp (by simp [hD, Drain.taken])
    have hMark := (hQ.marked t).mpr (by simp [hPlace])
    exact ⟨_, hT.setExpires hD hMark⟩
  | start hD now =>
    exact ⟨tq, hT.pass (d := .retain (.dequeueExpired now) .head) hD rfl rfl rfl {}
      ⟨[], tq, rfl, rfl, by simp⟩⟩
  | walk_end hD =>
    exact ⟨tq, hT.pass (d := .retain (.nextExpiration instantMax) .head) hD rfl rfl rfl {}
      ⟨[], tq, rfl, rfl, by simp⟩⟩
  | @retain_next f prev p hD hP =>
    exact ⟨tq, hT.pass (d := .filter f prev p) hD rfl rfl rfl {} (hT.ahead hD hP)⟩
  | @retain_end f prev hD hP =>
    have hBehind := hT.behind hD hP
    cases f with
    | dequeueExpired now =>
      exact ⟨tq, hT.pass (d := .swap) hD rfl rfl rfl {} trivial⟩
    | nextExpiration res =>
      exact ⟨tq, hT.pass (d := .setAlarm res) hD rfl rfl rfl {} hBehind⟩
  | @filter_expired now prev p hD hP =>
    rw [hD] at hHere
    exact ⟨tq, hT.pass (d := .onTask (.dequeueExpired now) prev p) hD rfl rfl rfl {}
      ⟨hHere, fun _ => .inl (by simp)⟩⟩
  | @filter_keep now prev p hD hP =>
    rw [hD] at hHere
    exact ⟨tq, hT.pass (d := .retain (.dequeueExpired now) (.next p)) hD rfl rfl rfl {}
      (hHere.keep (Nat.le_refl _) hP)⟩
  | @filter_next res prev p hD hP =>
    rw [hD] at hHere
    exact ⟨tq, hT.pass (d := .retain (.nextExpiration (min res (s.expiresAt p))) (.next p)) hD
      rfl rfl rfl {} (hHere.keep (Nat.min_le_left _ _) (Nat.min_le_right _ _))⟩
  | @filter_drop res prev p hD hP =>
    rw [hD] at hHere
    exact ⟨tq, hT.pass (d := .unlink (.nextExpiration (min res (s.expiresAt p))) prev p) hD
      rfl rfl rfl {} ⟨State.Cursor.mono hHere (Nat.min_le_left _ _), fun _ => hP⟩⟩
  | @onTask f prev p hD hPc =>
    rw [hD] at hHere
    -- the enqueue has returned, so the task is not asleep
    exact ⟨tq, hT.pass (d := .unlink f prev p) hD rfl rfl rfl {}
      ⟨hHere.1, fun hA => by simpa [hPc] using hHere.2 hA⟩⟩
  | setAlarm hD =>
    rw [hD] at hHere
    exact ⟨tq, hT.pass (d := .idle) hD rfl rfl rfl {} (.inr ⟨_, by simp, hHere⟩)⟩
  | swap hD | walk hD =>
    exact ⟨tq, hT.pass hD rfl rfl rfl {} trivial⟩
  | @clear_ignored t next hD hW =>
    exact ⟨tq, hT.pass (d := .walk next) hD rfl rfl rfl
      { timerQueued := timerQueued_of_word rfl rfl, asleep := asleep_of_word rfl (by simp [hW]) }
      trivial⟩
  | poll_ready hD | poll_pending hD | dropFuture hD | update_some hD hE =>
    exact ⟨tq, hT.visit hD rfl rfl rfl rfl rfl {} trivial⟩
  | @release t next hD =>
    exact ⟨tq, hT.visit (d := .updateTest t next) hD rfl rfl rfl rfl rfl
      { timerQueued := timerQueued_of_word rfl rfl, asleep := asleep_of_word rfl (by simp) }
      trivial⟩
  | @update_none t next hD hE =>
    refine ⟨tq, hT.goto (d := .walk next) (by simp) {}
      (by constructor <;> simp [hD, Drain.floating, Drain.polled]) ?_ trivial⟩
    intro u hu
    refine .inr fun _ hM => absurd ?_ hM
    rw [← hT.current u (.inr hu) (by simp [hD])]
    have hEq : t = u := by simpa [hD, Drain.polled] using hu
    exact hEq ▸ hE
  | @updateOr_old t next hD hW =>
    refine ⟨tq, hT.goto (d := .walk next) (by simp)
      { timerQueued := timerQueued_of_word rfl hW.symm, asleep := asleep_of_word rfl id }
      (by constructor <;> simp [hD, Drain.floating, Drain.polled]) ?_ trivial⟩
    intro u hu
    have hEq : t = u := by simpa [hD, Drain.polled] using hu
    have hMem := (hT.bit t).mp hW
    refine .inr fun _ _ => ?_
    simpa [← hEq, hD, Drain.floating] using hMem

/-- Every action keeps the timers' invariant. -/
theorem step {a : Action Task Unit Agent} (hT : TimerInv s tq) {L : Layout Task Unit Agent}
    (hQ : QueueInv s L) (h : step (fun _ => true) s a = some s') : ∃ tq', TimerInv s' tq' := by
  rcases step_op h with ⟨x, h⟩ | ⟨⟨⟩, h⟩
  · exact ⟨tq, hT.context_op h⟩
  · exact hT.drain_op hQ h

end TimerInv

-- ---------------------------------------------------------------------------
-- Runs
-- ---------------------------------------------------------------------------

section Runs

variable [DecidableEq Task] [DecidableEq Agent] {s s' : State Task Unit Agent}

/-- In every reachable state some list of tasks is the timer queue. -/
theorem timerInv_of_run (hRun : Reaches (fun _ => true) (init Task Unit Agent) s) :
    ∃ tq, TimerInv s tq := by
  have hAll : (∃ L, QueueInv s L) ∧ ∃ tq, TimerInv s tq := by
    refine hRun.invariant (I := fun s => (∃ L, QueueInv s L) ∧ ∃ tq, TimerInv s tq)
      ⟨⟨_, queueInv_init⟩, ⟨_, timerInv_init⟩⟩ ?_
    rintro u a v ⟨⟨L, hQ⟩, tq, hT⟩ - hs
    obtain ⟨L', hQ', -⟩ := hQ.step hs
    exact ⟨⟨L', hQ'⟩, hT.step hQ hs⟩
  exact hAll.2

/-- Between two calls the alarm is set for no later than a deadline of a sleeping task. -/
theorem alarm_le (hRun : Reaches (fun _ => true) (init Task Unit Agent) s)
    (hIdle : s.drain () = .idle) {t : Task} (hAsleep : s.Asleep t) {deadline : Nat}
    (hMem : deadline ∈ s.deadlines t) (hMax : deadline < instantMax) :
    ∃ value, s.alarm () = some value ∧ value ≤ deadline := by
  obtain ⟨tq, hT⟩ := timerInv_of_run hRun
  have hLe := s.minDeadline_le hMem
  have hEq := hT.current t (.inl hAsleep) (by simp [hIdle])
  have hQueued := hT.kept t hAsleep (by omega) (by simp [hIdle, Drain.visiting, Drain.polled])
  have hHere := hT.here
  rw [hIdle] at hHere
  rcases hHere with rfl | ⟨value, hAlarm, hAll⟩
  · cases hQueued
  · have hValue := hAll t hQueued
    exact ⟨value, hAlarm, by omega⟩

/-- Only a call of `run_queued` takes the time. -/
theorem closure_step {a : Action Task Unit Agent} (h : step (fun _ => true) s a = some s')
    {now : Nat} (hClosure : (s'.drain ()).closure = some (.dequeueExpired now)) :
    a = .runQueued () now ∨ (s.drain ()).closure = some (.dequeueExpired now) := by
  by_cases ha : a = .drain ()
  · subst ha
    right
    have hOp : DrainOp (fun _ => true) s () s' := drainStep_op h
    cases hOp with
    | start hD now' =>
      simp only [step, drainStep, hD] at h
      cases h
    | retain_next hD | filter_expired hD | filter_keep hD | onTask hD | unlink hD
    | clearTimerQueued hD =>
      rw [hD]
      simpa [Drain.closure] using hClosure
    | @retain_end f prev hD =>
      cases f <;> simp [Drain.closure, Closure.finish] at hClosure
    | registerTimer hD => simp [Drain.closure, hD] at hClosure
    | _ => simp [Drain.closure] at hClosure
  · -- The begin of a call fixes the time, and nothing else does.
    rcases drain_of_ne h ha with hD | ⟨now', rfl, -, hD⟩ | ⟨t, next, ready, -, -, hD | hD⟩
    · exact .inr (hD ▸ hClosure)
    · rcases hD with hD | hD <;> rw [hD] at hClosure
      · cases hClosure
      · cases hClosure
        exact .inl rfl
    all_goals
      rw [hD] at hClosure
      cases hClosure

/-- `retain` hands a task to its closure only if its time is up. -/
theorem expiresAt_le_now (h : step (fun _ => true) s (.drain ()) = some s') {f : Closure}
    {prev : Link Task} {p : Task} (hTask : s'.drain () = .onTask f prev p) :
    ∃ now, s.drain () = .filter (.dequeueExpired now) prev p ∧ s.expiresAt p ≤ now := by
  have hOp : DrainOp (fun _ => true) s () s' := drainStep_op h
  cases hOp with
  | @filter_expired now prev' p' hD hLe =>
    simp only [State.setDrain_drain, Function.update_self] at hTask
    cases hTask
    exact ⟨now, hD, hLe⟩
  | @retain_end f' prev' hD => cases f' <;> simp [Closure.finish] at hTask
  | registerTimer hD => cases hD.symm.trans hTask
  | _ => simp at hTask

end Runs

end Embassy.Executor
