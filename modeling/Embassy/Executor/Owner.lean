import Embassy.Executor.Slot
import Embassy.Executor.Timers

/-!
# The owner of a timer queue entry

Several executors, and contexts of any priority that interrupt them between any
two operations and spawn tasks on them. A task is in the timer queue of the
executor it was last spawned on, or in none: that executor alone links and
unlinks it, without any lock.

`TimersOf` is about one executor `e` and the tasks that are spawned on it. An
operation of another executor leaves all of this alone (`Foreign`), for it
touches only tasks of its own. So nothing has to be said about two timer queues
at once.

What it takes is that a task does not change its executor while the old one is
still at it. `Task::poll` releases the slot before `TimerQueue::update` is called
for it, and a context that allocates the slot in between can spawn it on another
executor; the old one then enters it in its own queue. `Settled` excludes this.

Main results:

* `TimersOf.frame` / `TimersOf.drain_op` — the operations of the other drains, and
  of the own one.
* `OwnerInv.of_same` / `OwnerInv.spawn` — what the contexts do.
* `timers_owned` — every task is in the timer queue of its executor, in every run
  of settled steps.
* `settled_of_run` — with one executor all steps are settled.
-/

namespace Embassy.Executor

open Embassy.Lib

section Accessors

variable {Task : Type}

/-- The task that `TimerQueue::update` is called for, from the end of its poll on. -/
def Drain.updating : Drain Task → Option Task
  | .updateTest t _ | .updateOr t _ | .updateNext t _ | .updateHead t _ => some t
  | _ => none

/-- The cell `prev` is in the queue `l`, before the tasks `mid`. -/
def Link.At (prev : Link Task) (l mid : List Task) : Prop :=
  ∃ v r, l = v ++ mid ++ r ∧ prev.Ends v

/-- The cell after a task that stays. -/
theorem Link.At.keep {prev : Link Task} {l : List Task} {p : Task} (h : prev.At l [p]) :
    (Link.next p).At l [] := by
  obtain ⟨v, r, rfl, -⟩ := h
  exact ⟨v ++ [p], r, by simp, v, rfl⟩

theorem Link.At.mem {prev : Link Task} {l : List Task} {p : Task} (h : prev.At l [p]) :
    p ∈ l := by
  obtain ⟨v, r, rfl, -⟩ := h
  simp

theorem Link.At.next_mem {w : Task} {l mid : List Task} (h : (Link.next w).At l mid) :
    w ∈ l := by
  obtain ⟨v, r, rfl, v', rfl⟩ := h
  simp

theorem Link.at_head (l : List Task) : Link.head.At l [] := ⟨[], l, rfl, rfl⟩

/-- Outside of a poll the drain has no task in its hands. -/
theorem Drain.none_of_outside {d : Drain Task} (h : d.outside = true) :
    d.floating = none ∧ d.updating = none ∧ d.visiting = none := by
  cases d <;> first | exact ⟨rfl, rfl, rfl⟩ | cases h

end Accessors

variable {Task Exec Agent : Type}

-- ---------------------------------------------------------------------------
-- The invariant
-- ---------------------------------------------------------------------------

namespace State

/-- The task is spawned, and not marked to run. -/
def Parked (s : State Task Exec Agent) (t : Task) : Prop :=
  (s.word t).spawned = true ∧ (s.word t).runQueued = false

/-- What holds of the timer queue `l` of `e` where its drain stands. -/
def OwnOk (s : State Task Exec Agent) (e : Exec) (l : List Task) : Drain Task → Prop
  | .retain _ prev => prev.At l []
  | .filter _ prev p => prev.At l [p]
  | .onTask _ prev p => prev.At l [p] ∧ (s.Parked p → s.pc (.drain e) = .loadState p ∨
      ∃ current, s.pc (.drain e) = .casState p current)
  | .unlink _ prev p => prev.At l [p] ∧ (s.Parked p → s.expiresAt p = instantMax)
  | .clearTimerQueued _ prev _ => prev.At l []
  | .clearRunQueued t _ | .poll t _ => s.expiresAt t = instantMax
  | .updateHead t _ => s.timerNext t = s.timerHead e
  | _ => True

end State

/-- The timer queue `l` of the executor `e`, and the tasks that are spawned on it. -/
structure TimersOf (s : State Task Exec Agent) (e : Exec) (l : List Task) : Prop where
  seg : Seg s.timerNext (s.timerHead e) l none
  home : ∀ t ∈ l, s.executor t = some e
  updating : ∀ t, (s.drain e).updating = some t → s.executor t = some e
  floating : ∀ t, (s.drain e).floating = some t → s.executor t = some e
  bit : ∀ t, s.executor t = some e →
    ((s.word t).timerQueued = true ↔ t ∈ l ∨ (s.drain e).floating = some t)
  apart : ∀ t ∈ l, (s.drain e).floating ≠ some t
  kept : ∀ t, s.executor t = some e → s.Parked t → s.expiresAt t ≠ instantMax →
    (s.drain e).visiting ≠ some t → t ∈ l
  here : s.OwnOk e l (s.drain e)

structure OwnerInv (s : State Task Exec Agent) : Prop where
  timers : ∀ e, ∃ l, TimersOf s e l
  unowned : ∀ t, s.executor t = none → (s.word t).timerQueued = false

theorem ownerInv_init : OwnerInv (init Task Exec Agent) where
  timers e := ⟨[], by
    constructor <;>
      simp [init, StateWord.free, State.Parked, State.OwnOk, Drain.floating, Drain.updating]⟩
  unowned _ _ := rfl

/-- The timer queues and the deadlines are as they were, and no task has been
parked. -/
structure SameQueues (s s' : State Task Exec Agent) : Prop where
  executor : s'.executor = s.executor := by rfl
  timerNext : s'.timerNext = s.timerNext := by rfl
  timerHead : s'.timerHead = s.timerHead := by rfl
  expiresAt : s'.expiresAt = s.expiresAt := by rfl
  timerQueued : ∀ t, (s'.word t).timerQueued = (s.word t).timerQueued := by exact fun _ => rfl
  parked : ∀ t, s'.Parked t → s.Parked t := by exact fun _ => id

-- ---------------------------------------------------------------------------
-- The other executors
-- ---------------------------------------------------------------------------

/-- What an operation of the drain of `e` leaves alone: the tasks of the other
executors, and their own state. -/
structure Foreign (s s' : State Task Exec Agent) (e : Exec) : Prop where
  executor : s'.executor = s.executor
  word : ∀ t, s.executor t ≠ some e → s'.word t = s.word t
  expiresAt : ∀ t, s.executor t ≠ some e → s'.expiresAt t = s.expiresAt t
  timerNext : ∀ t, s.executor t ≠ some e → s'.timerNext t = s.timerNext t
  timerHead : ∀ e', e' ≠ e → s'.timerHead e' = s.timerHead e'
  drain : ∀ e', e' ≠ e → s'.drain e' = s.drain e'
  pc : ∀ e', e' ≠ e → s'.pc (.drain e') = s.pc (.drain e')

namespace TimersOf

variable {s s' : State Task Exec Agent} {L : Layout Task Exec Agent} {e e' : Exec}
  {l l' : List Task}

/-- The timer queue of an executor, and its tasks, are its own. -/
theorem frame (hT : TimersOf s e l) (hQ : QueueInv s L) (hP : PollInv s)
    (hF : Foreign s s' e') (he : e ≠ e') : TimersOf s' e l := by
  -- The other drain changes tasks of its own executor only, and these are others.
  have hOwn : ∀ t, s.executor t = some e → s.executor t ≠ some e' := by
    intro t hAt hAt'
    exact he (Option.some.inj (hAt.symm.trans hAt'))
  have hDrain := hF.drain e he
  have hHead := hF.timerHead e he
  have hParked : ∀ t, s.executor t = some e → s'.Parked t → s.Parked t := by
    intro t hAt hParked
    rwa [State.Parked, hF.word t (hOwn t hAt)] at hParked
  constructor
  case seg =>
    rw [hHead]
    exact hT.seg.congr fun t ht => hF.timerNext t (hOwn t (hT.home t ht))
  case home => rw [hF.executor]; exact hT.home
  case updating => rw [hF.executor, hDrain]; exact hT.updating
  case floating => rw [hF.executor, hDrain]; exact hT.floating
  case bit =>
    intro t hAt
    rw [hF.executor] at hAt
    rw [hF.word t (hOwn t hAt), hDrain]
    exact hT.bit t hAt
  case apart => rw [hDrain]; exact hT.apart
  case kept =>
    intro t hAt hParked' hExpires
    rw [hF.executor] at hAt
    rw [hF.expiresAt t (hOwn t hAt)] at hExpires
    rw [hDrain]
    exact hT.kept t hAt (hParked t hAt hParked') hExpires
  case here =>
    rw [hDrain]
    have hHere := hT.here
    -- Where this drain has a task in its hands, it is one of its own.
    cases hD : s.drain e <;> rw [hD] at hHere <;>
      simp only [State.OwnOk, hHead, hF.pc e he] at hHere ⊢
    case onTask f prev p =>
      exact ⟨hHere.1, fun hA => hHere.2 (hParked p (hT.home p hHere.1.mem) hA)⟩
    case unlink f prev p =>
      have hAt := hT.home p hHere.1.mem
      refine ⟨hHere.1, fun hA => ?_⟩
      rw [hF.expiresAt p (hOwn p hAt)]
      exact hHere.2 (hParked p hAt hA)
    case clearRunQueued t next =>
      have hPlace := (hQ.taken e t).mp (by simp [hD, Drain.taken])
      rwa [hF.expiresAt t (hOwn t (hQ.home t e (.inr (.inr hPlace))))]
    case poll t next =>
      rwa [hF.expiresAt t (hOwn t (hP.home e t (by simp [hD, Drain.active])))]
    case updateHead t next =>
      rwa [hF.timerNext t (hOwn t (hT.updating t (by simp [hD, Drain.updating])))]
    all_goals exact hHere

variable [DecidableEq Task] [DecidableEq Exec] [DecidableEq Agent] {hasAlarm : Exec → Bool}

omit [DecidableEq Task] [DecidableEq Exec] [DecidableEq Agent] in
/-- An operation that writes the header of one task, which is of the executor. -/
theorem foreign_of_task {t : Task} (hAt : s.executor t = some e)
    (hExec : s'.executor = s.executor) (hDrain : ∀ e', e' ≠ e → s'.drain e' = s.drain e')
    (hHead : ∀ e', e' ≠ e → s'.timerHead e' = s.timerHead e') (hPc : s'.pc = s.pc)
    (hWord : ∀ u, u ≠ t → s'.word u = s.word u)
    (hExpires : ∀ u, u ≠ t → s'.expiresAt u = s.expiresAt u)
    (hNext : ∀ u, u ≠ t → s'.timerNext u = s.timerNext u) : Foreign s s' e := by
  have hNe : ∀ u, s.executor u ≠ some e → u ≠ t := by
    rintro u hu rfl
    exact hu hAt
  exact ⟨hExec, fun u hu => hWord u (hNe u hu), fun u hu => hExpires u (hNe u hu),
    fun u hu => hNext u (hNe u hu), hHead, hDrain, fun _ _ => by rw [hPc]⟩

/-- A drain touches only tasks of its executor. -/
theorem foreign (hT : TimersOf s e l) (hQ : QueueInv s L) (hP : PollInv s)
    (h : DrainOp hasAlarm s e s') : Foreign s s' e := by
  have hDrain := fun e' (he : e' ≠ e) => h.drain_of_ne he
  -- Each step writes to one task, and where that comes from says whose it is.
  have hTaken : ∀ t, (s.drain e).taken = some t → s.executor t = some e := by
    intro t hTaken
    exact hQ.home t e (.inr (.inr ((hQ.taken e t).mp hTaken)))
  have hHere := hT.here
  cases h with
  | @filter_expired now prev p hD hP' =>
    refine ⟨rfl, fun _ _ => rfl, fun _ _ => rfl, fun _ _ => rfl, fun _ _ => rfl, hDrain, ?_⟩
    intro e' he
    simp [he]
  | @unlink f prev p hD =>
    rw [hD] at hHere
    cases prev with
    | head =>
      refine ⟨rfl, fun _ _ => rfl, fun _ _ => rfl, fun _ _ => rfl, ?_, hDrain, fun _ _ => rfl⟩
      intro e' he
      simp [State.linkSet, he]
    | next w =>
      refine foreign_of_task (hT.home w hHere.1.next_mem) rfl hDrain (fun _ _ => rfl) rfl
        (fun _ _ => rfl) (fun _ _ => rfl) ?_
      intro u hu
      simp [State.linkSet, hu]
  | @clearTimerQueued f prev p hD =>
    refine foreign_of_task (hT.floating p (by simp [hD, Drain.floating])) rfl hDrain
      (fun _ _ => rfl) rfl ?_ ?_ ?_ <;> intro u hu <;> simp [hu]
  | @setExpires t next hD | @clear_spawned t next hD hW | @clear_ignored t next hD hW =>
    refine foreign_of_task (hTaken t (by simp [hD, Drain.taken])) rfl hDrain
      (fun _ _ => rfl) rfl ?_ ?_ ?_ <;> intro u hu <;> simp [hu]
  | @registerTimer t next at' hD hAt | @release t next hD =>
    refine foreign_of_task (hP.home e t (by simp [hD, Drain.active])) rfl hDrain
      (fun _ _ => rfl) rfl ?_ ?_ ?_ <;> intro u hu <;> simp [hu]
  | @updateOr_old t next hD hW | @updateOr_new t next hD hW | @updateNext t next hD =>
    refine foreign_of_task (hT.updating t (by simp [hD, Drain.updating])) rfl hDrain
      (fun _ _ => rfl) rfl ?_ ?_ ?_ <;> intro u hu <;> simp [hu]
  | updateHead hD =>
    refine ⟨rfl, fun _ _ => rfl, fun _ _ => rfl, fun _ _ => rfl, ?_, hDrain, fun _ _ => rfl⟩
    intro e' he
    simp [he]
  | _ =>
    exact ⟨rfl, fun _ _ => rfl, fun _ _ => rfl, fun _ _ => rfl, fun _ _ => rfl, hDrain,
      fun _ _ => rfl⟩

-- ---------------------------------------------------------------------------
-- The executor itself
-- ---------------------------------------------------------------------------

omit [DecidableEq Task] [DecidableEq Exec] [DecidableEq Agent] in
/-- The drain goes on. The queue may change, but no deadline does. -/
theorem relink (hT : TimersOf s e l) {d : Drain Task} (hDrain : s'.drain e = d)
    (hExec : s'.executor = s.executor) (hExpires : s'.expiresAt = s.expiresAt)
    (hParked : ∀ t, s'.Parked t → s.Parked t)
    (hSeg : Seg s'.timerNext (s'.timerHead e) l' none)
    (hHome : ∀ t, t ∈ l' ∨ d.updating = some t ∨ d.floating = some t → s.executor t = some e)
    (hBit : ∀ t, s.executor t = some e →
      ((s'.word t).timerQueued = true ↔ t ∈ l' ∨ d.floating = some t))
    (hApart : ∀ t ∈ l', d.floating ≠ some t)
    (hKept : ∀ t, s.Parked t → s.expiresAt t ≠ instantMax →
      t ∈ l ∨ (s.drain e).visiting = some t → t ∈ l' ∨ d.visiting = some t)
    (hHere : s'.OwnOk e l' d) : TimersOf s' e l' := by
  constructor
  case seg => exact hSeg
  case home => rw [hExec]; exact fun t ht => hHome t (.inl ht)
  case updating => rw [hExec, hDrain]; exact fun t ht => hHome t (.inr (.inl ht))
  case floating => rw [hExec, hDrain]; exact fun t ht => hHome t (.inr (.inr ht))
  case bit => rw [hExec, hDrain]; exact hBit
  case apart => rw [hDrain]; exact hApart
  case kept =>
    intro t hAt hP hE hV
    rw [hExec] at hAt
    rw [hExpires] at hE
    rw [hDrain] at hV
    -- A task with a deadline was linked or in the drain's hands, and is so again.
    refine (hKept t (hParked t hP) hE ?_).resolve_right hV
    by_cases hOld : (s.drain e).visiting = some t
    · exact .inr hOld
    · exact .inl (hT.kept t hAt (hParked t hP) hE hOld)
  case here => rw [hDrain]; exact hHere

omit [DecidableEq Task] [DecidableEq Exec] [DecidableEq Agent] in
/-- The drain goes on, and leaves the queue and the deadlines alone. -/
theorem goto (hT : TimersOf s e l) {d : Drain Task} (hDrain : s'.drain e = d)
    (hSame : SameQueues s s') (hFloating : d.floating = (s.drain e).floating)
    (hUpdating : ∀ t, d.updating = some t → s.executor t = some e)
    (hLeft : ∀ t, (s.drain e).visiting = some t → d.visiting = some t ∨
      (s.expiresAt t ≠ instantMax → t ∈ l))
    (hHere : s'.OwnOk e l d) : TimersOf s' e l := by
  refine hT.relink hDrain hSame.executor hSame.expiresAt hSame.parked ?_ ?_ ?_ ?_ ?_ hHere
  · rw [hSame.timerNext, hSame.timerHead]
    exact hT.seg
  · rintro t (hMem | hUp | hFloat)
    · exact hT.home t hMem
    · exact hUpdating t hUp
    · exact hT.floating t (hFloating ▸ hFloat)
  · intro t hAt
    rw [hSame.timerQueued, hFloating]
    exact hT.bit t hAt
  · rw [hFloating]
    exact hT.apart
  · rintro t - hE (hMem | hOld)
    · exact .inl hMem
    · exact (hLeft t hOld).symm.imp_left fun h => h hE

omit [DecidableEq Task] [DecidableEq Agent] in
/-- The drain goes on in `retain` or in the walk. -/
theorem pass (hT : TimersOf s e l) {d₀ d : Drain Task} (hD : s.drain e = d₀)
    (hDrain : s'.drain = Function.update s.drain e d) (hOut : d₀.outside = true)
    (hOut' : d.outside = true) (hSame : SameQueues s s') (hHere : s'.OwnOk e l d) :
    TimersOf s' e l := by
  subst hD
  obtain ⟨hFloating, -, hVisiting⟩ := Drain.none_of_outside hOut
  obtain ⟨hFloating', hUpdating', -⟩ := Drain.none_of_outside hOut'
  refine hT.goto (by simp [hDrain]) hSame (hFloating'.trans hFloating.symm) ?_ ?_ hHere
  · simp [hUpdating']
  · simp [hVisiting]

omit [DecidableEq Task] [DecidableEq Agent] in
/-- The drain goes on within the visit of a task. -/
theorem visit (hT : TimersOf s e l) {d₀ d : Drain Task} {t : Task} (hD : s.drain e = d₀)
    (hDrain : s'.drain = Function.update s.drain e d) (hVisiting : d₀.visiting = some t)
    (hVisiting' : d.visiting = some t) (hFloating : d₀.floating = none)
    (hFloating' : d.floating = none) (hUpdating : ∀ u, d.updating = some u → u = t)
    (hHome : s.executor t = some e) (hSame : SameQueues s s') (hHere : s'.OwnOk e l d) :
    TimersOf s' e l := by
  subst hD
  refine hT.goto (by simp [hDrain]) hSame (hFloating'.trans hFloating.symm) ?_ ?_ hHere
  · rintro u hu
    rw [hUpdating u hu]
    exact hHome
  · exact fun u hu => .inl (hVisiting'.trans (hVisiting.symm.trans hu))

omit [DecidableEq Agent] in
/-- `retain` takes a task out of the queue. -/
theorem unlink (hT : TimersOf s e l) {f : Closure} {prev : Link Task} {p : Task}
    (hD : s.drain e = .unlink f prev p) :
    ∃ l', TimersOf ((s.linkSet e prev (s.timerNext p)).setDrain e
      (.clearTimerQueued f prev p)) e l' := by
  have hHere := hT.here
  rw [hD] at hHere
  obtain ⟨⟨v, r, rfl, hEnds⟩, hGone⟩ := hHere
  have hSeg := hT.seg
  simp only [List.append_assoc, List.singleton_append] at hSeg
  -- Only one link changes, that of the head or of the task before.
  have hWord : (s.linkSet e prev (s.timerNext p)).word = s.word := by cases prev <;> rfl
  have hExec : (s.linkSet e prev (s.timerNext p)).executor = s.executor := by cases prev <;> rfl
  have hExpires : (s.linkSet e prev (s.timerNext p)).expiresAt = s.expiresAt := by
    cases prev <;> rfl
  refine ⟨v ++ r, hT.relink (d := .clearTimerQueued f prev p) (by simp) hExec hExpires ?_
    (seg_linkSet hSeg hEnds) ?_ ?_ ?_ ?_ ⟨v, r, by simp, hEnds⟩⟩
  · intro t hP
    simpa [State.Parked, hWord] using hP
  · rintro t (hMem | hUp | hFloat)
    · refine hT.home t ?_
      simp only [List.mem_append] at hMem ⊢
      tauto
    · simp [Drain.updating] at hUp
    · cases hFloat
      exact hT.home p (by simp)
  · intro t hAt
    rw [State.setDrain_word, hWord, hT.bit t hAt, hD]
    simp only [Drain.floating, List.mem_append, List.mem_singleton, Option.some.injEq,
      reduceCtorEq, or_false, eq_comm (a := p)]
    tauto
  · -- the task was linked once
    rintro t hMem hEq
    cases hEq
    exact (List.nodup_middle.mp hSeg.nodup).notMem hMem
  · rintro t hP hE (hMem | hOld)
    · have ht : t ≠ p := by
        rintro rfl
        exact hE (hGone hP)
      left
      simpa [ht] using hMem
    · simp [hD, Drain.visiting, Drain.polled] at hOld

omit [DecidableEq Agent] in
/-- The task that was taken out loses its bit. -/
theorem clearTimerQueued (hT : TimersOf s e l) {f : Closure} {prev : Link Task} {p : Task}
    (hD : s.drain e = .clearTimerQueued f prev p) :
    TimersOf ((s.setWord p { s.word p with timerQueued := false }).setDrain e (.retain f prev))
      e l := by
  have hHere := hT.here
  rw [hD] at hHere
  refine hT.relink (d := .retain f prev) (by simp) rfl rfl (asleep_of_word rfl id) hT.seg ?_ ?_
    (by simp [Drain.floating]) ?_ hHere
  · rintro t (hMem | hUp | hFloat)
    · exact hT.home t hMem
    · simp [Drain.updating] at hUp
    · simp [Drain.floating] at hFloat
  · intro t hAt
    by_cases ht : t = p
    · have hOut : p ∉ l := fun hMem => hT.apart p hMem (by simp [hD, Drain.floating])
      simp [ht, hOut, Drain.floating]
    · have hOld := hT.bit t hAt
      simpa [hD, ht, Ne.symm ht, Drain.floating] using hOld
  · rintro t - - (hMem | hOld)
    · exact .inl hMem
    · simp [hD, Drain.visiting, Drain.polled] at hOld

omit [DecidableEq Agent] in
/-- `update` finds that the task is not in the queue, and claims it. -/
theorem updateOr_new (hT : TimersOf s e l) {t : Task} {next : Option Task}
    (hD : s.drain e = .updateOr t next) (hW : (s.word t).timerQueued = false) :
    TimersOf ((s.setWord t { s.word t with timerQueued := true }).setDrain e
      (.updateNext t next)) e l := by
  have hHome := hT.updating t (by simp [hD, Drain.updating])
  -- a task whose bit was off is not in the list
  have hOut : t ∉ l := by
    intro hMem
    simp [(hT.bit t hHome).mpr (.inl hMem)] at hW
  refine hT.relink (d := .updateNext t next) (by simp) rfl rfl (asleep_of_word rfl id) hT.seg
    ?_ ?_ ?_ ?_ trivial
  · -- the task that floats now has been spawned here
    rintro u (hMem | hUp | hFloat)
    · exact hT.home u hMem
    · cases hUp
      exact hHome
    · cases hFloat
      exact hHome
  · intro u hAt
    by_cases hu : u = t
    · simp [hu, Drain.floating]
    · have hOld := hT.bit u hAt
      simpa [hD, hu, Ne.symm hu, Drain.floating] using hOld
  · rintro u hMem hEq
    cases hEq
    exact hOut hMem
  · intro u _ _ h
    simpa [hD, Drain.visiting, Drain.polled] using h

omit [DecidableEq Agent] in
/-- The task that was claimed gets the old head as its successor. -/
theorem updateNext (hT : TimersOf s e l) {t : Task} {next : Option Task}
    (hD : s.drain e = .updateNext t next) :
    TimersOf ({ s with timerNext := Function.update s.timerNext t (s.timerHead e) }.setDrain e
      (.updateHead t next)) e l := by
  have hHome := hT.updating t (by simp [hD, Drain.updating])
  -- The link that is stored is not yet one of the queue.
  have hOut : t ∉ l := fun hMem => hT.apart t hMem (by simp [hD, Drain.floating])
  refine hT.relink (d := .updateHead t next) (by simp) rfl rfl (fun _ => id)
    (hT.seg.update_of_notMem hOut) ?_ ?_ ?_ ?_ ?_
  · rintro u (hMem | hUp | hFloat)
    · exact hT.home u hMem
    · cases hUp
      exact hHome
    · cases hFloat
      exact hHome
  · intro u hAt
    have hOld := hT.bit u hAt
    simpa [hD, Drain.floating] using hOld
  · have hOld := hT.apart
    simpa [hD, Drain.floating] using hOld
  · intro u _ _ h
    simpa [hD, Drain.visiting, Drain.polled] using h
  · simp [State.OwnOk]

omit [DecidableEq Agent] in
/-- The task is put in front of the queue. -/
theorem updateHead (hT : TimersOf s e l) {t : Task} {next : Option Task}
    (hD : s.drain e = .updateHead t next) :
    TimersOf ({ s with timerHead := Function.update s.timerHead e (some t) }.setDrain e
      (.walk next)) e (t :: l) := by
  have hHere := hT.here
  rw [hD] at hHere
  have hHome := hT.updating t (by simp [hD, Drain.updating])
  refine hT.relink (d := .walk next) (by simp) rfl rfl (fun _ => id) ?_ ?_ ?_
    (by simp [Drain.floating]) ?_ trivial
  · refine ⟨by simp, ?_⟩
    -- The task has stored the old head as its successor.
    have hLink : s.timerNext t = s.timerHead e := hHere
    simpa [hLink] using hT.seg
  · rintro u (hMem | hUp | hFloat)
    · rcases List.mem_cons.mp hMem with rfl | hMem
      · exact hHome
      · exact hT.home u hMem
    · simp [Drain.updating] at hUp
    · simp [Drain.floating] at hFloat
  · intro u hAt
    have hOld := hT.bit u hAt
    simp only [hD, Drain.floating, Option.some.injEq] at hOld
    simp only [State.setDrain_word, hOld, List.mem_cons, Drain.floating, reduceCtorEq, or_false,
      eq_comm (a := t)]
    tauto
  · rintro u - - (hMem | hOld)
    · exact .inl (List.mem_cons_of_mem t hMem)
    · have hu : t = u := by simpa [hD, Drain.visiting, Drain.polled] using hOld
      exact .inl (hu ▸ List.mem_cons_self)

omit [DecidableEq Agent] in
/-- The deadline of one task is written, which is marked or being visited. -/
theorem setExpires (hT : TimersOf s e l) {d : Drain Task} {t : Task} {v : Nat}
    (hDrain : s'.drain = Function.update s.drain e d) (hExec : s'.executor = s.executor)
    (hWord : s'.word = s.word) (hNext : s'.timerNext = s.timerNext)
    (hHead : s'.timerHead = s.timerHead) (hExpires : s'.expiresAt = Function.update s.expiresAt t v)
    (hFloating : d.floating = (s.drain e).floating) (hUpdating : d.updating = none)
    (hVisiting : d.visiting = (s.drain e).visiting)
    (hFree : s.Parked t → d.visiting = some t) (hHere : s'.OwnOk e l d) : TimersOf s' e l := by
  have hD : s'.drain e = d := by simp [hDrain]
  constructor
  case seg => rw [hNext, hHead]; exact hT.seg
  case home => rw [hExec]; exact hT.home
  case updating => rw [hD, hUpdating]; simp
  case floating => rw [hExec, hD, hFloating]; exact hT.floating
  case bit => rw [hExec, hWord, hD, hFloating]; exact hT.bit
  case apart => rw [hD, hFloating]; exact hT.apart
  case kept =>
    intro u hAt hP hE hV
    rw [State.Parked, hWord] at hP
    rw [hD] at hV
    -- A parked task keeps its deadline, unless the drain visits it.
    have hu : u ≠ t := by
      rintro rfl
      exact hV (hFree hP)
    rw [hExpires, Function.update_of_ne hu] at hE
    exact hT.kept u (hExec ▸ hAt) hP hE (hVisiting ▸ hV)
  case here => rw [hD]; exact hHere

omit [DecidableEq Agent] in
/-- The task is parked; its poll comes next. -/
theorem clear_spawned (hT : TimersOf s e l) {t : Task} {next : Option Task}
    (hD : s.drain e = .clearRunQueued t next) :
    TimersOf ({ s.setWord t { s.word t with runQueued := false } with
      clears := Function.update s.clears t (s.clears t + 1) }.setDrain e (.poll t next)) e l := by
  have hHere := hT.here
  rw [hD] at hHere
  constructor
  case seg => exact hT.seg
  case home => exact hT.home
  case updating => simp [Drain.updating]
  case floating => simp [Drain.floating]
  case bit =>
    intro u hAt
    have hOld := hT.bit u hAt
    by_cases hu : u = t
    · simpa [hu, hD, Drain.floating] using hOld
    · simpa [hu, hD, Drain.floating] using hOld
  case apart => simp [Drain.floating]
  case kept =>
    intro u hAt hP hE hV
    -- The task itself is parked now, but the drain is about to poll it.
    have hu : u ≠ t := by
      rintro rfl
      exact hV (by simp [Drain.visiting])
    refine hT.kept u hAt ?_ hE (by simp [hD, Drain.visiting, Drain.polled])
    simpa [State.Parked, hu] using hP
  case here => simpa [State.OwnOk] using hHere

-- ---------------------------------------------------------------------------
-- Steps
-- ---------------------------------------------------------------------------

omit [DecidableEq Task] [DecidableEq Exec] [DecidableEq Agent] in
/-- `retain` finds the next task in the cell. -/
theorem ahead (hT : TimersOf s e l) {f : Closure} {prev : Link Task} {p : Task}
    (hD : s.drain e = .retain f prev) (hP : s.linkGet e prev = some p) : prev.At l [p] := by
  have hHere := hT.here
  rw [hD] at hHere
  obtain ⟨v, r, rfl, hEnds⟩ := hHere
  obtain ⟨r, rfl⟩ := eq_cons_of_linkGet (by simpa using hT.seg) hEnds hP
  exact ⟨v, r, by simp, hEnds⟩

/-- A drain changes its own queue, and keeps to the tasks of its executor. -/
theorem drain_op (hT : TimersOf s e l) (hQ : QueueInv s L) (hP : PollInv s)
    (h : DrainOp hasAlarm s e s') : ∃ l', TimersOf s' e l' := by
  have hHere := hT.here
  have hActive : ∀ t, (s.drain e).active = some t → s.executor t = some e := hP.home e
  cases h with
  | unlink hD => exact hT.unlink hD
  | clearTimerQueued hD => exact ⟨_, hT.clearTimerQueued hD⟩
  | updateOr_new hD hW => exact ⟨_, hT.updateOr_new hD hW⟩
  | updateNext hD => exact ⟨_, hT.updateNext hD⟩
  | updateHead hD => exact ⟨_, hT.updateHead hD⟩
  | clear_spawned hD hW => exact ⟨_, hT.clear_spawned hD⟩
  | @registerTimer t next at' hD hAt =>
    refine ⟨l, hT.setExpires (Function.update_eq_self e s.drain).symm rfl rfl rfl rfl rfl rfl
      (by simp [hD, Drain.updating]) rfl ?_ (by simp [hD, State.OwnOk])⟩
    exact fun _ => by simp [hD, Drain.visiting, Drain.polled]
  | @setExpires t next hD =>
    have hPlace := (hQ.taken e t).mp (by simp [hD, Drain.taken])
    have hMark := (hQ.marked t).mpr (by simp [hPlace])
    refine ⟨l, hT.setExpires (d := .clearRunQueued t next) rfl rfl rfl rfl rfl rfl ?_ ?_ ?_ ?_ ?_⟩
    · simp [hD, Drain.floating]
    · simp [Drain.updating]
    · simp [hD, Drain.visiting, Drain.polled]
    · intro hParked
      simp [hParked.2] at hMark
    · simp [State.OwnOk]
  | @start hD now =>
    refine ⟨l, hT.pass hD rfl rfl ?_ {} ?_⟩ <;> split
    · rfl
    · rfl
    · exact Link.at_head l
    · trivial
  | @walk_end hD =>
    refine ⟨l, hT.pass hD rfl rfl ?_ {} ?_⟩ <;> split
    · rfl
    · rfl
    · exact Link.at_head l
    · trivial
  | @retain_next f prev p hD hP =>
    exact ⟨l, hT.pass (d := .filter f prev p) hD rfl rfl rfl {} (hT.ahead hD hP)⟩
  | @retain_end f prev hD hP =>
    cases f with
    | dequeueExpired now => exact ⟨l, hT.pass (d := .swap) hD rfl rfl rfl {} trivial⟩
    | nextExpiration res => exact ⟨l, hT.pass (d := .setAlarm res) hD rfl rfl rfl {} trivial⟩
  | @filter_expired now prev p hD hP =>
    rw [hD] at hHere
    exact ⟨l, hT.pass (d := .onTask (.dequeueExpired now) prev p) hD rfl rfl rfl {}
      ⟨hHere, fun _ => .inl (by simp)⟩⟩
  | @filter_keep now prev p hD hP =>
    rw [hD] at hHere
    exact ⟨l, hT.pass (d := .retain (.dequeueExpired now) (.next p)) hD rfl rfl rfl {}
      (Link.At.keep hHere)⟩
  | @filter_next res prev p hD hP =>
    rw [hD] at hHere
    exact ⟨l, hT.pass (d := .retain (.nextExpiration (min res (s.expiresAt p))) (.next p)) hD
      rfl rfl rfl {} (Link.At.keep hHere)⟩
  | @filter_drop res prev p hD hP =>
    rw [hD] at hHere
    exact ⟨l, hT.pass (d := .unlink (.nextExpiration (min res (s.expiresAt p))) prev p) hD
      rfl rfl rfl {} ⟨hHere, fun _ => hP⟩⟩
  | @onTask f prev p hD hPc =>
    rw [hD] at hHere
    -- the enqueue has returned, so the task is not parked
    exact ⟨l, hT.pass (d := .unlink f prev p) hD rfl rfl rfl {}
      ⟨hHere.1, fun hA => by simpa [hPc] using hHere.2 hA⟩⟩
  | setAlarm hD => exact ⟨l, hT.pass (d := .idle) hD rfl rfl rfl {} trivial⟩
  | swap hD | walk hD => exact ⟨l, hT.pass hD rfl rfl rfl {} trivial⟩
  | @clear_ignored t next hD hW =>
    exact ⟨l, hT.pass (d := .walk next) hD rfl rfl rfl
      { timerQueued := timerQueued_of_word rfl rfl, parked := asleep_of_word rfl (by simp [hW]) }
      trivial⟩
  | @poll t next hD =>
    exact ⟨l, hT.visit (d := .polling t next) hD rfl rfl rfl rfl rfl (by simp [Drain.updating])
      (hActive t (by simp [hD, Drain.active])) {} trivial⟩
  | @poll_ready t next hD =>
    exact ⟨l, hT.visit (d := .dropFuture t next) hD rfl rfl rfl rfl rfl (by simp [Drain.updating])
      (hActive t (by simp [hD, Drain.active])) {} trivial⟩
  | @poll_pending t next hD =>
    exact ⟨l, hT.visit (d := .updateTest t next) hD rfl rfl rfl rfl rfl
      (by simp [Drain.updating, eq_comm]) (hActive t (by simp [hD, Drain.active])) {} trivial⟩
  | @dropFuture t next hD =>
    exact ⟨l, hT.visit (d := .release t next) hD rfl rfl rfl rfl rfl (by simp [Drain.updating])
      (hActive t (by simp [hD, Drain.active])) {} trivial⟩
  | @release t next hD =>
    exact ⟨l, hT.visit (d := .updateTest t next) hD rfl rfl rfl rfl rfl
      (by simp [Drain.updating, eq_comm]) (hActive t (by simp [hD, Drain.active]))
      { timerQueued := timerQueued_of_word rfl rfl, parked := asleep_of_word rfl (by simp) }
      trivial⟩
  | @update_some t next hD hE =>
    exact ⟨l, hT.visit (d := .updateOr t next) hD rfl rfl rfl rfl rfl
      (by simp [Drain.updating, eq_comm]) (hT.updating t (by simp [hD, Drain.updating])) {} trivial⟩
  | @update_none t next hD hE =>
    refine ⟨l, hT.goto (d := .walk next) (by simp) {} (by simp [hD, Drain.floating])
      (by simp [Drain.updating]) ?_ trivial⟩
    intro u hu
    have hEq : t = u := by simpa [hD, Drain.visiting, Drain.polled] using hu
    exact .inr fun hNot => absurd (hEq ▸ hE) hNot
  | @updateOr_old t next hD hW =>
    refine ⟨l, hT.goto (d := .walk next) (by simp)
      { timerQueued := timerQueued_of_word rfl hW.symm, parked := asleep_of_word rfl id }
      (by simp [hD, Drain.floating]) (by simp [Drain.updating]) ?_ trivial⟩
    intro u hu
    have hEq : t = u := by simpa [hD, Drain.visiting, Drain.polled] using hu
    have hHome := hT.updating t (by simp [hD, Drain.updating])
    have hMem := (hT.bit t hHome).mp hW
    refine .inr fun _ => ?_
    simpa [← hEq, hD, Drain.floating] using hMem

end TimersOf

-- ---------------------------------------------------------------------------
-- The contexts
-- ---------------------------------------------------------------------------

variable [DecidableEq Task] [DecidableEq Exec] [DecidableEq Agent] {hasAlarm : Exec → Bool}
  {s s' : State Task Exec Agent} {L : Layout Task Exec Agent}

/-- `Executor::spawn` puts a task on an executor only when no other executor is still
in `TimerQueue::update` for its slot, or has entered it in its timer queue. -/
def Settled (s : State Task Exec Agent) : Action Task Exec Agent → Prop
  | .spawn a e =>
    match s.pc (.agent a) with
    | .token t => (∀ e', (s.drain e').updating = some t → e' = e) ∧
        ((s.word t).timerQueued = true → s.executor t = some e)
    | _ => True
  | _ => True

/-- A context leaves the queues as they are, if it spawns nothing. -/
theorem Op.sameQueues {x : Context Agent Exec} (h : Op s x s')
    (hExec : s'.executor = s.executor) : SameQueues s s' := by
  cases h with
  | casState hPc =>
    exact {
      timerQueued := timerQueued_of_word rfl rfl
      parked := asleep_of_word rfl (by simp) }
  | allocate_ok hPc hW =>
    exact {
      timerQueued := timerQueued_of_word rfl
        (by simp [hW, StateWord.allocated, StateWord.free])
      parked := asleep_of_word rfl (by simp [StateWord.allocated]) }
  | spawn hPc => exact { executor := hExec }
  | _ => exact {}

/-- A task that is at no timer queue goes to the executor `e'`. It is still marked. -/
theorem TimersOf.moved {e e' : Exec} {l : List Task} (hT : TimersOf s e l)
    {b : Agent} {t : Task} (hFalse : (s.word t).timerQueued = false)
    (hMark : (s.word t).runQueued = true) (hUp : (s.drain e).updating ≠ some t) :
    TimersOf ({ s with executor := Function.update s.executor t (some e') }.setPc (.agent b)
      (.loadHead t e')) e l := by
  -- Without the bit the task is neither in this queue nor on the way into it.
  have hMem : t ∉ l := by
    intro hMem
    have hBit := (hT.bit t (hT.home t hMem)).mpr (.inl hMem)
    simp [hFalse] at hBit
  have hFloat : (s.drain e).floating ≠ some t := by
    intro hFloat
    have hBit := (hT.bit t (hT.floating t hFloat)).mpr (.inr hFloat)
    simp [hFalse] at hBit
  constructor
  case seg => exact hT.seg
  case home =>
    intro u hu
    have hNe : u ≠ t := by
      rintro rfl
      exact hMem hu
    simpa [hNe] using hT.home u hu
  case updating =>
    intro u hu
    have hNe : u ≠ t := by
      rintro rfl
      exact hUp hu
    simpa [hNe] using hT.updating u hu
  case floating =>
    intro u hu
    have hNe : u ≠ t := by
      rintro rfl
      exact hFloat hu
    simpa [hNe] using hT.floating u hu
  case bit =>
    intro u hAt
    by_cases hu : u = t
    · subst hu
      simp [hFalse, hMem, hFloat]
    · exact hT.bit u (by simpa [hu] using hAt)
  case apart => exact hT.apart
  case kept =>
    intro u hAt hP
    have hu : u ≠ t := by
      rintro rfl
      simp [State.Parked, hMark] at hP
    exact hT.kept u (by simpa [hu] using hAt) hP
  case here =>
    have hHere := hT.here
    -- The mark keeps the task from being parked where the drain stands.
    cases hD : s.drain e <;> simp_all [State.OwnOk, State.Parked]

namespace OwnerInv

/-- A context wakes, allocates, or spawns on the executor that the slot was at. -/
theorem of_same (hO : OwnerInv s) {x : Context Agent Exec} (h : Op s x s')
    (hSame : SameQueues s s') : OwnerInv s' := by
  -- all fields are about queues and words that are the same
  refine ⟨fun e => ?_, fun t hNone => ?_⟩
  · obtain ⟨l, hT⟩ := hO.timers e
    have hHere := hT.here
    refine ⟨l, ?_⟩
    constructor
    case seg => rw [hSame.timerNext, hSame.timerHead]; exact hT.seg
    case home => rw [hSame.executor]; exact hT.home
    case updating => rw [hSame.executor, h.drain_eq]; exact hT.updating
    case floating => rw [hSame.executor, h.drain_eq]; exact hT.floating
    case bit =>
      intro t hAt
      rw [hSame.timerQueued, h.drain_eq]
      exact hT.bit t (hSame.executor ▸ hAt)
    case apart => rw [h.drain_eq]; exact hT.apart
    case kept =>
      intro t hAt hP
      rw [h.drain_eq, hSame.expiresAt]
      exact hT.kept t (hSame.executor ▸ hAt) (hSame.parked t hP)
    -- the drain's own point; a waking task stays so
    case here =>
      rw [h.drain_eq]
      cases hD : s.drain e <;> rw [hD] at hHere <;>
        simp only [State.OwnOk, hSame.timerNext, hSame.timerHead, hSame.expiresAt] at hHere ⊢
      case onTask f prev p =>
        exact ⟨hHere.1, fun hA => h.waking (hHere.2 (hSame.parked p hA)) hA⟩
      case unlink f prev p => exact ⟨hHere.1, fun hA => hHere.2 (hSame.parked p hA)⟩
      all_goals exact hHere
  · rw [hSame.timerQueued]
    exact hO.unowned t (hSame.executor ▸ hNone)

/-- `Executor::spawn`. If the slot was at another executor, that one has nothing to do
with it any more. -/
theorem spawn (hO : OwnerInv s) (hQ : QueueInv s L) {b : Agent} {e : Exec} {t : Task}
    (hPc : s.pc (.agent b) = .token t)
    (hUpdating : ∀ e', (s.drain e').updating = some t → e' = e)
    (hBit : (s.word t).timerQueued = true → s.executor t = some e) :
    OwnerInv ({ s with executor := Function.update s.executor t (some e) }.setPc (.agent b)
      (.loadHead t e)) := by
  -- spawned where it was: nothing moves
  by_cases hOld : s.executor t = some e
  · exact hO.of_same (.spawn hPc) (Op.sameQueues (.spawn hPc) (by simp [← hOld]))
  -- spawned elsewhere: it is in no timer queue, by the condition
  have hFalse : (s.word t).timerQueued = false := by
    by_contra hTrue
    exact hOld (hBit (by simpa using hTrue))
  have hMark : (s.word t).runQueued = true := by
    have hPlace := (hQ.owned (.agent b) t).mp (by simp [hPc, Pc.owned])
    exact (hQ.marked t).mpr (by simp [hPlace])
  refine ⟨fun e' => ?_, fun u hNone => ?_⟩
  · obtain ⟨l, hT⟩ := hO.timers e'
    refine ⟨l, hT.moved hFalse hMark fun hUp => ?_⟩
    have hHome := hT.updating t hUp
    exact hOld (hUpdating e' hUp ▸ hHome)
  · have hu : u ≠ t := by
      rintro rfl
      simp at hNone
    exact hO.unowned u (by simpa [hu] using hNone)

end OwnerInv

/-- Only `Executor::spawn` changes the executor of a task. -/
theorem spawn_of_ne {a : Action Task Exec Agent} (h : step hasAlarm s a = some s')
    (hNe : s'.executor ≠ s.executor) : ∃ b e t, a = .spawn b e ∧ s.pc (.agent b) = .token t ∧
      s' = { s with executor := Function.update s.executor t (some e) }.setPc (.agent b)
        (.loadHead t e) := by
  -- `executor` is written by the first step of `spawn` alone
  cases a with
  | spawn b e =>
    simp only [step] at h
    split at h
    · cases h
      exact ⟨b, e, _, rfl, ‹_›, rfl⟩
    · cases h
  | advance x weak =>
    have hOp : Op s x s' := advance_op h
    cases hOp with
    | spawn hPc => simp [step, advance, hPc] at h
    | _ => exact absurd rfl hNe
  | drain e =>
    have hOp : DrainOp hasAlarm s e s' := drainStep_op h
    cases hOp with
    | @unlink f prev p hD => cases prev <;> exact absurd rfl hNe
    | _ => exact absurd rfl hNe
  | wake | spawnPool | runQueued | registerTimer | pollReturn =>
    simp only [step] at h
    repeat' split at h
    all_goals cases h <;> exact absurd rfl hNe

/-- Every settled step keeps the invariant. -/
theorem OwnerInv.step (hO : OwnerInv s) (hQ : QueueInv s L) (hP : PollInv s)
    {a : Action Task Exec Agent} (hOk : Settled s a) (h : step hasAlarm s a = some s') :
    OwnerInv s' := by
  by_cases hExec : s'.executor = s.executor
  · rcases step_op h with ⟨x, hOp⟩ | ⟨e, hOp⟩
    · exact hO.of_same hOp (hOp.sameQueues hExec)
    · obtain ⟨l, hT⟩ := hO.timers e
      have hF := hT.foreign hQ hP hOp
      refine ⟨fun e' => ?_, fun t hNone => ?_⟩
      · by_cases he : e' = e
        · subst he
          exact hT.drain_op hQ hP hOp
        · obtain ⟨l', hT'⟩ := hO.timers e'
          exact ⟨l', hT'.frame hQ hP hF he⟩
      · rw [hExec] at hNone
        rw [hF.word t (by simp [hNone])]
        exact hO.unowned t hNone
  · obtain ⟨b, e, t, rfl, hPc, rfl⟩ := spawn_of_ne h hExec
    simp only [Settled, hPc] at hOk
    exact hO.spawn hQ hPc hOk.1 hOk.2

-- ---------------------------------------------------------------------------
-- Runs
-- ---------------------------------------------------------------------------

/-- A settled step keeps the three invariants together. -/
theorem ownerInv_step {a : Action Task Exec Agent}
    (hI : (∃ L, QueueInv s L) ∧ PollInv s ∧ OwnerInv s) (hOk : Settled s a)
    (h : step hasAlarm s a = some s') : (∃ L, QueueInv s' L) ∧ PollInv s' ∧ OwnerInv s' := by
  obtain ⟨⟨L, hQ⟩, hP, hO⟩ := hI
  obtain ⟨L', hQ', -⟩ := hQ.step h
  exact ⟨⟨L', hQ'⟩, hP.step hQ h, hO.step hQ hP hOk h⟩

/-- The invariants hold in every run where a slot is spawned elsewhere only when its old executor
has done with it. -/
theorem ownerInv_of_run (hRun : Run (step hasAlarm) Settled (init Task Exec Agent) s) :
    (∃ L, QueueInv s L) ∧ PollInv s ∧ OwnerInv s :=
  hRun.invariant ⟨⟨_, queueInv_init⟩, pollInv_init, ownerInv_init⟩
    fun _ _ _ hI hOk hs => ownerInv_step hI hOk hs

omit [DecidableEq Task] [DecidableEq Exec] [DecidableEq Agent] in
/-- With one executor every step is settled. -/
theorem OwnerInv.settled [Subsingleton Exec] (hO : OwnerInv s) (a : Action Task Exec Agent) :
    Settled s a := by
  cases a with
  | spawn b e =>
    simp only [Settled]
    split
    · rename_i t hPc
      refine ⟨fun e' _ => Subsingleton.elim e' e, fun hBit => ?_⟩
      cases hAt : s.executor t with
      | none => simp [hO.unowned t hAt] at hBit
      | some e' => rw [Subsingleton.elim e' e]
    · trivial
  | _ => trivial

/-- With one executor that condition holds of itself. -/
theorem settled_of_run [Subsingleton Exec] (hRun : Reaches hasAlarm (init Task Exec Agent) s) :
    Run (step hasAlarm) Settled (init Task Exec Agent) s :=
  hRun.strengthen ⟨⟨_, queueInv_init⟩, pollInv_init, ownerInv_init⟩
    (fun _ a _ hI _ hs => ownerInv_step hI (hI.2.2.settled a) hs)
    fun _ a hI _ => hI.2.2.settled a

/-- `tq e` is the timer queue of the executor `e`. Outside the window between the bit
and the link, a task with `STATE_TIMER_QUEUED` is in that of its executor and in no
other; so is a task that waits for a deadline, once its executor is done with its
poll. -/
structure TimersOwned (s : State Task Exec Agent) (tq : Exec → List Task) : Prop where
  seg : ∀ e, Seg s.timerNext (s.timerHead e) (tq e) none
  queued : ∀ t, (s.word t).timerQueued = true → (∀ e, (s.drain e).floating ≠ some t) →
    ∃ e, s.executor t = some e ∧ (tq e).count t = 1 ∧ ∀ e', t ∈ tq e' ↔ e' = e
  waiting : ∀ t, s.Parked t → s.expiresAt t < instantMax →
    (∀ e, s.executor t = some e → (s.drain e).visiting ≠ some t) →
    ∃ e, s.executor t = some e ∧ t ∈ tq e

/--
**The owner of a timer queue entry.** Whatever preempts whatever, and between any
two operations: as long as no slot is spawned on an executor while another one is
still in `TimerQueue::update` for it, every task is in the timer queue of the
executor that it was last spawned on.
-/
theorem timers_owned (hRun : Run (step hasAlarm) Settled (init Task Exec Agent) s) :
    ∃ tq, TimersOwned s tq := by
  obtain ⟨⟨L, hQ⟩, -, hO⟩ := ownerInv_of_run hRun
  choose tq hT using hO.timers
  refine ⟨tq, fun e => (hT e).seg, ?_, ?_⟩
  · intro t hBit hFloat
    cases hAt : s.executor t with
    | none => simp [hO.unowned t hAt] at hBit
    | some e =>
      have hMem : t ∈ tq e := (((hT e).bit t hAt).mp hBit).resolve_right (hFloat e)
      refine ⟨e, rfl, List.count_eq_one_of_mem (hT e).seg.nodup hMem, fun e' => ⟨?_, ?_⟩⟩
      · intro hMem'
        exact Option.some.inj (((hT e').home t hMem').symm.trans hAt)
      · rintro rfl
        exact hMem
  · intro t hParked hExpires hVisiting
    cases hAt : s.executor t with
    | none =>
      -- a slot that is still being spawned is marked
      rcases hQ.homed t hParked.1 with hHome | ⟨x, hx⟩
      · exact absurd hAt hHome
      · have hPlace := (hQ.owned x t).mp (Pc.owned_of_spawning hx)
        have hMark := (hQ.marked t).mpr (by simp [hPlace])
        simp [hParked.2] at hMark
    | some e =>
      exact ⟨e, rfl, (hT e).kept t hAt hParked (Nat.ne_of_lt hExpires) (hVisiting e hAt)⟩

instance (s : State Nat Bool Bool) : ∀ a, Decidable (Settled s a)
  | .spawn a e =>
    match h : s.pc (.agent a) with
    | .token t =>
      decidable_of_iff ((∀ e', (s.drain e').updating = some t → e' = e) ∧
        ((s.word t).timerQueued = true → s.executor t = some e)) (by simp [Settled, h])
    | .idle | .loadState _ | .casState _ _ | .getExecutor _ | .loadHead _ _ | .storeNext _ _ _
    | .casHead _ _ _ | .signal _ | .allocate _ | .writePollFn _ | .writeFuture _ =>
      isTrue (by simp [Settled, h])
  | .wake _ _ | .spawnPool _ _ | .advance _ _ | .runQueued _ _ | .drain _ | .registerTimer _ _
  | .pollReturn _ _ => isTrue trivial

/-- `run_queued` with an empty timer queue, up to the poll of the one task in the queue. -/
def drainToFirstPoll {Task Exec Agent : Type} (e : Exec) : List (Action Task Exec Agent) :=
  .runQueued e 0 :: List.replicate 6 (.drain e)

/-- The slot 0 is used on one executor, and then on the other, where its task waits for
the deadline 10. -/
theorem timers_owned_after_move : ∃ (s : State Nat Bool Bool) (tq : Bool → List Nat),
    Run (step fun _ => true) Settled (init Nat Bool Bool) s ∧ TimersOwned s tq ∧
    s.executor 0 = some true ∧ 0 ∈ tq true ∧ 0 ∉ tq false := by
  obtain ⟨s, hRun, hAt, hBit, hFloat⟩ : ∃ s : State Nat Bool Bool,
      Run (step fun _ => true) Settled (init Nat Bool Bool) s ∧ s.executor 0 = some true ∧
        (s.word 0).timerQueued = true ∧ ∀ e, (s.drain e).floating ≠ some 0 := by
    refine ⟨_, Run.execOk_get _ (spawnActions false 0 false ++ drainToFirstPoll false ++
      [.pollReturn false true] ++ List.replicate 6 (.drain false) ++ spawnActions true 0 true ++
      drainToFirstPoll true ++ [.registerTimer true 10, .pollReturn true false] ++
      List.replicate 4 (.drain true)) (by decide +kernel), by decide +kernel, by decide +kernel,
      by decide +kernel⟩
  obtain ⟨tq, hOwned⟩ := timers_owned hRun
  obtain ⟨e, hE, -, hOnly⟩ := hOwned.queued 0 hBit hFloat
  obtain rfl : true = e := Option.some.inj (hAt.symm.trans hE)
  exact ⟨s, tq, hRun, hOwned, hAt, (hOnly true).mpr rfl, fun h => by simpa using (hOnly false).mp h⟩

/-- The task in slot 0 of the executor `false` registers the deadline 10 and returns
`Ready`. When its slot has been released, an interrupt allocates it, spawns it on the
executor `true` and runs that to its end. `TimerQueue::update` goes on then, and links
the task in the timer queue of `false`. -/
theorem respawned_task_in_old_queue : ∃ s : State Nat Bool Bool,
    Reaches (fun _ => true) (init Nat Bool Bool) s ∧ s.executor 0 = some true ∧
    s.word 0 = ⟨true, false, true⟩ ∧ s.timerHead false = some 0 ∧ s.timerHead true = none ∧
    (∀ e, (s.drain e).floating = none) ∧ ¬ ∃ tq, TimersOwned s tq := by
  -- the drain that ran the task sets the bit after another executor has it
  obtain ⟨s, hRun, hAt, hWord, hHead, hNone, hFloat⟩ : ∃ s : State Nat Bool Bool,
      Reaches (fun _ => true) (init Nat Bool Bool) s ∧ s.executor 0 = some true ∧
        s.word 0 = ⟨true, false, true⟩ ∧ s.timerHead false = some 0 ∧
        s.timerHead true = none ∧ ∀ e, (s.drain e).floating = none := by
    refine ⟨_, Run.execOk_get _ (spawnActions false 0 false ++ drainToFirstPoll false ++
      [.registerTimer false 10, .pollReturn false true] ++ List.replicate 3 (.drain false) ++
      spawnActions true 0 true ++ drainToFirstPoll true ++ [.pollReturn true false] ++
      List.replicate 4 (.drain true) ++ List.replicate 3 (.drain false)) (by decide +kernel),
      by decide +kernel, by decide +kernel, by decide +kernel, by decide +kernel,
      by decide +kernel⟩
  refine ⟨s, hRun, hAt, hWord, hHead, hNone, hFloat, ?_⟩
  -- its bit asks for it in the queue of `true`, which is empty
  rintro ⟨tq, hOwned⟩
  obtain ⟨e, hE, -, hOnly⟩ := hOwned.queued 0 (by simp [hWord]) (by simp [hFloat])
  obtain rfl : true = e := Option.some.inj (hAt.symm.trans hE)
  have hMem := (hOnly true).mpr rfl
  have hSeg := hOwned.seg true
  rw [hNone] at hSeg
  simp [hSeg.eq_nil] at hMem

end Embassy.Executor
