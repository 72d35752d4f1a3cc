import Mathlib.Data.List.MinMax
import Embassy.Executor.Timers

/-!
# The timer queue on its own

`embassy/src/executor/timer_queue.rs`, its methods as functions of the state of the
machine: the queue of one executor, with any closure for `retain` and any `on_task`.
What is not the queue's business is free: between the calls, and in a closure,
anything may happen that leaves the links and `STATE_TIMER_QUEUED` alone (`Quiet`).

* `Calls` — what `retain` does to the state, call by call of its closure.
* `retain_filter` — `retain` filters the queue; so do the methods that call it
  (`nextExpiration_min`, `dequeueExpired_filter`).
* `queueOf_of_run` — the links and the bits agree in every state reached.
-/

namespace Embassy.Executor

open Embassy.Lib

namespace TimerQueue

variable {Task Exec Agent : Type} [DecidableEq Task] [DecidableEq Exec]

-- ---------------------------------------------------------------------------
-- Methods
-- ---------------------------------------------------------------------------

/-- A closure with the variables `κ` that it captures. -/
abbrev Callback (Task Exec Agent κ : Type) : Type :=
  Task → κ → State Task Exec Agent → Bool × κ × State Task Exec Agent

def update (s : State Task Exec Agent) (e : Exec) (p : Task) : State Task Exec Agent :=
  if s.expiresAt p ≠ instantMax then
    let oldState := s.word p
    let s := s.setWord p { oldState with timerQueued := true }
    let isNew := oldState.timerQueued = false
    if isNew then
      let s := { s with timerNext := Function.update s.timerNext p (s.timerHead e) }
      { s with timerHead := Function.update s.timerHead e (some p) }
    else s
  else s

/-- The loop of `retain`, from the cell `prev` on. It makes at most so many steps. -/
def retainFrom (e : Exec) {κ : Type} (f : Callback Task Exec Agent κ) :
    Nat → Link Task → κ → State Task Exec Agent → Option (κ × State Task Exec Agent)
  | 0, _, _, _ => none
  | fuel + 1, prev, k, s =>
    match s.linkGet e prev with
    | none => some (k, s)
    | some p =>
      match f p k s with
      | (true, k, s) => retainFrom e f fuel (.next p) k s
      | (false, k, s) =>
        let s := s.linkSet e prev (s.timerNext p)
        retainFrom e f fuel prev k (s.setWord p { s.word p with timerQueued := false })

def retain (s : State Task Exec Agent) (e : Exec) {κ : Type} (f : Callback Task Exec Agent κ)
    (k : κ) (fuel : Nat) : Option (κ × State Task Exec Agent) :=
  retainFrom e f fuel .head k s

def nextExpiration (s : State Task Exec Agent) (e : Exec) (fuel : Nat) :
    Option (Nat × State Task Exec Agent) :=
  retain s e (fun p res s =>
    let expires := s.expiresAt p
    (expires ≠ instantMax, min res expires, s)) instantMax fuel

/-- The tasks that `on_task` was called for are kept, in this order. -/
def dequeueExpired (s : State Task Exec Agent) (e : Exec) (now : Nat)
    (onTask : Task → State Task Exec Agent → State Task Exec Agent) (fuel : Nat) :
    Option (List Task × State Task Exec Agent) :=
  retain s e (fun p calls s =>
    if s.expiresAt p ≤ now then (false, calls ++ [p], onTask p s) else (true, calls, s)) [] fuel

-- ---------------------------------------------------------------------------
-- The queue
-- ---------------------------------------------------------------------------

/-- The links lead through the tasks `q` to null, and these have `STATE_TIMER_QUEUED` set. -/
structure QueueOf (s : State Task Exec Agent) (e : Exec) (q : List Task) : Prop where
  seg : Seg s.timerNext (s.timerHead e) q none
  bit : ∀ t, (s.word t).timerQueued = true ↔ t ∈ q

/-- The queue is left alone. -/
structure Quiet (s s' : State Task Exec Agent) : Prop where
  timerNext : s'.timerNext = s.timerNext := by rfl
  timerHead : s'.timerHead = s.timerHead := by rfl
  timerQueued : ∀ t, (s'.word t).timerQueued = (s.word t).timerQueued := by exact fun _ => rfl

/-- The closure is called for these tasks with these answers, one after the other. After
`false` the task loses `STATE_TIMER_QUEUED`, and links change; nothing else does. -/
inductive Calls {κ : Type} (f : Callback Task Exec Agent κ) :
    κ → State Task Exec Agent → List (Task × Bool) → κ → State Task Exec Agent → Prop where
  | nil {k : κ} {s : State Task Exec Agent} : Calls f k s [] k s
  | keep {p : Task} {k k₁ k' : κ} {s s₁ s' : State Task Exec Agent} {calls : List (Task × Bool)}
      (hCall : f p k s = (true, k₁, s₁)) (hRest : Calls f k₁ s₁ calls k' s') :
      Calls f k s ((p, true) :: calls) k' s'
  | remove {p : Task} {k k₁ k' : κ} {s s₁ s' : State Task Exec Agent} {calls : List (Task × Bool)}
      {timerNext : Task → Option Task} {timerHead : Exec → Option Task}
      (hCall : f p k s = (false, k₁, s₁))
      (hRest : Calls f k₁
        { s₁.setWord p { s₁.word p with timerQueued := false } with
          timerNext := timerNext
          timerHead := timerHead } calls k' s') :
      Calls f k s ((p, false) :: calls) k' s'

/-- The tasks for which the closure answered `true`. -/
def kept (calls : List (Task × Bool)) : List Task := (calls.filter Prod.snd).map Prod.fst

section Kept

variable {p : Task} {calls : List (Task × Bool)}

omit [DecidableEq Task] in
@[simp]
theorem kept_true : kept ((p, true) :: calls) = p :: kept calls := rfl

omit [DecidableEq Task] in
@[simp]
theorem kept_false : kept ((p, false) :: calls) = kept calls := rfl

end Kept

variable {s s' : State Task Exec Agent} {e : Exec} {q : List Task}

omit [DecidableEq Task] [DecidableEq Exec] in
theorem queueOf_init : QueueOf (init Task Exec Agent) e [] := by
  constructor <;> simp [init, StateWord.free]

namespace QueueOf

omit [DecidableEq Task] [DecidableEq Exec] in
theorem nodup (h : QueueOf s e q) : q.Nodup := h.seg.nodup

omit [DecidableEq Task] [DecidableEq Exec] in
/-- A step that leaves the timers alone leaves the queue. -/
theorem quiet (h : QueueOf s e q) (hQuiet : Quiet s s') : QueueOf s' e q where
  seg := by simpa only [hQuiet.timerNext, hQuiet.timerHead] using h.seg
  bit t := by rw [hQuiet.timerQueued t, h.bit t]

/-- A task comes to the front, unless it is in the queue or has no deadline. -/
theorem update (h : QueueOf s e q) (p : Task) : QueueOf (update s e p) e
    (if s.expiresAt p = instantMax ∨ p ∈ q then q else p :: q) := by
  unfold TimerQueue.update
  split
  case isFalse hMax =>
    rw [if_pos (.inl (not_not.mp hMax))]
    exact h
  case isTrue hMax =>
    -- a task already linked only gets its bit again
    by_cases hMem : p ∈ q
    · have hBit := (h.bit p).mpr hMem
      have hStays : (if s.expiresAt p = instantMax ∨ p ∈ q then q else p :: q) = q :=
        if_pos (.inr hMem)
      rw [hStays]
      simp only [hBit, Bool.true_eq_false, if_false]
      refine h.quiet { timerQueued := fun t => ?_ }
      by_cases ht : t = p
      · simp [ht, hBit]
      · simp [ht]
    · -- a new task goes to the front
      have hBit : (s.word p).timerQueued = false :=
        Bool.eq_false_iff.mpr fun hSet => hMem ((h.bit p).mp hSet)
      have hFront : (if s.expiresAt p = instantMax ∨ p ∈ q then q else p :: q) = p :: q :=
        if_neg (not_or.mpr ⟨hMax, hMem⟩)
      rw [hFront]
      simp only [hBit, if_true]
      constructor
      · refine ⟨by simp, ?_⟩
        simpa using h.seg.update_of_notMem hMem
      · intro t
        by_cases ht : t = p
        · simp [ht]
        · simpa [ht] using h.bit t

end QueueOf

-- ---------------------------------------------------------------------------
-- The filter
-- ---------------------------------------------------------------------------

section Retain

variable {κ : Type} {f : Callback Task Exec Agent κ} {k k' : κ}

/-- A task is taken out, and its `STATE_TIMER_QUEUED` is cleared. -/
theorem QueueOf.remove {prev : Link Task} {p : Task} {v r : List Task}
    (h : QueueOf s e (v ++ p :: r)) (hEnds : prev.Ends v) :
    QueueOf ((s.linkSet e prev (s.timerNext p)).setWord p
      { (s.linkSet e prev (s.timerNext p)).word p with timerQueued := false }) e (v ++ r) := by
  have hWord : (s.linkSet e prev (s.timerNext p)).word = s.word := by cases prev <;> rfl
  constructor
  · exact seg_linkSet h.seg hEnds
  · intro t
    have hNodup : (p :: (v ++ r)).Nodup := List.perm_middle.nodup_iff.mp h.nodup
    have hOut : p ∉ v ++ r := (List.nodup_cons.mp hNodup).1
    by_cases ht : t = p
    · simp only [State.setWord_word, ht, Function.update_self, Bool.false_eq_true, false_iff]
      exact hOut
    · have hOld := h.bit t
      simp only [List.mem_append, List.mem_cons, ht, false_or] at hOld
      simpa [hWord, ht] using hOld

/-- `prev` is behind the tasks `v`, and `r` is the rest of the queue. -/
theorem retainFrom_calls (hf : ∀ p k s, Quiet s (f p k s).2.2) {r : List Task} {v : List Task}
    {prev : Link Task} {fuel : Nat} (h : QueueOf s e (v ++ r)) (hEnds : prev.Ends v)
    (hFuel : r.length < fuel) :
    ∃ calls k' s', retainFrom e f fuel prev k s = some (k', s') ∧ calls.map Prod.fst = r ∧
      Calls f k s calls k' s' ∧ QueueOf s' e (v ++ kept calls) := by
  -- induction on what is left of the queue; the cursor stands at the end of `v`
  induction r generalizing v prev fuel k s with
  | nil =>
    obtain ⟨fuel, rfl⟩ : ∃ n, fuel = n + 1 := ⟨fuel - 1, by omega⟩
    have hNull : s.linkGet e prev = none := seg_linkGet h.seg hEnds
    exact ⟨[], k, s, by simp only [retainFrom, hNull], rfl, .nil, h⟩
  | cons p r ih =>
    obtain ⟨fuel, rfl⟩ : ∃ n, fuel = n + 1 := ⟨fuel - 1, by omega⟩
    have hFuel : r.length < fuel := by simpa using hFuel
    have hGet : s.linkGet e prev = some p := (seg_linkGet h.seg hEnds).1
    have hQuiet := hf p k s
    rcases hCall : f p k s with ⟨answer, k₁, s₁⟩
    rw [hCall] at hQuiet
    have h₁ := h.quiet hQuiet
    cases answer with
    | true =>
      -- kept: the cursor moves to the task's own link
      have hSplit : v ++ p :: r = (v ++ [p]) ++ r := by simp
      have hNext : (Link.next p).Ends (v ++ [p]) := ⟨v, rfl⟩
      obtain ⟨calls, k', s', hRetain, hMap, hCalls, hQueue⟩ :=
        ih (k := k₁) (hSplit ▸ h₁) hNext hFuel
      refine ⟨(p, true) :: calls, k', s', ?_, by simp [hMap], .keep hCall hCalls, ?_⟩
      · simpa only [retainFrom, hGet, hCall] using hRetain
      · simpa using hQueue
    | false =>
      -- removed: the link before it now holds the next task
      obtain ⟨calls, k', s', hRetain, hMap, hCalls, hQueue⟩ :=
        ih (k := k₁) (h₁.remove hEnds) hEnds hFuel
      refine ⟨(p, false) :: calls, k', s', ?_, by simp [hMap], ?_, ?_⟩
      · simpa only [retainFrom, hGet, hCall] using hRetain
      · have hRest : Calls f k₁
            { s₁.setWord p { s₁.word p with timerQueued := false } with
              timerNext := (s₁.linkSet e prev (s₁.timerNext p)).timerNext
              timerHead := (s₁.linkSet e prev (s₁.timerNext p)).timerHead } calls k' s' := by
          cases prev <;> exact hCalls
        exact .remove hCall hRest
      · exact hQueue

/-- `retain` calls its closure for each task of the queue, in the order of the queue, and
what is left are the tasks for which it answered `true`. -/
theorem retain_filter (hf : ∀ p k s, Quiet s (f p k s).2.2) (h : QueueOf s e q) (k : κ)
    {fuel : Nat} (hFuel : q.length < fuel) :
    ∃ calls k' s', retain s e f k fuel = some (k', s') ∧ calls.map Prod.fst = q ∧
      Calls f k s calls k' s' ∧ QueueOf s' e (kept calls) :=
  retainFrom_calls (v := []) hf h rfl hFuel

/-- More fuel changes nothing. -/
theorem retainFrom_mono {fuel fuel' : Nat} {prev : Link Task} {res : κ × State Task Exec Agent}
    (h : retainFrom e f fuel prev k s = some res) (hFuel : fuel ≤ fuel') :
    retainFrom e f fuel' prev k s = some res := by
  induction fuel generalizing prev k s fuel' with
  | zero => cases h
  | succ fuel ih =>
    obtain ⟨fuel', rfl⟩ : ∃ n, fuel' = n + 1 := ⟨fuel' - 1, by omega⟩
    have hFuel : fuel ≤ fuel' := by omega
    rw [retainFrom] at h ⊢
    split at h
    · exact h
    · split at h
      · exact ih h hFuel
      · exact ih h hFuel

omit [DecidableEq Exec] in
/-- The closure decides by the deadline, which it leaves alone, and keeps account in `κ`. -/
theorem Calls.of_expiresAt (test : Nat → Bool) (g : Nat → κ → Task → κ)
    (hf : ∀ p k s, (f p k s).1 = test (s.expiresAt p) ∧ (f p k s).2.1 = g (s.expiresAt p) k p ∧
      (f p k s).2.2.expiresAt = s.expiresAt)
    {calls : List (Task × Bool)} (h : Calls f k s calls k' s') :
    kept calls = (calls.map Prod.fst).filter (fun t => test (s.expiresAt t)) ∧
      k' = (calls.map Prod.fst).foldl (fun k t => g (s.expiresAt t) k t) k ∧
      s'.expiresAt = s.expiresAt := by
  -- along the calls; none changes a deadline, so each answer is that of the start
  induction h with
  | nil => exact ⟨rfl, rfl, rfl⟩
  | @keep p k k₁ k' s s₁ s' calls hCall hRest ih =>
    obtain ⟨hTest, rfl, hSame⟩ := hCall ▸ hf p k s
    replace hSame : s₁.expiresAt = s.expiresAt := hSame
    rw [hSame] at ih
    obtain ⟨hKept, hFold, hEnd⟩ := ih
    refine ⟨?_, by rw [hFold, List.map_cons, List.foldl_cons], hEnd⟩
    rw [kept_true, hKept, List.map_cons, List.filter_cons_of_pos (by exact hTest.symm)]
  | @remove p k k₁ k' s s₁ s' calls _ _ hCall hRest ih =>
    obtain ⟨hTest, rfl, hSame⟩ := hCall ▸ hf p k s
    replace hSame : s₁.expiresAt = s.expiresAt := hSame
    simp only [State.setWord_expiresAt] at ih
    rw [hSame] at ih
    obtain ⟨hKept, hFold, hEnd⟩ := ih
    refine ⟨?_, by rw [hFold, List.map_cons, List.foldl_cons], hEnd⟩
    rw [kept_false, hKept, List.map_cons, List.filter_cons_of_neg (by simp [← hTest])]

end Retain

/-- The minimum of some instants is folded from `Instant::MAX`. -/
theorem foldl_min_instantMax {l : List Nat} (hMax : ∀ a ∈ l, a ≤ instantMax) :
    l.foldl min instantMax = l.min?.getD instantMax := by
  cases l with
  | nil => rfl
  | cons a l =>
    have ha : a ≤ instantMax := hMax a List.mem_cons_self
    rw [List.foldl_cons, Nat.min_eq_right ha]
    rfl

/-- `next_expiration` returns the earliest deadline, and drops what has none. -/
theorem nextExpiration_min (h : QueueOf s e q) (hMax : ∀ t, s.expiresAt t ≤ instantMax)
    {fuel : Nat} (hFuel : q.length < fuel) :
    ∃ s', nextExpiration s e fuel = some ((q.map s.expiresAt).min?.getD instantMax, s') ∧
      QueueOf s' e (q.filter fun t => s.expiresAt t ≠ instantMax) ∧
      s'.expiresAt = s.expiresAt := by
  obtain ⟨calls, res, s', hRetain, hMap, hCalls, hQueue⟩ :=
    retain_filter (f := fun p res s =>
      (decide (s.expiresAt p ≠ instantMax), min res (s.expiresAt p), s))
      (fun _ _ _ => {}) h instantMax hFuel
  obtain ⟨hKept, hFold, hSame⟩ := hCalls.of_expiresAt (fun a => a ≠ instantMax)
    (fun a res _ => min res a) (fun _ _ _ => ⟨rfl, rfl, rfl⟩)
  refine ⟨s', ?_, ?_, hSame⟩
  · have hMin : res = (q.map s.expiresAt).min?.getD instantMax := by
      rw [← foldl_min_instantMax (by simp [hMax]), List.foldl_map, hFold, hMap]
    rw [← hMin]
    exact hRetain
  · rwa [hKept, hMap] at hQueue

/-- `dequeue_expired` calls `on_task` for what is due, and drops it. -/
theorem dequeueExpired_filter (h : QueueOf s e q) (now : Nat)
    {onTask : Task → State Task Exec Agent → State Task Exec Agent}
    (hTask : ∀ p s, Quiet s (onTask p s) ∧ (onTask p s).expiresAt = s.expiresAt)
    {fuel : Nat} (hFuel : q.length < fuel) :
    ∃ s', dequeueExpired s e now onTask fuel =
        some (q.filter fun t => s.expiresAt t ≤ now, s') ∧
      QueueOf s' e (q.filter fun t => now < s.expiresAt t) ∧ s'.expiresAt = s.expiresAt := by
  -- the closure `dequeue_expired` passes to `retain`
  let f : Callback Task Exec Agent (List Task) := fun p calls s =>
    if s.expiresAt p ≤ now then (false, calls ++ [p], onTask p s) else (true, calls, s)
  have hQuiet : ∀ p k s, Quiet s (f p k s).2.2 := by
    intro p k s
    by_cases hDue : s.expiresAt p ≤ now
    · simpa only [f, hDue, if_true] using (hTask p s).1
    · simp only [f, hDue, if_false]
      exact {}
  have hf : ∀ p k s, (f p k s).1 = decide (now < s.expiresAt p) ∧
      (f p k s).2.1 = (if s.expiresAt p ≤ now then k ++ [p] else k) ∧
      (f p k s).2.2.expiresAt = s.expiresAt := by
    intro p k s
    by_cases hDue : s.expiresAt p ≤ now
    · simp [f, hDue, (hTask p s).2]
    · simp [f, hDue, Nat.lt_of_not_le hDue]
  obtain ⟨calls, reported, s', hRetain, hMap, hCalls, hQueue⟩ := retain_filter hQuiet h [] hFuel
  obtain ⟨hKept, hFold, hSame⟩ := hCalls.of_expiresAt (fun a => now < a)
    (fun a calls p => if a ≤ now then calls ++ [p] else calls) hf
  refine ⟨s', ?_, ?_, hSame⟩
  · -- the tasks reported, in the order of the calls
    have hReported : reported = q.filter fun t => s.expiresAt t ≤ now := by
      calc reported = (q.filter fun t => s.expiresAt t ≤ now).foldl (fun k t => k ++ [t]) [] := by
            rw [hFold, hMap, List.foldl_filter]
            simp
        _ = [] ++ (q.filter fun t => s.expiresAt t ≤ now).flatMap fun t => [t] :=
            List.foldl_append_eq_append
        _ = q.filter fun t => s.expiresAt t ≤ now := by
            rw [List.nil_append, List.flatMap_singleton']
    rw [← hReported]
    exact hRetain
  · rwa [hKept, hMap] at hQueue

-- ---------------------------------------------------------------------------
-- Runs
-- ---------------------------------------------------------------------------

inductive Action (Task Exec Agent : Type) where
  | update (p : Task)
  | nextExpiration (fuel : Nat)
  | dequeueExpired (now : Nat) (onTask : Task → State Task Exec Agent → State Task Exec Agent)
      (fuel : Nat)
  /-- Deadlines change, and whatever else is not the queue. -/
  | other (s' : State Task Exec Agent)

def step (e : Exec) (s : State Task Exec Agent) :
    Action Task Exec Agent → Option (State Task Exec Agent)
  | .update p => some (update s e p)
  | .nextExpiration fuel => (nextExpiration s e fuel).map Prod.snd
  | .dequeueExpired now onTask fuel => (dequeueExpired s e now onTask fuel).map Prod.snd
  | .other s' => some s'

/-- The queue is touched by its methods only, and an `Instant` has 64 bits. -/
def Promised (s : State Task Exec Agent) : Action Task Exec Agent → Prop
  | .dequeueExpired _ onTask _ =>
    ∀ p s, Quiet s (onTask p s) ∧ (onTask p s).expiresAt = s.expiresAt
  | .other s' => Quiet s s' ∧ ∀ t, s'.expiresAt t ≤ instantMax
  | _ => True

/-- What a method returns does not depend on the fuel. -/
theorem retain_unique {κ : Type} {f : Callback Task Exec Agent κ} {k : κ} {fuel fuel' : Nat}
    {res res' : κ × State Task Exec Agent} (h : retain s e f k fuel = some res)
    (h' : retain s e f k fuel' = some res') : res = res' := by
  have hMore := retainFrom_mono h (Nat.le_max_left fuel fuel')
  have hMore' := retainFrom_mono h' (Nat.le_max_right fuel fuel')
  exact Option.some.inj (hMore.symm.trans hMore')

theorem update_expiresAt (p : Task) : (update s e p).expiresAt = s.expiresAt := by
  unfold update
  split
  · dsimp only
    split <;> rfl
  · rfl

/-- In every run of operations that keep to their contract. -/
theorem queueOf_of_run (hRun : Run (step e) Promised (init Task Exec Agent) s) :
    (∃ q, QueueOf s e q) ∧ ∀ t, s.expiresAt t ≤ instantMax := by
  refine hRun.invariant (I := fun s => (∃ q, QueueOf s e q) ∧ ∀ t, s.expiresAt t ≤ instantMax)
    ⟨⟨[], queueOf_init⟩, fun _ => Nat.zero_le _⟩ ?_
  rintro s a s' ⟨⟨q, hQueue⟩, hMax⟩ hOk hStep
  -- one function of the queue, or a step outside it that keeps its promise
  cases a with
  | update p =>
    cases hStep
    exact ⟨⟨_, hQueue.update p⟩, by rwa [update_expiresAt]⟩
  | nextExpiration fuel =>
    obtain ⟨⟨res, s₁⟩, hNext, rfl⟩ := Option.map_eq_some_iff.mp hStep
    obtain ⟨s₂, hNext', hQueue', hSame⟩ := nextExpiration_min hQueue hMax (Nat.lt_succ_self _)
    cases retain_unique hNext hNext'
    exact ⟨⟨_, hQueue'⟩, fun t => hSame ▸ hMax t⟩
  | dequeueExpired now onTask fuel =>
    obtain ⟨⟨reported, s₁⟩, hDeq, rfl⟩ := Option.map_eq_some_iff.mp hStep
    obtain ⟨s₂, hDeq', hQueue', hSame⟩ :=
      dequeueExpired_filter hQueue now hOk (Nat.lt_succ_self _)
    cases retain_unique hDeq hDeq'
    exact ⟨⟨_, hQueue'⟩, fun t => hSame ▸ hMax t⟩
  | other s₁ =>
    cases hStep
    exact ⟨⟨q, hQueue.quiet hOk.1⟩, hOk.2⟩

/-- After any calls of the methods and any changes of the deadlines, the list is the set of
the marked tasks, each once, and each method filters it. -/
theorem timer_queue_filter (hRun : Run (step e) Promised (init Task Exec Agent) s) :
    ∃ q, QueueOf s e q ∧ q.Nodup ∧
      (∀ (κ : Type) (f : Callback Task Exec Agent κ) (k : κ) (fuel : Nat),
        (∀ p k s, Quiet s (f p k s).2.2) → q.length < fuel →
        ∃ calls k' s', retain s e f k fuel = some (k', s') ∧ calls.map Prod.fst = q ∧
          Calls f k s calls k' s' ∧ QueueOf s' e (kept calls)) ∧
      (∀ fuel, q.length < fuel →
        ∃ s', nextExpiration s e fuel = some ((q.map s.expiresAt).min?.getD instantMax, s') ∧
          QueueOf s' e (q.filter fun t => s.expiresAt t ≠ instantMax)) ∧
      ∀ now onTask fuel,
        (∀ p s, Quiet s (onTask p s) ∧ (onTask p s).expiresAt = s.expiresAt) →
        q.length < fuel →
        ∃ s', dequeueExpired s e now onTask fuel =
            some (q.filter fun t => s.expiresAt t ≤ now, s') ∧
          QueueOf s' e (q.filter fun t => now < s.expiresAt t) := by
  obtain ⟨⟨q, hQueue⟩, hMax⟩ := queueOf_of_run hRun
  refine ⟨q, hQueue, hQueue.nodup, ?_, ?_, ?_⟩
  · intro κ f k fuel hf hFuel
    exact retain_filter hf hQueue k hFuel
  · intro fuel hFuel
    obtain ⟨s', hNext, hQueue', -⟩ := nextExpiration_min hQueue hMax hFuel
    exact ⟨s', hNext, hQueue'⟩
  · intro now onTask fuel hTask hFuel
    obtain ⟨s', hDeq, hQueue', -⟩ := dequeueExpired_filter hQueue now hTask hFuel
    exact ⟨s', hDeq, hQueue'⟩

/-- Two tasks are put in the queue, and then the one in front loses its deadline. -/
theorem timer_queue_filter_two :
    ∃ s : State Nat Unit Unit, Run (step ()) Promised (init Nat Unit Unit) s ∧
      QueueOf s () [2, 1] ∧
      (∃ calls k' s', retain s () (fun p k s => (p = 1, k + 1, s)) 0 3 = some (k', s') ∧
        calls.map Prod.fst = [2, 1] ∧ Calls (fun p k s => (p = 1, k + 1, s)) 0 s calls k' s' ∧
        QueueOf s' () (kept calls)) ∧
      (∃ s', nextExpiration s () 3 = some (7, s') ∧ QueueOf s' () [1]) ∧
      ∃ s', dequeueExpired s () 7 (fun _ s => s) 3 = some ([1], s') ∧ QueueOf s' () [2] := by
  have hGo : ∀ {u v : State Nat Unit Unit} (a), Run (step ()) Promised (init Nat Unit Unit) u →
      Promised u a → step () u a = some v → Run (step ()) Promised (init Nat Unit Unit) v :=
    fun a hRun hOk hStep => hRun.tail hOk hStep
  -- two tasks with deadline 7, of which one then loses its deadline
  have hSeven := hGo (.other { init Nat Unit Unit with expiresAt := fun _ => 7 }) .refl
    ⟨{}, fun _ => by simp [instantMax]⟩ rfl
  have hFirst := hGo (.update 1) hSeven trivial rfl
  have hSecond := hGo (.update 2) hFirst trivial rfl
  have hLost := hGo (.other { update (update
      { init Nat Unit Unit with expiresAt := fun _ => 7 } () 1) () 2 with
        expiresAt := fun t => if t = 2 then instantMax else 7 }) hSecond
    ⟨{}, fun t => by by_cases ht : t = 2 <;> simp [ht, instantMax]⟩ rfl
  obtain ⟨q, hQueue, -, hRetain, hNext, hDeq⟩ := timer_queue_filter hLost
  obtain rfl : q = [2, 1] := hQueue.seg.eq_of_none ⟨rfl, rfl, rfl⟩
  refine ⟨_, hLost, hQueue, ?_, hNext 3 (by decide), ?_⟩
  · exact hRetain Nat (fun p k s => (p = 1, k + 1, s)) 0 3 (fun _ _ _ => {}) (by decide)
  · exact hDeq 7 (fun _ s => s) 3 (fun _ _ => ⟨{}, rfl⟩) (by decide)

end TimerQueue

end Embassy.Executor
