import Embassy.Lib.Seg
import Embassy.Executor.Machine

/-!
# The run queues

The run queue is a lock-free stack of tasks linked through their headers, and
the link of a task is overwritten when it is queued again. What keeps the
stacks apart is the bit `STATE_RUN_QUEUED`: whoever sets it owns the task until
it has linked it, and only the drain that has taken the task out clears it.

`QueueInv` says so of every state. It gives each task with the bit a place
(`Place`): owned by one context, in one queue, in the unvisited rest of one
batch, or taken by one drain; places exclude each other, so this is also what
says that a task is linked at most once.

Main results:

* `QueueInv.context_op` / `QueueInv.drain_op` — every operation keeps the
  invariant, and moves a linked task only forward (`Moves`).
-/

namespace Embassy.Executor

open Embassy.Lib

-- ---------------------------------------------------------------------------
-- Places
-- ---------------------------------------------------------------------------

section Accessors

variable {Task Exec : Type}

/-- The task that a context has marked and not yet linked. -/
def Pc.owned : Pc Task Exec → Option Task
  | .getExecutor t | .loadHead t _ | .storeNext t _ _ | .casHead t _ _ | .writePollFn t
  | .writeFuture t | .token t => some t
  | .idle | .loadState _ | .casState _ _ | .signal _ | .allocate _ => none

/-- The task that is being spawned and has no executor yet. -/
def Pc.spawning : Pc Task Exec → Option Task
  | .writePollFn t | .writeFuture t | .token t => some t
  | _ => none

/-- The task and the executor of a running `RunQueue::enqueue`. -/
def Pc.target : Pc Task Exec → Option (Task × Exec)
  | .loadHead t e | .storeNext t e _ | .casHead t e _ => some (t, e)
  | _ => none

/-- The rest of the batch that a drain has not yet visited. -/
def Drain.rest : Drain Task → Option Task
  | .walk task => task
  | .setExpires _ next | .clearRunQueued _ next | .poll _ next | .polling _ next
  | .dropFuture _ next | .release _ next | .updateTest _ next | .updateOr _ next
  | .updateNext _ next | .updateHead _ next => next
  | .idle | .retain _ _ | .filter _ _ _ | .onTask _ _ _ | .unlink _ _ _
  | .clearTimerQueued _ _ _ | .swap | .setAlarm _ => none

/-- The task that a drain has taken from its batch and not yet cleared. -/
def Drain.taken : Drain Task → Option Task
  | .setExpires t _ | .clearRunQueued t _ => some t
  | _ => none

end Accessors

/-- Where a task with `STATE_RUN_QUEUED` is. -/
inductive Place (Exec Agent : Type) where
  | off
  | owned (x : Context Agent Exec)
  | queued (e : Exec)
  | batched (e : Exec)
  | taken (e : Exec)
  deriving DecidableEq

/-- The tasks of each run queue and each batch, and the place of each task. -/
structure Layout (Task Exec Agent : Type) where
  queue : Exec → List Task
  batch : Exec → List Task
  place : Task → Place Exec Agent

variable {Task Exec Agent : Type}

structure QueueInv (s : State Task Exec Agent) (L : Layout Task Exec Agent) : Prop where
  marked : ∀ t, (s.word t).runQueued = true ↔ L.place t ≠ .off
  owned : ∀ x t, (s.pc x).owned = some t ↔ L.place t = .owned x
  queued : ∀ e t, t ∈ L.queue e ↔ L.place t = .queued e
  batched : ∀ e t, t ∈ L.batch e ↔ L.place t = .batched e
  taken : ∀ e t, (s.drain e).taken = some t ↔ L.place t = .taken e
  queue : ∀ e, Seg s.next (s.head e) (L.queue e) none
  batch : ∀ e, Seg s.next (s.drain e).rest (L.batch e) none
  stored : ∀ x t e prev, s.pc x = .casHead t e prev → s.next t = prev
  attempt : ∀ x t current, s.pc x = .casState t current → current.inert = false
  -- executors
  target : ∀ x t e, (s.pc x).target = some (t, e) → s.executor t = some e
  home : ∀ t e, L.place t = .queued e ∨ L.place t = .batched e ∨ L.place t = .taken e →
    s.executor t = some e
  homed : ∀ t, (s.word t).spawned = true → s.executor t ≠ none ∨
    ∃ x, (s.pc x).spawning = some t
  found : ∀ x t, s.pc x = .getExecutor t → s.executor t ≠ none
  -- a drain enqueues only while `dequeue_expired` waits for it
  waits : ∀ e, s.pc (.drain e) = .idle ∨ ∃ f prev p, s.drain e = .onTask f prev p

/-- The layout of the initial state. -/
def Layout.empty : Layout Task Exec Agent where
  queue := fun _ => []
  batch := fun _ => []
  place := fun _ => .off

theorem queueInv_init : QueueInv (init Task Exec Agent) .empty := by
  constructor <;>
    simp [init, Layout.empty, StateWord.free, Pc.owned, Drain.taken, Drain.rest, Pc.target]

/-- A task that is spawned is in the hands of its context. -/
theorem Pc.owned_of_spawning {k : Pc Task Exec} {t : Task} (h : k.spawning = some t) :
    k.owned = some t := by
  cases k <;> simp_all [spawning, owned]

theorem Pc.owned_of_target {k : Pc Task Exec} {t : Task} {e : Exec}
    (h : k.target = some (t, e)) : k.owned = some t := by
  cases k <;> simp_all [target, owned]

/-- The ways of a linked task in one step: from the queue to the batch of the
drain that swaps the head, from there to the task taken, and out only when its
bit is cleared. -/
structure Moves (s s' : State Task Exec Agent) (L L' : Layout Task Exec Agent) : Prop where
  queued : ∀ t e, L.place t = .queued e →
    L'.place t = .queued e ∨ (s.drain e = .swap ∧ L'.place t = .batched e)
  batched : ∀ t e, L.place t = .batched e → L'.place t = .batched e ∨ L'.place t = .taken e
  taken : ∀ t e, L.place t = .taken e → L'.place t = .taken e ∨ s.clears t < s'.clears t

theorem Moves.refl {s s' : State Task Exec Agent} {L : Layout Task Exec Agent} :
    Moves s s' L L :=
  ⟨fun _ _ => .inl, fun _ _ => .inl, fun _ _ => .inl⟩

/-- A task that was not linked is moved. -/
theorem Moves.of_update [DecidableEq Task] {s s' : State Task Exec Agent}
    {L L' : Layout Task Exec Agent} {t : Task} {p : Place Exec Agent}
    (hPlace : L'.place = Function.update L.place t p)
    (hFrom : L.place t = .off ∨ ∃ x, L.place t = .owned x) : Moves s s' L L' := by
  have hNe : ∀ u, L.place u ≠ .off → (∀ x, L.place u ≠ .owned x) → L'.place u = L.place u := by
    intro u hOff hOwned
    have hu : u ≠ t := by
      rintro rfl
      rcases hFrom with h | ⟨x, h⟩
      · exact hOff h
      · exact hOwned x h
    simp [hPlace, hu]
  refine ⟨fun u e h => .inl ?_, fun u e h => .inl ?_, fun u e h => .inl ?_⟩ <;>
    rw [hNe u (by simp [h]) (by simp [h]), h]

namespace QueueInv

variable {s s' : State Task Exec Agent} {L : Layout Task Exec Agent}

/-- A step that moves no task. -/
theorem frame (hQ : QueueInv s L) (hNext : s'.next = s.next) (hHead : s'.head = s.head)
    (hExec : s'.executor = s.executor)
    (hMark : ∀ t, (s'.word t).runQueued = (s.word t).runQueued)
    (hSpawned : ∀ t, (s'.word t).spawned = true → (s.word t).spawned = true)
    (hOwned : ∀ x, (s'.pc x).owned = (s.pc x).owned)
    (hSpawning : ∀ x t, (s.pc x).spawning = some t → (s'.pc x).spawning = some t)
    (hStored : ∀ x t e prev, s'.pc x = .casHead t e prev → s.next t = prev)
    (hAttempt : ∀ x t current, s'.pc x = .casState t current → current.inert = false)
    (hTarget : ∀ x t e, (s'.pc x).target = some (t, e) → s.executor t = some e)
    (hFound : ∀ x t, s'.pc x = .getExecutor t → s.executor t ≠ none)
    (hTaken : ∀ e, (s'.drain e).taken = (s.drain e).taken)
    (hRest : ∀ e, (s'.drain e).rest = (s.drain e).rest)
    (hWaits : ∀ e, s'.pc (.drain e) = .idle ∨ ∃ f prev p, s'.drain e = .onTask f prev p) :
    QueueInv s' L where
  -- each field reads some of what is kept; only `homed` joins two of the hypotheses
  marked t := by rw [hMark]; exact hQ.marked t
  owned x t := by rw [hOwned]; exact hQ.owned x t
  queued := hQ.queued
  batched := hQ.batched
  taken e t := by rw [hTaken]; exact hQ.taken e t
  queue e := by rw [hNext, hHead]; exact hQ.queue e
  batch e := by rw [hNext, hRest]; exact hQ.batch e
  stored := by rw [hNext]; exact hStored
  attempt := hAttempt
  target := by rw [hExec]; exact hTarget
  home := by rw [hExec]; exact hQ.home
  homed t h := by
    rw [hExec]
    rcases hQ.homed t (hSpawned t h) with h | ⟨x, h⟩
    · exact .inl h
    · exact .inr ⟨x, hSpawning x t h⟩
  found := by rw [hExec]; exact hFound
  waits := hWaits

/-- At most one context owns a task. -/
theorem owner_unique (hQ : QueueInv s L) {x y : Context Agent Exec} {t : Task}
    (hx : (s.pc x).owned = some t) (hy : (s.pc y).owned = some t) : x = y := by
  have hx := (hQ.owned x t).mp hx
  have hy := (hQ.owned y t).mp hy
  rw [hx] at hy
  exact Place.owned.inj hy

/-- A task in the hands of a context is linked nowhere. -/
theorem notMem_queue (hQ : QueueInv s L) {x : Context Agent Exec} {t : Task}
    (hx : (s.pc x).owned = some t) (e : Exec) : t ∉ L.queue e ∧ t ∉ L.batch e := by
  have hx := (hQ.owned x t).mp hx
  rw [hQ.queued, hQ.batched, hx]
  simp

/-- A task without the mark is nowhere. -/
theorem not_marked (hQ : QueueInv s L) {t : Task} (h : (s.word t).runQueued = false) :
    L.place t = .off := by
  by_contra hOff
  simp [(hQ.marked t).mpr hOff] at h

/-- The drain context is idle whenever `run_queued` itself makes a step. -/
theorem idle_of_drain (hQ : QueueInv s L) {e : Exec}
    (hD : ∀ f prev p, s.drain e ≠ .onTask f prev p) : s.pc (.drain e) = .idle := by
  refine (hQ.waits e).resolve_right ?_
  rintro ⟨f, prev, p, h⟩
  exact hD f prev p h

-- ---------------------------------------------------------------------------
-- Operations that move no task
-- ---------------------------------------------------------------------------

variable [DecidableEq Exec]

/-- A drain goes on, and no task is moved. -/
theorem local_drain (hQ : QueueInv s L) {e : Exec} {d : Drain Task}
    (hNext : s'.next = s.next) (hHead : s'.head = s.head) (hExec : s'.executor = s.executor)
    (hMark : ∀ t, (s'.word t).runQueued = (s.word t).runQueued)
    (hSpawned : ∀ t, (s'.word t).spawned = true → (s.word t).spawned = true)
    (hPc : s'.pc = s.pc) (hDrain : s'.drain = Function.update s.drain e d)
    (hTaken : d.taken = (s.drain e).taken) (hRest : d.rest = (s.drain e).rest)
    (hIdle : s.pc (.drain e) = .idle) : QueueInv s' L := by
  refine hQ.frame hNext hHead hExec hMark hSpawned (by simp [hPc]) (by simp [hPc])
    (by rw [hPc]; exact hQ.stored) (by rw [hPc]; exact hQ.attempt)
    (by rw [hPc]; exact hQ.target) (by rw [hPc]; exact hQ.found)
    ?_ ?_ ?_
  · -- what the drain has taken and still has to walk is the same in its new state
    intro e'
    rw [hDrain]
    by_cases he : e' = e
    · simp [he, hTaken]
    · simp [he]
  · intro e'
    rw [hDrain]
    by_cases he : e' = e
    · simp [he, hRest]
    · simp [he]
  · intro e'
    rw [hPc, hDrain]
    by_cases he : e' = e
    · exact .inl (he ▸ hIdle)
    · simpa [he] using hQ.waits e'

variable [DecidableEq Agent]

/-- `dequeue_expired` starts to enqueue a task. -/
theorem startTask (hQ : QueueInv s L) {e : Exec} {f : Closure} {prev : Link Task} {p : Task}
    (hD : s.drain e = .filter f prev p) :
    QueueInv ((s.setPc (.drain e) (.loadState p)).setDrain e (.onTask f prev p)) L := by
  -- a drain that looks for its next task is not inside a call of its own
  have hIdle := hQ.idle_of_drain (e := e) (by simp [hD])
  refine hQ.frame rfl rfl rfl (fun _ => rfl) (fun _ => id) ?_ ?_ ?_ ?_ ?_ ?_ ?_ ?_ ?_
  · intro y
    by_cases hy : y = .drain e
    · simp [hy, hIdle, Pc.owned]
    · simp [hy]
  · intro y t h
    have hy : y ≠ .drain e := by
      rintro rfl
      simp [hIdle, Pc.spawning] at h
    simpa [hy] using h
  · -- `loadState` owns nothing, stores nothing and aims at no executor
    intro y t e' prev' h
    by_cases hy : y = .drain e
    · simp [hy] at h
    · exact hQ.stored y t e' prev' (by simpa [hy] using h)
  · intro y t current h
    by_cases hy : y = .drain e
    · simp [hy] at h
    · exact hQ.attempt y t current (by simpa [hy] using h)
  · intro y t e' h
    by_cases hy : y = .drain e
    · simp [hy, Pc.target] at h
    · exact hQ.target y t e' (by simpa [hy] using h)
  · intro y t h
    by_cases hy : y = .drain e
    · simp [hy] at h
    · exact hQ.found y t (by simpa [hy] using h)
  · intro e'
    by_cases he : e' = e
    · simp [he, hD, Drain.taken]
    · simp [he]
  · intro e'
    by_cases he : e' = e
    · simp [he, hD, Drain.rest]
    · simp [he]
  · intro e'
    by_cases he : e' = e
    · simp [he]
    · simpa [he] using hQ.waits e'

/-- A context goes on, and no task is moved. -/
theorem local_pc (hQ : QueueInv s L) {x : Context Agent Exec} {k : Pc Task Exec}
    (hNext : s'.next = s.next) (hHead : s'.head = s.head) (hExec : s'.executor = s.executor)
    (hWord : s'.word = s.word) (hDrain : s'.drain = s.drain)
    (hPc : s'.pc = Function.update s.pc x k) (hOwned : k.owned = (s.pc x).owned)
    (hSpawning : ∀ t, (s.pc x).spawning = some t → k.spawning = some t)
    (hStored : ∀ t e prev, k = .casHead t e prev → s.next t = prev)
    (hAttempt : ∀ t current, k = .casState t current → current.inert = false)
    (hTarget : ∀ t e, k.target = some (t, e) → s.executor t = some e)
    (hFound : ∀ t, k = .getExecutor t → s.executor t ≠ none)
    (hActs : s.pc x = .idle → ∀ e, x ≠ .drain e) : QueueInv s' L := by
  -- every context but `x` stands where it stood
  have hSplit : ∀ y, (y = x ∧ s'.pc y = k) ∨ (y ≠ x ∧ s'.pc y = s.pc y) := by
    intro y
    rw [hPc]
    by_cases hy : y = x
    · exact .inl ⟨hy, by simp [hy]⟩
    · exact .inr ⟨hy, Function.update_of_ne hy _ _⟩
  refine hQ.frame hNext hHead hExec (by simp [hWord]) (by simp [hWord]) ?_ ?_ ?_ ?_ ?_ ?_
    (by simp [hDrain]) (by simp [hDrain]) ?_
  · intro y
    rcases hSplit y with ⟨rfl, h⟩ | ⟨-, h⟩
    · rw [h, hOwned]
    · rw [h]
  · intro y t hS
    rcases hSplit y with ⟨rfl, h⟩ | ⟨-, h⟩
    · rw [h]
      exact hSpawning t hS
    · rw [h]
      exact hS
  · intro y t e prev hS
    rcases hSplit y with ⟨rfl, h⟩ | ⟨-, h⟩
    · exact hStored t e prev (h ▸ hS)
    · exact hQ.stored y t e prev (h ▸ hS)
  · intro y t current hS
    rcases hSplit y with ⟨rfl, h⟩ | ⟨-, h⟩
    · exact hAttempt t current (h ▸ hS)
    · exact hQ.attempt y t current (h ▸ hS)
  · intro y t e hS
    rcases hSplit y with ⟨rfl, h⟩ | ⟨-, h⟩
    · exact hTarget t e (h ▸ hS)
    · exact hQ.target y t e (h ▸ hS)
  · intro y t hS
    rcases hSplit y with ⟨rfl, h⟩ | ⟨-, h⟩
    · exact hFound t (h ▸ hS)
    · exact hQ.found y t (h ▸ hS)
  · intro e
    rw [hDrain]
    rcases hSplit (.drain e) with ⟨hx, -⟩ | ⟨-, h⟩
    · -- the drain's context only acts while the drain waits on a task
      exact .inr ((hQ.waits e).resolve_left fun hIdle => hActs (hx ▸ hIdle) e hx.symm)
    · rw [h]
      exact hQ.waits e

-- ---------------------------------------------------------------------------
-- Operations of a context
-- ---------------------------------------------------------------------------

variable [DecidableEq Task]

/-- A context marks a task: it becomes its owner. -/
theorem mark (hQ : QueueInv s L) {x : Context Agent Exec} {t : Task} {k : Pc Task Exec}
    (hOff : (s.word t).runQueued = false) (hNone : (s.pc x).owned = none)
    (hNext : s'.next = s.next) (hHead : s'.head = s.head) (hExec : s'.executor = s.executor)
    (hMark : (s'.word t).runQueued = true) (hWord : ∀ u, u ≠ t → s'.word u = s.word u)
    (hDrain : s'.drain = s.drain) (hPc : s'.pc = Function.update s.pc x k)
    (hOwned : k.owned = some t) (hTarget : k.target = none)
    (hSpawning : (s'.word t).spawned = true → s.executor t ≠ none ∨ k.spawning = some t)
    (hFound : ∀ u, k = .getExecutor u → s.executor u ≠ none)
    (hActs : s.pc x = .idle → ∀ e, x ≠ .drain e) :
    QueueInv s' { L with place := Function.update L.place t (.owned x) } := by
  -- an unmarked task is in no place yet
  have hPlace := hQ.not_marked hOff
  have hCas : ∀ u e prev, k ≠ .casHead u e prev := by
    rintro u e prev rfl
    simp [Pc.target] at hTarget
  constructor
  case marked =>
    intro u
    by_cases hu : u = t
    · simp [hu, hMark]
    · simpa [hu, hWord u hu] using hQ.marked u
  -- the task is now owned by `x`, which owned nothing before
  case owned =>
    intro y u
    have hOld := hQ.owned y u
    rw [hPc]
    by_cases hy : y = x
    · rw [hy, hNone] at hOld
      by_cases hu : u = t
      · simp [hy, hu, hOwned]
      · simpa [hy, hu, hOwned, Ne.symm hu] using hOld
    · by_cases hu : u = t
      · simpa [hu, hPlace, hy, Ne.symm hy] using hOld
      · simpa [hy, hu] using hOld
  -- the tasks linked anywhere are the same as before
  case queued => exact fun e u => iff_of_move (hQ.queued e u) (by simp [hPlace]) (by simp)
  case batched => exact fun e u => iff_of_move (hQ.batched e u) (by simp [hPlace]) (by simp)
  case taken =>
    rw [hDrain]
    exact fun e u => iff_of_move (hQ.taken e u) (by simp [hPlace]) (by simp)
  case queue =>
    rw [hNext, hHead]
    exact hQ.queue
  case batch =>
    rw [hNext, hDrain]
    exact hQ.batch
  case stored =>
    intro y u e prev h
    rw [hPc] at h
    rw [hNext]
    by_cases hy : y = x
    · simp [hy, hCas] at h
    · exact hQ.stored y u e prev (by simpa [hy] using h)
  case attempt =>
    intro y u current h
    rw [hPc] at h
    by_cases hy : y = x
    · have h : k = .casState u current := by simpa [hy] using h
      simp [h, Pc.owned] at hOwned
    · exact hQ.attempt y u current (by simpa [hy] using h)
  case target =>
    intro y u e h
    rw [hPc] at h
    rw [hExec]
    by_cases hy : y = x
    · simp [hy, hTarget] at h
    · exact hQ.target y u e (by simpa [hy] using h)
  case home =>
    intro u e h
    rw [hExec]
    by_cases hu : u = t
    · simp [hu] at h
    · exact hQ.home u e (by simpa [hu] using h)
  -- a spawned task has its executor stored, or `x` is about to store it
  case homed =>
    intro u h
    rw [hExec, hPc]
    by_cases hu : u = t
    · subst hu
      exact (hSpawning h).imp_right fun hk => ⟨x, by simpa using hk⟩
    · rcases hQ.homed u (hWord u hu ▸ h) with h | ⟨y, h⟩
      · exact .inl h
      · refine .inr ⟨y, ?_⟩
        -- `x` was not spawning: a spawning context owns its task
        have hy : y ≠ x := by
          rintro rfl
          simp [Pc.owned_of_spawning h] at hNone
        simpa [hy] using h
  case found =>
    intro y u h
    rw [hPc] at h
    rw [hExec]
    by_cases hy : y = x
    · exact hFound u (by simpa [hy] using h)
    · exact hQ.found y u (by simpa [hy] using h)
  case waits =>
    intro e
    rw [hDrain, hPc]
    by_cases hx : x = .drain e
    · exact .inr ((hQ.waits e).resolve_left fun hIdle => hActs (hx ▸ hIdle) e hx)
    · simpa [Ne.symm hx] using hQ.waits e

/-- The owner of a task writes its link: no list runs through that. -/
theorem storeNext (hQ : QueueInv s L) {x : Context Agent Exec} {t : Task} {e : Exec}
    {prev : Option Task} (hPc : s.pc x = .storeNext t e prev) :
    QueueInv ({ s with next := Function.update s.next t prev }.setPc x (.casHead t e prev)) L := by
  have hOwn : (s.pc x).owned = some t := by simp [hPc, Pc.owned]
  have hTarget := hQ.target x t e (by simp [hPc, Pc.target])
  -- the owned task is in no list, so writing its link breaks none
  have hQ' : QueueInv { s with next := Function.update s.next t prev } L :=
    { hQ with
      queue := fun e => (hQ.queue e).update_of_notMem (hQ.notMem_queue hOwn e).1
      batch := fun e => (hQ.batch e).update_of_notMem (hQ.notMem_queue hOwn e).2
      stored := by
        intro y u e prev' h
        have hu : u ≠ t := by
          rintro rfl
          have h : s.pc y = .casHead u e prev' := h
          -- only the owner of a task has stored its link
          have hy := hQ.owner_unique (x := y) (by simp [h, Pc.owned]) hOwn
          simp [hy, hPc] at h
        simpa [hu] using hQ.stored y u e prev' h }
  refine hQ'.local_pc rfl rfl rfl rfl rfl rfl ?_ ?_ ?_ ?_ ?_ ?_ ?_
  · simp [hPc, Pc.owned]
  · simp [hPc, Pc.spawning]
  · intro u e' prev' h
    cases h
    simp
  · simp
  · intro u e' h
    simp only [Pc.target, Option.some.injEq, Prod.mk.injEq] at h
    exact h.1 ▸ h.2 ▸ hTarget
  · simp
  · simp [hPc]

/-- The head of the queue is the one the owner has stored as the task's link,
whether or not it was another one in between: the task becomes the new head. -/
theorem casHead (hQ : QueueInv s L) {x : Context Agent Exec} {t : Task} {e : Exec}
    (hPc : s.pc x = .casHead t e (s.head e)) {k : Pc Task Exec}
    (hk : k = .signal e ∨ k = .idle) :
    QueueInv ({ s with head := Function.update s.head e (some t) }.setPc x k)
      { L with
        queue := Function.update L.queue e (t :: L.queue e)
        place := Function.update L.place t (.queued e) } := by
  have hOwn := (hQ.owned x t).mp (by simp [hPc, Pc.owned])
  -- the link stored is the old head, as the exchange compares them
  have hNext := hQ.stored x t e _ hPc
  have hExec := hQ.target x t e (by simp [hPc, Pc.target])
  have hNone : k.owned = none := by
    rcases hk with rfl | rfl <;> rfl
  constructor
  case marked =>
    intro u
    have hOld := hQ.marked u
    by_cases hu : u = t
    · subst hu
      simpa [hOwn] using hOld
    · simpa [hu] using hOld
  -- the task passes from `x` to the queue
  case owned =>
    intro y u
    have hOld := hQ.owned y u
    by_cases hu : u = t
    · subst hu
      by_cases hy : y = x
      · simp [hy, hNone]
      · simpa [hy, hOwn, Ne.symm hy] using hOld
    · by_cases hy : y = x
      · subst hy
        have hOther : (s.pc y).owned ≠ some u := by simp [hPc, Pc.owned, Ne.symm hu]
        simpa [hu, hNone, hOther] using hOld
      · simpa [hy, hu] using hOld
  case queued =>
    intro e' u
    have hOld := hQ.queued e' u
    by_cases he : e' = e
    · subst he
      by_cases hu : u = t <;> simp [hu, ← hOld]
    · by_cases hu : u = t
      · subst hu
        simpa [he, hOwn, Ne.symm he] using hOld
      · simpa [he, hu] using hOld
  case batched => exact fun e' u => iff_of_move (hQ.batched e' u) (by simp [hOwn]) (by simp)
  case taken => exact fun e' u => iff_of_move (hQ.taken e' u) (by simp [hOwn]) (by simp)
  -- the new head links to the old one
  case queue =>
    intro e'
    by_cases he : e' = e
    · subst he
      simpa [hNext] using hQ.queue e'
    · simpa [he] using hQ.queue e'
  case batch => exact hQ.batch
  case stored =>
    intro y u e' prev h
    by_cases hy : y = x
    · rcases hk with rfl | rfl <;> simp [hy] at h
    · exact hQ.stored y u e' prev (by simpa [hy] using h)
  case attempt =>
    intro y u current h
    by_cases hy : y = x
    · rcases hk with rfl | rfl <;> simp [hy] at h
    · exact hQ.attempt y u current (by simpa [hy] using h)
  case target =>
    intro y u e' h
    by_cases hy : y = x
    · rcases hk with rfl | rfl <;> simp [hy, Pc.target] at h
    · exact hQ.target y u e' (by simpa [hy] using h)
  case home =>
    intro u e' h
    by_cases hu : u = t
    · subst hu
      have : e' = e := by simpa [eq_comm] using h
      rw [this]
      exact hExec
    · exact hQ.home u e' (by simpa [hu] using h)
  -- `x` was enqueuing, not spawning
  case homed =>
    intro u h
    refine (hQ.homed u h).imp_right fun ⟨y, hy⟩ => ⟨y, ?_⟩
    have : y ≠ x := by
      rintro rfl
      simp [hPc, Pc.spawning] at hy
    simpa [this] using hy
  case found =>
    intro y u h
    by_cases hy : y = x
    · rcases hk with rfl | rfl <;> simp [hy] at h
    · exact hQ.found y u (by simpa [hy] using h)
  case waits =>
    intro e'
    by_cases hx : x = .drain e'
    · exact .inr ((hQ.waits e').resolve_left (by simp [← hx, hPc]))
    · simpa [Ne.symm hx] using hQ.waits e'

/-- `Executor::spawn` gives the task its executor. -/
theorem spawn (hQ : QueueInv s L) {x : Context Agent Exec} {t : Task} {e : Exec}
    (hPc : s.pc x = .token t) :
    QueueInv ({ s with executor := Function.update s.executor t (some e) }.setPc x
      (.loadHead t e)) L := by
  have hOwn : (s.pc x).owned = some t := by simp [hPc, Pc.owned]
  have hPlace := (hQ.owned x t).mp hOwn
  -- The task is in the hands of this context alone.
  have hNe : ∀ {y u}, (s.pc y).owned = some u → y ≠ x → u ≠ t := by
    rintro y u h hy rfl
    exact hy (hQ.owner_unique h hOwn)
  constructor
  case marked => exact hQ.marked
  case owned =>
    intro y u
    have hOld := hQ.owned y u
    by_cases hy : y = x
    · subst hy
      simpa [hPc, Pc.owned] using hOld
    · simpa [hy] using hOld
  case queued => exact hQ.queued
  case batched => exact hQ.batched
  case taken => exact hQ.taken
  case queue => exact hQ.queue
  case batch => exact hQ.batch
  case stored =>
    intro y u e' prev h
    by_cases hy : y = x
    · simp [hy] at h
    · exact hQ.stored y u e' prev (by simpa [hy] using h)
  case attempt =>
    intro y u current h
    by_cases hy : y = x
    · simp [hy] at h
    · exact hQ.attempt y u current (by simpa [hy] using h)
  case target =>
    intro y u e' h
    by_cases hy : y = x
    · have : t = u ∧ e = e' := by simpa [hy, Pc.target] using h
      simp [← this.1, this.2]
    · have h : (s.pc y).target = some (u, e') := by simpa [hy] using h
      have hu := hNe (Pc.owned_of_target h) hy
      simpa [hu] using hQ.target y u e' h
  case home =>
    intro u e' h
    have hu : u ≠ t := by
      rintro rfl
      simp [hPlace] at h
    simpa [hu] using hQ.home u e' h
  case homed =>
    intro u h
    by_cases hu : u = t
    · simp [hu]
    · refine (hQ.homed u h).imp (fun h => by simpa [hu] using h) fun ⟨y, hy⟩ => ⟨y, ?_⟩
      have : y ≠ x := by
        rintro rfl
        simp [hPc, Pc.spawning, Ne.symm hu] at hy
      simpa [this] using hy
  case found =>
    intro y u h
    by_cases hy : y = x
    · simp [hy] at h
    · have h : s.pc y = .getExecutor u := by simpa [hy] using h
      have hu : u ≠ t := hNe (y := y) (by simp [h, Pc.owned]) hy
      simpa [hu] using hQ.found y u h
  case waits =>
    intro e'
    by_cases hx : x = .drain e'
    · exact .inr ((hQ.waits e').resolve_left (by simp [← hx, hPc]))
    · simpa [Ne.symm hx] using hQ.waits e'

/-- What a context does keeps the queues, and moves tasks towards their polls only. -/
theorem context_op (hQ : QueueInv s L) {x : Context Agent Exec} (h : Op s x s') :
    ∃ L', QueueInv s' L' ∧ Moves s s' L L' := by
  cases h with
  | enqueue_return hPc hk hW | enqueue_retry hPc hk hW =>
    refine ⟨L, hQ.local_pc rfl rfl rfl rfl rfl rfl ?_ ?_ ?_ ?_ ?_ ?_ ?_, .refl⟩ <;>
      rcases hk with rfl | ⟨current, rfl⟩ <;>
      simp +contextual [hPc, hW, Pc.owned, Pc.spawning, Pc.target]
  | @casState t hPc =>
    -- the value found is the one that was checked, so nobody owns the task
    obtain ⟨hOff, hSpawned⟩ : (s.word t).runQueued = false ∧ (s.word t).spawned = true := by
      simpa [StateWord.inert] using hQ.attempt x t _ hPc
    have hExec : s.executor t ≠ none := by
      refine (hQ.homed t hSpawned).resolve_right ?_
      rintro ⟨y, hy⟩
      have hPlace := (hQ.owned y t).mp (Pc.owned_of_spawning hy)
      simp [hQ.not_marked hOff] at hPlace
    refine ⟨_, hQ.mark (t := t) (k := .getExecutor t) hOff ?_ rfl rfl rfl ?_ ?_ rfl rfl rfl rfl
      (fun _ => .inl hExec) ?_ ?_, .of_update rfl (.inl (hQ.not_marked hOff))⟩
    · simp [hPc, Pc.owned]
    · simp
    · intro u hu
      simp [hu]
    · intro u hu
      cases hu
      exact hExec
    · simp [hPc]
  | @getExecutor t e hPc hE =>
    refine ⟨L, hQ.local_pc rfl rfl rfl rfl rfl rfl ?_ ?_ ?_ ?_ ?_ ?_ ?_, .refl⟩ <;>
      simp [hPc, Pc.owned, Pc.spawning, Pc.target, hE]
  | @loadHead t e k hPc hk =>
    have hExec := hQ.target x t e (by rcases hk with rfl | ⟨prev, rfl⟩ <;> simp [hPc, Pc.target])
    refine ⟨L, hQ.local_pc rfl rfl rfl rfl rfl rfl ?_ ?_ ?_ ?_ ?_ ?_ ?_, .refl⟩ <;>
      rcases hk with rfl | ⟨prev, rfl⟩ <;> simp [hPc, Pc.owned, Pc.spawning, Pc.target, hExec]
  | storeNext hPc => exact ⟨L, hQ.storeNext hPc, .refl⟩
  | casHead hPc =>
    have hOwn := (hQ.owned x _).mp (by simp [hPc, Pc.owned]; rfl)
    refine ⟨_, hQ.casHead hPc ?_, .of_update rfl (.inr ⟨x, hOwn⟩)⟩
    split
    · exact .inl rfl
    · exact .inr rfl
  | signal hPc | allocate_none hPc | allocate_busy hPc hW =>
    refine ⟨L, hQ.local_pc rfl rfl rfl rfl rfl rfl ?_ ?_ ?_ ?_ ?_ ?_ ?_, .refl⟩ <;>
      simp [hPc, Pc.owned, Pc.spawning, Pc.target]
  | @allocate_ok t pool hPc hW =>
    have hOff : (s.word t).runQueued = false := by simp [hW, StateWord.free]
    refine ⟨_, hQ.mark (t := t) (k := .writePollFn t) hOff ?_ rfl rfl rfl ?_ ?_ rfl rfl rfl rfl
      (fun _ => .inr rfl) ?_ ?_, .of_update rfl (.inl (hQ.not_marked hOff))⟩
    · simp [hPc, Pc.owned]
    · simp [StateWord.allocated]
    · intro u hu
      simp [hu]
    · simp
    · simp [hPc]
  | writePollFn hPc | writeFuture hPc =>
    refine ⟨L, hQ.local_pc rfl rfl rfl rfl rfl rfl ?_ ?_ ?_ ?_ ?_ ?_ ?_, .refl⟩ <;>
      simp [hPc, Pc.owned, Pc.spawning, Pc.target]
  | wake hx hPc | spawnPool hx hPc =>
    refine ⟨L, hQ.local_pc rfl rfl rfl rfl rfl rfl ?_ ?_ ?_ ?_ ?_ ?_ ?_, .refl⟩ <;>
      simp [hx ▸ hPc, hx, Pc.owned, Pc.spawning, Pc.target]
  | spawn hPc => exact ⟨L, hQ.spawn hPc, .refl⟩

-- ---------------------------------------------------------------------------
-- Operations of a drain
-- ---------------------------------------------------------------------------

omit [DecidableEq Task] in
/-- The whole queue becomes the batch. -/
theorem swap (hQ : QueueInv s L) {e : Exec} (hD : s.drain e = .swap) :
    QueueInv ({ s with head := Function.update s.head e none }.setDrain e (.walk (s.head e)))
      { queue := Function.update L.queue e []
        batch := Function.update L.batch e (L.queue e)
        place := fun t => if L.place t = .queued e then .batched e else L.place t } := by
  -- The last batch has been walked to its end.
  have hEmpty : L.batch e = [] := by
    have := hQ.batch e
    rw [hD] at this
    exact this.eq_nil
  have hNone : ∀ t, L.place t ≠ .batched e := by
    intro t
    rw [Ne, ← hQ.batched, hEmpty]
    simp
  have hIdle := hQ.idle_of_drain (e := e) (by simp [hD])
  constructor
  case marked =>
    intro t
    have hOld := hQ.marked t
    by_cases hp : L.place t = .queued e
    · simpa [hp] using hOld
    · simpa [hp] using hOld
  case owned =>
    intro x t
    have hOld := hQ.owned x t
    by_cases hp : L.place t = .queued e
    · simpa [hp] using hOld
    · simpa [hp] using hOld
  case queued =>
    intro e' t
    have hOld := hQ.queued e' t
    by_cases he : e' = e
    · subst he
      by_cases hp : L.place t = .queued e' <;> simp [hp]
    · by_cases hp : L.place t = .queued e
      · simpa [he, hp, Ne.symm he] using hOld
      · simpa [he, hp] using hOld
  case batched =>
    intro e' t
    by_cases he : e' = e
    · subst he
      have hOld := hQ.queued e' t
      have := hNone t
      by_cases hp : L.place t = .queued e'
      · simpa [hp] using hOld
      · simpa [hp, this] using hOld
    · have hOld := hQ.batched e' t
      by_cases hp : L.place t = .queued e
      · simpa [he, hp, Ne.symm he] using hOld
      · simpa [he, hp] using hOld
  case taken =>
    intro e' t
    have hOld := hQ.taken e' t
    by_cases he : e' = e
    · subst he
      rw [hD] at hOld
      by_cases hp : L.place t = .queued e'
      · simp [hp, Drain.taken]
      · simpa [hp, Drain.taken] using hOld
    · by_cases hp : L.place t = .queued e
      · simpa [he, hp] using hOld
      · simpa [he, hp] using hOld
  case queue =>
    intro e'
    by_cases he : e' = e
    · simp [he]
    · simpa [he] using hQ.queue e'
  case batch =>
    intro e'
    by_cases he : e' = e
    · simpa [he, Drain.rest] using hQ.queue e
    · simpa [he] using hQ.batch e'
  case stored => exact hQ.stored
  case attempt => exact hQ.attempt
  case target => exact hQ.target
  case home =>
    intro t e' h
    by_cases hp : L.place t = .queued e
    · have he : e = e' := by simpa [hp] using h
      exact hQ.home t e' (.inl (he ▸ hp))
    · exact hQ.home t e' (by simpa [hp] using h)
  case homed => exact hQ.homed
  case found => exact hQ.found
  case waits =>
    intro e'
    by_cases he : e' = e
    · exact .inl (he ▸ hIdle)
    · simpa [he] using hQ.waits e'

omit [DecidableEq Agent] in
/-- The first task of the batch is taken; its link has been read before. -/
theorem walk (hQ : QueueInv s L) {e : Exec} {t : Task} (hD : s.drain e = .walk (some t)) :
    QueueInv (s.setDrain e (.setExpires t (s.next t)))
      { L with
        batch := Function.update L.batch e (L.batch e).tail
        place := Function.update L.place t (.taken e) } := by
  -- l ∧ :: The task is the first of the batch, and the link names the next one.
  obtain ⟨l, hl, hSeg⟩ : ∃ l, L.batch e = t :: l ∧ Seg s.next (s.next t) l none := by
    have hB := hQ.batch e
    rw [hD] at hB
    cases hList : L.batch e with
    | nil => simp [hList, Drain.rest] at hB
    | cons u l =>
      rw [hList] at hB
      obtain ⟨hEq, hRest⟩ := hB
      cases hEq
      exact ⟨l, rfl, hRest⟩
  have hPlace : L.place t = .batched e := (hQ.batched e t).mp (by simp [hl])
  have hNotIn : t ∉ l := by
    have := (hQ.batch e).nodup
    rw [hl] at this
    exact (List.nodup_cons.mp this).1
  have hNone : (s.drain e).taken = none := by simp [hD, Drain.taken]
  have hIdle := hQ.idle_of_drain (e := e) (by simp [hD])
  constructor
  case marked =>
    intro u
    have hOld := hQ.marked u
    by_cases hu : u = t
    · subst hu
      simpa [hPlace] using hOld
    · simpa [hu] using hOld
  case owned => exact fun x u => iff_of_move (hQ.owned x u) (by simp [hPlace]) (by simp)
  case queued => exact fun e' u => iff_of_move (hQ.queued e' u) (by simp [hPlace]) (by simp)
  case batched =>
    intro e' u
    have hOld := hQ.batched e' u
    by_cases he : e' = e
    · subst he
      by_cases hu : u = t
      · subst hu
        simp [hl, hNotIn]
      · simpa [hl, hu] using hOld
    · by_cases hu : u = t
      · subst hu
        simpa [hPlace, he, Ne.symm he] using hOld
      · simpa [he, hu] using hOld
  case taken =>
    intro e' u
    have hOld := hQ.taken e' u
    by_cases he : e' = e
    · subst he
      by_cases hu : u = t
      · simp [hu, Drain.taken]
      · rw [hNone] at hOld
        simpa [hu, Ne.symm hu, Drain.taken] using hOld
    · by_cases hu : u = t
      · subst hu
        simpa [hPlace, he, Ne.symm he] using hOld
      · simpa [he, hu] using hOld
  case queue => exact hQ.queue
  case batch =>
    intro e'
    by_cases he : e' = e
    · subst he
      simpa [hl, Drain.rest] using hSeg
    · simpa [he] using hQ.batch e'
  case stored => exact hQ.stored
  case attempt => exact hQ.attempt
  case target => exact hQ.target
  case home =>
    intro u e' h
    by_cases hu : u = t
    · subst hu
      have he : e = e' := by simpa using h
      exact hQ.home u e' (.inr (.inl (he ▸ hPlace)))
    · exact hQ.home u e' (by simpa [hu] using h)
  case homed => exact hQ.homed
  case found => exact hQ.found
  case waits =>
    intro e'
    by_cases he : e' = e
    · exact .inl (he ▸ hIdle)
    · simpa [he] using hQ.waits e'

omit [DecidableEq Agent] in
/-- The drain clears the bit of the task it has taken. -/
theorem clear (hQ : QueueInv s L) {e : Exec} {t : Task} {next : Option Task} {d : Drain Task}
    (hD : s.drain e = .clearRunQueued t next) (hNext : s'.next = s.next)
    (hHead : s'.head = s.head) (hExec : s'.executor = s.executor)
    (hClear : (s'.word t).runQueued = false) (hSpawned : (s'.word t).spawned = (s.word t).spawned)
    (hWord : ∀ u, u ≠ t → s'.word u = s.word u) (hPc : s'.pc = s.pc)
    (hDrain : s'.drain = Function.update s.drain e d) (hTaken : d.taken = none)
    (hRest : d.rest = next) :
    QueueInv s' { L with place := Function.update L.place t .off } := by
  -- The task leaves its place with the mark.
  have hPlace : L.place t = .taken e := (hQ.taken e t).mp (by simp [hD, Drain.taken])
  have hIdle := hQ.idle_of_drain (e := e) (by simp [hD])
  constructor
  case marked =>
    intro u
    by_cases hu : u = t
    · simp [hu, hClear]
    · simpa [hu, hWord u hu] using hQ.marked u
  case owned =>
    rw [hPc]
    exact fun x u => iff_of_move (hQ.owned x u) (by simp [hPlace]) (by simp)
  case queued => exact fun e' u => iff_of_move (hQ.queued e' u) (by simp [hPlace]) (by simp)
  case batched => exact fun e' u => iff_of_move (hQ.batched e' u) (by simp [hPlace]) (by simp)
  case taken =>
    intro e' u
    have hOld := hQ.taken e' u
    rw [hDrain]
    by_cases he : e' = e
    · subst he
      have hSelf : (s.drain e').taken = some t := by simp [hD, Drain.taken]
      rw [hSelf] at hOld
      by_cases hu : u = t
      · simp [hu, hTaken]
      · simpa [hu, Ne.symm hu, hTaken] using hOld
    · by_cases hu : u = t
      · subst hu
        simpa [hPlace, he, Ne.symm he] using hOld
      · simpa [he, hu] using hOld
  case queue =>
    rw [hNext, hHead]
    exact hQ.queue
  case batch =>
    intro e'
    rw [hNext, hDrain]
    by_cases he : e' = e
    · have hOld := hQ.batch e
      have hSelf : (s.drain e).rest = next := by simp [hD, Drain.rest]
      rw [hSelf] at hOld
      simpa [he, hRest] using hOld
    · simpa [he] using hQ.batch e'
  case stored =>
    rw [hNext, hPc]
    exact hQ.stored
  case attempt =>
    rw [hPc]
    exact hQ.attempt
  case target =>
    rw [hExec, hPc]
    exact hQ.target
  case home =>
    intro u e' h
    rw [hExec]
    by_cases hu : u = t
    · simp [hu] at h
    · exact hQ.home u e' (by simpa [hu] using h)
  case homed =>
    intro u h
    rw [hExec, hPc]
    by_cases hu : u = t
    · subst hu
      exact hQ.homed u (hSpawned ▸ h)
    · exact hQ.homed u (hWord u hu ▸ h)
  case found =>
    rw [hExec, hPc]
    exact hQ.found
  case waits =>
    intro e'
    rw [hPc, hDrain]
    by_cases he : e' = e
    · exact .inl (he ▸ hIdle)
    · simpa [he] using hQ.waits e'

/-- What a drain does keeps the queues, and moves tasks towards their polls only. -/
theorem drain_op {hasAlarm : Exec → Bool} (hQ : QueueInv s L) {e : Exec}
    (h : DrainOp hasAlarm s e s') : ∃ L', QueueInv s' L' ∧ Moves s s' L L' := by
  have hIdle : (∀ f prev p, s.drain e ≠ .onTask f prev p) → s.pc (.drain e) = .idle :=
    hQ.idle_of_drain
  cases h with
  | start hD now =>
    refine ⟨L, hQ.local_drain rfl rfl rfl (fun _ => rfl) (fun _ => id) rfl rfl ?_ ?_
      (hIdle (by simp [hD])), .refl⟩ <;>
    split <;> simp [hD, Drain.taken, Drain.rest]
  | retain_end hD hP =>
    rename_i f prev
    refine ⟨L, hQ.local_drain rfl rfl rfl (fun _ => rfl) (fun _ => id) rfl rfl ?_ ?_
      (hIdle (by simp [hD])), .refl⟩ <;>
    cases f <;> simp [hD, Closure.finish, Drain.taken, Drain.rest]
  | filter_expired hD hP => exact ⟨L, hQ.startTask hD, .refl⟩
  | onTask hD hPc =>
    refine ⟨L, hQ.local_drain rfl rfl rfl (fun _ => rfl) (fun _ => id) rfl rfl ?_ ?_ hPc, .refl⟩ <;>
      simp [hD, Drain.taken, Drain.rest]
  | unlink hD =>
    rename_i f prev p
    cases prev <;>
      refine ⟨L, hQ.local_drain rfl rfl rfl (fun _ => rfl) (fun _ => id) rfl rfl ?_ ?_
        (hIdle (by simp [hD])), .refl⟩ <;>
      simp [hD, Drain.taken, Drain.rest]
  | swap hD =>
    refine ⟨_, hQ.swap hD, ?_, ?_, ?_⟩
    · intro t e' h
      by_cases he : e' = e
      · exact .inr ⟨he ▸ hD, by simp [h, he]⟩
      · exact .inl (by simp [h, he])
    · intro t e' h
      exact .inl (by simp [h])
    · intro t e' h
      exact .inl (by simp [h])
  | @walk t hD =>
    -- The walk is at the first task of the batch.
    have hPlace : L.place t = .batched e := by
      have hB := hQ.batch e
      rw [hD] at hB
      refine (hQ.batched e t).mp ?_
      cases hList : L.batch e with
      | nil => simp [hList, Drain.rest] at hB
      | cons u l =>
        rw [hList] at hB
        have : t = u := by simpa [Drain.rest] using hB.1
        simp [this]
    refine ⟨_, hQ.walk hD, ?_, ?_, ?_⟩
    · intro u e' h
      have hu : u ≠ t := by
        rintro rfl
        simp [hPlace] at h
      exact .inl (by simpa [hu] using h)
    · intro u e' h
      by_cases hu : u = t
      · subst hu
        rw [hPlace] at h
        cases h
        exact .inr (by simp)
      · exact .inl (by simpa [hu] using h)
    · intro u e' h
      have hu : u ≠ t := by
        rintro rfl
        simp [hPlace] at h
      exact .inl (by simpa [hu] using h)
  | walk_end hD =>
    refine ⟨L, hQ.local_drain rfl rfl rfl (fun _ => rfl) (fun _ => id) rfl rfl ?_ ?_
      (hIdle (by simp [hD])), .refl⟩ <;>
    split <;> simp [hD, Drain.taken, Drain.rest]
  | @clear_spawned t next hD hW | @clear_ignored t next hD hW =>
    have hPlace : L.place t = .taken e := (hQ.taken e t).mp (by simp [hD, Drain.taken])
    refine ⟨_, hQ.clear hD rfl rfl rfl ?_ ?_ ?_ rfl rfl rfl rfl, ?_, ?_, ?_⟩
    · simp
    · simp
    · intro u hu
      simp [hu]
    · intro u e' h
      have hu : u ≠ t := by
        rintro rfl
        simp [hPlace] at h
      exact .inl (by simpa [hu] using h)
    · intro u e' h
      have hu : u ≠ t := by
        rintro rfl
        simp [hPlace] at h
      exact .inl (by simpa [hu] using h)
    · intro u e' h
      by_cases hu : u = t
      · exact .inr (by simp [hu])
      · exact .inl (by simpa [hu] using h)
  | @clearTimerQueued f prev t hD | @release t next hD | @updateOr_old t next hD hW
  | @updateOr_new t next hD hW =>
    refine ⟨L, hQ.local_drain rfl rfl rfl ?_ ?_ rfl rfl ?_ ?_ (hIdle (by simp [hD])), .refl⟩
    · intro u
      by_cases hu : u = t <;> simp [hu]
    · intro u
      by_cases hu : u = t <;> simp [hu]
    · simp [hD, Drain.taken]
    · simp [hD, Drain.rest]
  | registerTimer hD hAt =>
    refine ⟨L, hQ.local_drain rfl rfl rfl (fun _ => rfl) (fun _ => id) rfl
      (Function.update_eq_self e s.drain).symm rfl rfl (hIdle (by simp [hD])), .refl⟩
  | retain_next hD | filter_keep hD | filter_next hD | filter_drop hD | setExpires hD | poll hD
  | poll_ready hD | poll_pending hD | dropFuture hD | update_none hD | update_some hD
  | updateNext hD | updateHead hD | setAlarm hD =>
    refine ⟨L, hQ.local_drain rfl rfl rfl (fun _ => rfl) (fun _ => id) rfl rfl ?_ ?_
      (hIdle (by simp [hD])), .refl⟩ <;>
    simp [hD, Drain.taken, Drain.rest]

/-- Every action keeps the queues. -/
theorem step {hasAlarm : Exec → Bool} {a : Action Task Exec Agent} (hQ : QueueInv s L)
    (h : step hasAlarm s a = some s') : ∃ L', QueueInv s' L' ∧ Moves s s' L L' := by
  rcases step_op h with ⟨x, h⟩ | ⟨e, h⟩
  · exact hQ.context_op h
  · exact hQ.drain_op h

end QueueInv

end Embassy.Executor
