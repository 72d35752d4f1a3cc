import Mathlib.Data.List.Induction
import Embassy.Executor.Wake

/-!
# The life of a task slot

A slot is static memory for one future at a time. `spawn_allocate` takes it, the
spawner writes the poll function and the future, drains poll the future until
it is ready, drop it and release the slot. Nothing but the state word keeps a
second spawner away while that goes on, and a drain away from a slot that is
not initialised.

The events of a slot are read by a small automaton (`Phase`). The invariant
`SlotInv` says that the automaton never gets stuck: its phase is what the state
word, the spawners and the drains say.

Main results:

* `prefix_of_phase` — what the automaton reads is a prefix of repeated cycles.
* `slot_lifecycle` — in every run the events of every slot are such a prefix.
-/

namespace Embassy.Executor

open Embassy.Lib

-- ---------------------------------------------------------------------------
-- Cycles
-- ---------------------------------------------------------------------------

inductive Phase where
  | free | allocated | pollFnWritten | ready | polling | done | dropped
  deriving DecidableEq, Repr

namespace Phase

/-- The phase after an event, if the event is allowed. -/
def next : Phase → Event → Option Phase
  | free, .allocate => some allocated
  | allocated, .writePollFn => some pollFnWritten
  | pollFnWritten, .writeFuture => some ready
  | ready, .pollStart => some polling
  | polling, .pollPending => some ready
  | polling, .pollReady => some done
  | done, .dropFuture => some dropped
  | dropped, .release => some free
  | _, _ => none

/-- The phase after a list of events. -/
def after (log : List Event) : Option Phase := log.foldlM next free

theorem after_append (log : List Event) (ev : Event) :
    after (log ++ [ev]) = (after log).bind (next · ev) := by
  simp only [after, List.foldlM_append, List.foldlM_cons, List.foldlM_nil, Option.bind_eq_bind]
  cases List.foldlM next free log <;> simp

end Phase

/-- The events of a task that has been polled `n` times. -/
def waiting (n : Nat) : List Event :=
  [.allocate, .writePollFn, .writeFuture] ++
    (List.replicate n [.pollStart, .pollPending]).flatten

/-- The events of a task from allocation to release, with `n` polls that return
`Pending`. -/
def cycle (n : Nat) : List Event :=
  waiting n ++ [.pollStart, .pollReady, .dropFuture, .release]

/-- The beginning of a cycle, up to a phase. -/
def Phase.begun (n : Nat) : Phase → List Event
  | free => []
  | allocated => [.allocate]
  | pollFnWritten => [.allocate, .writePollFn]
  | ready => waiting n
  | polling => waiting n ++ [.pollStart]
  | done => waiting n ++ [.pollStart, .pollReady]
  | dropped => waiting n ++ [.pollStart, .pollReady, .dropFuture]

/-- A cycle that has begun is the beginning of one. -/
theorem Phase.begun_prefix (n : Nat) (ph : Phase) : ph.begun n <+: cycle n := by
  cases ph with
  | free => exact List.nil_prefix
  | allocated => exact ⟨_, rfl⟩
  | pollFnWritten => exact ⟨_, rfl⟩
  | ready => exact ⟨_, rfl⟩
  | polling => exact ⟨[.pollReady, .dropFuture, .release], by simp [begun, cycle]⟩
  | done => exact ⟨[.dropFuture, .release], by simp [begun, cycle]⟩
  | dropped => exact ⟨[.release], by simp [begun, cycle]⟩

/-- What the automaton has read is some cycles and the beginning of one. -/
theorem Phase.eq_cycles {log : List Event} {ph : Phase} (h : after log = some ph) :
    ∃ (ns : List Nat) (n : Nat), log = (ns.map cycle).flatten ++ ph.begun n := by
  induction log using List.reverseRecOn generalizing ph with
  | nil =>
    cases h
    exact ⟨[], 0, rfl⟩
  | append_singleton log ev ih =>
    rw [after_append] at h
    obtain ⟨ph', h', hNext⟩ := Option.bind_eq_some_iff.mp h
    obtain ⟨ns, n, rfl⟩ := ih h'
    cases ph' <;> cases ev <;> simp only [next, reduceCtorEq, Option.some.injEq] at hNext <;>
      subst hNext
    case free.allocate => exact ⟨ns, n, by simp [begun]⟩
    case allocated.writePollFn => exact ⟨ns, n, by simp [begun]⟩
    case pollFnWritten.writeFuture => exact ⟨ns, 0, by simp [begun, waiting]⟩
    case ready.pollStart => exact ⟨ns, n, by simp [begun]⟩
    case polling.pollPending =>
      -- one more poll that returned `Pending`
      refine ⟨ns, n + 1, ?_⟩
      simp [begun, waiting, List.replicate_succ']
    case polling.pollReady => exact ⟨ns, n, by simp [begun]⟩
    case done.dropFuture => exact ⟨ns, n, by simp [begun]⟩
    case dropped.release =>
      -- the cycle is complete
      refine ⟨ns ++ [n], 0, ?_⟩
      simp [begun, cycle]

/-- A log that leads to a phase is made of cycles, of which the last may not be over. -/
theorem Phase.prefix_of_phase {log : List Event} {ph : Phase} (h : after log = some ph) :
    ∃ ns : List Nat, log <+: (ns.map cycle).flatten := by
  obtain ⟨ns, n, rfl⟩ := eq_cycles h
  obtain ⟨rest, hRest⟩ := ph.begun_prefix n
  refine ⟨ns ++ [n], rest, ?_⟩
  simp [hRest]

-- ---------------------------------------------------------------------------
-- The invariant
-- ---------------------------------------------------------------------------

variable {Task Exec Agent : Type}

/-- The slot a spawner is initialising, and its phase. -/
def Pc.stage : Pc Task Exec → Option (Task × Phase)
  | .writePollFn t => some (t, .allocated)
  | .writeFuture t => some (t, .pollFnWritten)
  | _ => none

/-- The slot a drain is polling or releasing, and its phase. -/
def Drain.stage : Drain Task → Option (Task × Phase)
  | .polling t _ => some (t, .polling)
  | .dropFuture t _ => some (t, .done)
  | .release t _ => some (t, .dropped)
  | _ => none

def State.phase (s : State Task Exec Agent) (t : Task) : Option Phase := Phase.after (s.log t)

/-- The phase of every slot: free if it is not spawned, the one of the spawner or
drain that is at it, and ready else. -/
structure SlotInv (s : State Task Exec Agent) : Prop where
  free : ∀ t, (s.word t).spawned = false → s.phase t = some .free
  spawner : ∀ x t ph, (s.pc x).stage = some (t, ph) →
    s.phase t = some ph ∧ (s.word t).spawned = true
  drain : ∀ e t ph, (s.drain e).stage = some (t, ph) → s.phase t = some ph
  ready : ∀ t, (s.word t).spawned = true → (∀ x ph, (s.pc x).stage ≠ some (t, ph)) →
    (∀ e ph, (s.drain e).stage ≠ some (t, ph)) → s.phase t = some .ready

theorem slotInv_init : SlotInv (init Task Exec Agent) := by
  constructor <;> simp [init, State.phase, Phase.after, StateWord.free, Pc.stage, Drain.stage]

/-- A context that writes a slot spawns its task. -/
theorem Pc.spawning_of_stage {k : Pc Task Exec} {t : Task} {ph : Phase}
    (h : k.stage = some (t, ph)) : k.spawning = some t := by
  cases k <;> simp_all [stage, spawning]

/-- A drain that reads a slot polls its task. -/
theorem Drain.active_of_stage {d : Drain Task} {t : Task} {ph : Phase}
    (h : d.stage = some (t, ph)) : d.active = some t := by
  cases d <;> simp_all [stage, active]

namespace SlotInv

variable {s s' : State Task Exec Agent}

/-- The log of every slot leads to a phase. -/
theorem phase_ne_none (hS : SlotInv s) (t : Task) : ∃ ph, s.phase t = some ph := by
  cases hW : (s.word t).spawned with
  | false => exact ⟨_, hS.free t hW⟩
  | true =>
    by_cases hX : ∃ x ph, (s.pc x).stage = some (t, ph)
    · obtain ⟨x, ph, h⟩ := hX
      exact ⟨ph, (hS.spawner x t ph h).1⟩
    · by_cases hE : ∃ e ph, (s.drain e).stage = some (t, ph)
      · obtain ⟨e, ph, h⟩ := hE
        exact ⟨ph, hS.drain e t ph h⟩
      · push Not at hX hE
        exact ⟨_, hS.ready t hW hX hE⟩

/-- A step without an event. -/
theorem frame (hS : SlotInv s) (hLog : s'.log = s.log)
    (hWord : ∀ t, (s'.word t).spawned = (s.word t).spawned)
    (hPc : ∀ x, (s'.pc x).stage = (s.pc x).stage)
    (hDrain : ∀ e, (s'.drain e).stage = (s.drain e).stage) : SlotInv s' := by
  have hPhase : s'.phase = s.phase := by
    funext t
    simp [State.phase, hLog]
  constructor <;> simp only [hPhase, hWord, hPc, hDrain]
  · exact hS.free
  · exact hS.spawner
  · exact hS.drain
  · exact hS.ready

variable [DecidableEq Task]

/-- An event of slot `t`. Nobody else is at the slot, so what is to show is that
the new phase is the one of the acting spawner or drain. -/
theorem event (hS : SlotInv s) {t : Task} {ev : Event} {ph ph' : Phase}
    (hLog : s'.log = Function.update s.log t (s.log t ++ [ev])) (hFrom : s.phase t = some ph)
    (hNext : ph.next ev = some ph')
    (hWord : ∀ u, u ≠ t → (s'.word u).spawned = (s.word u).spawned)
    (hPc : ∀ x u ph, u ≠ t → ((s'.pc x).stage = some (u, ph) ↔ (s.pc x).stage = some (u, ph)))
    (hDrain : ∀ e u ph, u ≠ t →
      ((s'.drain e).stage = some (u, ph) ↔ (s.drain e).stage = some (u, ph)))
    (hFree : (s'.word t).spawned = false → ph' = .free)
    (hSpawner : ∀ x q, (s'.pc x).stage = some (t, q) → q = ph' ∧ (s'.word t).spawned = true)
    (hActive : ∀ e q, (s'.drain e).stage = some (t, q) → q = ph')
    (hReady : (s'.word t).spawned = true → (∀ x q, (s'.pc x).stage ≠ some (t, q)) →
      (∀ e q, (s'.drain e).stage ≠ some (t, q)) → ph' = .ready) : SlotInv s' := by
  -- the phase of `t` goes on by the event, the others stay
  have hSelf : s'.phase t = some ph' := by
    have hOld : Phase.after (s.log t) = some ph := hFrom
    rw [State.phase, hLog, Function.update_self, Phase.after_append, hOld]
    exact hNext
  have hOther : ∀ u, u ≠ t → s'.phase u = s.phase u := by
    intro u hu
    simp [State.phase, hLog, hu]
  constructor
  case free =>
    intro u h
    by_cases hu : u = t
    · subst hu
      rw [hSelf, hFree h]
    · rw [hOther u hu]
      exact hS.free u (hWord u hu ▸ h)
  case spawner =>
    intro x u q h
    by_cases hu : u = t
    · subst hu
      obtain ⟨rfl, hW⟩ := hSpawner x q h
      exact ⟨hSelf, hW⟩
    · rw [hOther u hu, hWord u hu]
      exact hS.spawner x u q ((hPc x u q hu).mp h)
  case drain =>
    intro e u q h
    by_cases hu : u = t
    · subst hu
      rw [hSelf, hActive e q h]
    · rw [hOther u hu]
      exact hS.drain e u q ((hDrain e u q hu).mp h)
  -- a task neither being spawned nor active is at rest
  case ready =>
    intro u hW hX hE
    by_cases hu : u = t
    · subst hu
      rw [hSelf, hReady hW hX hE]
    · rw [hOther u hu]
      refine hS.ready u (hWord u hu ▸ hW) ?_ ?_
      · exact fun x q h => hX x q ((hPc x u q hu).mpr h)
      · exact fun e q h => hE e q ((hDrain e u q hu).mpr h)

/-- An event made by the context `x`, which spawns into slot `t`. -/
theorem spawner_event [DecidableEq Exec] [DecidableEq Agent] (hS : SlotInv s)
    {x : Context Agent Exec} {t : Task} {k : Pc Task Exec} {ev : Event} {ph ph' : Phase}
    (hLog : s'.log = Function.update s.log t (s.log t ++ [ev])) (hFrom : s.phase t = some ph)
    (hNext : ph.next ev = some ph') (hPc : s'.pc = Function.update s.pc x k)
    (hDrain : s'.drain = s.drain)
    (hWord : ∀ u, u ≠ t → (s'.word u).spawned = (s.word u).spawned)
    (hOn : (s'.word t).spawned = true)
    (hAlone : ∀ y, y ≠ x → (s.pc y).spawning ≠ some t)
    (hIdle : ∀ e, (s.drain e).active ≠ some t)
    (hOld : ∀ u, (s.pc x).spawning = some u → u = t)
    (hNew : k.stage = some (t, ph') ∨ k.stage = none ∧ ph' = .ready) : SlotInv s' := by
  have hSelf : s'.pc x = k := by simp [hPc]
  -- the spawner alone moves, and it alone holds `t`
  have hElse : ∀ y, y ≠ x → s'.pc y = s.pc y := by
    intro y hy
    simp [hPc, hy]
  refine hS.event hLog hFrom hNext hWord ?_ (by simp [hDrain]) (by simp [hOn]) ?_ ?_ ?_
  · intro y u q hu
    by_cases hy : y = x
    · subst hy
      rw [hSelf]
      constructor
      · intro h
        rcases hNew with hk | ⟨hk, -⟩
        · simp [hk, Ne.symm hu] at h
        · simp [hk] at h
      · intro h
        exact absurd (hOld u (Pc.spawning_of_stage h)) hu
    · rw [hElse y hy]
  · intro y q h
    by_cases hy : y = x
    · subst hy
      rw [hSelf] at h
      rcases hNew with hk | ⟨hk, -⟩
      · have : ph' = q := by simpa [hk] using h
        exact ⟨this.symm, hOn⟩
      · simp [hk] at h
    · rw [hElse y hy] at h
      exact absurd (Pc.spawning_of_stage h) (hAlone y hy)
  · intro e q h
    rw [hDrain] at h
    exact absurd (Drain.active_of_stage h) (hIdle e)
  · intro _ hX _
    rcases hNew with hk | ⟨-, rfl⟩
    · exact absurd (hSelf ▸ hk) (hX x ph')
    · rfl

/-- An event made by the drain `e`, which polls slot `t`. -/
theorem drain_event [DecidableEq Exec] (hS : SlotInv s) (hP : PollInv s) {e : Exec} {t : Task}
    {d : Drain Task} {ev : Event} {ph ph' : Phase}
    (hLog : s'.log = Function.update s.log t (s.log t ++ [ev])) (hFrom : s.phase t = some ph)
    (hNext : ph.next ev = some ph') (hPc : s'.pc = s.pc)
    (hDrain : s'.drain = Function.update s.drain e d)
    (hWord : ∀ u, u ≠ t → (s'.word u).spawned = (s.word u).spawned)
    (hActive : (s.drain e).active = some t)
    (hNew : (d.stage = some (t, ph') ∧ (s'.word t).spawned = true) ∨
      (d.stage = none ∧ (s'.word t).spawned = true ∧ ph' = .ready) ∨
      d.stage = none ∧ (s'.word t).spawned = false ∧ ph' = .free) : SlotInv s' := by
  have hSelf : s'.drain e = d := by simp [hDrain]
  -- the drain alone moves, and `t` is the task it runs
  have hElse : ∀ e', e' ≠ e → s'.drain e' = s.drain e' := by
    intro e' he
    simp [hDrain, he]
  refine hS.event hLog hFrom hNext hWord (by simp [hPc]) ?_ ?_ ?_ ?_ ?_
  · intro e' u q hu
    by_cases he : e' = e
    · subst he
      rw [hSelf]
      constructor
      · intro h
        rcases hNew with ⟨hd, -⟩ | ⟨hd, -⟩ | ⟨hd, -⟩ <;> simp [hd, Ne.symm hu] at h
      · intro h
        have := Drain.active_of_stage h
        rw [hActive] at this
        exact absurd (Option.some.inj this).symm hu
    · rw [hElse e' he]
  · intro hOff
    rcases hNew with ⟨-, hOn⟩ | ⟨-, hOn, -⟩ | ⟨-, -, hFree⟩
    · simp [hOff] at hOn
    · simp [hOff] at hOn
    · exact hFree
  · intro x q h
    rw [hPc] at h
    exact absurd (Pc.spawning_of_stage h) (hP.settled e t x hActive)
  · intro e' q h
    by_cases he : e' = e
    · subst he
      rw [hSelf] at h
      rcases hNew with ⟨hd, -⟩ | ⟨hd, -⟩ | ⟨hd, -⟩
      · have : ph' = q := by simpa [hd] using h
        exact this.symm
      · simp [hd] at h
      · simp [hd] at h
    · rw [hElse e' he] at h
      -- no other drain runs `t`
      exact absurd (hP.active_unique (Drain.active_of_stage h) hActive) he
  · intro hOn _ hE
    rcases hNew with ⟨hd, -⟩ | ⟨-, -, hReady⟩ | ⟨-, hOff, -⟩
    · exact absurd (hSelf ▸ hd) (hE e ph')
    · exact hReady
    · simp [hOff] at hOn

variable [DecidableEq Exec] [DecidableEq Agent] {L : Layout Task Exec Agent}

/-- A context writes the slot of the task that it has claimed, and no other. -/
theorem context_op (hS : SlotInv s) (hQ : QueueInv s L) (hP : PollInv s)
    {x : Context Agent Exec} (h : Op s x s') : SlotInv s' := by
  -- steps that make no event: the context is not at a slot before nor after
  have hLocal : ∀ {k : Pc Task Exec} {s' : State Task Exec Agent}, s'.log = s.log →
      s'.drain = s.drain → s'.pc = Function.update s.pc x k →
      (∀ t, (s'.word t).spawned = (s.word t).spawned) → k.stage = (s.pc x).stage →
      SlotInv s' := by
    intro k s' hLog hDrain hPc hWord hStage
    refine hS.frame hLog hWord ?_ (by simp [hDrain])
    intro y
    by_cases hy : y = x
    · simp [hPc, hy, hStage]
    · simp [hPc, hy]
  have hUnique : ∀ t, (s.pc x).spawning = some t → ∀ y, y ≠ x → (s.pc y).spawning ≠ some t :=
    fun t h y hy h' =>
      hy (hQ.owner_unique (Pc.owned_of_spawning h') (Pc.owned_of_spawning h))
  cases h with
  | enqueue_return hPc hk | enqueue_retry hPc hk =>
    refine hLocal rfl rfl rfl (fun _ => rfl) ?_
    rcases hk with rfl | ⟨_, rfl⟩ <;> simp [hPc, Pc.stage]
  | @casState t hPc =>
    refine hLocal rfl rfl rfl ?_ (by simp [hPc, Pc.stage])
    intro u
    by_cases hu : u = t <;> simp [hu]
  | loadHead hPc hk =>
    refine hLocal rfl rfl rfl (fun _ => rfl) ?_
    rcases hk with rfl | ⟨_, rfl⟩ <;> simp [hPc, Pc.stage]
  | casHead hPc =>
    refine hLocal rfl rfl rfl (fun _ => rfl) ?_
    split <;> simp [hPc, Pc.stage]
  | @allocate_ok t pool hPc hW =>
    have hOff : (s.word t).runQueued = false := by simp [hW, StateWord.free]
    have hFree := hS.free t (by simp [hW, StateWord.free])
    refine hS.spawner_event (x := x) rfl hFree rfl rfl rfl ?_ ?_ ?_ ?_ ?_ (.inl rfl)
    · intro u hu
      simp [hu]
    · simp [StateWord.allocated]
    · intro y _ h
      have := (hQ.owned y t).mp (Pc.owned_of_spawning h)
      simp [hQ.not_marked hOff] at this
    · intro e h
      have := hP.spawned e t h
      simp [hW, StateWord.free] at this
    · simp [hPc, Pc.spawning]
  | @writePollFn t hPc =>
    obtain ⟨hFrom, hOn⟩ := hS.spawner x t .allocated (by simp [hPc, Pc.stage])
    refine hS.spawner_event (x := x) rfl hFrom rfl rfl rfl (fun _ _ => rfl) hOn
      (hUnique t (by simp [hPc, Pc.spawning])) ?_ ?_ (.inl rfl)
    · exact fun e h => hP.settled e t x h (by simp [hPc, Pc.spawning])
    · simp [hPc, Pc.spawning]
  | @writeFuture t hPc =>
    obtain ⟨hFrom, hOn⟩ := hS.spawner x t .pollFnWritten (by simp [hPc, Pc.stage])
    refine hS.spawner_event (x := x) rfl hFrom rfl rfl rfl (fun _ _ => rfl) hOn
      (hUnique t (by simp [hPc, Pc.spawning])) ?_ ?_ (.inr ⟨rfl, rfl⟩)
    · exact fun e h => hP.settled e t x h (by simp [hPc, Pc.spawning])
    · simp [hPc, Pc.spawning]
  | getExecutor hPc | storeNext hPc | signal hPc | allocate_none hPc | allocate_busy hPc
  | wake hx hPc | spawnPool hx hPc | spawn hPc =>
    exact hLocal rfl rfl rfl (fun _ => rfl) (by simp [hPc, Pc.stage])

/-- A drain uses the slot of the task that it polls, and no other. -/
theorem drain_op {hasAlarm : Exec → Bool} (hS : SlotInv s) (hQ : QueueInv s L) (hP : PollInv s)
    {e : Exec} (h : DrainOp hasAlarm s e s') : SlotInv s' := by
  have hLocal : ∀ {d : Drain Task} {s' : State Task Exec Agent}, s'.log = s.log →
      s'.pc = s.pc → s'.drain = Function.update s.drain e d →
      (∀ t, (s'.word t).spawned = (s.word t).spawned) → d.stage = (s.drain e).stage →
      SlotInv s' := by
    intro d s' hLog hPc hDrain hWord hStage
    refine hS.frame hLog hWord (by simp [hPc]) ?_
    intro e'
    by_cases he : e' = e
    · simp [hDrain, he, hStage]
    · simp [hDrain, he]
  cases h with
  | @poll t next hD =>
    have hActive : (s.drain e).active = some t := by simp [hD, Drain.active]
    -- the task is spawned, and neither a spawner nor another drain is at it
    have hReady : s.phase t = some .ready := by
      refine hS.ready t (hP.spawned e t hActive) ?_ ?_
      · exact fun x ph h => hP.settled e t x hActive (Pc.spawning_of_stage h)
      · intro e' ph h
        have he := hP.active_unique (Drain.active_of_stage h) hActive
        simp [he, hD, Drain.stage] at h
    exact hS.drain_event hP rfl hReady rfl rfl rfl (fun _ _ => rfl) hActive
      (.inl ⟨rfl, hP.spawned e t hActive⟩)
  | @poll_ready t next hD =>
    have hActive : (s.drain e).active = some t := by simp [hD, Drain.active]
    exact hS.drain_event hP rfl (hS.drain e t .polling (by simp [hD, Drain.stage])) rfl rfl rfl
      (fun _ _ => rfl) hActive (.inl ⟨rfl, hP.spawned e t hActive⟩)
  | @poll_pending t next hD =>
    have hActive : (s.drain e).active = some t := by simp [hD, Drain.active]
    exact hS.drain_event hP rfl (hS.drain e t .polling (by simp [hD, Drain.stage])) rfl rfl rfl
      (fun _ _ => rfl) hActive (.inr (.inl ⟨rfl, hP.spawned e t hActive, rfl⟩))
  | @dropFuture t next hD =>
    have hActive : (s.drain e).active = some t := by simp [hD, Drain.active]
    exact hS.drain_event hP rfl (hS.drain e t .done (by simp [hD, Drain.stage])) rfl rfl rfl
      (fun _ _ => rfl) hActive (.inl ⟨rfl, hP.spawned e t hActive⟩)
  | @release t next hD =>
    have hActive : (s.drain e).active = some t := by simp [hD, Drain.active]
    refine hS.drain_event hP rfl (hS.drain e t .dropped (by simp [hD, Drain.stage])) rfl rfl rfl
      ?_ hActive (.inr (.inr ⟨rfl, by simp, rfl⟩))
    intro u hu
    simp [hu]
  | start hD | walk_end hD =>
    refine hLocal rfl rfl rfl (fun _ => rfl) ?_
    split <;> simp [hD, Drain.stage]
  | @retain_end f prev hD =>
    cases f <;> exact hLocal rfl rfl rfl (fun _ => rfl) (by simp [hD, Closure.finish, Drain.stage])
  | filter_expired hD =>
    have hIdle := hQ.idle_of_drain (e := e) (by simp [hD])
    refine hS.frame rfl (fun _ => rfl) ?_ ?_
    · intro y
      by_cases hy : y = .drain e
      · simp [hy, hIdle, Pc.stage]
      · simp [hy]
    · intro e'
      by_cases he : e' = e
      · simp [he, hD, Drain.stage]
      · simp [he]
  | @unlink f prev p hD =>
    cases prev <;> exact hLocal rfl rfl rfl (fun _ => rfl) (by simp [hD, Drain.stage])
  | @clearTimerQueued f prev t hD | @clear_spawned t next hD hW | @clear_ignored t next hD hW
  | @updateOr_old t next hD hW | @updateOr_new t next hD hW =>
    refine hLocal rfl rfl rfl ?_ (by simp [hD, Drain.stage])
    intro u
    by_cases hu : u = t <;> simp [hu]
  | registerTimer hD hAt =>
    exact hLocal rfl rfl (Function.update_eq_self e s.drain).symm (fun _ => rfl) rfl
  | retain_next hD | filter_keep hD | filter_next hD | filter_drop hD | onTask hD | swap hD
  | walk hD | setExpires hD | update_none hD | update_some hD | updateNext hD | updateHead hD
  | setAlarm hD =>
    exact hLocal rfl rfl rfl (fun _ => rfl) (by simp [hD, Drain.stage])

end SlotInv

-- ---------------------------------------------------------------------------
-- Runs
-- ---------------------------------------------------------------------------

variable [DecidableEq Task] [DecidableEq Exec] [DecidableEq Agent] {hasAlarm : Exec → Bool}
  {s : State Task Exec Agent}

theorem slotInv_of_run (hRun : Reaches hasAlarm (init Task Exec Agent) s) : SlotInv s := by
  have hAll : (∃ L, QueueInv s L) ∧ PollInv s ∧ SlotInv s := by
    refine hRun.invariant (I := fun s => (∃ L, QueueInv s L) ∧ PollInv s ∧ SlotInv s)
      ⟨⟨_, queueInv_init⟩, pollInv_init, slotInv_init⟩ ?_
    rintro u a v ⟨⟨L, hQ⟩, hP, hS⟩ - hs
    obtain ⟨L', hQ', -⟩ := hQ.step hs
    refine ⟨⟨L', hQ'⟩, hP.step hQ hs, ?_⟩
    rcases step_op hs with ⟨x, hOp⟩ | ⟨e, hOp⟩
    · exact hS.context_op hQ hP hOp
    · exact hS.drain_op hQ hP hOp
  exact hAll.2.2

/--
**The life of a slot.** In every run of spawns, wakes and drains, in any
interleaving, the events of every slot are a prefix of cycles: allocate, write
the poll function and the future, any number of polls that return `Pending`, a
poll that returns `Ready`, drop, release.
-/
theorem slot_lifecycle (hRun : Reaches hasAlarm (init Task Exec Agent) s) (t : Task) :
    ∃ ns : List Nat, s.log t <+: (ns.map cycle).flatten := by
  obtain ⟨ph, hPhase⟩ := (slotInv_of_run hRun).phase_ne_none t
  exact Phase.prefix_of_phase hPhase

/-- The actions of an agent that spawns into slot `t` at executor `e`. -/
def spawnActions {Task Exec Agent : Type} (a : Agent) (t : Task) (e : Exec) :
    List (Action Task Exec Agent) :=
  .spawnPool a [t] :: List.replicate 3 (.advance (.agent a) false) ++ [.spawn a e] ++
    List.replicate 4 (.advance (.agent a) false)

/-- The actions of an agent that wakes a task and links it in an empty queue. -/
def wakeActions {Task Exec Agent : Type} (a : Agent) (t : Task) : List (Action Task Exec Agent) :=
  .wake a t :: List.replicate 7 (.advance (.agent a) false)

/-- `run_queued` without an alarm, up to the poll of the one task in the queue. -/
def drainToPoll {Task Exec Agent : Type} (e : Exec) : List (Action Task Exec Agent) :=
  .runQueued e 0 :: List.replicate 5 (.drain e)

/-- A task is spawned, polled, woken, polled again to its end; the slot is then
allocated once more. -/
theorem slot_lifecycle_two_spawns : ∃ s, Reaches (fun _ => false) (init Nat Unit Unit) s ∧
    s.log 0 = cycle 1 ++ [.allocate] ∧ ∃ ns : List Nat, s.log 0 <+: (ns.map cycle).flatten := by
  have hRun : Reaches (fun _ => false) (init Nat Unit Unit) _ :=
    Run.execOk_get _ (spawnActions () 0 () ++ drainToPoll () ++ [.pollReturn () false] ++
      wakeActions () 0 ++ [.drain (), .drain ()] ++ drainToPoll () ++ [.pollReturn () true] ++
      List.replicate 2 (.drain ()) ++ [.spawnPool () [0], .advance (.agent ()) false])
      (by decide +kernel)
  exact ⟨_, hRun, by decide +kernel, slot_lifecycle hRun 0⟩

end Embassy.Executor
