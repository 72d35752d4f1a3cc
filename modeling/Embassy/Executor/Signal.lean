import Embassy.Executor.Wake

/-!
# The signal of an executor

`Executor::enqueue` calls `signal_fn` only when its compare-and-exchange has
found the queue empty; the others rely on that signal. Between the two the
queue is not empty and nobody has been told, which is why the context that owes
the signal is part of the statement.

Main results:

* `exists_since` — a reachable state has a latest swap of the head, or none.
* `signalled_since` — since then the queue is empty, or the signal has been given,
  or a context owes it.
-/

namespace Embassy.Executor

open Embassy.Lib

variable {Task Exec Agent : Type}

/-- A context has linked a task in the empty queue, and is about to call `signal_fn`. -/
def SignalDue (s : State Task Exec Agent) (e : Exec) : Prop := ∃ x, s.pc x = .signal e

variable [DecidableEq Task] [DecidableEq Exec] [DecidableEq Agent] {hasAlarm : Exec → Bool}
  {s s' s₀ : State Task Exec Agent} {e : Exec} {a : Action Task Exec Agent}

-- ---------------------------------------------------------------------------
-- One step
-- ---------------------------------------------------------------------------

/-- Who fills an empty queue owes the signal. -/
theorem head_step (h : step hasAlarm s a = some s') (hEmpty : s.head e = none) :
    s'.head e = none ∨ SignalDue s' e := by
  rcases step_op h with ⟨x, h⟩ | ⟨e', h⟩
  · cases h with
    | @casHead t e' hPc =>
      by_cases he : e = e'
      · subst he
        exact .inr ⟨x, by simp [hEmpty]⟩
      · exact .inl (by simpa [he] using hEmpty)
    | _ => exact .inl hEmpty
  · left
    cases h with
    | swap hD => by_cases he : e = e' <;> simp [he, hEmpty]
    | @unlink f prev p hD => cases prev <;> exact hEmpty
    | _ => exact hEmpty

/-- It owes the signal until it gives it. -/
theorem signalDue_step {L : Layout Task Exec Agent} (hQ : QueueInv s L)
    (h : step hasAlarm s a = some s') {x : Context Agent Exec} (hDue : s.pc x = .signal e) :
    s'.pc x = .signal e ∨ s.signals e < s'.signals e ∧ ∃ weak, a = .advance x weak := by
  -- an action that starts at another point does not move this context
  have hAgent : ∀ b k, s.pc (.agent b) ≠ .signal e →
      Function.update s.pc (.agent b) k x = .signal e := by
    intro b k hNot
    have hx : x ≠ .agent b := by
      rintro rfl
      exact hNot hDue
    rw [Function.update_of_ne hx, hDue]
  cases a with
  | advance y weak =>
    -- the context's own step is the signal
    by_cases hy : x = y
    · subst hy
      right
      refine ⟨?_, weak, rfl⟩
      cases advance_op h <;> simp_all
    · left
      rw [← hDue]
      cases advance_op h <;> exact Function.update_of_ne hy _ _
  | wake b t | spawnPool b pool | spawn b e' =>
    left
    simp only [step] at h
    split at h
    · rename_i hPc
      cases h
      exact hAgent b _ (by simp [hPc])
    · cases h
  | runQueued | registerTimer | pollReturn =>
    left
    simp only [step] at h
    repeat' split at h
    all_goals cases h <;> exact hDue
  | drain e' =>
    left
    have hOp : DrainOp hasAlarm s e' s' := drainStep_op h
    cases hOp with
    | @filter_expired now prev p hD hP =>
      have hx : x ≠ .drain e' := by
        rintro rfl
        have hIdle := hQ.idle_of_drain (e := e') (by simp [hD])
        simp [hDue] at hIdle
      simpa [hx] using hDue
    | @unlink f prev p hD => cases prev <;> exact hDue
    | _ => exact hDue

theorem signals_step (h : step hasAlarm s a = some s') (e : Exec) :
    s.signals e ≤ s'.signals e := by
  rcases step_op h with ⟨x, h⟩ | ⟨e', h⟩
  · cases h with
    | @signal e' hPc => by_cases he : e = e' <;> simp [he]
    | _ => exact Nat.le_refl _
  · cases h with
    | @unlink f prev p hD => cases prev <;> exact Nat.le_refl _
    | _ => exact Nat.le_refl _

-- ---------------------------------------------------------------------------
-- Since the latest swap
-- ---------------------------------------------------------------------------

/-- `dequeue_all` of `e` swaps the head of the queue for null. -/
def Swaps (e : Exec) (s : State Task Exec Agent) (a : Action Task Exec Agent) : Prop :=
  a = .drain e ∧ s.drain e = .swap

/-- `s` is reached from `s₀`, where the head of `e` has just been swapped or the
executor created, without another swap. -/
structure Since (hasAlarm : Exec → Bool) (e : Exec) (s₀ s : State Task Exec Agent) : Prop where
  latest : s₀ = init Task Exec Agent ∨ ∃ r, Reaches hasAlarm (init Task Exec Agent) r ∧
    r.drain e = .swap ∧ step hasAlarm r (.drain e) = some s₀
  run : Run (step hasAlarm) (fun u a => ¬ Swaps e u a) s₀ s

theorem exists_since (hRun : Reaches hasAlarm (init Task Exec Agent) s) (e : Exec) :
    ∃ s₀, Since hasAlarm e s₀ s := by
  induction hRun with
  | refl => exact ⟨_, .inl rfl, .refl⟩
  | @tail u v a hBefore _ hs ih =>
    by_cases hSwap : Swaps e u a
    · obtain ⟨rfl, hD⟩ := hSwap
      exact ⟨v, .inr ⟨u, hBefore, hD, hs⟩, .refl⟩
    · obtain ⟨s₀, hLatest, hRun⟩ := ih
      exact ⟨s₀, hLatest, .tail hRun hSwap hs⟩

/-- **The signal is given**: since the latest swap, a queue that is not empty has
been signalled, or a context owes the signal. -/
theorem signalled_since (hSince : Since hasAlarm e s₀ s) (hHead : s.head e ≠ none) :
    s₀.signals e < s.signals e ∨ SignalDue s e := by
  -- at the last swap the queue was empty
  obtain ⟨hReach, hEmpty⟩ : Reaches hasAlarm (init Task Exec Agent) s₀ ∧ s₀.head e = none := by
    rcases hSince.latest with rfl | ⟨r, hRun, hD, hs⟩
    · exact ⟨.refl, rfl⟩
    · refine ⟨hRun.tail trivial hs, ?_⟩
      have hOp : DrainOp hasAlarm r e s₀ := drainStep_op hs
      cases hOp <;> simp_all
  obtain ⟨⟨L₀, hQ₀⟩, -⟩ := queueInv_of_run hReach
  -- since then: still empty, or signalled, or a context is about to signal
  have hInv : (∃ L, QueueInv s L) ∧ s₀.signals e ≤ s.signals e ∧
      (s.head e = none ∨ s₀.signals e < s.signals e ∨ SignalDue s e) := by
    refine hSince.run.invariant (I := fun s => (∃ L, QueueInv s L) ∧
      s₀.signals e ≤ s.signals e ∧ (s.head e = none ∨ s₀.signals e < s.signals e ∨
        SignalDue s e)) ⟨⟨L₀, hQ₀⟩, Nat.le_refl _, .inl hEmpty⟩ ?_
    rintro u a v ⟨⟨L, hQ⟩, hLe, hOld⟩ - hs
    have hMono := signals_step hs e
    obtain ⟨L', hQ', -⟩ := hQ.step hs
    refine ⟨⟨L', hQ'⟩, by omega, ?_⟩
    rcases hOld with hNone | hLt | ⟨x, hDue⟩
    · exact (head_step hs hNone).imp_right .inr
    · right
      left
      omega
    · rcases signalDue_step hQ hs hDue with hDue' | ⟨hLt, -⟩
      · exact .inr (.inr ⟨x, hDue'⟩)
      · right
        left
        omega
  rcases hInv.2.2 with hNone | h
  · exact absurd hNone hHead
  · exact h

end Embassy.Executor
