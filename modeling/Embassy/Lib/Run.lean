import Mathlib.Data.List.Induction
import Mathlib.Tactic.TypeStar

/-!
# Runs of a labelled step function

A system is given by a partial step function `step : σ → α → Option σ`: in
state `s` the action `a` is either not possible (`none`) or leads to one
state. Everything that is not under the system's control (the order of the
actions, their arguments) is the choice of the action list, so a statement
about every run is a statement about every list of actions.

Assumptions about the environment are predicates `ok : σ → α → Prop` on the
single steps. `Run step ok s s'` says that `s'` is reached from `s` by steps
that are all `ok`; a stronger `ok` admits fewer runs (`Run.mono`).

* `Run.invariant` — what holds at the start and is kept by every `ok` step
  holds in every state reached.
* `execOk` / `Run.execOk_get` — a concrete run is checked by evaluation.
* `Trace` — a run together with what its steps emit, and its invariant rule.
* `latest` / `foldl_latest` — the value that was set last, as a part of the state.
-/

namespace Embassy.Lib

variable {σ α : Type*}

/-- `s'` is reached from `s` by steps that all satisfy `ok`. -/
inductive Run (step : σ → α → Option σ) (ok : σ → α → Prop) (s : σ) : σ → Prop where
  | refl : Run step ok s s
  | tail {u v : σ} {a : α} :
      Run step ok s u → ok u a → step u a = some v → Run step ok s v

namespace Run

variable {step : σ → α → Option σ} {ok ok' : σ → α → Prop} {s u v : σ}

/-- **Invariant rule.** -/
theorem invariant {I : σ → Prop} (hRun : Run step ok s u) (hInit : I s)
    (hStep : ∀ u a v, I u → ok u a → step u a = some v → I v) : I u := by
  induction hRun with
  | refl => exact hInit
  | tail _ hOk hs ih => exact hStep _ _ _ ih hOk hs

/-- The steps of a run that keeps `I` satisfy what follows from `I`. -/
theorem strengthen {I : σ → Prop} (hRun : Run step ok s u) (hInit : I s)
    (hStep : ∀ u a v, I u → ok u a → step u a = some v → I v)
    (hOk : ∀ u a, I u → ok u a → ok' u a) : Run step ok' s u := by
  induction hRun with
  | refl => exact .refl
  | tail hBefore hOk' hs ih => exact .tail ih (hOk _ _ (hBefore.invariant hInit hStep) hOk') hs

theorem mono (h : ∀ u a, ok u a → ok' u a) (hRun : Run step ok s u) :
    Run step ok' s u := by
  induction hRun with
  | refl => exact .refl
  | tail _ hOk hs ih => exact .tail ih (h _ _ hOk) hs

theorem trans (h₁ : Run step ok s u) (h₂ : Run step ok u v) : Run step ok s v := by
  induction h₂ with
  | refl => exact h₁
  | tail _ hOk hs ih => exact .tail ih hOk hs

end Run

/-- Run a list of actions, giving up at the first one that is not possible or
not `ok`. -/
def execOk (step : σ → α → Option σ) (ok : σ → α → Prop) [∀ s a, Decidable (ok s a)] :
    σ → List α → Option σ
  | s, [] => some s
  | s, a :: as =>
    if ok s a then
      match step s a with
      | some s' => execOk step ok s' as
      | none => none
    else none

/-- What was executed is a run. -/
theorem Run.of_execOk {step : σ → α → Option σ} {ok : σ → α → Prop}
    [∀ s a, Decidable (ok s a)] {s s' : σ} {as : List α}
    (h : execOk step ok s as = some s') : Run step ok s s' := by
  induction as generalizing s with
  | nil =>
    simp only [execOk, Option.some.injEq] at h
    exact h ▸ .refl
  | cons a as ih =>
    rw [execOk] at h
    split at h
    · rename_i hOk
      split at h
      · rename_i u hu
        exact (Run.refl.tail hOk hu).trans (ih h)
      · cases h
    · cases h

/-- The state a checked list of actions ends in is reached. -/
theorem Run.execOk_get {step : σ → α → Option σ} {ok : σ → α → Prop}
    [∀ s a, Decidable (ok s a)] (s : σ) (as : List α)
    (h : (execOk step ok s as).isSome = true) :
    Run step ok s ((execOk step ok s as).get h) :=
  Run.of_execOk (Option.some_get h).symm

-- ---------------------------------------------------------------------------
-- Traces
-- ---------------------------------------------------------------------------

variable {β : Type*}

/-- `s'` is reached from `s` by steps that emit `bs`, in this order. -/
inductive Trace (step : σ → α → Option σ) (emit : σ → α → List β) (s : σ) :
    List β → σ → Prop where
  | refl : Trace step emit s [] s
  | tail {bs : List β} {u v : σ} {a : α} :
      Trace step emit s bs u → step u a = some v → Trace step emit s (bs ++ emit u a) v

namespace Trace

variable {step : σ → α → Option σ} {emit : σ → α → List β} {s u v : σ} {bs cs : List β}

/-- **Invariant rule** for what is emitted and the state together. -/
theorem invariant {I : List β → σ → Prop} (hT : Trace step emit s bs u) (hInit : I [] s)
    (hStep : ∀ bs u a v, I bs u → step u a = some v → I (bs ++ emit u a) v) : I bs u := by
  induction hT with
  | refl => exact hInit
  | tail _ hs ih => exact hStep _ _ _ _ ih hs

/-- A trace is a run, without its events. -/
theorem run (hT : Trace step emit s bs u) : Run step (fun _ _ => True) s u := by
  induction hT with
  | refl => exact .refl
  | tail _ hs ih => exact .tail ih trivial hs

/-- A run has a trace. -/
theorem of_run {ok : σ → α → Prop} (hRun : Run step ok s u) : ∃ bs, Trace step emit s bs u := by
  induction hRun with
  | refl => exact ⟨[], .refl⟩
  | tail _ _ hs ih =>
    obtain ⟨bs, hT⟩ := ih
    exact ⟨_, .tail hT hs⟩

theorem trans (h₁ : Trace step emit s bs u) (h₂ : Trace step emit u cs v) :
    Trace step emit s (bs ++ cs) v := by
  induction h₂ with
  | refl => rwa [List.append_nil]
  | tail _ hs ih =>
    rw [← List.append_assoc]
    exact .tail ih hs

end Trace

/-- A place in a list that grows is the last one, or was there before. -/
theorem split_concat {bs pre post : List β} {b x : β} (h : bs ++ [b] = pre ++ x :: post) :
    (pre = bs ∧ b = x ∧ post = []) ∨ ∃ rest, post = rest ++ [b] ∧ bs = pre ++ x :: rest := by
  rcases List.eq_nil_or_concat post with rfl | ⟨rest, d, rfl⟩
  · obtain ⟨rfl, hLast⟩ := List.append_inj' h rfl
    cases hLast
    exact .inl ⟨rfl, rfl, rfl⟩
  · rw [List.concat_eq_append, ← List.cons_append, ← List.append_assoc] at h
    obtain ⟨rfl, hLast⟩ := List.append_inj' h rfl
    cases hLast
    exact .inr ⟨rest, List.concat_eq_append, rfl⟩

/-- Run a list of actions, and collect what the steps emit. -/
def execTrace (step : σ → α → Option σ) (emit : σ → α → List β) :
    σ → List α → Option (List β × σ)
  | s, [] => some ([], s)
  | s, a :: as =>
    match step s a with
    | some u => (execTrace step emit u as).map fun p => (emit s a ++ p.1, p.2)
    | none => none

/-- What was executed is a trace. -/
theorem Trace.of_execTrace {step : σ → α → Option σ} {emit : σ → α → List β} {s s' : σ}
    {as : List α} {bs : List β} (h : execTrace step emit s as = some (bs, s')) :
    Trace step emit s bs s' := by
  induction as generalizing s bs with
  | nil =>
    cases h
    exact .refl
  | cons a as ih =>
    rw [execTrace] at h
    split at h
    · rename_i u hu
      obtain ⟨⟨cs, w⟩, hRest, hEq⟩ := Option.map_eq_some_iff.mp h
      cases hEq
      have hFirst : Trace step emit s ([] ++ emit s a) u := .tail .refl hu
      exact hFirst.trans (ih hRest)
    · cases h

/-- What a checked list of actions emits, and the state it ends in. -/
theorem Trace.execTrace_get {step : σ → α → Option σ} {emit : σ → α → List β} (s : σ)
    (as : List α) (h : (execTrace step emit s as).isSome = true) :
    Trace step emit s ((execTrace step emit s as).get h).1 ((execTrace step emit s as).get h).2 :=
  Trace.of_execTrace (Option.some_get h).symm

-- ---------------------------------------------------------------------------
-- Values that some of the actions set
-- ---------------------------------------------------------------------------

/-- What the actions set last, where `f a` is what `a` sets; `d` before the first of them. -/
def latest (f : α → Option β) (d : β) (as : List α) : β := (as.reverse.findSome? f).getD d

section latest

variable {γ : Type*} {f : α → Option β} {d : β} {as : List α} {a : α}

/-- The last action is the latest, if it sets anything. -/
theorem latest_concat : latest f d (as ++ [a]) = (f a).getD (latest f d as) := by
  rw [latest, List.reverse_append, List.reverse_singleton, List.singleton_append,
    List.findSome?_cons]
  cases f a <;> rfl

/-- What every value that is set has, and the default, the latest has. -/
theorem latest_of_forall {I : β → Prop} (hInit : I d) (hSet : ∀ a x, f a = some x → I x) :
    I (latest f d as) := by
  rw [latest]
  cases h : as.reverse.findSome? f with
  | none => exact hInit
  | some x =>
    obtain ⟨a, -, hEq⟩ := List.exists_of_findSome?_eq_some h
    exact hSet a x hEq

theorem latest_map (g : β → γ) :
    latest (fun a => (f a).map g) (g d) as = g (latest f d as) := by
  induction as using List.reverseRecOn with
  | nil => rfl
  | append_singleton as a ih =>
    rw [latest_concat, latest_concat, ih]
    cases f a <;> rfl

/-- A part of the state that every action sets, or else leaves as it is. -/
theorem foldl_latest {step : σ → α → σ} {I : σ → Prop} {get : σ → β}
    (hI : ∀ s a, I s → I (step s a)) (hGet : ∀ s a, I s → get (step s a) = (f a).getD (get s))
    {s : σ} (hInit : I s) : get (as.foldl step s) = latest f (get s) as := by
  suffices h : I (as.foldl step s) ∧ get (as.foldl step s) = latest f (get s) as from h.2
  induction as using List.reverseRecOn with
  | nil => exact ⟨hInit, rfl⟩
  | append_singleton as a ih =>
    obtain ⟨hBefore, hLatest⟩ := ih
    rw [List.foldl_append, List.foldl_cons, List.foldl_nil, latest_concat, ← hLatest]
    exact ⟨hI _ _ hBefore, hGet _ _ hBefore⟩

end latest

end Embassy.Lib
