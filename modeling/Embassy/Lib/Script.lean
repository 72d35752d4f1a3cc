import Mathlib.Tactic.TypeStar

/-!
# Straight-line programs with an environment

A script is a list of primitive steps on a state that is shared with an environment, which may
take its own steps between any two of them.

* `Script.Sound` — what is to be shown of a script before it begins: the invariant at each of
  its points, the precondition of each step, and the postcondition at its end.
* `Script.Sound.mono` — a script is as sound after a step of the environment, if such steps
  are kept apart from the primitive ones.
-/

namespace Embassy.Lib

namespace Script

variable {σ π : Type*} {I Q : σ → Prop} {pre : π → σ → Prop} {exec : π → σ → σ}
  {ps : List π} {p : π} {s s' : σ}

/-- The script `ps` can begin in `s`. -/
def Sound (I Q : σ → Prop) (pre : π → σ → Prop) (exec : π → σ → σ) : List π → σ → Prop
  | [], s => I s ∧ Q s
  | p :: ps, s => I s ∧ pre p s ∧ Sound I Q pre exec ps (exec p s)

theorem Sound.now (h : Sound I Q pre exec ps s) : I s := by
  cases ps with
  | nil => exact h.1
  | cons => exact h.1

theorem Sound.post (h : Sound I Q pre exec [] s) : Q s := h.2

theorem Sound.allowed (h : Sound I Q pre exec (p :: ps) s) : pre p s := h.2.1

theorem Sound.next (h : Sound I Q pre exec (p :: ps) s) : Sound I Q pre exec ps (exec p s) := h.2.2

/-- `env s s'` is what the environment may make of `s`. -/
theorem Sound.mono {env : σ → σ → Prop} (hI : ∀ s s', env s s' → I s → I s')
    (hQ : ∀ s s', env s s' → Q s → Q s') (hPre : ∀ p s s', env s s' → pre p s → pre p s')
    (hExec : ∀ p s s', env s s' → env (exec p s) (exec p s'))
    (h : Sound I Q pre exec ps s) (hEnv : env s s') : Sound I Q pre exec ps s' := by
  induction ps generalizing s s' with
  | nil => exact ⟨hI _ _ hEnv h.1, hQ _ _ hEnv h.2⟩
  | cons p ps ih => exact ⟨hI _ _ hEnv h.1, hPre _ _ _ hEnv h.2.1, ih h.2.2 (hExec _ _ _ hEnv)⟩

end Script

end Embassy.Lib
