import Mathlib.Order.WellFounded
import Mathlib.Tactic.TypeStar

/-!
# Futures whose `poll` is a loop

A future of type `F` is given by the body of the loop in its `poll`: one pass
ends the poll or goes on with another pass. What is outside of the future (a
reader, a writer) is a part of its state, with all that it will do.

* `poll` / `Polls` — one call of `poll`: its passes up to the first that ends it.
* `Flow.Keeps` — what is to be proved of one pass for what holds at every return
  of `poll` (`Returned.post`) and when the future is ready (`Await.keeps`).
* `Await` — the future is polled until it is ready; `await_iff_polls` connects
  it with the calls.
* `Flow.Meets` — a pass that also comes closer to the end: `Await.total` gives that
  the future gets ready.
* `Yields` — what it is ready with, and that it gets ready, in one.
* `await_stage` — a future that awaits another and then goes on.
-/

namespace Embassy.Lib

variable {F G α β : Type*}

/-- What one pass of the loop does. -/
inductive Flow (F α : Type*) where
  /-- The loop goes on. -/
  | next (f : F)
  | pending (f : F)
  | ready (f : F) (x : α)
  | panic
  deriving DecidableEq, Repr

namespace Flow

/-- `none` is a panic in the pass. -/
def orPanic : Option (Flow F α) → Flow F α
  | some o => o
  | none => .panic

/-- A pass of the future that is awaited, as one of the future that awaits it. -/
def stage (wrap : F → G) (k : F → α → Flow G β) : Flow F α → Flow G β
  | .next f => .next (wrap f)
  | .pending f => .pending (wrap f)
  | .ready f x => k f x
  | .panic => .panic

/-- One pass from `f` keeps `I`, ends with `Q`, and comes closer to the end: the
measure `μ` falls, or stays while the future waits for what is outside. -/
def Meets (I : F → Prop) (μ : F → Nat) (waits : F → F → Prop) (Q : F → α → Prop) (f : F) :
    Flow F α → Prop
  | .next g => I g ∧ μ g < μ f
  | .pending g => I g ∧ μ g = μ f ∧ waits g f
  | .ready g x => Q g x
  | .panic => False

/-- One pass keeps `I`, and what it returns satisfies `Q`. -/
def Keeps (I : F → Prop) (Q : Flow F α → Prop) : Flow F α → Prop
  | .next g => I g
  | .pending g => I g ∧ Q (.pending g)
  | .ready g x => Q (.ready g x)
  | .panic => Q .panic

section Keeps

variable {I : F → Prop} {μ : F → Nat} {waits : F → F → Prop} {Q : F → α → Prop}
  {R : Flow F α → Prop} {o : Flow F α} {f g : F}

theorem Keeps.pass (h : o.Keeps I R) (hPass : o = .next g ∨ o = .pending g) : I g := by
  rcases hPass with rfl | rfl
  · exact h
  · exact h.1

/-- A pass that ends has what it ends with. -/
theorem Keeps.post (h : o.Keeps I R) (hEnds : ∀ g, o ≠ .next g) : R o := by
  cases o with
  | next g => exact absurd rfl (hEnds g)
  | pending g => exact h.2
  | ready | panic => exact h

/-- A pass that comes closer to the end keeps the invariant all the same. -/
theorem Meets.keeps (h : o.Meets I μ waits Q f) :
    o.Keeps I fun o => ∀ g x, o = .ready g x → Q g x := by
  cases o with
  | next g => exact h.1
  | pending g => exact ⟨h.1, fun _ _ hEq => nomatch hEq⟩
  | ready g x =>
    rintro _ _ ⟨⟩
    exact h
  | panic => exact h.elim

end Keeps

end Flow

-- ---------------------------------------------------------------------------
-- Calls of poll
-- ---------------------------------------------------------------------------

/-- What `poll` returns, if it does so within `n` passes. -/
def poll (body : F → Flow F α) : Nat → F → Option (Flow F α)
  | 0, _ => none
  | n + 1, f =>
    match body f with
    | .next g => poll body n g
    | o => some o

/-- A call of `poll` ends with `o`. -/
def Polls (body : F → Flow F α) (f : F) (o : Flow F α) : Prop := ∃ n, poll body n f = some o

namespace Polls

variable {body : F → Flow F α} {f g : F} {o o' : Flow F α} {I : F → Prop}

/-- A pass that goes on is the first one of a poll. -/
theorem next (h : body f = .next g) : Polls body f o ↔ Polls body g o := by
  constructor
  · rintro ⟨n, hn⟩
    cases n with
    | zero => cases hn
    | succ n =>
      rw [poll, h] at hn
      exact ⟨n, hn⟩
  · rintro ⟨n, hn⟩
    refine ⟨n + 1, ?_⟩
    rw [poll, h]
    exact hn

/-- A pass that ends is a poll of its own. -/
theorem ends (h : body f = o) (hEnds : ∀ g, o ≠ .next g) : Polls body f o := by
  refine ⟨1, ?_⟩
  rw [poll, h]
  cases o with
  | next g => exact absurd rfl (hEnds g)
  | pending | ready | panic => rfl

/-- A poll ends in a pass, from a state that its passes keep. -/
theorem rule (h : Polls body f o) (hI : I f) (hStep : ∀ f g, I f → body f = .next g → I g) :
    ∃ g, I g ∧ body g = o ∧ ∀ g', o ≠ .next g' := by
  obtain ⟨n, hn⟩ := h
  -- By induction on the number of passes.
  induction n generalizing f with
  | zero => cases hn
  | succ n ih =>
    rw [poll] at hn
    split at hn
    · rename_i g hg
      exact ih (hStep f g hI hg) hn
    · rename_i hEnds
      cases hn
      exact ⟨f, hI, rfl, hEnds⟩

/-- A poll has one result, since the loop is deterministic. -/
theorem unique (h : Polls body f o) (h' : Polls body f o') : o = o' := by
  obtain ⟨n, hn⟩ := h
  induction n generalizing f with
  | zero => cases hn
  | succ n ih =>
    rw [poll] at hn
    split at hn
    · rename_i g hg
      exact ih ((next hg).mp h') hn
    · rename_i hEnds
      cases hn
      obtain ⟨m, hm⟩ := h'
      cases m with
      | zero => cases hm
      | succ m =>
        rw [poll] at hm
        split at hm
        · rename_i g hg
          exact absurd hg (hEnds g)
        · exact Option.some.inj hm

end Polls

/-- What the calls of `poll` return, one after another. -/
inductive Returned (body : F → Flow F α) (f : F) : Flow F α → Prop where
  | first {o : Flow F α} : Polls body f o → Returned body f o
  | later {g : F} {o : Flow F α} :
      Returned body f (.pending g) → Polls body g o → Returned body f o

/-- **Invariant rule** for all returns. -/
theorem Returned.rule {body : F → Flow F α} {f : F} {o : Flow F α} {I : F → Prop}
    (h : Returned body f o) (hI : I f)
    (hStep : ∀ f g, I f → body f = .next g ∨ body f = .pending g → I g) :
    ∃ g, I g ∧ body g = o ∧ ∀ g', o ≠ .next g' := by
  have hNext : ∀ f g, I f → body f = .next g → I g := fun f g hI hg => hStep f g hI (.inl hg)
  induction h with
  | first hPoll => exact hPoll.rule hI hNext
  | later _ hPoll ih =>
    obtain ⟨g', hI', hBody, -⟩ := ih
    exact hPoll.rule (hStep _ _ hI' (.inr hBody)) hNext

/-- What holds at every return. -/
theorem Returned.post {body : F → Flow F α} {f : F} {o : Flow F α} {I : F → Prop}
    {Q : Flow F α → Prop} (h : Returned body f o) (hI : I f)
    (hStep : ∀ f, I f → (body f).Keeps I Q) : Q o := by
  obtain ⟨g, hIg, rfl, hEnds⟩ := h.rule hI fun f g hIf hPass => (hStep f hIf).pass hPass
  exact (hStep g hIg).post hEnds

/-- The poll goes on with another pass. -/
theorem Returned.next {body : F → Flow F α} {f g : F} {o : Flow F α} (hBody : body f = .next g)
    (h : Returned body g o) : Returned body f o := by
  induction h with
  | first hPoll => exact .first ((Polls.next hBody).mpr hPoll)
  | later _ hPoll ih => exact .later ih hPoll

/-- The future is polled again. -/
theorem Returned.pending {body : F → Flow F α} {f g : F} {o : Flow F α}
    (hBody : body f = .pending g) (h : Returned body g o) : Returned body f o := by
  have hFirst : Returned body f (.pending g) := .first (.ends hBody fun _ hEq => nomatch hEq)
  induction h with
  | first hPoll => exact .later hFirst hPoll
  | later _ hPoll ih => exact .later ih hPoll

-- ---------------------------------------------------------------------------
-- Awaiting
-- ---------------------------------------------------------------------------

/-- The future `f` is polled until it is ready, with `x`; it is `f'` then. -/
inductive Await (body : F → Flow F α) : F → F → α → Prop where
  | ready {f f' : F} {x : α} : body f = .ready f' x → Await body f f' x
  | next {f g f' : F} {x : α} : body f = .next g → Await body g f' x → Await body f f' x
  | pending {f g f' : F} {x : α} : body f = .pending g → Await body g f' x → Await body f f' x

namespace Await

variable {body : F → Flow F α} {f f' f'' : F} {x y : α} {I : F → Prop} {μ : F → Nat}
  {waits : F → F → Prop} {Q : F → α → Prop}

/-- An await has one result, for the same reason. -/
theorem unique (h : Await body f f' x) (h' : Await body f f'' y) : f' = f'' ∧ x = y := by
  induction h with
  | ready hBody =>
    cases h' with
    | ready hBody' =>
      cases hBody.symm.trans hBody'
      exact ⟨rfl, rfl⟩
    | next hBody' | pending hBody' => cases hBody.symm.trans hBody'
  | next hBody _ ih =>
    cases h' with
    | next hBody' hRest =>
      cases hBody.symm.trans hBody'
      exact ih hRest
    | ready hBody' | pending hBody' => cases hBody.symm.trans hBody'
  | pending hBody _ ih =>
    cases h' with
    | pending hBody' hRest =>
      cases hBody.symm.trans hBody'
      exact ih hRest
    | ready hBody' | next hBody' => cases hBody.symm.trans hBody'

/-- **Invariant rule** for what the future is ready with. -/
theorem rule (h : Await body f f' x) (hI : I f)
    (hStep : ∀ f g, I f → body f = .next g ∨ body f = .pending g → I g) :
    ∃ g, I g ∧ body g = .ready f' x := by
  induction h with
  | ready hBody => exact ⟨_, hI, hBody⟩
  | next hBody _ ih => exact ih (hStep _ _ hI (.inl hBody))
  | pending hBody _ ih => exact ih (hStep _ _ hI (.inr hBody))

/-- What holds of all that the passes return holds when the future is ready. -/
theorem keeps {Q : Flow F α → Prop} (h : Await body f f' x) (hI : I f)
    (hStep : ∀ f, I f → (body f).Keeps I Q) : Q (.ready f' x) := by
  obtain ⟨g, hIg, hBody⟩ := h.rule hI fun f g hIf hPass => (hStep f hIf).pass hPass
  rw [← hBody]
  exact (hStep g hIg).post fun _ hEq => nomatch hBody.symm.trans hEq

/-- What the passes establish holds of the result. -/
theorem post (h : Await body f f' x) (hI : I f)
    (hStep : ∀ f, I f → (body f).Meets I μ waits Q f) : Q f' x :=
  h.keeps hI (fun f hIf => (hStep f hIf).keeps) f' x rfl

/-- The future gets ready, if it never waits forever. -/
theorem total (hI : I f) (hStep : ∀ f, I f → (body f).Meets I μ waits Q f)
    (hWaits : ∀ f, I f → Acc waits f) : ∃ f' x, Await body f f' x := by
  -- on the measure, and with the measure unchanged on the waits
  induction hμ : μ f using Nat.strong_induction_on generalizing f with
  | _ m ih =>
    induction hWaits f hI with
    | intro f _ ihWaits =>
      have hPass := hStep f hI
      cases hBody : body f with
      | next g =>
        rw [hBody] at hPass
        obtain ⟨f', x, hRest⟩ := ih (μ g) (hμ ▸ hPass.2) hPass.1 rfl
        exact ⟨f', x, .next hBody hRest⟩
      | pending g =>
        rw [hBody] at hPass
        obtain ⟨f', x, hRest⟩ := ihWaits g hPass.2.2 hPass.1 (hPass.2.1.trans hμ)
        exact ⟨f', x, .pending hBody hRest⟩
      | ready f' x => exact ⟨f', x, .ready hBody⟩
      | panic =>
        rw [hBody] at hPass
        exact hPass.elim

end Await

/-- The future gets ready with `Q` only, and it does get ready if `live` holds. -/
def Yields (live : Prop) (body : F → Flow F α) (f : F) (Q : F → α → Prop) : Prop :=
  (∀ f' x, Await body f f' x → Q f' x) ∧ (live → ∃ f' x, Await body f f' x)

/-- By an invariant that every pass keeps, a measure that falls, and an order of the waits that
ends. -/
theorem Yields.intro {live : Prop} {body : F → Flow F α} {f : F} {Q : F → α → Prop}
    (I : F → Prop) (μ : F → Nat) (waits : F → F → Prop) (hI : I f)
    (hStep : ∀ f, I f → (body f).Meets I μ waits Q f)
    (hWaits : live → ∀ f, I f → Acc waits f) : Yields live body f Q :=
  ⟨fun _ _ h => h.post hI hStep, fun hLive => Await.total hI hStep (hWaits hLive)⟩

/-- A weaker postcondition. -/
theorem Yields.mono {live : Prop} {body : F → Flow F α} {f : F} {Q Q' : F → α → Prop}
    (h : Yields live body f Q) (hQ : ∀ f x, Q f x → Q' f x) : Yields live body f Q' :=
  ⟨fun f' x hAwait => hQ f' x (h.1 f' x hAwait), h.2⟩

/-- Awaiting a future is to call `poll` until it does not return `Pending`. -/
theorem await_iff_polls {body : F → Flow F α} {f f' : F} {x : α} :
    Await body f f' x ↔ Polls body f (.ready f' x) ∨
      ∃ g, Polls body f (.pending g) ∧ Await body g f' x := by
  constructor
  · intro h
    -- along the await: its steps up to the first `pending` are one poll
    induction h with
    | ready hBody => exact .inl (.ends hBody fun _ h => nomatch h)
    | next hBody _ ih =>
      rcases ih with hReady | ⟨g, hPending, hRest⟩
      · exact .inl ((Polls.next hBody).mpr hReady)
      · exact .inr ⟨g, (Polls.next hBody).mpr hPending, hRest⟩
    | pending hBody hRest _ => exact .inr ⟨_, Polls.ends hBody fun _ h => (nomatch h), hRest⟩
  · -- induction on the fuel of the poll
    have hPolls : ∀ n f o, poll body n f = some o → (∀ g, o = .pending g → Await body g f' x) →
        (o = .ready f' x ∨ ∃ g, o = .pending g) → Await body f f' x := by
      intro n
      induction n with
      | zero => exact fun f o h => nomatch h
      | succ n ih =>
        intro f o hn hRest hEnd
        rw [poll] at hn
        split at hn
        · rename_i g hg
          exact .next hg (ih g o hn hRest hEnd)
        · cases hn
          rcases hEnd with hReady | ⟨g, hPending⟩
          · exact .ready hReady
          · exact .pending hPending (hRest g hPending)
    rintro (⟨n, hn⟩ | ⟨g, ⟨n, hn⟩, hRest⟩)
    · exact hPolls n f _ hn (fun g h => nomatch h) (.inl rfl)
    · refine hPolls n f _ hn (fun g' h => ?_) (.inr ⟨g, rfl⟩)
      cases h
      exact hRest

-- ---------------------------------------------------------------------------
-- Stages
-- ---------------------------------------------------------------------------

/-- After a pass, the future is awaited on. -/
inductive Resume (body : F → Flow F α) : Flow F α → F → α → Prop where
  | ready {f' : F} {x : α} : Resume body (.ready f' x) f' x
  | next {g f' : F} {x : α} : Await body g f' x → Resume body (.next g) f' x
  | pending {g f' : F} {x : α} : Await body g f' x → Resume body (.pending g) f' x

/-- An await begins with its first pass. -/
theorem await_iff_resume {body : F → Flow F α} {f f' : F} {x : α} :
    Await body f f' x ↔ Resume body (body f) f' x := by
  constructor
  · rintro (hBody | ⟨hBody, hRest⟩ | ⟨hBody, hRest⟩)
    · rw [hBody]
      exact .ready
    · rw [hBody]
      exact .next hRest
    · rw [hBody]
      exact .pending hRest
  · intro h
    generalize hBody : body f = o at h
    cases h with
    | ready => exact .ready hBody
    | next hRest => exact .next hBody hRest
    | pending hRest => exact .pending hBody hRest

/-- A future that awaits `f` gets ready when `f` does, and it is awaited on from
there. -/
theorem await_stage {inner : F → Flow F α} {body : G → Flow G β} {k : F → α → Flow G β}
    (wrap : F → G) (hBody : ∀ f, body (wrap f) = (inner f).stage wrap k) {f : F} {g : G}
    {y : β} : Await body (wrap f) g y ↔
      ∃ f' x, Await inner f f' x ∧ Resume body (k f' x) g y := by
  constructor
  · intro h
    -- along the await of the outer body; the inner one is at its own step
    generalize hWrap : wrap f = g₀ at h
    induction h generalizing f with
    | ready hPass =>
      rw [← hWrap, hBody] at hPass
      cases hInner : inner f with
      | next | pending | panic =>
        rw [hInner] at hPass
        cases hPass
      | ready f' x =>
        rw [hInner] at hPass
        have hAfter : k f' x = _ := hPass
        -- the stage ends in this very step, and what follows is the rest
        exact ⟨f', x, .ready hInner, hAfter ▸ .ready⟩
    | next hPass hRest ih =>
      rw [← hWrap, hBody] at hPass
      cases hInner : inner f with
      | next f₁ =>
        rw [hInner] at hPass
        cases hPass
        obtain ⟨f', x, hAwait, hAfter⟩ := ih rfl
        exact ⟨f', x, .next hInner hAwait, hAfter⟩
      | pending | panic =>
        rw [hInner] at hPass
        cases hPass
      | ready f' x =>
        rw [hInner] at hPass
        have hAfter : k f' x = _ := hPass
        exact ⟨f', x, .ready hInner, hAfter ▸ .next hRest⟩
    | pending hPass hRest ih =>
      rw [← hWrap, hBody] at hPass
      cases hInner : inner f with
      | pending f₁ =>
        rw [hInner] at hPass
        cases hPass
        obtain ⟨f', x, hAwait, hAfter⟩ := ih rfl
        exact ⟨f', x, .pending hInner hAwait, hAfter⟩
      | next | panic =>
        rw [hInner] at hPass
        cases hPass
      | ready f' x =>
        rw [hInner] at hPass
        have hAfter : k f' x = _ := hPass
        exact ⟨f', x, .ready hInner, hAfter ▸ .pending hRest⟩
  · rintro ⟨f', x, hAwait, hAfter⟩
    -- back: the inner await first, then what follows it
    induction hAwait with
    | ready hInner =>
      rw [await_iff_resume, hBody, hInner]
      exact hAfter
    | next hInner _ ih =>
      refine .next (g := wrap _) ?_ (ih hAfter)
      rw [hBody, hInner]
      rfl
    | pending hInner _ ih =>
      refine .pending (g := wrap _) ?_ (ih hAfter)
      rw [hBody, hInner]
      rfl

@[simp]
theorem resume_next {body : F → Flow F α} {g f' : F} {x : α} :
    Resume body (.next g) f' x ↔ Await body g f' x :=
  ⟨fun | .next h => h, .next⟩

@[simp]
theorem resume_ready {body : F → Flow F α} {g f' : F} {x y : α} :
    Resume body (.ready g x) f' y ↔ f' = g ∧ y = x :=
  ⟨fun | .ready => ⟨rfl, rfl⟩, fun ⟨hf, hx⟩ => hf ▸ hx ▸ .ready⟩

/-- A future that awaits another one begins where that one ends. -/
theorem Yields.stage {live : Prop} {inner : F → Flow F α} {body : G → Flow G β}
    {k : F → α → Flow G β} {f : F} {Q : F → α → Prop} {Q' : G → β → Prop}
    (h : Yields live inner f Q) (wrap : F → G)
    (hBody : ∀ f, body (wrap f) = (inner f).stage wrap k)
    (hAfter : ∀ f x, Q f x → (∀ g y, Resume body (k f x) g y → Q' g y) ∧
      (live → ∃ g y, Resume body (k f x) g y)) : Yields live body (wrap f) Q' := by
  constructor
  · intro g y hAwait
    obtain ⟨f', x, hInner, hResume⟩ := (await_stage wrap hBody).mp hAwait
    exact (hAfter f' x (h.1 f' x hInner)).1 g y hResume
  · intro hLive
    obtain ⟨f', x, hInner⟩ := h.2 hLive
    obtain ⟨g, y, hResume⟩ := (hAfter f' x (h.1 f' x hInner)).2 hLive
    exact ⟨g, y, (await_stage wrap hBody).mpr ⟨f', x, hInner, hResume⟩⟩

/-- The same where a loop follows that is judged by itself. -/
theorem Yields.andThen {live : Prop} {inner : F → Flow F α} {body : G → Flow G β}
    {k : F → α → Flow G β} {f : F} {Q : F → α → Prop} {Q' : G → β → Prop}
    (h : Yields live inner f Q) (wrap : F → G)
    (hBody : ∀ f, body (wrap f) = (inner f).stage wrap k)
    (hAfter : ∀ f x, Q f x → ∃ g, k f x = .next g ∧ Yields live body g Q') :
    Yields live body (wrap f) Q' := by
  refine h.stage wrap hBody fun f x hQ => ?_
  obtain ⟨g, hNext, hYields⟩ := hAfter f x hQ
  simp only [hNext, resume_next]
  exact hYields

end Embassy.Lib
