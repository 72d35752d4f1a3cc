import Mathlib.Data.List.TakeWhile
import Embassy.Util.Signal

/-!
# Portals

`embassy/src/util/portal.rs` and `drop_bomb.rs`. A future of `wait_once` or `wait_many`
leaves a pointer to its closure in the portal, and `call` runs that closure in the task of
the caller. The portal belongs to one thread, so what happens while a closure runs happens
inside of it: `stack` holds the futures whose closures run, and every action may come at
any depth.

Futures are numbered in the order of their first polls. A panic is `none`, and so is the
bomb of a future that is dropped before it is ready.

Main results:

* `portal_safe` — the pointer is to a closure that exists and does not run.
* `portal_delivers` — which values a closure is called with, and what its future returns.
-/

namespace Embassy.Util

open Embassy.Lib

inductive PortalState where
  | none
  | running
  /-- The closure of a future. -/
  | waiting (func : Nat)
  deriving DecidableEq, Repr

/-- Which of the two functions. -/
inductive PortalWait where
  | once
  | many
  deriving DecidableEq, Repr

/-- A future of `wait_once` or `wait_many`, from its first poll on. -/
structure WaitFuture (Task R : Type) where
  wait : PortalWait
  signal : Signal Task Unit
  /-- `none` is memory that is not initialised. -/
  result : Option R
  /-- It was ready; its bomb is defused. -/
  done : Bool
  /-- The task that polled it first. -/
  task : Task
  deriving DecidableEq, Repr

structure Portal (Task R : Type) where
  state : PortalState
  futures : List (WaitFuture Task R)
  /-- The futures whose closures run, the innermost first. -/
  stack : List Nat
  deriving DecidableEq, Repr

inductive PortalAction (Task T R : Type) where
  /-- The first poll of a new future. -/
  | wait (m : PortalWait) (w : Task)
  | poll (p : Nat) (w : Task)
  | drop (p : Nat)
  | call (val : T)
  /-- The innermost closure returns; `wait_once` takes no `None`. -/
  | ret (res : Option R)
  deriving DecidableEq, Repr

inductive PortalEvent (Task T R : Type) where
  | waits (p : Nat) (m : PortalWait) (w : Task)
  /-- With the future whose closure is called. -/
  | called (val : T) (func : Option Nat)
  /-- With the task that is woken. -/
  | returned (p : Nat) (res : Option R) (woken : Option Task)
  | completed (p : Nat) (r : R)
  deriving DecidableEq, Repr

variable {Task T R : Type}

namespace PortalEvent

variable {p : Nat} {m : PortalWait} {e : PortalEvent Task T R} {es : List (PortalEvent Task T R)}

/-- The values that `call` was called with. -/
def values (es : List (PortalEvent Task T R)) : List T :=
  es.filterMap fun
    | .called val _ => some val
    | _ => none

/-- Those of them that the closure was called with. -/
def heard (p : Nat) (es : List (PortalEvent Task T R)) : List T :=
  es.filterMap fun
    | .called val func => if func = some p then some val else none
    | _ => none

/-- What the closure returned. -/
def answers (p : Nat) (es : List (PortalEvent Task T R)) : List (Option R) :=
  es.filterMap fun
    | .returned q res _ => if q = p then some res else none
    | _ => none

/-- What the future returned. -/
def results (p : Nat) (es : List (PortalEvent Task T R)) : List R :=
  es.filterMap fun
    | .completed q r => if q = p then some r else none
    | _ => none

def finishes (p : Nat) : PortalEvent Task T R → Bool
  | .returned q (some _) _ => q == p
  | _ => false

/-- The values that are for the closure, of those after the first poll of its future. -/
def offered (m : PortalWait) (p : Nat) (es : List (PortalEvent Task T R)) : List T :=
  match m with
  | .once => (values es).take 1
  | .many => values (es.takeWhile fun e => !finishes p e)

theorem values_append (es es' : List (PortalEvent Task T R)) :
    values (es ++ es') = values es ++ values es' := List.filterMap_append ..

theorem heard_append (es es' : List (PortalEvent Task T R)) :
    heard p (es ++ es') = heard p es ++ heard p es' := List.filterMap_append ..

theorem answers_append (es es' : List (PortalEvent Task T R)) :
    answers p (es ++ es') = answers p es ++ answers p es' := List.filterMap_append ..

theorem results_append (es es' : List (PortalEvent Task T R)) :
    results p (es ++ es') = results p es ++ results p es' := List.filterMap_append ..

theorem finishes_iff : finishes p e = true ↔ ∃ r woken, e = .returned p (some r) woken := by
  constructor
  · intro h
    unfold finishes at h
    split at h
    · rw [beq_iff_eq] at h
      exact ⟨_, _, by rw [h]⟩
    · cases h
  · rintro ⟨r, woken, rfl⟩
    exact beq_self_eq_true p

theorem mem_answers {res : Option R} :
    res ∈ answers p es ↔ ∃ woken, .returned p res woken ∈ es := by
  unfold answers
  rw [List.mem_filterMap]
  constructor
  · rintro ⟨e, he, hSome⟩
    split at hSome
    · obtain ⟨rfl, hRes⟩ := Option.ite_none_right_eq_some.mp hSome
      cases hRes
      exact ⟨_, he⟩
    · cases hSome
  · rintro ⟨woken, he⟩
    exact ⟨_, he, if_pos rfl⟩

/-- Before the closure has finished everything is for it. -/
theorem takeWhile_of_none (h : ∀ res ∈ answers p es, res = none) :
    (es.takeWhile fun e => !finishes p e) = es := by
  rw [List.takeWhile_eq_self_iff]
  intro e he
  by_contra hNot
  obtain ⟨r, woken, rfl⟩ := finishes_iff.mp (by simpa using hNot)
  cases h (some r) (mem_answers.mpr ⟨woken, he⟩)

/-- An event that is no call offers nothing. -/
theorem offered_silent (h : values [e] = []) : offered m p (es ++ [e]) = offered m p es := by
  unfold offered
  cases m with
  | once => rw [values_append, h, List.append_nil]
  | many =>
    simp only [List.takeWhile_append]
    split
    · rename_i hAll
      -- The closure has not finished: the event is still within what counts.
      have hSelf := (List.takeWhile_sublist _).eq_of_length hAll
      rw [values_append, hSelf]
      cases hFirst : finishes p e with
      | true => simp [hFirst, values]
      | false => simp [hFirst, h]
    · rfl

/-- What comes later is not for it. -/
theorem offered_closed (h : m = .once ∧ values es ≠ [] ∨ m = .many ∧ ∃ r, some r ∈ answers p es) :
    offered m p (es ++ [e]) = offered m p es := by
  unfold offered
  rcases h with ⟨rfl, hSome⟩ | ⟨rfl, r, hMem⟩
  · have := List.length_pos_iff.mpr hSome
    simp only
    rw [values_append, List.take_append_of_le_length (by omega)]
  · obtain ⟨woken, hMem⟩ := mem_answers.mp hMem
    have hLess : ¬(es.takeWhile fun e => !finishes p e).length = es.length := by
      intro hAll
      have hSelf := (List.takeWhile_sublist _).eq_of_length hAll
      have hOpen := List.takeWhile_eq_self_iff.mp hSelf _ hMem
      rw [finishes_iff.mpr ⟨r, woken, rfl⟩] at hOpen
      cases hOpen
    simp only [List.takeWhile_append, if_neg hLess]

end PortalEvent

namespace Portal

def new : Portal Task R where
  state := .none
  futures := []
  stack := []

def wait [DecidableEq Task] (s : Portal Task R) (m : PortalWait) (w : Task) :
    Option (Portal Task R) :=
  match s.state with
  | .none => do
    let (signal, _) ← (Signal.none : Signal Task Unit).pollWait w
    some { s with
      state := .waiting s.futures.length
      futures := s.futures ++ [⟨m, signal, none, false, w⟩] }
  -- "Multiple tasks waiting on same portal"
  | _ => none

def put (s : Portal Task R) (p : Nat) (f : WaitFuture Task R) : Portal Task R :=
  { s with futures := s.futures.set p f }

/-- With the value that the future returns. -/
def poll [DecidableEq Task] (s : Portal Task R) (p : Nat) (w : Task) :
    Option (Portal Task R × Option R) := do
  let f ← s.futures[p]?
  if f.done then none
  else
    match ← f.signal.pollWait w with
    | (signal, .pending) => some (s.put p { f with signal := signal }, none)
    | (signal, .ready ()) =>
      let r ← f.result
      some (s.put p { f with signal := signal, done := true }, some r)

def call (s : Portal Task R) : Option (Portal Task R) :=
  match s.state with
  | .none => some s
  -- "Portall::call() called reentrantly"
  | .running => none
  | .waiting p => do
    let f ← s.futures[p]?
    match f.wait with
    | .once => some { s with state := .none, stack := p :: s.stack }
    | .many => some { s with state := .running, stack := p :: s.stack }

/-- The future has its result, and its task is woken. -/
def finish (s : Portal Task R) (p : Nat) (f : WaitFuture Task R) (r : R) : Portal Task R :=
  s.put p { f with result := some r, signal := (f.signal.signal ()).1 }

/-- With the future whose closure returns, and the task that is woken. -/
def ret (s : Portal Task R) (res : Option R) : Option (Portal Task R × Nat × Option Task) :=
  match s.stack with
  | [] => none
  | p :: stack => do
    let f ← s.futures[p]?
    match f.wait, res with
    | .once, none => none
    | .once, some r => some ({ s.finish p f r with stack := stack }, p, (f.signal.signal ()).2)
    | .many, none => some ({ s with state := .waiting p, stack := stack }, p, none)
    | .many, some r =>
      some ({ s.finish p f r with state := .none, stack := stack }, p, (f.signal.signal ()).2)

def step [DecidableEq Task] (s : Portal Task R) : PortalAction Task T R → Option (Portal Task R)
  | .wait m w => s.wait m w
  | .poll p w => (s.poll p w).map Prod.fst
  | .drop p => do
    let f ← s.futures[p]?
    if f.done then some s else none
  | .call _ => s.call
  | .ret res => (s.ret res).map Prod.fst

/-- Whose closure a call runs. -/
def listener (s : Portal Task R) : Option Nat :=
  match s.state with
  | .waiting p => some p
  | _ => none

def emit [DecidableEq Task] (s : Portal Task R) :
    PortalAction Task T R → List (PortalEvent Task T R)
  | .wait m w => [.waits s.futures.length m w]
  | .poll p w => ((s.poll p w).bind Prod.snd).toList.map (.completed p)
  | .drop _ => []
  | .call val => [.called val s.listener]
  | .ret res => (s.ret res).toList.map fun o => .returned o.2.1 res o.2.2

-- ---------------------------------------------------------------------------
-- The invariant
-- ---------------------------------------------------------------------------

/-- Its closure has not finished. -/
structure Open (f : WaitFuture Task R) : Prop where
  done : f.done = false
  result : f.result = none
  signal : f.signal = .waiting f.task

structure Inv (s : Portal Task R) : Prop where
  waiting : ∀ p, s.state = .waiting p → ∃ f, s.futures[p]? = some f ∧ Open f
  stack : ∀ p ∈ s.stack, ∃ f, s.futures[p]? = some f ∧ Open f
  nodup : s.stack.Nodup
  apart : ∀ p, s.state = .waiting p → p ∉ s.stack
  /-- While a closure of `wait_many` runs it is the innermost. -/
  many : ∀ p ∈ s.stack, ∀ f, s.futures[p]? = some f → f.wait = .many →
    s.state = .running ∧ s.stack.head? = some p
  running : s.state = .running →
    ∃ p f, s.stack.head? = some p ∧ s.futures[p]? = some f ∧ f.wait = .many
  closed : ∀ p f, s.futures[p]? = some f → f.done = false → s.state ≠ .waiting p → p ∉ s.stack →
    f.signal = .signaled () ∧ f.result ≠ none

/-- What a step does, in a state with the invariant. -/
inductive Effect (s : Portal Task R) : List (PortalEvent Task T R) → Portal Task R → Prop where
  | wait (m : PortalWait) (w : Task) : s.state = .none →
      Effect s [.waits s.futures.length m w] { s with
        state := .waiting s.futures.length
        futures := s.futures ++ [⟨m, .waiting w, none, false, w⟩] }
  | same : Effect s [] s
  | completed {p : Nat} {f : WaitFuture Task R} {r : R} : s.futures[p]? = some f →
      f.done = false → f.result = some r →
      Effect s [.completed p r]
        { s with futures := s.futures.set p { f with signal := .none, done := true } }
  | unheard (val : T) : s.state = .none → Effect s [.called val none] s
  | heard (val : T) {p : Nat} {f : WaitFuture Task R} : s.state = .waiting p →
      s.futures[p]? = some f →
      Effect s [.called val (some p)] { s with
        state := if f.wait = .once then .none else .running
        stack := p :: s.stack }
  | again {p : Nat} {f : WaitFuture Task R} {stack : List Nat} : s.stack = p :: stack →
      s.futures[p]? = some f → f.wait = .many →
      Effect s [.returned p none none] { s with state := .waiting p, stack := stack }
  | finished {p : Nat} {f : WaitFuture Task R} {stack : List Nat} (r : R) :
      s.stack = p :: stack → s.futures[p]? = some f →
      Effect s [.returned p (some r) (some f.task)] {
        state := if f.wait = .once then s.state else .none
        futures := s.futures.set p { f with result := some r, signal := .signaled () }
        stack := stack }

variable {s s' : Portal Task R} {a : PortalAction Task T R}
  {es : List (PortalEvent Task T R)}

theorem set_self {p : Nat} {f : WaitFuture Task R} (hf : s.futures[p]? = some f) :
    s.futures.set p f = s.futures := by
  refine List.ext_getElem? fun q => ?_
  by_cases hq : p = q
  · rw [← hq, hf, List.getElem?_set_self (List.getElem?_eq_some_iff.mp hf).1]
  · rw [List.getElem?_set_ne hq]

/-- A step has one of the effects, since what it finds in the portal is as `Inv` says. -/
theorem effect_of_step [DecidableEq Task] (hI : Inv s) (hs : s.step a = some s') :
    Effect s (s.emit a) s' := by
  cases a with
  | wait m w =>
    simp only [step, wait] at hs
    split at hs
    · rename_i hState
      cases hs
      exact .wait m w hState
    · cases hs
  | poll p w =>
    obtain ⟨⟨u, r⟩, hPoll, rfl⟩ := Option.map_eq_some_iff.mp hs
    have hEmit : s.emit (T := T) (.poll p w) = r.toList.map (.completed p) := by
      simp only [emit, hPoll, Option.bind_some]
    rw [hEmit]
    obtain ⟨f, hf, hPoll⟩ := Option.bind_eq_some_iff.mp hPoll
    obtain ⟨hDone, hPoll⟩ := Option.ite_none_left_eq_some.mp hPoll
    obtain ⟨⟨signal, poll⟩, hSignal, hPoll⟩ := Option.bind_eq_some_iff.mp hPoll
    have hOpen : f.done = false := Bool.eq_false_iff.mpr hDone
    -- a closure that has not finished leaves the waker, and one that has signals
    have hCases : Open f ∨ f.signal = .signaled () ∧ f.result ≠ none := by
      by_cases hWaiting : s.state = .waiting p
      · obtain ⟨f', hf', hOpen'⟩ := hI.waiting p hWaiting
        cases hf.symm.trans hf'
        exact .inl hOpen'
      · by_cases hStack : p ∈ s.stack
        · obtain ⟨f', hf', hOpen'⟩ := hI.stack p hStack
          cases hf.symm.trans hf'
          exact .inl hOpen'
        · exact .inr (hI.closed p f hf hOpen hWaiting hStack)
    rcases hCases with hF | ⟨hSignaled, -⟩
    · rw [hF.signal] at hSignal
      obtain ⟨-, hSame⟩ := Option.ite_none_right_eq_some.mp hSignal
      cases hSame
      cases hPoll
      have hEq : ({ f with signal := .waiting f.task } : WaitFuture Task R) = f := by
        rw [← hF.signal]
      show Effect s [] (s.put p { f with signal := .waiting f.task })
      rw [hEq, put, set_self hf]
      exact .same
    · rw [hSignaled] at hSignal
      cases hSignal
      obtain ⟨r', hResult, hPoll⟩ := Option.bind_eq_some_iff.mp hPoll
      cases hPoll
      exact .completed hf hOpen hResult
  | drop p =>
    obtain ⟨f, -, hs⟩ := Option.bind_eq_some_iff.mp hs
    obtain ⟨-, hs⟩ := Option.ite_none_right_eq_some.mp hs
    cases hs
    exact .same
  | call val =>
    simp only [step, call] at hs
    cases hState : s.state with
    | none =>
      rw [hState] at hs
      cases hs
      simp only [emit, listener, hState]
      exact .unheard val hState
    | running =>
      rw [hState] at hs
      cases hs
    | waiting p =>
      rw [hState] at hs
      obtain ⟨f, hf, hs⟩ := Option.bind_eq_some_iff.mp hs
      have hHeard := Effect.heard val hState hf
      simp only [emit, listener, hState]
      split at hs
      · rename_i hWait
        cases hs
        rw [if_pos hWait] at hHeard
        exact hHeard
      · rename_i hWait
        cases hs
        rw [if_neg (by rw [hWait]; exact fun h => nomatch h)] at hHeard
        exact hHeard
  | ret res =>
    obtain ⟨⟨u, p, woken⟩, hRet, rfl⟩ := Option.map_eq_some_iff.mp hs
    have hEmit : s.emit (T := T) (.ret res) = [.returned p res woken] := by
      simp only [emit, hRet, Option.toList_some, List.map_cons, List.map_nil]
    rw [hEmit]
    unfold ret at hRet
    split at hRet
    · cases hRet
    · rename_i p' stack hStack
      obtain ⟨f, hf, hRet⟩ := Option.bind_eq_some_iff.mp hRet
      obtain ⟨f', hf', hF⟩ := hI.stack p' (hStack ▸ List.mem_cons_self ..)
      cases hf.symm.trans hf'
      have hSignal : f.signal.signal () = (.signaled (), some f.task) := by
        rw [hF.signal]
        rfl
      split at hRet
      · cases hRet
      · rename_i r hWait _
        have hFinished := Effect.finished (T := T) r hStack hf
        simp only [finish, hSignal] at hRet
        cases hRet
        rw [if_pos hWait] at hFinished
        exact hFinished
      · rename_i hWait _
        cases hRet
        exact .again hStack hf hWait
      · rename_i r hWait _
        have hFinished := Effect.finished (T := T) r hStack hf
        simp only [finish, hSignal] at hRet
        cases hRet
        rw [if_neg (by rw [hWait]; exact fun h => nomatch h)] at hFinished
        exact hFinished

/-- Another future stays as it is. -/
theorem set_other {p q : Nat} {f g g' : WaitFuture Task R} (hg : s.futures[q]? = some g)
    (hf : s.futures[p]? = some f) (hNe : g ≠ f) : (s.futures.set p g')[q]? = some g := by
  have hq : p ≠ q := fun hEq => hNe (Option.some.inj (hg.symm.trans (hEq ▸ hf)))
  rw [List.getElem?_set_ne hq]
  exact hg

theorem of_set {p q : Nat} {g g' : WaitFuture Task R} (h : (s.futures.set p g')[q]? = some g) :
    p = q ∧ g = g' ∨ p ≠ q ∧ s.futures[q]? = some g := by
  by_cases hq : p = q
  · obtain ⟨hLt, hg⟩ := List.getElem?_eq_some_iff.mp h
    subst hq
    rw [List.getElem_set_self] at hg
    exact .inl ⟨rfl, hg.symm⟩
  · rw [List.getElem?_set_ne hq] at h
    exact .inr ⟨hq, h⟩

theorem of_concat {q : Nat} {g g' : WaitFuture Task R}
    (h : (s.futures ++ [g'])[q]? = some g) :
    s.futures[q]? = some g ∨ q = s.futures.length ∧ g = g' := by
  rcases Nat.lt_trichotomy q s.futures.length with hLt | hEq | hGt
  · rw [List.getElem?_append_left hLt] at h
    exact .inl h
  · rw [hEq, List.getElem?_concat_length] at h
    exact .inr ⟨hEq, (Option.some.inj h).symm⟩
  · rw [List.getElem?_eq_none (by rw [List.length_append, List.length_singleton]; omega)] at h
    cases h

theorem concat_old {q : Nat} {g g' : WaitFuture Task R} (h : s.futures[q]? = some g) :
    (s.futures ++ [g'])[q]? = some g := by
  rw [List.getElem?_append_left (List.getElem?_eq_some_iff.mp h).1]
  exact h

theorem inv_new : Inv (new : Portal Task R) where
  waiting := fun _ h => nomatch h
  stack := fun _ h => nomatch h
  nodup := List.nodup_nil
  apart := fun _ h => nomatch h
  many := fun _ h => nomatch h
  running := fun h => nomatch h
  closed := fun _ _ h => nomatch h

/-- A closure of `wait_many` runs only if the portal says so. -/
theorem Inv.once {p : Nat} {f : WaitFuture Task R} (hI : Inv s) (hState : s.state ≠ .running)
    (hStack : p ∈ s.stack) (hf : s.futures[p]? = some f) : f.wait = .once := by
  cases hWait : f.wait with
  | once => rfl
  | many => exact absurd (hI.many p hStack f hf hWait).1 hState

/-- A new future listens. -/
theorem Inv.wait (hI : Inv s) (m : PortalWait) (w : Task) (hState : s.state = .none) :
    Inv { s with
      state := .waiting s.futures.length
      futures := s.futures ++ [⟨m, .waiting w, none, false, w⟩] } := by
  -- the new future is the last in the list, so no running closure is its
  have hOld : ∀ p ∈ s.stack, p < s.futures.length := fun p hp => by
    obtain ⟨f, hf, -⟩ := hI.stack p hp
    exact (List.getElem?_eq_some_iff.mp hf).1
  constructor
  case waiting =>
    rintro p ⟨⟩
    exact ⟨_, List.getElem?_concat_length, ⟨rfl, rfl, rfl⟩⟩
  case stack =>
    intro p hp
    obtain ⟨f, hf, hOpen⟩ := hI.stack p hp
    exact ⟨f, concat_old hf, hOpen⟩
  case nodup => exact hI.nodup
  case apart =>
    rintro p ⟨⟩ hp
    exact Nat.lt_irrefl _ (hOld _ hp)
  case many =>
    intro p hp f hf hWait
    rcases of_concat hf with hf | ⟨rfl, -⟩
    · cases hState.symm.trans (hI.many p hp f hf hWait).1
    · exact absurd (hOld _ hp) (Nat.lt_irrefl _)
  case running => exact fun h => nomatch h
  case closed =>
    intro p f hf hDone hNot hp
    rcases of_concat hf with hf | ⟨rfl, -⟩
    · exact hI.closed p f hf hDone (by rw [hState]; exact fun h => nomatch h) hp
    · exact absurd rfl hNot

/-- A future that is ready is no longer the portal's concern. -/
theorem Inv.completed {p : Nat} {f : WaitFuture Task R} {r : R} (hI : Inv s)
    (hf : s.futures[p]? = some f) (hResult : f.result = some r) :
    Inv { s with futures := s.futures.set p { f with signal := .none, done := true } } := by
  -- a future with a result is not open
  have hNe : ∀ g, Open g → g ≠ f := by
    rintro g hOpen rfl
    cases hResult.symm.trans hOpen.result
  constructor
  case waiting =>
    intro q hq
    obtain ⟨g, hg, hOpen⟩ := hI.waiting q hq
    exact ⟨g, set_other hg hf (hNe g hOpen), hOpen⟩
  case stack =>
    intro q hq
    obtain ⟨g, hg, hOpen⟩ := hI.stack q hq
    exact ⟨g, set_other hg hf (hNe g hOpen), hOpen⟩
  case nodup => exact hI.nodup
  case apart => exact hI.apart
  case many =>
    intro q hq g hg hWait
    rcases of_set hg with ⟨rfl, rfl⟩ | ⟨-, hg⟩
    · exact hI.many _ hq f hf hWait
    · exact hI.many q hq g hg hWait
  case running =>
    intro hRunning
    obtain ⟨q, g, hHead, hg, hWait⟩ := hI.running hRunning
    by_cases hq : p = q
    · subst hq
      cases hf.symm.trans hg
      exact ⟨_, _, hHead, List.getElem?_set_self (List.getElem?_eq_some_iff.mp hf).1, hWait⟩
    · exact ⟨q, g, hHead, by rw [List.getElem?_set_ne hq]; exact hg, hWait⟩
  case closed =>
    intro q g hg hDone hNot hq
    rcases of_set hg with ⟨-, rfl⟩ | ⟨-, hg⟩
    · cases hDone
    · exact hI.closed q g hg hDone hNot hq

/-- The closure that listened runs, inside of those that ran already. -/
theorem Inv.heard {p : Nat} {f : WaitFuture Task R} (hI : Inv s) (hState : s.state = .waiting p)
    (hf : s.futures[p]? = some f) :
    Inv { s with
      state := if f.wait = .once then .none else .running
      stack := p :: s.stack } := by
  -- the closure that is called goes on the stack
  have hNot : s.state ≠ .running := by
    rw [hState]
    exact fun h => nomatch h
  have hNone : ∀ q, (if f.wait = .once then PortalState.none else .running) ≠ .waiting q := by
    intro q hq
    split at hq <;> cases hq
  constructor
  case waiting => exact fun q hq => absurd hq (hNone q)
  case stack =>
    intro q hq
    rcases List.mem_cons.mp hq with rfl | hq
    · exact hI.waiting q hState
    · exact hI.stack q hq
  case nodup => exact List.nodup_cons.mpr ⟨hI.apart p hState, hI.nodup⟩
  case apart => exact fun q hq => absurd hq (hNone q)
  case many =>
    intro q hq g hg hWait
    rcases List.mem_cons.mp hq with rfl | hq
    · cases hf.symm.trans hg
      exact ⟨if_neg (by rw [hWait]; exact fun h => nomatch h), rfl⟩
    · -- those below it on the stack are calls for `wait_once`
      cases (hI.once hNot hq hg).symm.trans hWait
  case running =>
    intro hRunning
    refine ⟨p, f, rfl, hf, ?_⟩
    cases hWait : f.wait with
    | once =>
      rw [if_pos hWait] at hRunning
      cases hRunning
    | many => rfl
  case closed =>
    intro q g hg hDone _ hq
    refine hI.closed q g hg hDone (fun hEq => List.ne_of_not_mem_cons hq ?_)
      (List.not_mem_of_not_mem_cons hq)
    cases hState.symm.trans hEq
    rfl

/-- A closure that returns `None` listens again. -/
theorem Inv.again {p : Nat} {f : WaitFuture Task R} {stack : List Nat} (hI : Inv s)
    (hStack : s.stack = p :: stack) (hf : s.futures[p]? = some f) (hWait : f.wait = .many) :
    Inv { s with state := .waiting p, stack := stack } := by
  have hHead : p ∈ s.stack := hStack ▸ List.mem_cons_self ..
  have hTail : ∀ q ∈ stack, q ∈ s.stack := fun q hq => hStack ▸ List.mem_cons_of_mem p hq
  obtain ⟨hNotIn, hNodup⟩ := List.nodup_cons.mp (hStack ▸ hI.nodup)
  -- the closure of `wait_many` was the one running, and waits again
  have hRunning := (hI.many p hHead f hf hWait).1
  constructor
  case waiting =>
    rintro q ⟨⟩
    exact hI.stack p hHead
  case stack => exact fun q hq => hI.stack q (hTail q hq)
  case nodup => exact hNodup
  case apart =>
    rintro q ⟨⟩
    exact hNotIn
  case many =>
    intro q hq g hg hMany
    have hFirst := (hI.many q (hTail q hq) g hg hMany).2
    rw [hStack] at hFirst
    cases hFirst
    exact absurd hq hNotIn
  case running => exact fun h => nomatch h
  case closed =>
    intro q g hg hDone hNot hq
    refine hI.closed q g hg hDone (by rw [hRunning]; exact fun h => nomatch h) ?_
    rw [hStack]
    exact List.not_mem_cons_of_ne_of_not_mem (fun hEq => hNot (congrArg _ hEq.symm)) hq

/-- A closure that returns a result has finished, and its future is signalled. -/
theorem Inv.finished {p : Nat} {f : WaitFuture Task R} {stack : List Nat} {r : R} (hI : Inv s)
    (hStack : s.stack = p :: stack) (hf : s.futures[p]? = some f) :
    Inv {
      state := if f.wait = .once then s.state else .none
      futures := s.futures.set p { f with result := some r, signal := .signaled () }
      stack := stack } := by
  have hHead : p ∈ s.stack := hStack ▸ List.mem_cons_self ..
  have hTail : ∀ q ∈ stack, q ∈ s.stack := fun q hq => hStack ▸ List.mem_cons_of_mem p hq
  obtain ⟨hNotIn, hNodup⟩ := List.nodup_cons.mp (hStack ▸ hI.nodup)
  have hOther : ∀ q, q ≠ p → ∀ g', (s.futures.set p g')[q]? = s.futures[q]? := fun q hq g' =>
    List.getElem?_set_ne (Ne.symm hq)
  -- only `wait_once` may leave another future waiting
  have hOf : ∀ q, (if f.wait = .once then s.state else .none) = .waiting q →
      s.state = .waiting q ∧ q ≠ p := by
    intro q hq
    split at hq
    · exact ⟨hq, fun hEq => hI.apart q hq (hEq ▸ hHead)⟩
    · cases hq
  constructor
  case waiting =>
    intro q hq
    obtain ⟨hState, hNe⟩ := hOf q hq
    show ∃ g, (s.futures.set p _)[q]? = some g ∧ Open g
    rw [hOther q hNe]
    exact hI.waiting q hState
  case stack =>
    intro q hq
    show ∃ g, (s.futures.set p _)[q]? = some g ∧ Open g
    rw [hOther q fun hEq => hNotIn (hEq ▸ hq)]
    exact hI.stack q (hTail q hq)
  case nodup => exact hNodup
  case apart => exact fun q hq hMem => hI.apart q (hOf q hq).1 (hTail q hMem)
  case many =>
    intro q hq g hg hMany
    rw [hOther q fun hEq => hNotIn (hEq ▸ hq)] at hg
    have hFirst := (hI.many q (hTail q hq) g hg hMany).2
    rw [hStack] at hFirst
    cases hFirst
    exact absurd hq hNotIn
  case running =>
    intro hRunning
    split at hRunning
    · rename_i hOnce
      obtain ⟨q, g, hFirst, hg, hMany⟩ := hI.running hRunning
      rw [hStack] at hFirst
      cases hFirst
      cases hf.symm.trans hg
      cases hOnce.symm.trans hMany
    · cases hRunning
  -- the future that finished has its result; the others are as they were
  case closed =>
    intro q g hg hDone hNot hq
    rcases of_set hg with ⟨-, rfl⟩ | ⟨hNe, hg⟩
    · exact ⟨rfl, Option.some_ne_none r⟩
    · refine hI.closed q g hg hDone (fun hState => ?_) ?_
      · -- a closure of `wait_many` that finishes was not waiting beside another
        cases hWait : f.wait with
        | once =>
          rw [if_pos hWait] at hNot
          exact hNot hState
        | many => cases (hI.many p hHead f hf hWait).1.symm.trans hState
      · rw [hStack]
        exact List.not_mem_cons_of_ne_of_not_mem (Ne.symm hNe) hq

/-- The invariant is kept by every effect. -/
theorem Effect.inv (hE : Effect s es s') (hI : Inv s) : Inv s' := by
  cases hE with
  | wait m w hState => exact hI.wait m w hState
  | same => exact hI
  | completed hf _ hResult => exact hI.completed hf hResult
  | unheard => exact hI
  | heard val hState hf => exact hI.heard hState hf
  | again hStack hf hWait => exact hI.again hStack hf hWait
  | finished r hStack hf => exact hI.finished hStack hf

-- ---------------------------------------------------------------------------
-- Traces
-- ---------------------------------------------------------------------------

open PortalEvent

/-- What became of a future `f` with the number `p`, after its first poll. -/
inductive History (s : Portal Task R) (p : Nat) (f : WaitFuture Task R)
    (post : List (PortalEvent Task T R)) : Prop where
  | listening : s.state = .waiting p → heard p post = values post →
      answers p post = .replicate (values post).length none →
      (f.wait = .once → values post = []) → results p post = [] → History s p f post
  | running {n : Nat} : p ∈ s.stack → heard p post = offered f.wait p post →
      (heard p post).length = n + 1 → answers p post = .replicate n none →
      results p post = [] → History s p f post
  | finished {n : Nat} {r : R} : s.state ≠ .waiting p → p ∉ s.stack →
      heard p post = offered f.wait p post → (heard p post).length = n + 1 →
      answers p post = .replicate n none ++ [some r] →
      (f.done = false ∧ f.result = some r ∧ results p post = [] ∨
        f.done = true ∧ results p post = [r]) → History s p f post

variable {p : Nat} {f : WaitFuture Task R} {post : List (PortalEvent Task T R)}

/-- The closure has been called. -/
theorem values_ne_nil {n : Nat} (hHeard : heard p post = offered f.wait p post)
    (hLen : (heard p post).length = n + 1) (hOnce : f.wait = .once) : values post ≠ [] := by
  intro hNil
  rw [hHeard, hOnce, offered, hNil] at hLen
  cases hLen

/-- An event that is about another future, and no call. -/
theorem History.silent {e : PortalEvent Task T R} (hH : History s p f post)
    (hValues : values [e] = []) (hHeard : heard p [e] = []) (hAnswers : answers p [e] = [])
    (hResults : results p [e] = [])
    (hState : s'.state = .waiting p ↔ s.state = .waiting p) (hStack : p ∈ s'.stack ↔ p ∈ s.stack) :
    History s' p f (post ++ [e]) := by
  have hV : values (post ++ [e]) = values post := by rw [values_append, hValues, List.append_nil]
  have hHd : heard p (post ++ [e]) = heard p post := by
    rw [heard_append, hHeard, List.append_nil]
  have hA : answers p (post ++ [e]) = answers p post := by
    rw [answers_append, hAnswers, List.append_nil]
  have hR : results p (post ++ [e]) = results p post := by
    rw [results_append, hResults, List.append_nil]
  have hO : offered f.wait p (post ++ [e]) = offered f.wait p post := offered_silent hValues
  -- All four projections stay, so the future stays in its case.
  cases hH with
  | listening h₁ h₂ h₃ h₄ h₅ =>
    refine .listening (hState.mpr h₁) ?_ ?_ ?_ ?_
    · rw [hHd, hV, h₂]
    · rw [hA, hV, h₃]
    · rwa [hV]
    · rw [hR, h₅]
  | @running n h₁ h₂ h₃ h₄ h₅ =>
    refine .running (n := n) (hStack.mpr h₁) ?_ ?_ ?_ ?_
    · rw [hHd, hO, h₂]
    · rw [hHd, h₃]
    · rw [hA, h₄]
    · rw [hR, h₅]
  | @finished n r h₁ h₂ h₃ h₄ h₅ h₆ =>
    refine .finished (n := n) (r := r) (fun h => h₁ (hState.mp h)) (fun h => h₂ (hStack.mp h))
      ?_ ?_ ?_ ?_
    · rw [hHd, hO, h₃]
    · rw [hHd, h₄]
    · rw [hA, h₅]
    · rwa [hR]

/-- A call that is not for the future. -/
theorem History.missed (hI : Inv s) (hf : s.futures[p]? = some f) (hH : History s p f post)
    (val : T) {func : Option Nat} (hFunc : func ≠ some p) (hState : s.state ≠ .waiting p)
    (hIdle : s.state ≠ .running) (hState' : s'.state ≠ .waiting p)
    (hStack : p ∈ s'.stack ↔ p ∈ s.stack) :
    History s' p f (post ++ [.called val func]) := by
  have hHd : heard p (post ++ [.called val func]) = heard p post := by
    rw [heard_append]
    simp [heard, hFunc]
  have hA : answers p (post ++ [.called val func]) = answers p post := by
    rw [answers_append]
    simp [answers]
  have hR : results p (post ++ [.called val func]) = results p post := by
    rw [results_append]
    simp [results]
  cases hH with
  | listening h₁ => exact absurd h₁ hState
  | @running n h₁ h₂ h₃ h₄ h₅ =>
    -- A closure of `wait_many` would keep the portal running; one of `wait_once` has had its value.
    have hOnce := hI.once hIdle h₁ hf
    refine .running (n := n) (hStack.mpr h₁) ?_ ?_ ?_ ?_
    · rw [hHd, offered_closed (.inl ⟨hOnce, values_ne_nil h₂ h₃ hOnce⟩), h₂]
    · rw [hHd, h₃]
    · rw [hA, h₄]
    · rw [hR, h₅]
  | @finished n r h₁ h₂ h₃ h₄ h₅ h₆ =>
    refine .finished (n := n) (r := r) hState' (fun h => h₂ (hStack.mp h)) ?_ ?_ ?_ ?_
    · have hClosed : f.wait = .once ∧ values post ≠ [] ∨
          f.wait = .many ∧ ∃ r, some r ∈ answers p post := by
        cases hWait : f.wait with
        | once => exact .inl ⟨rfl, values_ne_nil h₃ h₄ hWait⟩
        | many => exact .inr ⟨rfl, r, by rw [h₅]; simp⟩
      rw [hHd, offered_closed hClosed, h₃]
    · rw [hHd, h₄]
    · rw [hA, h₅]
    · rwa [hR]

/-- A call runs the closure of the future that listens. -/
theorem History.called (hI : Inv s) (hH : History s p f post) (val : T)
    (hState : s.state = .waiting p) (hStack : p ∈ s'.stack) :
    History s' p f (post ++ [.called val (some p)]) := by
  cases hH with
  | listening h₁ h₂ h₃ h₄ h₅ =>
    have hV : values [(.called val (some p) : PortalEvent Task T R)] = [val] := rfl
    have hHd : heard p (post ++ [.called val (some p)]) = values post ++ [val] := by
      rw [heard_append, h₂]
      simp [heard]
    have hA : answers p (post ++ [.called val (some p)]) =
        .replicate (values post).length none := by
      rw [answers_append, h₃]
      simp [answers]
    refine .running (n := (values post).length) hStack ?_ ?_ hA ?_
    · rw [hHd]
      unfold offered
      cases hWait : f.wait with
      -- The first value is all there is for `wait_once`.
      | once => rw [values_append, h₄ hWait, hV, List.nil_append, List.take_of_length_le (by simp)]
      | many =>
        have hOpen : (post ++ [PortalEvent.called val (some p)]).takeWhile
            (fun e => !finishes p e) = _ := takeWhile_of_none <| by
          intro res hRes
          rw [hA] at hRes
          exact List.eq_of_mem_replicate hRes
        simp only
        rw [hOpen, values_append, hV]
    · rw [hHd, List.length_append]
      rfl
    · rw [results_append, h₅]
      rfl
  | running h₁ => exact absurd h₁ (hI.apart p hState)
  | finished h₁ => exact absurd hState h₁

/-- The closure returns `None`, and listens again. -/
theorem History.returned_none (hH : History s p f post) (hRunning : s.state = .running)
    (hStack : p ∈ s.stack) (hWait : f.wait = .many) (hState' : s'.state = .waiting p) :
    History s' p f (post ++ [.returned p none none]) := by
  cases hH with
  | listening h₁ => cases hRunning.symm.trans h₁
  | @running n h₁ h₂ h₃ h₄ h₅ =>
    -- It has answered `None` each time, so every value was for it.
    have hAll : heard p post = values post := by
      rw [h₂, hWait]
      unfold offered
      simp only
      rw [takeWhile_of_none]
      intro res hRes
      rw [h₄] at hRes
      exact List.eq_of_mem_replicate hRes
    have hV : values (post ++ [.returned p none none]) = values post := by
      rw [values_append]
      exact List.append_nil _
    have hA : answers p [(.returned p none none : PortalEvent Task T R)] = [none] := by
      simp [answers]
    refine .listening hState' ?_ ?_ ?_ ?_
    · rw [hV, heard_append, hAll]
      exact List.append_nil _
    · rw [hV, ← hAll, h₃, answers_append, h₄, hA, List.replicate_succ']
    · exact fun hOnce => nomatch hWait.symm.trans hOnce
    · rw [results_append, h₅]
      rfl
  | finished _ h₂ => exact absurd hStack h₂

/-- The closure finishes. -/
theorem History.returned_some {g : WaitFuture Task R} {r : R} {woken : Option Task}
    (hI : Inv s) (hH : History s p f post) (hStack : p ∈ s.stack)
    (hg : g.wait = f.wait ∧ g.done = false ∧ g.result = some r)
    (hState' : s'.state ≠ .waiting p) (hStack' : p ∉ s'.stack) :
    History s' p g (post ++ [.returned p (some r) woken]) := by
  cases hH with
  | listening h₁ => exact absurd hStack (hI.apart p h₁)
  | @running n h₁ h₂ h₃ h₄ h₅ =>
    have hHd : heard p (post ++ [.returned p (some r) woken]) = heard p post := by
      rw [heard_append]
      exact List.append_nil _
    have hA : answers p [(.returned p (some r) woken : PortalEvent Task T R)] = [some r] := by
      simp [answers]
    refine .finished (n := n) (r := r) hState' hStack' ?_ ?_ ?_ (.inl ⟨hg.2.1, hg.2.2, ?_⟩)
    · rw [hHd, hg.1, offered_silent rfl, h₂]
    · rw [hHd, h₃]
    · rw [answers_append, h₄, hA]
    · rw [results_append, h₅]
      rfl
  | finished _ h₂ => exact absurd hStack h₂

/-- The future returns the result of its closure. -/
theorem History.completed {g : WaitFuture Task R} {r : R} (hH : History s p f post)
    (hOpen : ∀ q, (s.state = .waiting q ∨ q ∈ s.stack) → q ≠ p) (hDone : f.done = false)
    (hResult : f.result = some r) (hg : g.wait = f.wait ∧ g.done = true)
    (hState : s'.state = s.state) (hStack : s'.stack = s.stack) :
    History s' p g (post ++ [.completed p r]) := by
  -- a future with a result neither listens nor runs
  cases hH with
  | listening h₁ => exact absurd rfl (hOpen p (.inl h₁))
  | running h₁ => exact absurd rfl (hOpen p (.inr h₁))
  | @finished n r' h₁ h₂ h₃ h₄ h₅ h₆ =>
    have hHd : heard p (post ++ [.completed p r]) = heard p post := by
      rw [heard_append]
      exact List.append_nil _
    have hR : results p [(.completed p r : PortalEvent Task T R)] = [r] := by
      simp [results]
    -- the result is handed out for the first time
    rcases h₆ with ⟨-, hSame, hNil⟩ | ⟨hDone', -⟩
    · cases hResult.symm.trans hSame
      refine .finished (n := n) (r := r) (hState ▸ h₁) (hStack ▸ h₂) ?_ ?_ ?_
        (.inr ⟨hg.2, ?_⟩)
      · rw [hHd, hg.1, offered_silent rfl, h₃]
      · rw [hHd, h₄]
      · rw [answers_append, h₅]
        exact List.append_nil _
      · rw [results_append, hNil, hR, List.nil_append]
    · cases hDone.symm.trans hDone'

/-- For every future: what became of it, and its task is woken when its closure finishes. -/
def TraceInv (es : List (PortalEvent Task T R)) (s : Portal Task R) : Prop :=
  ∀ pre p m w post, es = pre ++ .waits p m w :: post →
    ∃ f, s.futures[p]? = some f ∧ f.wait = m ∧ f.task = w ∧ History s p f post ∧
      ∀ r woken, .returned p (some r) woken ∈ post → woken = some w

/-- One event more: what has to be shown of the futures there were and of a new one. -/
theorem traceInv_concat {e : PortalEvent Task T R} (hT : TraceInv es s)
    (hNew : ∀ p m w, e = .waits p m w → ∃ f, s'.futures[p]? = some f ∧ f.wait = m ∧ f.task = w ∧
      History s' p f ([] : List (PortalEvent Task T R)))
    (hOld : ∀ p f post, s.futures[p]? = some f → History s p f post →
      ∃ g, s'.futures[p]? = some g ∧ g.wait = f.wait ∧ g.task = f.task ∧
        History s' p g (post ++ [e]) ∧
          ∀ r woken, e = .returned p (some r) woken → woken = some f.task) :
    TraceInv (es ++ [e]) s' := by
  intro pre p m w post hSplit
  rcases split_concat hSplit with ⟨-, hLast, rfl⟩ | ⟨rest, rfl, hBefore⟩
  · obtain ⟨f, hf, hm, hw, hH⟩ := hNew p m w hLast
    exact ⟨f, hf, hm, hw, hH, fun _ _ h => nomatch h⟩
  · obtain ⟨f, hf, rfl, rfl, hH, hWoken⟩ := hT pre p m w rest hBefore
    obtain ⟨g, hg, hWait, hTask, hH', hLast⟩ := hOld p f rest hf hH
    refine ⟨g, hg, hWait, hTask, hH', fun r woken hMem => ?_⟩
    rcases List.mem_append.mp hMem with hMem | hMem
    · exact hWoken r woken hMem
    · exact hLast r woken (List.mem_singleton.mp hMem).symm

/-- Every effect carries the histories of all futures on. -/
theorem Effect.traceInv {new : List (PortalEvent Task T R)} (hE : Effect s new s') (hI : Inv s)
    (hT : TraceInv es s) : TraceInv (es ++ new) s' := by
  have hNotRunning : ∀ {st : PortalState}, s.state = st → st ≠ .running → s.state ≠ .running :=
    fun h hNe => h ▸ hNe
  cases hE with
  | wait m w hState =>
    refine traceInv_concat hT ?_ ?_
    · rintro p m' w' ⟨⟩
      exact ⟨_, List.getElem?_concat_length, rfl, rfl,
        .listening rfl rfl rfl (fun _ => rfl) rfl⟩
    · intro p f post hf hH
      -- The new future has a number of its own, so the old ones hear of nothing.
      have hNe : s.futures.length ≠ p := Nat.ne_of_gt (List.getElem?_eq_some_iff.mp hf).1
      refine ⟨f, concat_old hf, rfl, rfl, ?_, fun _ _ h => nomatch h⟩
      refine hH.silent rfl rfl rfl rfl ?_ Iff.rfl
      refine iff_of_false (fun h => ?_) (fun h => nomatch hState.symm.trans h)
      cases h
      exact hNe rfl
  | same => rwa [List.append_nil]
  | @completed q g r hg hDone hResult =>
    refine traceInv_concat hT (fun _ _ _ h => nomatch h) ?_
    intro p f post hf hH
    by_cases hq : q = p
    · subst hq
      cases hf.symm.trans hg
      refine ⟨_, List.getElem?_set_self (List.getElem?_eq_some_iff.mp hf).1, rfl, rfl, ?_,
        fun _ _ h => nomatch h⟩
      refine hH.completed (fun p' hOpen hEq => ?_) hDone hResult ⟨rfl, rfl⟩ rfl rfl
      subst hEq
      obtain ⟨f', hf', hF⟩ := hOpen.elim (hI.waiting p') (hI.stack p')
      cases hf.symm.trans hf'
      cases hResult.symm.trans hF.result
    · refine ⟨f, by rw [List.getElem?_set_ne hq]; exact hf, rfl, rfl, ?_, fun _ _ h => nomatch h⟩
      exact hH.silent rfl rfl rfl (by simp [results, hq]) Iff.rfl Iff.rfl
  | unheard val hState =>
    refine traceInv_concat hT (fun _ _ _ h => nomatch h) ?_
    intro p f post hf hH
    have hNot : s.state ≠ .waiting p := by
      rw [hState]
      exact fun h => nomatch h
    exact ⟨f, hf, rfl, rfl, hH.missed hI hf val (fun h => nomatch h) hNot
      (hNotRunning hState fun h => nomatch h) hNot Iff.rfl, fun _ _ h => nomatch h⟩
  | @heard val q g hState hg =>
    refine traceInv_concat hT (fun _ _ _ h => nomatch h) ?_
    intro p f post hf hH
    refine ⟨f, hf, rfl, rfl, ?_, fun _ _ h => nomatch h⟩
    by_cases hq : q = p
    · subst hq
      exact hH.called hI val hState (List.mem_cons_self ..)
    · refine hH.missed hI hf val (fun h => hq (Option.some.inj h)) ?_
        (hNotRunning hState fun h => nomatch h) ?_ ?_
      · rw [hState]
        exact fun h => hq (PortalState.waiting.inj h)
      · intro h
        split at h <;> cases h
      · exact List.mem_cons.trans (or_iff_right (Ne.symm hq))
  | @again q g stack hStack hg hWait =>
    have hIn : q ∈ s.stack := hStack ▸ List.mem_cons_self ..
    have hRunning := (hI.many q hIn g hg hWait).1
    refine traceInv_concat hT (fun _ _ _ h => nomatch h) ?_
    intro p f post hf hH
    refine ⟨f, hf, rfl, rfl, ?_, fun _ _ h => nomatch h⟩
    by_cases hq : q = p
    · subst hq
      cases hf.symm.trans hg
      exact hH.returned_none hRunning hIn hWait rfl
    · refine hH.silent rfl rfl (by simp [answers, hq]) rfl ?_ ?_
      · exact iff_of_false (fun h => hq (PortalState.waiting.inj h))
          (fun h => nomatch hRunning.symm.trans h)
      · rw [hStack, List.mem_cons]
        exact (or_iff_right (Ne.symm hq)).symm
  | @finished q g stack r hStack hg =>
    have hIn : q ∈ s.stack := hStack ▸ List.mem_cons_self ..
    obtain ⟨hNotIn, -⟩ := List.nodup_cons.mp (hStack ▸ hI.nodup)
    -- The end of a closure makes nobody listen.
    have hState : ∀ p, (if g.wait = .once then s.state else .none) = .waiting p ↔
        s.state = .waiting p := by
      intro p
      cases hWait : g.wait with
      | once => rw [if_pos rfl]
      | many =>
        refine iff_of_false (fun h => nomatch h) fun h => ?_
        cases (hI.many q hIn g hg hWait).1.symm.trans h
    refine traceInv_concat hT (fun _ _ _ h => nomatch h) ?_
    intro p f post hf hH
    by_cases hq : q = p
    · subst hq
      cases hf.symm.trans hg
      obtain ⟨f', hf', hF⟩ := hI.stack q hIn
      cases hf.symm.trans hf'
      refine ⟨_, List.getElem?_set_self (List.getElem?_eq_some_iff.mp hf).1, rfl, rfl, ?_, ?_⟩
      · refine hH.returned_some hI hIn ⟨rfl, hF.done, rfl⟩ (fun h => ?_) hNotIn
        exact hI.apart q ((hState q).mp h) hIn
      · rintro r' woken ⟨⟩
        rfl
    · refine ⟨f, by rw [List.getElem?_set_ne hq]; exact hf, rfl, rfl, ?_, ?_⟩
      · refine hH.silent rfl rfl (by simp [answers, hq]) rfl (hState p) ?_
        rw [hStack, List.mem_cons]
        exact (or_iff_right (Ne.symm hq)).symm
      · rintro r' woken ⟨⟩
        exact absurd rfl hq

/-- Both invariants hold of every trace. -/
theorem traceInv [DecidableEq Task] (hT : Trace step emit (new : Portal Task R) es s) :
    Inv s ∧ TraceInv es s := by
  refine hT.invariant (I := fun es s => Inv s ∧ TraceInv es s) ?_ ?_
  · exact ⟨inv_new, fun pre _ _ _ _ h => absurd h.symm (by simp)⟩
  · rintro es u a v ⟨hI, hTr⟩ hs
    have hE := effect_of_step hI hs
    exact ⟨hE.inv hI, hE.traceInv hI hTr⟩

-- ---------------------------------------------------------------------------
-- What the portal guarantees
-- ---------------------------------------------------------------------------

/--
**The closure that a portal points to.** In every run: the future of the closure that the
next call runs, and the futures of all closures that run, are still there; a closure that
runs is not called again before it returns; and a future that was signaled has its result.
-/
theorem portal_safe [DecidableEq Task] (hT : Trace step emit (new : Portal Task R) es s) :
    (∀ p, s.state = .waiting p ∨ p ∈ s.stack → ∃ f, s.futures[p]? = some f ∧ f.done = false) ∧
      s.stack.Nodup ∧ (∀ p, s.state = .waiting p → p ∉ s.stack) ∧
      ∀ (p : Nat) (f : WaitFuture Task R), s.futures[p]? = some f → f.done = false →
        f.signal = .signaled () → f.result ≠ none := by
  obtain ⟨hI, -⟩ := traceInv hT
  refine ⟨?_, hI.nodup, hI.apart, ?_⟩
  · intro p hp
    obtain ⟨f, hf, hOpen⟩ := hp.elim (hI.waiting p) (hI.stack p)
    exact ⟨f, hf, hOpen.done⟩
  · intro p f hf hDone hSignal hNone
    have hClosed : ∀ g, s.futures[p]? = some g → ¬Open g := by
      intro g hg hOpen
      cases hf.symm.trans hg
      cases hSignal.symm.trans hOpen.signal
    refine (hI.closed p f hf hDone (fun hState => ?_) fun hStack => ?_).2 hNone
    · obtain ⟨g, hg, hOpen⟩ := hI.waiting p hState
      exact hClosed g hg hOpen
    · obtain ⟨g, hg, hOpen⟩ := hI.stack p hStack
      exact hClosed g hg hOpen

/-- Two closures run, one inside of the other. -/
theorem portal_safe_nested :
    ∃ f : WaitFuture Nat Nat, [(⟨.once, .waiting 8, none, false, 8⟩ : WaitFuture Nat Nat),
      ⟨.many, .waiting 9, none, false, 9⟩][1]? = some f ∧ f.done = false := by
  have hExec : execTrace step emit (new : Portal Nat Nat)
      ([.wait .once 8, .call 5, .wait .many 9, .call 6] : List (PortalAction Nat Nat Nat)) =
      some ([.waits 0 .once 8, .called 5 (some 0), .waits 1 .many 9, .called 6 (some 1)],
        ⟨.running, [⟨.once, .waiting 8, none, false, 8⟩, ⟨.many, .waiting 9, none, false, 9⟩],
          [1, 0]⟩) := rfl
  exact (portal_safe (Trace.of_execTrace hExec)).1 1 (.inr (List.mem_cons_self ..))

/--
**What a portal delivers.** After the first poll of a future, its closure is called with
the first value (`wait_once`), or with every value until it returns `Some` (`wait_many`).
All it returned before was `None`, its task is woken then, and that result is what the
future returns: it has done so once, or does so at its next poll.
-/
theorem portal_delivers [DecidableEq Task] (hT : Trace step emit (new : Portal Task R) es s)
    {pre post : List (PortalEvent Task T R)} {p : Nat} {m : PortalWait} {w : Task}
    (hSplit : es = pre ++ .waits p m w :: post) :
    heard p post = offered m p post ∧
    ((∀ res ∈ answers p post, res = none) ∧ results p post = [] ∨
      ∃ n r, answers p post = .replicate n none ++ [some r] ∧ (heard p post).length = n + 1 ∧
        .returned p (some r) (some w) ∈ post ∧
        (results p post = [r] ∨
          results p post = [] ∧ ∀ u, s.emit (T := T) (.poll p u) = [.completed p r])) := by
  obtain ⟨hI, hTr⟩ := traceInv hT
  -- the history of this wait, as the invariant keeps it
  obtain ⟨f, hf, rfl, rfl, hH, hWoken⟩ := hTr pre p m w post hSplit
  cases hH with
  | listening h₁ h₂ h₃ h₄ h₅ =>
    have hNone : ∀ res ∈ answers p post, res = none := fun res hRes =>
      List.eq_of_mem_replicate (h₃ ▸ hRes)
    refine ⟨?_, .inl ⟨hNone, h₅⟩⟩
    rw [h₂]
    unfold offered
    cases hWait : f.wait with
    | once => rw [h₄ hWait, List.take_nil]
    | many =>
      simp only
      rw [takeWhile_of_none hNone]
  | running h₁ h₂ h₃ h₄ h₅ =>
    exact ⟨h₂, .inl ⟨fun res hRes => List.eq_of_mem_replicate (h₄ ▸ hRes), h₅⟩⟩
  | @finished n r h₁ h₂ h₃ h₄ h₅ h₆ =>
    obtain ⟨woken, hMem⟩ := mem_answers.mp (show some r ∈ answers p post by rw [h₅]; simp)
    refine ⟨h₃, .inr ⟨n, r, h₅, h₄, hWoken r woken hMem ▸ hMem, ?_⟩⟩
    -- the result waits for the next poll, or a poll has returned it
    rcases h₆ with ⟨hDone, hResult, hNil⟩ | ⟨-, hOne⟩
    · refine .inr ⟨hNil, fun u => ?_⟩
      have hSignal := (hI.closed p f hf hDone h₁ h₂).1
      simp [emit, poll, hf, hDone, hSignal, hResult, Signal.pollWait]
    · exact .inl hOne

/-- A closure of `wait_many` takes two values, the first of them inside of a closure of
`wait_once`. -/
theorem portal_delivers_nested :
    heard 1 ([.called 6 (some 1), .returned 1 none none, .returned 0 (some 1) (some 8),
        .completed 0 1, .called 7 (some 1), .returned 1 (some 2) (some 9), .called 4 none] :
          List (PortalEvent Nat Nat Nat)) = [6, 7] := by
  have hExec : execTrace step emit (new : Portal Nat Nat)
      ([.wait .once 8, .call 5, .wait .many 9, .call 6, .ret none, .ret (some 1), .poll 0 8,
        .call 7, .ret (some 2), .call 4] : List (PortalAction Nat Nat Nat)) =
      some ([.waits 0 .once 8, .called 5 (some 0), .waits 1 .many 9, .called 6 (some 1),
        .returned 1 none none, .returned 0 (some 1) (some 8), .completed 0 1, .called 7 (some 1),
        .returned 1 (some 2) (some 9), .called 4 none],
        ⟨.none, [⟨.once, .none, some 1, true, 8⟩, ⟨.many, .signaled (), some 2, false, 9⟩], []⟩) :=
    rfl
  exact (portal_delivers (Trace.of_execTrace hExec)
    (show _ = [.waits 0 .once 8, .called 5 (some 0)] ++ PortalEvent.waits 1 .many 9 :: _
      from rfl)).1

end Portal

end Embassy.Util
