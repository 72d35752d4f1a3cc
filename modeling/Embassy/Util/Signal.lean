import Embassy.Lib.Run
import Embassy.Util.Waker

/-!
# Signals

`Signal` in `embassy/src/util/signal.rs`. Each call is a critical section, so that the
calls of all contexts come one after another. The state holds the waker of the task that
waits, or the value that was signaled, and each of the two takes the place of the other.
A panic is `none`.

The trace of a run is the list of the calls with their outcomes. `reset` puts `None` in
the place of a waker as well: the task is then not woken by a signal that comes later,
although the future of `wait` is to complete when the signal has been signaled.

Main results:

* `signal_wakes_iff` — values are those of the latest signal; and a waiting task is woken
  exactly if no reset comes before the signal.
-/

namespace Embassy.Util

open Embassy.Lib

/-- The state of a `Signal`. -/
inductive Signal (Task α : Type) where
  | none
  | waiting (w : Task)
  | signaled (v : α)
  deriving DecidableEq, Repr

inductive SignalAction (Task α : Type) where
  | signal (v : α)
  | reset
  | signaled
  | pollWait (w : Task)
  deriving DecidableEq, Repr

/-- A call, with its outcome. -/
inductive SignalCall (Task α : Type) where
  /-- With the task that it woke. -/
  | signal (v : α) (woken : Option Task)
  | reset
  | signaled (b : Bool)
  | pollWait (w : Task) (poll : Poll α)
  deriving DecidableEq, Repr

variable {Task α : Type}

namespace Signal

/-- With the task that is woken. -/
def signal (s : Signal Task α) (v : α) : Signal Task α × Option Task :=
  match s with
  | .waiting w => (.signaled v, some w)
  | _ => (.signaled v, Option.none)

def reset (_ : Signal Task α) : Signal Task α := .none

def pollWait [DecidableEq Task] (s : Signal Task α) (w : Task) :
    Option (Signal Task α × Poll α) :=
  match s with
  | .none => some (.waiting w, .pending)
  | .waiting u => if u = w then some (s, .pending) else Option.none
  | .signaled v => some (.none, .ready v)

def isSignaled : Signal Task α → Bool
  | .signaled _ => true
  | _ => false

def step [DecidableEq Task] (s : Signal Task α) : SignalAction Task α → Option (Signal Task α)
  | .signal v => some (s.signal v).1
  | .reset => some s.reset
  | .signaled => some s
  | .pollWait w => (s.pollWait w).map Prod.fst

/-- The call that a step makes. -/
def call [DecidableEq Task] (s : Signal Task α) : SignalAction Task α → List (SignalCall Task α)
  | .signal v => [.signal v (s.signal v).2]
  | .reset => [.reset]
  | .signaled => [.signaled s.isSignaled]
  | .pollWait w => ((s.pollWait w).map fun r => SignalCall.pollWait w r.2).toList

end Signal

namespace SignalCall

/-- A poll by the task. -/
def Polls (w : Task) (c : SignalCall Task α) : Prop := ∃ poll, c = .pollWait w poll

/-- A signal or a reset. -/
def ends : SignalCall Task α → Bool
  | .signal _ _ | .reset => true
  | _ => false

/-- Of the signals and resets in the list, the first is a signal. -/
def SignalFirst (calls : List (SignalCall Task α)) : Prop :=
  ∃ v woken, calls.find? ends = some (.signal v woken)

/-- The latest signal was of `v`, and it was neither returned nor reset. -/
def Latest (v : α) (calls : List (SignalCall Task α)) : Prop :=
  ∃ before woken since, calls = before ++ .signal v woken :: since ∧
    ∀ c ∈ since, ∃ b, c = .signaled b

end SignalCall

namespace Signal

open SignalCall

/-- What became of a task whose latest poll returned `Pending`, after the calls `post`. -/
def Outcome (s : Signal Task α) (w : Task) (post : List (SignalCall Task α)) : Prop :=
  match post.find? ends with
  | Option.none => s = .waiting w
  | some (.signal _ woken) => woken = some w ∧ s ≠ .waiting w
  | some _ => (∀ v, .signal v (some w) ∉ post) ∧ s ≠ .waiting w

/-- What a call does to the state. -/
inductive Calls : Signal Task α → SignalCall Task α → Signal Task α → Prop where
  | wakes (w : Task) (v : α) : Calls (.waiting w) (.signal v (some w)) (.signaled v)
  | signal {s : Signal Task α} (v : α) : (∀ w, s ≠ .waiting w) →
      Calls s (.signal v Option.none) (.signaled v)
  | reset (s : Signal Task α) : Calls s .reset .none
  | signaled (s : Signal Task α) (b : Bool) : Calls s (.signaled b) s
  | pending {s : Signal Task α} (w : Task) : s = .none ∨ s = .waiting w →
      Calls s (.pollWait w .pending) (.waiting w)
  | ready (w : Task) (v : α) : Calls (.signaled v) (.pollWait w (.ready v)) .none

variable {s s' : Signal Task α} {a : SignalAction Task α} {c : SignalCall Task α} {w : Task}
  {calls pre post : List (SignalCall Task α)}

theorem calls_of_step [DecidableEq Task] (hs : s.step a = some s') :
    ∃ c, s.call a = [c] ∧ Calls s c s' := by
  cases a with
  | signal v =>
    cases hs
    cases s with
    | waiting w => exact ⟨_, rfl, .wakes w v⟩
    | none | signaled => exact ⟨_, rfl, .signal v fun _ h => nomatch h⟩
  | reset =>
    cases hs
    exact ⟨_, rfl, .reset s⟩
  | signaled =>
    cases hs
    exact ⟨_, rfl, .signaled s _⟩
  | pollWait w =>
    obtain ⟨⟨u, poll⟩, hPoll, rfl⟩ := Option.map_eq_some_iff.mp hs
    refine ⟨.pollWait w poll, ?_, ?_⟩
    · show ((s.pollWait w).map _).toList = _
      rw [hPoll]
      rfl
    · cases s with
      | none =>
        cases hPoll
        exact .pending w (.inl rfl)
      | waiting u =>
        obtain ⟨hSame, hWaiting⟩ := Option.ite_none_right_eq_some.mp hPoll
        cases hWaiting
        rw [hSame]
        exact .pending w (.inr rfl)
      | signaled v =>
        cases hPoll
        exact .ready w v

/-- A task waits only if it polls. -/
theorem Calls.not_waiting (hC : Calls s c s') (hNot : s ≠ .waiting w) (hPolls : ¬c.Polls w) :
    s' ≠ .waiting w := by
  rintro rfl
  cases hC with
  | signaled => exact hNot rfl
  | pending => exact hPolls ⟨_, rfl⟩

/-- Only the task that waits is woken. -/
theorem Calls.waiting_of_woken {v : α} (hC : Calls s (.signal v (some w)) s') :
    s = .waiting w := by
  cases hC
  rfl

theorem Outcome.concat (hO : s.Outcome w post) (hC : Calls s c s') (hPolls : ¬c.Polls w) :
    s'.Outcome w (post ++ [c]) := by
  unfold Outcome at hO ⊢
  rw [List.find?_append]
  cases hFirst : post.find? ends with
  | none =>
    rw [hFirst] at hO
    have hNone := List.find?_eq_none.mp hFirst
    cases hC with
    | wakes u v =>
      cases hO
      exact ⟨rfl, fun h => nomatch h⟩
    | signal v hNot => exact absurd hO (hNot w)
    | reset =>
      refine ⟨fun v hMem => ?_, fun h => nomatch h⟩
      rcases List.mem_append.mp hMem with hPost | hNew
      · exact hNone _ hPost rfl
      · cases List.mem_singleton.mp hNew
    | signaled => exact hO
    | pending u hBefore =>
      rcases hBefore with h | h
      · cases h.symm.trans hO
      · cases h.symm.trans hO
        exact absurd ⟨_, rfl⟩ hPolls
    | ready => cases hO
  | some d =>
    rw [hFirst] at hO
    -- the task does not wait any more, and is not woken again
    have hAfter : (∀ v, .signal v (some w) ∉ post) ∧ s ≠ .waiting w →
        (∀ v, .signal v (some w) ∉ post ++ [c]) ∧ s' ≠ .waiting w := by
      rintro ⟨hNever, hNot⟩
      refine ⟨fun v hMem => ?_, hC.not_waiting hNot hPolls⟩
      rcases List.mem_append.mp hMem with hPost | hNew
      · exact hNever v hPost
      · cases List.mem_singleton.mp hNew
        exact hNot hC.waiting_of_woken
    cases d with
    | signal v woken => exact ⟨hO.1, hC.not_waiting hO.2 hPolls⟩
    | reset => exact hAfter hO
    | signaled => exact hAfter hO
    | pollWait => exact hAfter hO

structure TraceInv (calls : List (SignalCall Task α)) (s : Signal Task α) : Prop where
  latest : ∀ v, s = .signaled v → Latest v calls
  /-- Every value that was returned was the latest. -/
  ready : ∀ pre w v post, calls = pre ++ .pollWait w (.ready v) :: post → Latest v pre
  /-- For every poll that returned `Pending`, and was the latest of its task. -/
  pending : ∀ pre w post, calls = pre ++ .pollWait w .pending :: post →
    (∀ c ∈ post, ¬c.Polls w) → s.Outcome w post

theorem traceInv_nil : TraceInv [] (.none : Signal Task α) := by
  constructor
  case latest => exact fun _ h => nomatch h
  case ready => exact fun pre _ _ _ h => absurd h.symm (by simp)
  case pending => exact fun pre _ _ h => absurd h.symm (by simp)

theorem latest_concat {v : α} (hLatest : Latest v calls) (b : Bool) :
    Latest v (calls ++ [.signaled b]) := by
  obtain ⟨before, woken, since, rfl, hSince⟩ := hLatest
  refine ⟨before, woken, since ++ [.signaled b], by simp, fun c hc => ?_⟩
  rcases List.mem_append.mp hc with hc | hc
  · exact hSince c hc
  · exact ⟨b, List.mem_singleton.mp hc⟩

theorem TraceInv.concat (hI : TraceInv calls s) (hC : Calls s c s') :
    TraceInv (calls ++ [c]) s' := by
  constructor
  case latest =>
    rintro v rfl
    cases hC with
    | wakes w => exact ⟨calls, _, [], rfl, fun _ h => nomatch h⟩
    | signal => exact ⟨calls, _, [], rfl, fun _ h => nomatch h⟩
    | signaled _ b => exact latest_concat (hI.latest v rfl) b
  case ready =>
    intro pre w v post hSplit
    rcases split_concat hSplit with ⟨rfl, rfl, -⟩ | ⟨rest, -, hBefore⟩
    · cases hC
      exact hI.latest v rfl
    · exact hI.ready pre w v rest hBefore
  case pending =>
    intro pre w post hSplit hPolls
    rcases split_concat hSplit with ⟨rfl, rfl, rfl⟩ | ⟨rest, rfl, hBefore⟩
    · cases hC
      rfl
    · refine (hI.pending pre w rest hBefore fun c hc => hPolls c ?_).concat hC (hPolls c ?_)
      · exact List.mem_append_left _ hc
      · exact List.mem_append_right _ (List.mem_singleton_self c)

/-- A reset takes the waker, and the task is not woken by the signal that follows. -/
theorem signal_not_wakes : ¬∀ (calls : List (SignalCall Nat Nat)) (s : Signal Nat Nat),
    Trace step call .none calls s → ∀ pre w post, calls = pre ++ .pollWait w .pending :: post →
      (∀ c ∈ post, ¬c.Polls w) → (∃ v woken, .signal v woken ∈ post) →
      ∃ v, .signal v (some w) ∈ post := by
  intro hAll
  have hExec : execTrace step call (.none : Signal Nat Nat) [.pollWait 7, .reset, .signal 1] =
      some ([.pollWait 7 .pending, .reset, .signal 1 Option.none], .signaled 1) := rfl
  have hT := Trace.of_execTrace hExec
  obtain ⟨v, hWoken⟩ := hAll _ _ hT [] 7 [.reset, .signal 1 Option.none] rfl
    (by rintro c hc ⟨poll, rfl⟩; simp at hc) ⟨1, Option.none, by simp⟩
  simp at hWoken

/--
**When a signal wakes the task that waits.** In every sequence of calls by any tasks:
a poll that returns a value returns that of the latest signal, which was neither
returned nor reset before. And of a task whose latest poll returned `Pending`, after a
signal: the task was woken since that poll, exactly if no reset came between the poll
and the first signal after it.
-/
theorem signal_wakes_iff [DecidableEq Task] (hT : Trace step call (.none : Signal Task α) calls s) :
    (∀ pre w v post, calls = pre ++ .pollWait w (.ready v) :: post → Latest v pre) ∧
      ∀ pre w post, calls = pre ++ .pollWait w .pending :: post → (∀ c ∈ post, ¬c.Polls w) →
        (∃ v woken, .signal v woken ∈ post) →
        ((∃ v, .signal v (some w) ∈ post) ↔ SignalFirst post) := by
  have hI : TraceInv calls s := by
    refine hT.invariant (I := TraceInv) traceInv_nil fun calls s a s' hI hs => ?_
    obtain ⟨c, hCall, hC⟩ := calls_of_step hs
    rw [hCall]
    exact hI.concat hC
  refine ⟨hI.ready, ?_⟩
  rintro pre w post hSplit hPolls ⟨v, woken, hSignal⟩
  have hOutcome := hI.pending pre w post hSplit hPolls
  unfold Outcome at hOutcome
  cases hFirst : post.find? ends with
  | none => exact absurd rfl (List.find?_eq_none.mp hFirst _ hSignal)
  | some d =>
    rw [hFirst] at hOutcome
    have hNotFirst : (∀ v woken, d ≠ .signal v woken) → ¬SignalFirst post := by
      rintro hNot ⟨v, woken, hSome⟩
      exact hNot v woken (Option.some.inj (hFirst.symm.trans hSome))
    cases d with
    | signal v woken =>
      have hMem := List.mem_of_find?_eq_some hFirst
      rw [hOutcome.1] at hMem
      exact iff_of_true ⟨v, hMem⟩ ⟨v, woken, hFirst⟩
    | reset | signaled | pollWait =>
      exact iff_of_false (fun ⟨v, hMem⟩ => hOutcome.1 v hMem) (hNotFirst fun _ _ h => nomatch h)

/-- A task that polls twice is woken by the first of two signals, and gets the value of
the second. -/
theorem signal_wakes_iff_twice :
    Latest (2 : Nat) [.pollWait 7 .pending, .pollWait 7 .pending, .signal 1 (some 7),
      .signal 2 Option.none] ∧
    ((∃ v : Nat, .signal v (some 7) ∈
        ([.signal 1 (some 7), .signal 2 Option.none] : List (SignalCall Nat Nat))) ↔
      SignalFirst ([.signal 1 (some 7), .signal 2 Option.none] : List (SignalCall Nat Nat))) := by
  have hExec : execTrace step call (.none : Signal Nat Nat) [.pollWait 7, .pollWait 7, .signal 1,
      .signal 2] = some ([.pollWait 7 .pending, .pollWait 7 .pending, .signal 1 (some 7),
        .signal 2 Option.none], .signaled 2) := rfl
  have hReady : execTrace step call (.none : Signal Nat Nat) [.pollWait 7, .pollWait 7, .signal 1,
      .signal 2, .pollWait 7] = some ([.pollWait 7 .pending, .pollWait 7 .pending,
        .signal 1 (some 7), .signal 2 Option.none, .pollWait 7 (.ready 2)], .none) := rfl
  refine ⟨(signal_wakes_iff (Trace.of_execTrace hReady)).1 _ 7 2 [] rfl, ?_⟩
  refine (signal_wakes_iff (Trace.of_execTrace hExec)).2 [.pollWait 7 .pending] 7 _ rfl ?_
    ⟨1, some 7, by simp⟩
  rintro c hc ⟨poll, rfl⟩
  simp at hc

end Signal

end Embassy.Util
