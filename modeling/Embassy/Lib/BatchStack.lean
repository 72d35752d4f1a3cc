import Mathlib.Data.List.Nodup
import Mathlib.Logic.Function.Basic
import Mathlib.Tactic.TypeStar

/-!
# A stack that is emptied in batches

Nodes are pushed on a stack one by one, and any number of parties take all of it at
once, each to visit the nodes of its batch from the latest to the first. A history
is the list of these events, in the order in which they take effect.

* `Legal` — what the events find is what the events before them left.
* `Legal.wasEmpty` / `Legal.visits` — what this says of a history as a whole: a push finds
  the stack empty exactly if all was taken since the pushes before it, and the nodes
  that a party visits are those pushed since the stack was taken last.
-/

namespace Embassy.Lib

variable {α δ : Type*}

inductive StackEvent (α δ : Type*) where
  /-- A node is pushed, and it is reported whether the stack was empty. -/
  | push (x : α) (wasEmpty : Bool)
  | takeAll (d : δ)
  | visit (d : δ) (x : α)
  /-- The batch was visited. -/
  | finish (d : δ)
  deriving DecidableEq, Repr

/-- The nodes on the stack, and those that each party has not yet visited. -/
structure BatchStack (α δ : Type*) where
  stack : List α
  batch : δ → Option (List α)

namespace BatchStack

def empty : BatchStack α δ where
  stack := []
  batch := fun _ => none

variable [DecidableEq δ]

def next (b : BatchStack α δ) : StackEvent α δ → BatchStack α δ
  | .push x _ => { b with stack := x :: b.stack }
  | .takeAll d => { stack := [], batch := Function.update b.batch d (some b.stack) }
  | .visit d _ => { b with batch := Function.update b.batch d ((b.batch d).map List.tail) }
  | .finish d => { b with batch := Function.update b.batch d none }

/-- The event can be next. -/
def Ok (b : BatchStack α δ) : StackEvent α δ → Prop
  | .push x wasEmpty => x ∉ b.stack ∧ (wasEmpty = true ↔ b.stack = [])
  | .takeAll d => b.batch d = none
  | .visit d x => ∃ l, b.batch d = some (x :: l)
  | .finish d => b.batch d = some []

def after (b : BatchStack α δ) (es : List (StackEvent α δ)) : BatchStack α δ := es.foldl next b

def Legal (b : BatchStack α δ) : List (StackEvent α δ) → Prop
  | [] => True
  | e :: es => b.Ok e ∧ (b.next e).Legal es

variable {b : BatchStack α δ} {es es' : List (StackEvent α δ)} {e : StackEvent α δ}

@[simp]
theorem after_concat : b.after (es ++ [e]) = (b.after es).next e := List.foldl_concat ..

theorem legal_append : b.Legal (es ++ es') ↔ b.Legal es ∧ (b.after es).Legal es' := by
  induction es generalizing b with
  | nil => simp [Legal, after]
  | cons e es ih => simp only [List.cons_append, Legal, ih, and_assoc, after, List.foldl_cons]

theorem legal_concat : b.Legal (es ++ [e]) ↔ b.Legal es ∧ (b.after es).Ok e := by
  simp [legal_append, Legal]

-- ---------------------------------------------------------------------------
-- Histories
-- ---------------------------------------------------------------------------

/-- What was pushed since everything was taken last, the latest first. -/
def pending : List (StackEvent α δ) → List α → List α
  | [], l => l
  | .push x _ :: es, l => pending es (x :: l)
  | .takeAll _ :: es, _ => pending es []
  | _ :: es, l => pending es l

/-- What the party visits, until it has visited its batch. -/
def visits (d : δ) : List (StackEvent α δ) → List α
  | [] => []
  | .visit d' x :: es => if d' = d then x :: visits d es else visits d es
  | .finish d' :: es => if d' = d then [] else visits d es
  | _ :: es => visits d es

/-- What is on the stack are the items pushed and not taken since. -/
theorem stack_after : (b.after es).stack = pending es b.stack := by
  induction es generalizing b with
  | nil => rfl
  | cons e es ih =>
    show ((b.next e).after es).stack = _
    rw [ih]
    cases e with
    | push | takeAll | visit | finish => rfl

/-- No item is on the stack twice. -/
theorem Legal.nodup (h : b.Legal es) (hb : b.stack.Nodup) : (pending es b.stack).Nodup := by
  induction es generalizing b with
  | nil => exact hb
  | cons e es ih =>
    obtain ⟨hOk, hRest⟩ := h
    cases e with
    | push x _ => exact ih hRest (List.nodup_cons.mpr ⟨hOk.1, hb⟩)
    | takeAll => exact ih hRest List.nodup_nil
    | visit | finish => exact ih (b := b.next _) hRest hb

/-- A batch is visited from its first node on, and all of it before its visit ends. -/
theorem Legal.batch {d : δ} {l : List α} (h : b.Legal es) (hb : b.batch d = some l) :
    ∃ rest, l = visits d es ++ rest ∧ (.finish d ∈ es → rest = []) := by
  induction es generalizing b l with
  | nil => exact ⟨l, rfl, fun hMem => nomatch hMem⟩
  | cons e es ih =>
    obtain ⟨hOk, hRest⟩ := h
    -- an event of another party, or of none
    have hOther : e ≠ .finish d → (b.next e).batch d = some l → visits d (e :: es) = visits d es →
        ∃ rest, l = visits d (e :: es) ++ rest ∧ (.finish d ∈ e :: es → rest = []) := by
      intro hNe hSame hVisits
      obtain ⟨rest, hSplit, hEnd⟩ := ih hRest hSame
      refine ⟨rest, hVisits ▸ hSplit, fun hMem => ?_⟩
      exact hEnd ((List.mem_cons.mp hMem).resolve_left (Ne.symm hNe))
    cases e with
    | push x _ => exact hOther (by simp) hb rfl
    | takeAll d' =>
      by_cases hd : d' = d
      · subst hd
        cases hb.symm.trans hOk
      · exact hOther (by simp) (by simpa [next, Ne.symm hd] using hb) rfl
    | visit d' x =>
      by_cases hd : d' = d
      · subst hd
        obtain ⟨l', hl⟩ := hOk
        cases hb.symm.trans hl
        obtain ⟨rest, rfl, hEnd⟩ := ih (l := l') hRest (by simp [next, hl])
        exact ⟨rest, by simp [visits], by simpa using hEnd⟩
      · exact hOther (by simp) (by simpa [next, Ne.symm hd] using hb) (by simp [visits, hd])
    | finish d' =>
      by_cases hd : d' = d
      · subst hd
        cases hb.symm.trans hOk
        exact ⟨[], by simp [visits], fun _ => rfl⟩
      · exact hOther (by simpa using hd) (by simpa [next, Ne.symm hd] using hb)
          (by simp [visits, hd])

variable {pre post : List (StackEvent α δ)}

/-- A push sees an empty stack exactly if nothing is pending. -/
theorem Legal.wasEmpty {x : α} {wasEmpty : Bool}
    (h : (empty : BatchStack α δ).Legal (pre ++ .push x wasEmpty :: post)) :
    wasEmpty = true ↔ pending pre [] = [] := by
  obtain ⟨-, hOk, -⟩ := legal_append.mp h
  have hStack := hOk.2
  rwa [stack_after] at hStack

/-- What was taken is visited in the order of the stack, each item once. -/
theorem Legal.visits {d : δ}
    (h : (empty : BatchStack α δ).Legal (pre ++ .takeAll d :: post)) :
    (pending pre []).Nodup ∧
      ∃ rest, pending pre [] = BatchStack.visits d post ++ rest ∧
        (.finish d ∈ post → rest = []) := by
  obtain ⟨hPre, -, hPost⟩ := legal_append.mp h
  refine ⟨hPre.nodup List.nodup_nil, hPost.batch ?_⟩
  simp [next, stack_after, empty]

end BatchStack

end Embassy.Lib
