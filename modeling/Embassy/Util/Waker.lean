import Mathlib.Tactic.TypeStar

/-!
# Polls and registered wakers

`core::task::Poll` and `embassy/src/util/waker.rs`. A waker stands for its task;
the tasks on which `wake_task` is called are returned beside the new registration.
-/

namespace Embassy.Util

/-- The result of a poll. -/
inductive Poll (α : Type*) where
  | ready (x : α)
  | pending
  deriving DecidableEq, Repr

structure WakerRegistration (Task : Type*) where
  waker : Option Task
  deriving DecidableEq, Repr

namespace WakerRegistration

variable {Task : Type*}

def new : WakerRegistration Task where
  waker := none

/-- Another task that was registered is woken, so that it can register again. -/
def register [DecidableEq Task] (r : WakerRegistration Task) (w : Task) :
    WakerRegistration Task × List Task :=
  match r.waker with
  | some w2 => if w = w2 then (r, []) else (⟨some w⟩, [w2])
  | none => (⟨some w⟩, [])

def wake (r : WakerRegistration Task) : WakerRegistration Task × List Task :=
  (⟨none⟩, r.waker.toList)

@[simp]
theorem waker_register [DecidableEq Task] (r : WakerRegistration Task) (w : Task) :
    (r.register w).1.waker = some w := by
  unfold register
  split
  · rename_i w2 hw2
    split
    · rename_i hEq
      rw [hEq]
      exact hw2
    · rfl
  · rfl

@[simp]
theorem waker_wake (r : WakerRegistration Task) : r.wake.1.waker = none := rfl

end WakerRegistration

/-- A waker that stays when it is woken. -/
structure AtomicWaker (Task : Type*) where
  waker : Option Task
  deriving DecidableEq, Repr

namespace AtomicWaker

variable {Task : Type*}

def new : AtomicWaker Task where
  waker := none

def register (_ : AtomicWaker Task) (w : Task) : AtomicWaker Task where
  waker := some w

/-- The tasks that are woken. -/
def wake (a : AtomicWaker Task) : List Task := a.waker.toList

theorem wake_register (a : AtomicWaker Task) (w : Task) : (a.register w).wake = [w] := rfl

end AtomicWaker

end Embassy.Util
