import Embassy.Lib.BatchStack
import Embassy.Lib.Run
import Embassy.Lib.Seg

/-!
# The run queue on its own

`embassy/src/executor/run_queue.rs`, with any callers: any number of agents call
`enqueue`, and any number of drainers call `dequeue_all`, whose closure may do anything
until it returns. Every operation on the head or on a link is a step.

The callers promise that an item is not linked when it is enqueued (`Linked`).

* `Refines` — the queue is a stack that is emptied in batches; the successful
  exchange of the head is the push, and the swap takes everything.
* `run_queue_linearizable` — what this says of what the calls return and visit.
-/

namespace Embassy.Executor

open Embassy.Lib

-- ---------------------------------------------------------------------------
-- Steps
-- ---------------------------------------------------------------------------

/-- The next operation of a call of `enqueue`. -/
inductive RunQueue.Enqueue (Item : Type) where
  | idle
  | loadHead (item : Item)
  | storeNext (item : Item) (prev : Option Item)
  | casHead (item : Item) (prev : Option Item)

/-- The next operation of a call of `dequeue_all`. -/
inductive RunQueue.Dequeue (Item : Type) where
  | idle
  | swap
  | walk (task : Option Item)
  /-- The closure runs; the link of its task was read before. -/
  | onTask (next : Option Item)

structure RunQueue (Item Agent Drainer : Type) where
  head : Option Item
  next : Item → Option Item
  enq : Agent → RunQueue.Enqueue Item
  deq : Drainer → RunQueue.Dequeue Item
  /-- What took effect, in this order. -/
  log : List (StackEvent Item Drainer)

namespace RunQueue

variable {Item Agent Drainer : Type}

def new : RunQueue Item Agent Drainer where
  head := none
  next := fun _ => none
  enq := fun _ => .idle
  deq := fun _ => .idle
  log := []

inductive Action (Item Agent Drainer : Type) where
  | enqueue (a : Agent) (item : Item)
  /-- The call of `a` makes its next operation. -/
  | advance (a : Agent) (weak : Bool)
  | dequeueAll (d : Drainer)
  /-- The call of `d` makes its next operation, or calls its closure. -/
  | drain (d : Drainer)
  /-- The closure returns. -/
  | returned (d : Drainer)
  /-- An item is linked in another queue. -/
  | other (item : Item) (next : Option Item)

section Step

variable [DecidableEq Item] [DecidableEq Agent] [DecidableEq Drainer]

def setEnq (s : RunQueue Item Agent Drainer) (a : Agent) (k : Enqueue Item) :
    RunQueue Item Agent Drainer :=
  { s with enq := Function.update s.enq a k }

def setDeq (s : RunQueue Item Agent Drainer) (d : Drainer) (k : Dequeue Item) :
    RunQueue Item Agent Drainer :=
  { s with deq := Function.update s.deq d k }

def record (s : RunQueue Item Agent Drainer) (e : StackEvent Item Drainer) :
    RunQueue Item Agent Drainer :=
  { s with log := s.log ++ [e] }

/-- A `weak` compare-and-exchange may fail also when it finds the expected value. -/
def advance (s : RunQueue Item Agent Drainer) (a : Agent) (weak : Bool) :
    Option (RunQueue Item Agent Drainer) :=
  match s.enq a with
  | .idle => none
  | .loadHead item => some (s.setEnq a (.storeNext item s.head))
  | .storeNext item prev =>
    some ({ s with next := Function.update s.next item prev }.setEnq a (.casHead item prev))
  | .casHead item prev =>
    if weak = false ∧ s.head = prev then
      -- the call returns `prev.is_null()`
      some (({ s with head := some item }.setEnq a .idle).record (.push item prev.isNone))
    else some (s.setEnq a (.storeNext item s.head))

def drain (s : RunQueue Item Agent Drainer) (d : Drainer) : Option (RunQueue Item Agent Drainer) :=
  match s.deq d with
  | .idle | .onTask _ => none
  | .swap => some (({ s with head := none }.setDeq d (.walk s.head)).record (.takeAll d))
  | .walk (some task) => some ((s.setDeq d (.onTask (s.next task))).record (.visit d task))
  | .walk none => some ((s.setDeq d .idle).record (.finish d))

def step (s : RunQueue Item Agent Drainer) :
    Action Item Agent Drainer → Option (RunQueue Item Agent Drainer)
  | .enqueue a item =>
    match s.enq a with
    | .idle => some (s.setEnq a (.loadHead item))
    | _ => none
  | .advance a weak => s.advance a weak
  | .dequeueAll d =>
    match s.deq d with
    | .idle => some (s.setDeq d .swap)
    | _ => none
  | .drain d => s.drain d
  | .returned d =>
    match s.deq d with
    | .onTask next => some (s.setDeq d (.walk next))
    | _ => none
  | .other item next => some { s with next := Function.update s.next item next }

end Step

/-- The item that a call of `enqueue` links. -/
def Enqueue.item : Enqueue Item → Option Item
  | idle => none
  | loadHead item | storeNext item _ | casHead item _ => some item

/-- The rest of the batch that a call of `dequeue_all` will visit. -/
def Dequeue.rest : Dequeue Item → Option Item
  | idle | swap => none
  | walk task => task
  | onTask next => next

/-- The item is in the queue, or in the rest of a batch, or is being enqueued. -/
def Linked (s : RunQueue Item Agent Drainer) (item : Item) : Prop :=
  (∃ a, (s.enq a).item = some item) ∨ Leads s.next s.head item ∨
    ∃ d, Leads s.next (s.deq d).rest item

/-- An item is enqueued, here or elsewhere, only when it is not linked. -/
def Unlinked (s : RunQueue Item Agent Drainer) : Action Item Agent Drainer → Prop
  | .enqueue _ item | .other item _ => ¬ s.Linked item
  | _ => True

-- ---------------------------------------------------------------------------
-- The stack
-- ---------------------------------------------------------------------------

/-- Where an item is. -/
inductive Place (Agent Drainer : Type) where
  | off
  | owned (a : Agent)
  | stacked
  | batched (d : Drainer)

/-- The call has this batch left to visit. -/
def Dequeue.Walks (next : Item → Option Item) : Dequeue Item → Option (List Item) → Prop
  | idle, batch | swap, batch => batch = none
  | walk h, batch | onTask h, batch => ∃ l, batch = some l ∧ Seg next h l none

/-- The queue is the stack `b`. The place of each item says that it is there only once. -/
structure Refines (s : RunQueue Item Agent Drainer) (b : BatchStack Item Drainer)
    (place : Item → Place Agent Drainer) : Prop where
  queue : Seg s.next s.head b.stack none
  batch : ∀ d, (s.deq d).Walks s.next (b.batch d)
  stored : ∀ a item prev, s.enq a = .casHead item prev → s.next item = prev
  owned : ∀ a item, (s.enq a).item = some item ↔ place item = .owned a
  stacked : ∀ item, item ∈ b.stack ↔ place item = .stacked
  batched : ∀ d item, (∃ l, b.batch d = some l ∧ item ∈ l) ↔ place item = .batched d

/-- The queue is empty, and so is the stack. -/
theorem refines_new : Refines (new : RunQueue Item Agent Drainer) .empty fun _ => .off := by
  constructor <;> simp [new, BatchStack.empty, Dequeue.Walks, Enqueue.item]

/-- A walk reads the links of its batch only. -/
theorem Dequeue.Walks.congr {next next' : Item → Option Item} {k : Dequeue Item}
    {batch : Option (List Item)} (h : k.Walks next batch)
    (hEq : ∀ l, batch = some l → ∀ item ∈ l, next' item = next item) : k.Walks next' batch := by
  cases k with
  | idle | swap => exact h
  | walk task | onTask task =>
    obtain ⟨l, hl, hSeg⟩ := h
    exact ⟨l, hl, hSeg.congr (hEq l hl)⟩

namespace Refines

variable {s : RunQueue Item Agent Drainer} {b : BatchStack Item Drainer}
  {place : Item → Place Agent Drainer}

/-- An item that is not linked is at no place. -/
theorem off_of_not_linked (h : Refines s b place) {item : Item} (hNot : ¬ s.Linked item) :
    place item = .off := by
  cases hPlace : place item with
  | off => rfl
  | owned a => exact absurd (.inl ⟨a, (h.owned a item).mpr hPlace⟩) hNot
  | stacked => exact absurd (.inr (.inl (h.queue.leads ((h.stacked item).mpr hPlace)))) hNot
  | batched d =>
    obtain ⟨l, hl, hMem⟩ := (h.batched d item).mpr hPlace
    have hWalks := h.batch d
    refine absurd (.inr (.inr ⟨d, ?_⟩)) hNot
    cases hDeq : s.deq d with
    | idle | swap =>
      rw [hDeq] at hWalks
      cases hl.symm.trans hWalks
    | walk task | onTask task =>
      rw [hDeq] at hWalks
      obtain ⟨l', hl', hSeg⟩ := hWalks
      cases hl.symm.trans hl'
      exact hSeg.leads hMem

section Frame

variable [DecidableEq Item] [DecidableEq Agent]

omit [DecidableEq Agent] in
/-- A link is written that is not followed. -/
theorem write (h : Refines s b place) {item : Item} {v : Option Item}
    (hStacked : place item ≠ .stacked) (hBatched : ∀ d, place item ≠ .batched d)
    (hStored : ∀ a prev, s.enq a ≠ .casHead item prev) :
    Refines { s with next := Function.update s.next item v } b place where
  queue := h.queue.update_of_notMem fun hMem => hStacked ((h.stacked item).mp hMem)
  batch d := by
    refine (h.batch d).congr fun l hl item' hMem => Function.update_of_ne ?_ _ _
    rintro rfl
    exact hBatched d ((h.batched d item').mp ⟨l, hl, hMem⟩)
  stored a item' prev hCas := by
    have hne : item' ≠ item := by
      rintro rfl
      exact hStored a prev hCas
    show Function.update s.next item v item' = prev
    rw [Function.update_of_ne hne]
    exact h.stored a item' prev hCas
  owned := h.owned
  stacked := h.stacked
  batched := h.batched

omit [DecidableEq Item] in
/-- An agent that is about to exchange the head has stored the link. -/
theorem setEnq_stored (h : Refines s b place) {a : Agent} {k : Enqueue Item}
    (hStored : ∀ item prev, k = .casHead item prev → s.next item = prev) (a' : Agent)
    (item : Item) (prev : Option Item) (hCas : (s.setEnq a k).enq a' = .casHead item prev) :
    s.next item = prev := by
  by_cases ha : a' = a
  · exact hStored item prev (by simpa [RunQueue.setEnq, ha] using hCas)
  · exact h.stored a' item prev (by simpa [RunQueue.setEnq, ha] using hCas)

/-- A call of `enqueue` takes an item up, or is done with it. -/
theorem setEnq_owned (h : Refines s b place) {a : Agent} {k : Enqueue Item} {item : Item}
    {new : Place Agent Drainer}
    (hOwned : ∀ item', k.item = some item' ↔ Function.update place item new item' = .owned a)
    (hFrom : ∀ a', a' ≠ a → place item ≠ .owned a') (hTo : ∀ a', a' ≠ a → new ≠ .owned a')
    (a' : Agent) (item' : Item) :
    ((s.setEnq a k).enq a').item = some item' ↔
      Function.update place item new item' = .owned a' := by
  by_cases ha : a' = a
  · subst ha
    simpa [RunQueue.setEnq] using hOwned item'
  · have hOld := h.owned a' item'
    simpa [RunQueue.setEnq, ha] using iff_of_move hOld (hFrom a' ha) (hTo a' ha)

omit [DecidableEq Item] in
/-- A call of `enqueue` goes on with its item. -/
theorem setEnq (h : Refines s b place) {a : Agent} {k : Enqueue Item}
    (hItem : k.item = (s.enq a).item)
    (hStored : ∀ item prev, k = .casHead item prev → s.next item = prev) :
    Refines (s.setEnq a k) b place where
  queue := h.queue
  batch := h.batch
  stored := h.setEnq_stored hStored
  owned a' item := by
    have hOld := h.owned a' item
    by_cases ha : a' = a
    · subst ha
      simpa [RunQueue.setEnq, hItem] using hOld
    · simpa [RunQueue.setEnq, ha] using hOld
  stacked := h.stacked
  batched := h.batched

omit [DecidableEq Item] [DecidableEq Agent] in
/-- A call of `dequeue_all` goes on with its batch. -/
theorem setDeq [DecidableEq Drainer] (h : Refines s b place) {d : Drainer} {k : Dequeue Item}
    (hWalks : k.Walks s.next (b.batch d)) : Refines (s.setDeq d k) b place where
  queue := h.queue
  batch d' := by
    by_cases hd : d' = d
    · subst hd
      simpa [RunQueue.setDeq] using hWalks
    · simpa [RunQueue.setDeq, hd] using h.batch d'
  stored := h.stored
  owned := h.owned
  stacked := h.stacked
  batched := h.batched

end Frame

section Effects

variable [DecidableEq Item]

/-- An agent that begins has the item in its hands. -/
theorem enqueue [DecidableEq Agent] (h : Refines s b place) {a : Agent} {item : Item}
    (hIdle : s.enq a = .idle) (hOff : place item = .off) :
    Refines (s.setEnq a (.loadHead item)) b (Function.update place item (.owned a)) where
  queue := h.queue
  batch := h.batch
  stored := h.setEnq_stored (by simp)
  owned := by
    refine h.setEnq_owned (fun item' => ?_) (by simp [hOff]) (by simp +contextual [eq_comm])
    by_cases hi : item' = item
    · simp [Enqueue.item, hi]
    · have hOld := h.owned a item'
      rw [hIdle] at hOld
      simpa [Enqueue.item, hi, Ne.symm hi] using hOld
  stacked item' := iff_of_move (h.stacked item') (by simp [hOff]) (by simp)
  batched d item' := iff_of_move (h.batched d item') (by simp [hOff]) (by simp)

/-- The exchange of the head succeeds, and the item is on the stack. -/
theorem push [DecidableEq Agent] [DecidableEq Drainer] (h : Refines s b place) {a : Agent}
    {item : Item} (hCas : s.enq a = .casHead item s.head) :
    b.Ok (.push item s.head.isNone) ∧
      Refines ({ s with head := some item }.setEnq a .idle) (b.next (.push item s.head.isNone))
        (Function.update place item .stacked) := by
  have hOwned : place item = .owned a := (h.owned a item).mp (by simp [hCas, Enqueue.item])
  have hNext : s.next item = s.head := h.stored a item s.head hCas
  -- an owned item is not on the stack
  have hNot : item ∉ b.stack := fun hMem => by simp [(h.stacked item).mp hMem] at hOwned
  refine ⟨⟨hNot, ?_⟩, ?_⟩
  · have hQueue := h.queue
    constructor
    · intro hNone
      rw [Option.isNone_iff_eq_none.mp hNone] at hQueue
      exact hQueue.eq_nil
    · intro hNil
      rw [hNil] at hQueue
      exact Option.isNone_iff_eq_none.mpr hQueue
  · constructor
    case queue => exact ⟨rfl, hNext ▸ h.queue⟩
    case batch => exact h.batch
    case stored => exact h.setEnq_stored (by simp)
    -- the item passes from `a` to the stack
    case owned =>
      refine h.setEnq_owned (fun item' => ?_) (by simp +contextual [hOwned, eq_comm]) (by simp)
      by_cases hi : item' = item
      · simp [Enqueue.item, hi]
      · have hOld := h.owned a item'
        rw [hCas] at hOld
        simpa [Enqueue.item, hi, Ne.symm hi] using hOld
    case stacked =>
      intro item'
      by_cases hi : item' = item
      · simp [BatchStack.next, hi]
      · simpa [BatchStack.next, hi] using h.stacked item'
    case batched =>
      exact fun d item' => iff_of_move (h.batched d item') (by simp [hOwned]) (by simp)

omit [DecidableEq Item] in
/-- The swap turns the stack into a batch. -/
theorem takeAll [DecidableEq Drainer] (h : Refines s b place) {d : Drainer}
    (hSwap : s.deq d = .swap) : b.Ok (.takeAll d) ∧
      Refines ({ s with head := none }.setDeq d (.walk s.head)) (b.next (.takeAll d))
        fun item => match place item with
          | .stacked => .batched d
          | p => p := by
  -- a drain about to swap has finished its last batch
  have hNone : b.batch d = none := by
    have hWalks := h.batch d
    rwa [hSwap] at hWalks
  have hEmpty : ∀ item, place item ≠ .batched d := by
    intro item hPlace
    obtain ⟨l, hl, -⟩ := (h.batched d item).mpr hPlace
    cases hNone.symm.trans hl
  refine ⟨hNone, ?_⟩
  constructor
  case queue => rfl
  case batch =>
    intro d'
    by_cases hd : d' = d
    · subst hd
      simpa [RunQueue.setDeq, BatchStack.next, Dequeue.Walks] using h.queue
    · simpa [RunQueue.setDeq, BatchStack.next, hd] using h.batch d'
  case stored => exact h.stored
  case owned =>
    intro a item
    refine (h.owned a item).trans ?_
    cases place item with
    | off | owned | stacked | batched => simp
  case stacked =>
    intro item
    cases place item with
    | off | owned | stacked | batched => simp [BatchStack.next]
  -- the stack becomes the batch of `d`; the batches of other drains stay
  case batched =>
    intro d' item
    by_cases hd : d' = d
    · subst hd
      have hOld := h.stacked item
      have hNot := hEmpty item
      cases hPlace : place item with
      | off | owned | stacked | batched => simp_all [BatchStack.next]
    · have hOld := h.batched d' item
      cases hPlace : place item with
      | off | owned | stacked | batched => simp_all [BatchStack.next, Ne.symm hd]

/-- The link of the next item is read, and the item is visited. -/
theorem visit [DecidableEq Drainer] (h : Refines s b place) {d : Drainer} {task : Item}
    (hWalk : s.deq d = .walk (some task)) : b.Ok (.visit d task) ∧
      Refines (s.setDeq d (.onTask (s.next task))) (b.next (.visit d task))
        (Function.update place task .off) := by
  obtain ⟨l, hl, hSeg⟩ : ∃ l, b.batch d = some (task :: l) ∧ Seg s.next (s.next task) l none := by
    have hWalks := h.batch d
    rw [hWalk] at hWalks
    obtain ⟨l, hl, hSeg⟩ := hWalks
    obtain ⟨r, rfl⟩ := hSeg.eq_cons
    exact ⟨r, hl, hSeg.2⟩
  have hPlace : place task = .batched d :=
    (h.batched d task).mp ⟨_, hl, List.mem_cons_self⟩
  -- a batch names no item twice
  have hNot : task ∉ l := by
    have hWalks := h.batch d
    rw [hWalk, hl] at hWalks
    obtain ⟨l', hl', hSeg'⟩ := hWalks
    cases hl'
    exact (List.nodup_cons.mp hSeg'.nodup).1
  refine ⟨⟨l, hl⟩, ?_⟩
  constructor
  case queue => exact h.queue
  case batch =>
    intro d'
    by_cases hd : d' = d
    · subst hd
      simpa [RunQueue.setDeq, BatchStack.next, hl, Dequeue.Walks] using hSeg
    · simpa [RunQueue.setDeq, BatchStack.next, hd] using h.batch d'
  case stored => exact h.stored
  case owned => exact fun a item => iff_of_move (h.owned a item) (by simp [hPlace]) (by simp)
  case stacked => exact fun item => iff_of_move (h.stacked item) (by simp [hPlace]) (by simp)
  -- the item visited is nowhere now, the rest of the batch stays
  case batched =>
    intro d' item
    have hOld := h.batched d' item
    by_cases hd : d' = d
    · subst hd
      by_cases hi : item = task
      · simp [BatchStack.next, hl, hi, hNot]
      · simpa [BatchStack.next, hl, hi] using hOld
    · by_cases hi : item = task
      · subst hi
        simpa [BatchStack.next, hd, hPlace, Ne.symm hd] using hOld
      · simpa [BatchStack.next, hd, hi] using hOld

omit [DecidableEq Item] in
/-- The batch is visited. -/
theorem finish [DecidableEq Drainer] (h : Refines s b place) {d : Drainer}
    (hWalk : s.deq d = .walk none) : b.Ok (.finish d) ∧
      Refines (s.setDeq d .idle) (b.next (.finish d)) place := by
  -- the walk is at its end, so nothing is left of the batch
  have hNil : b.batch d = some [] := by
    have hWalks := h.batch d
    rw [hWalk] at hWalks
    obtain ⟨l, hl, hSeg⟩ := hWalks
    rwa [hSeg.eq_nil] at hl
  refine ⟨hNil, ?_⟩
  constructor
  case queue => exact h.queue
  case batch =>
    intro d'
    by_cases hd : d' = d
    · subst hd
      simp [RunQueue.setDeq, BatchStack.next, Dequeue.Walks]
    · simpa [RunQueue.setDeq, BatchStack.next, hd] using h.batch d'
  case stored => exact h.stored
  case owned => exact h.owned
  case stacked => exact h.stacked
  case batched =>
    intro d' item
    have hOld := h.batched d' item
    by_cases hd : d' = d
    · subst hd
      simpa [BatchStack.next, hNil] using hOld
    · simpa [BatchStack.next, hd] using hOld

end Effects

end Refines

-- ---------------------------------------------------------------------------
-- Runs
-- ---------------------------------------------------------------------------

variable [DecidableEq Item] [DecidableEq Agent] [DecidableEq Drainer]

/-- The queue is what the stack is after the events so far, which it admits. -/
def Linearized (s : RunQueue Item Agent Drainer) : Prop :=
  BatchStack.empty.Legal s.log ∧ ∃ place, Refines s (BatchStack.empty.after s.log) place

variable {s s' : RunQueue Item Agent Drainer}

omit [DecidableEq Item] [DecidableEq Agent] in
/-- An event is recorded where it takes effect. -/
theorem Linearized.record {e : StackEvent Item Drainer} {place : Item → Place Agent Drainer}
    (hLegal : BatchStack.empty.Legal s.log) (hOk : (BatchStack.empty.after s.log).Ok e)
    (h : Refines s' ((BatchStack.empty.after s.log).next e) place) (hLog : s'.log = s.log) :
    (s'.record e).Linearized := by
  have hAfter : BatchStack.empty.after (s'.record e).log =
      (BatchStack.empty.after s.log).next e := by
    rw [RunQueue.record, hLog, BatchStack.after_concat]
  refine ⟨?_, place, ?_⟩
  · rw [RunQueue.record, hLog]
    exact BatchStack.legal_concat.mpr ⟨hLegal, hOk⟩
  · rw [hAfter]
    exact ⟨h.queue, h.batch, h.stored, h.owned, h.stacked, h.batched⟩

/-- Every step records at most one event, which is legal there. -/
theorem Linearized.step (h : s.Linearized) {a : Action Item Agent Drainer} (hOk : s.Unlinked a)
    (hStep : s.step a = some s') : s'.Linearized := by
  obtain ⟨hLegal, place, hR⟩ := h
  -- the push is the successful exchange, the take the swap; other steps record nothing
  cases a with
  | enqueue a item =>
    simp only [RunQueue.step] at hStep
    split at hStep
    · cases hStep
      exact ⟨hLegal, _, hR.enqueue ‹_› (hR.off_of_not_linked hOk)⟩
    · cases hStep
  | advance a weak =>
    simp only [RunQueue.step, advance] at hStep
    split at hStep
    · cases hStep
    · rename_i item hEnq
      cases hStep
      exact ⟨hLegal, place, hR.setEnq (by simp [hEnq, Enqueue.item]) (by simp)⟩
    · rename_i item prev hEnq
      cases hStep
      have hPlace : place item = .owned a := (hR.owned a item).mp (by simp [hEnq, Enqueue.item])
      -- no other context has compared against a link of this item
      have hOwn : ∀ a' prev', s.enq a' ≠ .casHead item prev' := by
        intro a' prev' hCas
        have hSame := (hR.owned a' item).mp (by simp [hCas, Enqueue.item])
        rw [hPlace] at hSame
        cases hSame
        cases hEnq.symm.trans hCas
      refine ⟨hLegal, place, (hR.write (by simp [hPlace]) (by simp [hPlace]) hOwn).setEnq
        (by simp [hEnq, Enqueue.item]) ?_⟩
      rintro item' prev' ⟨⟩
      exact Function.update_self ..
    · rename_i item prev hEnq
      split at hStep
      · rename_i hCas
        cases hStep
        obtain ⟨-, rfl⟩ := hCas
        obtain ⟨hPush, hNew⟩ := hR.push hEnq
        exact .record hLegal hPush hNew rfl
      · cases hStep
        exact ⟨hLegal, place, hR.setEnq (by simp [hEnq, Enqueue.item]) (by simp)⟩
  -- starting a drain changes where it stands only
  | dequeueAll d =>
    simp only [RunQueue.step] at hStep
    split at hStep
    · rename_i hIdle
      cases hStep
      have hWalks := hR.batch d
      rw [hIdle] at hWalks
      exact ⟨hLegal, place, hR.setDeq hWalks⟩
    · cases hStep
  | drain d =>
    simp only [RunQueue.step, drain] at hStep
    split at hStep
    · cases hStep
    · cases hStep
    · cases hStep
      obtain ⟨hTake, hNew⟩ := hR.takeAll ‹_›
      exact .record hLegal hTake hNew rfl
    · cases hStep
      obtain ⟨hVisit, hNew⟩ := hR.visit ‹_›
      exact .record hLegal hVisit hNew rfl
    · cases hStep
      obtain ⟨hFinish, hNew⟩ := hR.finish ‹_›
      exact .record hLegal hFinish hNew rfl
  | returned d =>
    simp only [RunQueue.step] at hStep
    split at hStep
    · rename_i next hOnTask
      cases hStep
      have hWalks := hR.batch d
      rw [hOnTask] at hWalks
      exact ⟨hLegal, place, hR.setDeq hWalks⟩
    · cases hStep
  -- a link written outside the queue is of an item that is not in it
  | other item next =>
    cases hStep
    have hOff := hR.off_of_not_linked hOk
    refine ⟨hLegal, place, hR.write (by simp [hOff]) (by simp [hOff]) fun a prev hCas => ?_⟩
    have hPlace := (hR.owned a item).mp (by simp [hCas, Enqueue.item])
    cases hOff.symm.trans hPlace

/-- In every run of unlinked items. -/
theorem linearized_of_run (hRun : Run step Unlinked (new : RunQueue Item Agent Drainer) s) :
    s.Linearized :=
  hRun.invariant ⟨trivial, _, refines_new⟩ fun _ _ _ h hOk hStep => h.step hOk hStep

/-- In the order in which the exchanges and swaps took effect: a call of `enqueue` returns
true exactly if nothing was enqueued since the swap before it, and a swap yields what was
enqueued since the one before, each item once and the latest first, whatever is
enqueued while it is visited. -/
theorem run_queue_linearizable
    (hRun : Run step Unlinked (new : RunQueue Item Agent Drainer) s) :
    (∀ pre post item wasEmpty, s.log = pre ++ .push item wasEmpty :: post →
      (wasEmpty = true ↔ BatchStack.pending pre [] = [])) ∧
    ∀ pre post d, s.log = pre ++ .takeAll d :: post →
      (BatchStack.pending pre []).Nodup ∧
        ∃ rest, BatchStack.pending pre [] = BatchStack.visits d post ++ rest ∧
          (.finish d ∈ post → rest = []) := by
  obtain ⟨hLegal, -⟩ := linearized_of_run hRun
  constructor
  · intro pre post item wasEmpty hLog
    rw [hLog] at hLegal
    exact hLegal.wasEmpty
  · intro pre post d hLog
    rw [hLog] at hLegal
    exact hLegal.visits

/-- An item is enqueued again by the closure that visits it. -/
theorem run_queue_linearizable_again :
    ∃ s : RunQueue Bool Unit Unit, Run step Unlinked new s ∧
      s.log = [.push true true, .takeAll (), .visit () true, .push true true, .finish ()] ∧
      (∀ pre post item wasEmpty, s.log = pre ++ .push item wasEmpty :: post →
        (wasEmpty = true ↔ BatchStack.pending pre [] = [])) ∧
      ∀ pre post d, s.log = pre ++ .takeAll d :: post →
        (BatchStack.pending pre []).Nodup ∧
          ∃ rest, BatchStack.pending pre [] = BatchStack.visits d post ++ rest ∧
            (.finish d ∈ post → rest = []) := by
  have hUnlinked : ∀ {s : RunQueue Bool Unit Unit}, s.head = none → (s.enq ()).item = none →
      (s.deq ()).rest = none → s.Unlinked (.enqueue () true) := by
    rintro s hHead hEnq hDeq (⟨⟨⟩, h⟩ | ⟨l, m, hSeg⟩ | ⟨⟨⟩, l, m, hSeg⟩)
    · simp [hEnq] at h
    · rw [hHead] at hSeg
      cases l <;> simp at hSeg
    · rw [hDeq] at hSeg
      cases l <;> simp at hSeg
  have hGo : ∀ {u v : RunQueue Bool Unit Unit} (a), Run step Unlinked new u → u.Unlinked a →
      u.step a = some v → Run step Unlinked new v := fun a hRun hOk hStep => hRun.tail hOk hStep
  have hCall := hGo (.enqueue () true) .refl (hUnlinked rfl rfl rfl) rfl
  have hLoad := hGo (.advance () false) hCall trivial rfl
  have hStore := hGo (.advance () false) hLoad trivial rfl
  have hPush := hGo (.advance () false) hStore trivial rfl
  have hDequeue := hGo (.dequeueAll ()) hPush trivial rfl
  have hSwap := hGo (.drain ()) hDequeue trivial rfl
  have hVisit := hGo (.drain ()) hSwap trivial rfl
  -- the closure enqueues its item again, and the exchange fails once
  have hCall' := hGo (.enqueue () true) hVisit (hUnlinked rfl rfl rfl) rfl
  have hLoad' := hGo (.advance () false) hCall' trivial rfl
  have hStore' := hGo (.advance () false) hLoad' trivial rfl
  have hRetry := hGo (.advance () true) hStore' trivial rfl
  have hStore'' := hGo (.advance () false) hRetry trivial rfl
  have hPush' := hGo (.advance () false) hStore'' trivial rfl
  have hReturned := hGo (.returned ()) hPush' trivial rfl
  have hFinish := hGo (.drain ()) hReturned trivial rfl
  exact ⟨_, hFinish, rfl, run_queue_linearizable hFinish⟩
end RunQueue

end Embassy.Executor
