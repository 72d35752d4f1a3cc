import Mathlib.Algebra.Group.Nat.Defs
import Mathlib.Logic.Function.Basic
import Mathlib.Tactic.Simps.Basic
import Embassy.Lib.Run

/-!
# The executor

`embassy/src/executor`: tasks in static slots, woken and spawned from any
context, and executors that drain their run queues. The code shares nothing
but a few atomic variables; here every single operation on one of them is a
step, and so is every access to a cell that another context may see.

* `Pc` — where a context stands in `TaskHeader::enqueue`,
  `RunQueue::enqueue`, `Task::spawn_pool` and `Executor::spawn`. The contexts
  are any number of agents (interrupts, threads, other tasks' polls) and, for
  the tasks it finds expired, each executor itself.
* `Drain` — where an executor stands in `run_queued`: `dequeue_expired`,
  `dequeue_all` with its closure and `TimerQueue::update`, `next_expiration`,
  `alarm.set`. `TimerQueue::retain` is one set of steps, with the closure it
  is called with.

What a task does while it is polled is free: it registers any deadlines, and
wakes and spawns through agents.

The machine is over arbitrary types of task slots, executors and agents.
-/

namespace Embassy.Executor

open Embassy.Lib

-- ---------------------------------------------------------------------------
-- Data
-- ---------------------------------------------------------------------------

/-- The state word of a task: `STATE_SPAWNED`, `STATE_RUN_QUEUED` and
`STATE_TIMER_QUEUED`. No other bit is used. -/
structure StateWord where
  spawned : Bool
  runQueued : Bool
  timerQueued : Bool
  deriving DecidableEq, Repr

/-- The state word 0 of a free slot. -/
def StateWord.free : StateWord := ⟨false, false, false⟩

/-- What `spawn_allocate` puts in place of 0. -/
def StateWord.allocated : StateWord := ⟨true, true, false⟩

/-- `enqueue` has nothing to do: already scheduled, or not started. -/
def StateWord.inert (w : StateWord) : Bool := w.runQueued || !w.spawned

/-- `Instant::MAX`. -/
def instantMax : Nat := 2 ^ 64 - 1

/-- What happens to a slot. -/
inductive Event where
  | allocate | writePollFn | writeFuture | pollStart | pollPending | pollReady
  | dropFuture | release
  deriving DecidableEq, Repr

/-- Who executes `TaskHeader::enqueue`: an agent, or an executor in
`dequeue_expired`. -/
inductive Context (Agent Exec : Type) where
  | agent (a : Agent)
  | drain (e : Exec)
  deriving DecidableEq, Repr

/-- The next operation of a context. -/
inductive Pc (Task Exec : Type) where
  | idle
  -- `TaskHeader::enqueue`
  | loadState (t : Task)
  | casState (t : Task) (current : StateWord)
  | getExecutor (t : Task)
  -- `RunQueue::enqueue`, and the signal that follows it
  | loadHead (t : Task) (e : Exec)
  | storeNext (t : Task) (e : Exec) (prev : Option Task)
  | casHead (t : Task) (e : Exec) (prev : Option Task)
  | signal (e : Exec)
  -- `Task::spawn_pool`, up to the `SpawnToken`
  | allocate (pool : List Task)
  | writePollFn (t : Task)
  | writeFuture (t : Task)
  | token (t : Task)
  deriving DecidableEq, Repr

/-- `prev` in `retain`: the cell of the queue's head, or of a task's link. -/
inductive Link (Task : Type) where
  | head
  | next (t : Task)
  deriving DecidableEq, Repr

/-- The closure `retain` is called with. -/
inductive Closure where
  | dequeueExpired (now : Nat)
  | nextExpiration (res : Nat)
  deriving DecidableEq, Repr

/-- The next operation of `run_queued`. The steps of `dequeue_all` carry the
`next` pointer read before the task is processed. -/
inductive Drain (Task : Type) where
  | idle
  -- `retain`
  | retain (f : Closure) (prev : Link Task)
  | filter (f : Closure) (prev : Link Task) (p : Task)
  | onTask (f : Closure) (prev : Link Task) (p : Task)
  | unlink (f : Closure) (prev : Link Task) (p : Task)
  | clearTimerQueued (f : Closure) (prev : Link Task) (p : Task)
  -- `dequeue_all`
  | swap
  | walk (task : Option Task)
  | setExpires (t : Task) (next : Option Task)
  | clearRunQueued (t : Task) (next : Option Task)
  -- `Task::poll`
  | poll (t : Task) (next : Option Task)
  | polling (t : Task) (next : Option Task)
  | dropFuture (t : Task) (next : Option Task)
  | release (t : Task) (next : Option Task)
  -- `TimerQueue::update`
  | updateTest (t : Task) (next : Option Task)
  | updateOr (t : Task) (next : Option Task)
  | updateNext (t : Task) (next : Option Task)
  | updateHead (t : Task) (next : Option Task)
  | setAlarm (value : Nat)
  deriving DecidableEq, Repr

structure State (Task Exec Agent : Type) where
  -- `TaskHeader`
  word : Task → StateWord
  next : Task → Option Task
  expiresAt : Task → Nat
  timerNext : Task → Option Task
  executor : Task → Option Exec
  -- `Executor`
  head : Exec → Option Task
  timerHead : Exec → Option Task
  /-- the value last passed to `alarm.set` -/
  alarm : Exec → Option Nat
  -- control
  pc : Context Agent Exec → Pc Task Exec
  drain : Exec → Drain Task
  -- history
  /-- calls of `signal_fn` -/
  signals : Exec → Nat
  /-- calls of `run_queued` -/
  calls : Exec → Nat
  /-- how often a drain has cleared `STATE_RUN_QUEUED` -/
  clears : Task → Nat
  /-- how often it has then ignored the task, as it was not spawned -/
  skips : Task → Nat
  polls : Task → Nat
  /-- the deadlines registered since the last poll began -/
  deadlines : Task → List Nat
  log : Task → List Event

/-- `TaskHeader::new` and `Executor::new`. -/
def init (Task Exec Agent : Type) : State Task Exec Agent where
  word := fun _ => .free
  next := fun _ => none
  expiresAt := fun _ => 0
  timerNext := fun _ => none
  executor := fun _ => none
  head := fun _ => none
  timerHead := fun _ => none
  alarm := fun _ => none
  pc := fun _ => .idle
  drain := fun _ => .idle
  signals := fun _ => 0
  calls := fun _ => 0
  clears := fun _ => 0
  skips := fun _ => 0
  polls := fun _ => 0
  deadlines := fun _ => []
  log := fun _ => []

section Machine

variable {Task Exec Agent : Type} [DecidableEq Task] [DecidableEq Exec] [DecidableEq Agent]

-- ---------------------------------------------------------------------------
-- Steps
-- ---------------------------------------------------------------------------

namespace State

@[simps -fullyApplied]
def setPc (s : State Task Exec Agent) (x : Context Agent Exec) (k : Pc Task Exec) :
    State Task Exec Agent :=
  { s with pc := Function.update s.pc x k }

@[simps -fullyApplied]
def setDrain (s : State Task Exec Agent) (e : Exec) (d : Drain Task) : State Task Exec Agent :=
  { s with drain := Function.update s.drain e d }

@[simps -fullyApplied]
def setWord (s : State Task Exec Agent) (t : Task) (w : StateWord) : State Task Exec Agent :=
  { s with word := Function.update s.word t w }

@[simps -fullyApplied]
def record (s : State Task Exec Agent) (t : Task) (ev : Event) : State Task Exec Agent :=
  { s with log := Function.update s.log t (s.log t ++ [ev]) }

/-- `prev.get()`. -/
def linkGet (s : State Task Exec Agent) (e : Exec) : Link Task → Option Task
  | .head => s.timerHead e
  | .next t => s.timerNext t

/-- `prev.set(p)`. -/
def linkSet (s : State Task Exec Agent) (e : Exec) (prev : Link Task) (p : Option Task) :
    State Task Exec Agent :=
  match prev with
  | .head => { s with timerHead := Function.update s.timerHead e p }
  | .next t => { s with timerNext := Function.update s.timerNext t p }

end State

/-- One operation of a context. A `weak` compare-and-exchange may fail also
when it finds the expected value. -/
def advance (s : State Task Exec Agent) (x : Context Agent Exec) (weak : Bool) :
    Option (State Task Exec Agent) :=
  match s.pc x with
  | .idle | .token _ => none
  | .loadState t =>
    some (s.setPc x (if (s.word t).inert then .idle else .casState t (s.word t)))
  | .casState t current =>
    if weak = false ∧ s.word t = current then
      some ((s.setWord t { current with runQueued := true }).setPc x (.getExecutor t))
    else some (s.setPc x (if (s.word t).inert then .idle else .casState t (s.word t)))
  | .getExecutor t =>
    -- a null pointer is not followed
    match s.executor t with
    | some e => some (s.setPc x (.loadHead t e))
    | none => none
  | .loadHead t e => some (s.setPc x (.storeNext t e (s.head e)))
  | .storeNext t e prev =>
    some ({ s with next := Function.update s.next t prev }.setPc x (.casHead t e prev))
  | .casHead t e prev =>
    if weak = false ∧ s.head e = prev then
      some ({ s with head := Function.update s.head e (some t) }.setPc x
        (if prev = none then .signal e else .idle))
    else some (s.setPc x (.storeNext t e (s.head e)))
  | .signal e =>
    some ({ s with signals := Function.update s.signals e (s.signals e + 1) }.setPc x .idle)
  | .allocate [] => some (s.setPc x .idle)
  | .allocate (t :: pool) =>
    if s.word t = .free then
      some (((s.setWord t .allocated).record t .allocate).setPc x (.writePollFn t))
    else some (s.setPc x (.allocate pool))
  | .writePollFn t => some ((s.record t .writePollFn).setPc x (.writeFuture t))
  | .writeFuture t => some ((s.record t .writeFuture).setPc x (.token t))

/-- `retain`: its closure is called for the task `p`. -/
def applyFilter (s : State Task Exec Agent) (e : Exec) (f : Closure) (prev : Link Task)
    (p : Task) : State Task Exec Agent :=
  match f with
  | .dequeueExpired now =>
    if s.expiresAt p ≤ now then
      (s.setPc (.drain e) (.loadState p)).setDrain e (.onTask f prev p)
    else s.setDrain e (.retain f (.next p))
  | .nextExpiration res =>
    if s.expiresAt p ≠ instantMax then
      s.setDrain e (.retain (.nextExpiration (min res (s.expiresAt p))) (.next p))
    else s.setDrain e (.unlink (.nextExpiration (min res (s.expiresAt p))) prev p)

/-- What `run_queued` does when `retain` has come to the end of the queue. -/
def Closure.finish (f : Closure) : Drain Task :=
  match f with
  | .dequeueExpired _ => .swap
  | .nextExpiration res => .setAlarm res

/-- One operation of `run_queued`, other than those the polled task decides. -/
def drainStep (hasAlarm : Exec → Bool) (s : State Task Exec Agent) (e : Exec) :
    Option (State Task Exec Agent) :=
  match s.drain e with
  | .idle | .polling _ _ => none
  | .retain f prev =>
    match s.linkGet e prev with
    | some p => some (s.setDrain e (.filter f prev p))
    | none => some (s.setDrain e f.finish)
  | .filter f prev p => some (applyFilter s e f prev p)
  | .onTask f prev p =>
    if s.pc (.drain e) = .idle then some (s.setDrain e (.unlink f prev p)) else none
  | .unlink f prev p =>
    some ((s.linkSet e prev (s.timerNext p)).setDrain e (.clearTimerQueued f prev p))
  | .clearTimerQueued f prev p =>
    some ((s.setWord p { s.word p with timerQueued := false }).setDrain e (.retain f prev))
  | .swap =>
    some ({ s with head := Function.update s.head e none }.setDrain e (.walk (s.head e)))
  | .walk (some t) => some (s.setDrain e (.setExpires t (s.next t)))
  | .walk none =>
    some (s.setDrain e (if hasAlarm e then .retain (.nextExpiration instantMax) .head else .idle))
  | .setExpires t next =>
    some ({ s with expiresAt := Function.update s.expiresAt t instantMax }.setDrain e
      (.clearRunQueued t next))
  | .clearRunQueued t next =>
    let s' := { s.setWord t { s.word t with runQueued := false } with
      clears := Function.update s.clears t (s.clears t + 1) }
    if (s.word t).spawned then some (s'.setDrain e (.poll t next))
    else
      some ({ s' with skips := Function.update s.skips t (s.skips t + 1) }.setDrain e (.walk next))
  | .poll t next =>
    some ({ s.record t .pollStart with
      polls := Function.update s.polls t (s.polls t + 1)
      deadlines := Function.update s.deadlines t [] }.setDrain e (.polling t next))
  | .dropFuture t next => some ((s.record t .dropFuture).setDrain e (.release t next))
  | .release t next =>
    some (((s.setWord t { s.word t with spawned := false }).record t .release).setDrain e
      (.updateTest t next))
  | .updateTest t next =>
    some (s.setDrain e (if s.expiresAt t ≠ instantMax then .updateOr t next else .walk next))
  | .updateOr t next =>
    some ((s.setWord t { s.word t with timerQueued := true }).setDrain e
      (if (s.word t).timerQueued then .walk next else .updateNext t next))
  | .updateNext t next =>
    some ({ s with timerNext := Function.update s.timerNext t (s.timerHead e) }.setDrain e
      (.updateHead t next))
  | .updateHead t next =>
    some ({ s with timerHead := Function.update s.timerHead e (some t) }.setDrain e (.walk next))
  | .setAlarm value =>
    some ({ s with alarm := Function.update s.alarm e (some value) }.setDrain e .idle)

inductive Action (Task Exec Agent : Type) where
  /-- an agent calls `wake` through a waker of `t`, or `wake_task` -/
  | wake (a : Agent) (t : Task)
  | spawnPool (a : Agent) (pool : List Task)
  /-- the context makes its next operation -/
  | advance (x : Context Agent Exec) (weak : Bool)
  /-- `Executor::spawn` with the token the agent holds -/
  | spawn (a : Agent) (e : Exec)
  /-- `run_queued` is called, and reads this time -/
  | runQueued (e : Exec) (now : Nat)
  | drain (e : Exec)
  /-- the task being polled calls `register_timer` -/
  | registerTimer (e : Exec) (at' : Nat)
  /-- the task being polled returns `Ready` or `Pending` -/
  | pollReturn (e : Exec) (ready : Bool)
  deriving DecidableEq, Repr

def step (hasAlarm : Exec → Bool) (s : State Task Exec Agent) :
    Action Task Exec Agent → Option (State Task Exec Agent)
  | .wake a t =>
    if s.pc (.agent a) = .idle then some (s.setPc (.agent a) (.loadState t)) else none
  | .spawnPool a pool =>
    if s.pc (.agent a) = .idle then some (s.setPc (.agent a) (.allocate pool)) else none
  | .advance x weak => advance s x weak
  | .spawn a e =>
    match s.pc (.agent a) with
    | .token t =>
      some ({ s with executor := Function.update s.executor t (some e) }.setPc (.agent a)
        (.loadHead t e))
    | _ => none
  | .runQueued e now =>
    if s.drain e = .idle then
      some ({ s with calls := Function.update s.calls e (s.calls e + 1) }.setDrain e
        (if hasAlarm e then .retain (.dequeueExpired now) .head else .swap))
    else none
  | .drain e => drainStep hasAlarm s e
  | .registerTimer e at' =>
    match s.drain e with
    | .polling t _ =>
      if at' ≤ instantMax then
        some { s with
          expiresAt := Function.update s.expiresAt t (min (s.expiresAt t) at')
          deadlines := Function.update s.deadlines t (s.deadlines t ++ [at']) }
      else none
    | _ => none
  | .pollReturn e ready =>
    match s.drain e with
    | .polling t next =>
      if ready then some ((s.record t .pollReady).setDrain e (.dropFuture t next))
      else some ((s.record t .pollPending).setDrain e (.updateTest t next))
    | _ => none

-- ---------------------------------------------------------------------------
-- What a step can do
-- ---------------------------------------------------------------------------

/-- The operations of a context. -/
inductive Op (s : State Task Exec Agent) (x : Context Agent Exec) :
    State Task Exec Agent → Prop where
  | enqueue_return {t : Task} {k : Pc Task Exec}
      (hPc : s.pc x = k) (hk : k = .loadState t ∨ ∃ current, k = .casState t current)
      (hW : (s.word t).inert = true) : Op s x (s.setPc x .idle)
  | enqueue_retry {t : Task} {k : Pc Task Exec}
      (hPc : s.pc x = k) (hk : k = .loadState t ∨ ∃ current, k = .casState t current)
      (hW : (s.word t).inert = false) : Op s x (s.setPc x (.casState t (s.word t)))
  | casState {t : Task} (hPc : s.pc x = .casState t (s.word t)) :
      Op s x ((s.setWord t { s.word t with runQueued := true }).setPc x (.getExecutor t))
  | getExecutor {t : Task} {e : Exec} (hPc : s.pc x = .getExecutor t)
      (hE : s.executor t = some e) : Op s x (s.setPc x (.loadHead t e))
  | loadHead {t : Task} {e : Exec} {k : Pc Task Exec} (hPc : s.pc x = k)
      (hk : k = .loadHead t e ∨ ∃ prev, k = .casHead t e prev) :
      Op s x (s.setPc x (.storeNext t e (s.head e)))
  | storeNext {t : Task} {e : Exec} {prev : Option Task}
      (hPc : s.pc x = .storeNext t e prev) :
      Op s x ({ s with next := Function.update s.next t prev }.setPc x (.casHead t e prev))
  | casHead {t : Task} {e : Exec} (hPc : s.pc x = .casHead t e (s.head e)) :
      Op s x ({ s with head := Function.update s.head e (some t) }.setPc x
        (if s.head e = none then .signal e else .idle))
  | signal {e : Exec} (hPc : s.pc x = .signal e) :
      Op s x ({ s with signals := Function.update s.signals e (s.signals e + 1) }.setPc x .idle)
  | allocate_none (hPc : s.pc x = .allocate []) : Op s x (s.setPc x .idle)
  | allocate_ok {t : Task} {pool : List Task} (hPc : s.pc x = .allocate (t :: pool))
      (hW : s.word t = .free) :
      Op s x (((s.setWord t .allocated).record t .allocate).setPc x (.writePollFn t))
  | allocate_busy {t : Task} {pool : List Task} (hPc : s.pc x = .allocate (t :: pool))
      (hW : s.word t ≠ .free) : Op s x (s.setPc x (.allocate pool))
  | writePollFn {t : Task} (hPc : s.pc x = .writePollFn t) :
      Op s x ((s.record t .writePollFn).setPc x (.writeFuture t))
  | writeFuture {t : Task} (hPc : s.pc x = .writeFuture t) :
      Op s x ((s.record t .writeFuture).setPc x (.token t))
  | wake {a : Agent} {t : Task} (hx : x = .agent a) (hPc : s.pc x = .idle) :
      Op s x (s.setPc x (.loadState t))
  | spawnPool {a : Agent} {pool : List Task} (hx : x = .agent a) (hPc : s.pc x = .idle) :
      Op s x (s.setPc x (.allocate pool))
  | spawn {t : Task} {e : Exec} (hPc : s.pc x = .token t) :
      Op s x ({ s with executor := Function.update s.executor t (some e) }.setPc x (.loadHead t e))

/-- The operations of `run_queued`. -/
inductive DrainOp (hasAlarm : Exec → Bool) (s : State Task Exec Agent) (e : Exec) :
    State Task Exec Agent → Prop where
  | start (hD : s.drain e = .idle) (now : Nat) :
      DrainOp hasAlarm s e ({ s with calls := Function.update s.calls e (s.calls e + 1) }.setDrain e
        (if hasAlarm e then .retain (.dequeueExpired now) .head else .swap))
  | retain_next {f : Closure} {prev : Link Task} {p : Task} (hD : s.drain e = .retain f prev)
      (hP : s.linkGet e prev = some p) : DrainOp hasAlarm s e (s.setDrain e (.filter f prev p))
  | retain_end {f : Closure} {prev : Link Task} (hD : s.drain e = .retain f prev)
      (hP : s.linkGet e prev = none) : DrainOp hasAlarm s e (s.setDrain e f.finish)
  | filter_expired {now : Nat} {prev : Link Task} {p : Task}
      (hD : s.drain e = .filter (.dequeueExpired now) prev p) (hP : s.expiresAt p ≤ now) :
      DrainOp hasAlarm s e ((s.setPc (.drain e) (.loadState p)).setDrain e
        (.onTask (.dequeueExpired now) prev p))
  | filter_keep {now : Nat} {prev : Link Task} {p : Task}
      (hD : s.drain e = .filter (.dequeueExpired now) prev p) (hP : now < s.expiresAt p) :
      DrainOp hasAlarm s e (s.setDrain e (.retain (.dequeueExpired now) (.next p)))
  | filter_next {res : Nat} {prev : Link Task} {p : Task}
      (hD : s.drain e = .filter (.nextExpiration res) prev p) (hP : s.expiresAt p ≠ instantMax) :
      DrainOp hasAlarm s e
        (s.setDrain e (.retain (.nextExpiration (min res (s.expiresAt p))) (.next p)))
  | filter_drop {res : Nat} {prev : Link Task} {p : Task}
      (hD : s.drain e = .filter (.nextExpiration res) prev p) (hP : s.expiresAt p = instantMax) :
      DrainOp hasAlarm s e
        (s.setDrain e (.unlink (.nextExpiration (min res (s.expiresAt p))) prev p))
  | onTask {f : Closure} {prev : Link Task} {p : Task} (hD : s.drain e = .onTask f prev p)
      (hPc : s.pc (.drain e) = .idle) : DrainOp hasAlarm s e (s.setDrain e (.unlink f prev p))
  | unlink {f : Closure} {prev : Link Task} {p : Task} (hD : s.drain e = .unlink f prev p) :
      DrainOp hasAlarm s e
        ((s.linkSet e prev (s.timerNext p)).setDrain e (.clearTimerQueued f prev p))
  | clearTimerQueued {f : Closure} {prev : Link Task} {p : Task}
      (hD : s.drain e = .clearTimerQueued f prev p) :
      DrainOp hasAlarm s e
        ((s.setWord p { s.word p with timerQueued := false }).setDrain e (.retain f prev))
  | swap (hD : s.drain e = .swap) :
      DrainOp hasAlarm s e
        ({ s with head := Function.update s.head e none }.setDrain e (.walk (s.head e)))
  | walk {t : Task} (hD : s.drain e = .walk (some t)) :
      DrainOp hasAlarm s e (s.setDrain e (.setExpires t (s.next t)))
  | walk_end (hD : s.drain e = .walk none) :
      DrainOp hasAlarm s e (s.setDrain e
        (if hasAlarm e then .retain (.nextExpiration instantMax) .head else .idle))
  | setExpires {t : Task} {next : Option Task} (hD : s.drain e = .setExpires t next) :
      DrainOp hasAlarm s e
        ({ s with expiresAt := Function.update s.expiresAt t instantMax }.setDrain e
          (.clearRunQueued t next))
  | clear_spawned {t : Task} {next : Option Task} (hD : s.drain e = .clearRunQueued t next)
      (hW : (s.word t).spawned = true) :
      DrainOp hasAlarm s e
        ({ s.setWord t { s.word t with runQueued := false } with
          clears := Function.update s.clears t (s.clears t + 1) }.setDrain e (.poll t next))
  | clear_ignored {t : Task} {next : Option Task} (hD : s.drain e = .clearRunQueued t next)
      (hW : (s.word t).spawned = false) :
      DrainOp hasAlarm s e
        ({ s.setWord t { s.word t with runQueued := false } with
          clears := Function.update s.clears t (s.clears t + 1)
          skips := Function.update s.skips t (s.skips t + 1) }.setDrain e (.walk next))
  | poll {t : Task} {next : Option Task} (hD : s.drain e = .poll t next) :
      DrainOp hasAlarm s e
        ({ s.record t .pollStart with
          polls := Function.update s.polls t (s.polls t + 1)
          deadlines := Function.update s.deadlines t [] }.setDrain e (.polling t next))
  | registerTimer {t : Task} {next : Option Task} {at' : Nat}
      (hD : s.drain e = .polling t next) (hAt : at' ≤ instantMax) :
      DrainOp hasAlarm s e
        { s with
          expiresAt := Function.update s.expiresAt t (min (s.expiresAt t) at')
          deadlines := Function.update s.deadlines t (s.deadlines t ++ [at']) }
  | poll_ready {t : Task} {next : Option Task} (hD : s.drain e = .polling t next) :
      DrainOp hasAlarm s e ((s.record t .pollReady).setDrain e (.dropFuture t next))
  | poll_pending {t : Task} {next : Option Task} (hD : s.drain e = .polling t next) :
      DrainOp hasAlarm s e ((s.record t .pollPending).setDrain e (.updateTest t next))
  | dropFuture {t : Task} {next : Option Task} (hD : s.drain e = .dropFuture t next) :
      DrainOp hasAlarm s e ((s.record t .dropFuture).setDrain e (.release t next))
  | release {t : Task} {next : Option Task} (hD : s.drain e = .release t next) :
      DrainOp hasAlarm s e
        (((s.setWord t { s.word t with spawned := false }).record t .release).setDrain e
          (.updateTest t next))
  | update_none {t : Task} {next : Option Task} (hD : s.drain e = .updateTest t next)
      (hE : s.expiresAt t = instantMax) : DrainOp hasAlarm s e (s.setDrain e (.walk next))
  | update_some {t : Task} {next : Option Task} (hD : s.drain e = .updateTest t next)
      (hE : s.expiresAt t ≠ instantMax) : DrainOp hasAlarm s e (s.setDrain e (.updateOr t next))
  | updateOr_old {t : Task} {next : Option Task} (hD : s.drain e = .updateOr t next)
      (hW : (s.word t).timerQueued = true) :
      DrainOp hasAlarm s e
        ((s.setWord t { s.word t with timerQueued := true }).setDrain e (.walk next))
  | updateOr_new {t : Task} {next : Option Task} (hD : s.drain e = .updateOr t next)
      (hW : (s.word t).timerQueued = false) :
      DrainOp hasAlarm s e
        ((s.setWord t { s.word t with timerQueued := true }).setDrain e (.updateNext t next))
  | updateNext {t : Task} {next : Option Task} (hD : s.drain e = .updateNext t next) :
      DrainOp hasAlarm s e
        ({ s with timerNext := Function.update s.timerNext t (s.timerHead e) }.setDrain e
          (.updateHead t next))
  | updateHead {t : Task} {next : Option Task} (hD : s.drain e = .updateHead t next) :
      DrainOp hasAlarm s e
        ({ s with timerHead := Function.update s.timerHead e (some t) }.setDrain e (.walk next))
  | setAlarm {value : Nat} (hD : s.drain e = .setAlarm value) :
      DrainOp hasAlarm s e
        ({ s with alarm := Function.update s.alarm e (some value) }.setDrain e .idle)

variable {hasAlarm : Exec → Bool} {s s' : State Task Exec Agent}

theorem advance_op {x : Context Agent Exec} {weak : Bool} (h : advance s x weak = some s') :
    Op s x s' := by
  -- one branch of the definition for each constructor of `Op`
  unfold advance at h
  split at h
  case h_1 => cases h
  case h_2 => cases h
  case h_3 t hPc =>
    cases h
    split
    · exact .enqueue_return hPc (.inl rfl) ‹_›
    · exact .enqueue_retry hPc (.inl rfl) (Bool.not_eq_true _ ▸ ‹_›)
  case h_4 t current hPc =>
    split at h
    · -- both exchanges may fail, by the value or spuriously; a failure loads anew
      rename_i hCas
      cases h
      obtain ⟨-, rfl⟩ := hCas
      exact .casState hPc
    · cases h
      split
      · exact .enqueue_return hPc (.inr ⟨_, rfl⟩) ‹_›
      · exact .enqueue_retry hPc (.inr ⟨_, rfl⟩) (Bool.not_eq_true _ ▸ ‹_›)
  case h_5 t hPc =>
    split at h
    · cases h
      exact .getExecutor hPc ‹_›
    · cases h
  case h_6 t e hPc =>
    cases h
    exact .loadHead hPc (.inl rfl)
  case h_7 t e prev hPc =>
    cases h
    exact .storeNext hPc
  case h_8 t e prev hPc =>
    split at h
    · rename_i hCas
      cases h
      obtain ⟨-, rfl⟩ := hCas
      exact .casHead hPc
    · cases h
      exact .loadHead hPc (.inr ⟨_, rfl⟩)
  case h_9 e hPc =>
    cases h
    exact .signal hPc
  case h_10 hPc =>
    cases h
    exact .allocate_none hPc
  case h_11 t pool hPc =>
    split at h
    · cases h
      exact .allocate_ok hPc ‹_›
    · cases h
      exact .allocate_busy hPc ‹_›
  case h_12 t hPc =>
    cases h
    exact .writePollFn hPc
  case h_13 t hPc =>
    cases h
    exact .writeFuture hPc

theorem applyFilter_op {e : Exec} {f : Closure} {prev : Link Task} {p : Task}
    (hD : s.drain e = .filter f prev p) :
    DrainOp hasAlarm s e (applyFilter s e f prev p) := by
  cases f with
  | dequeueExpired now =>
    simp only [applyFilter]
    split
    · exact .filter_expired hD ‹_›
    · exact .filter_keep hD (Nat.lt_of_not_le ‹_›)
  | nextExpiration res =>
    simp only [applyFilter]
    split
    · exact .filter_next hD ‹_›
    · exact .filter_drop hD (not_not.mp ‹_›)

theorem drainStep_op {e : Exec} (h : drainStep hasAlarm s e = some s') :
    DrainOp hasAlarm s e s' := by
  -- one branch of the definition for each constructor of `DrainOp`
  unfold drainStep at h
  split at h
  case h_1 => cases h
  case h_2 => cases h
  case h_3 f prev hD =>
    split at h
    · cases h
      exact .retain_next hD ‹_›
    · cases h
      exact .retain_end hD ‹_›
  case h_4 f prev p hD =>
    cases h
    exact applyFilter_op hD
  case h_5 f prev p hD =>
    split at h
    · cases h
      exact .onTask hD ‹_›
    · cases h
  case h_6 f prev p hD =>
    cases h
    exact .unlink hD
  case h_7 f prev p hD =>
    cases h
    exact .clearTimerQueued hD
  case h_8 hD =>
    cases h
    exact .swap hD
  case h_9 t hD =>
    cases h
    exact .walk hD
  case h_10 hD =>
    cases h
    exact .walk_end hD
  case h_11 t next hD =>
    cases h
    exact .setExpires hD
  case h_12 t next hD =>
    -- `run_drained_task` polls a task only while it is spawned
    dsimp only at h
    split at h
    · cases h
      exact .clear_spawned hD ‹_›
    · cases h
      exact .clear_ignored hD (Bool.not_eq_true _ ▸ ‹_›)
  case h_13 t next hD =>
    cases h
    exact .poll hD
  case h_14 t next hD =>
    cases h
    exact .dropFuture hD
  case h_15 t next hD =>
    cases h
    exact .release hD
  case h_16 t next hD =>
    cases h
    split
    · -- a finished task is updated too, so its bit may be set again
      exact .update_some hD ‹_›
    · exact .update_none hD (not_not.mp ‹_›)
  case h_17 t next hD =>
    cases h
    split
    · exact .updateOr_old hD ‹_›
    · exact .updateOr_new hD (Bool.not_eq_true _ ▸ ‹_›)
  case h_18 t next hD =>
    cases h
    exact .updateNext hD
  case h_19 t next hD =>
    cases h
    exact .updateHead hD
  case h_20 value hD =>
    cases h
    exact .setAlarm hD

/-- Every step is an operation of a context or of a drain. -/
theorem step_op {a : Action Task Exec Agent} (h : step hasAlarm s a = some s') :
    (∃ x, Op s x s') ∨ ∃ e, DrainOp hasAlarm s e s' := by
  -- a context's step is an operation, the other actions of an executor are drain steps
  cases a with
  | wake a t =>
    simp only [step] at h
    split at h
    · cases h
      exact .inl ⟨_, .wake rfl ‹_›⟩
    · cases h
  | spawnPool a pool =>
    simp only [step] at h
    split at h
    · cases h
      exact .inl ⟨_, .spawnPool rfl ‹_›⟩
    · cases h
  | advance x weak => exact .inl ⟨x, advance_op h⟩
  | spawn a e =>
    simp only [step] at h
    split at h
    · cases h
      exact .inl ⟨_, .spawn ‹_›⟩
    · cases h
  | runQueued e now =>
    simp only [step] at h
    split at h
    · cases h
      exact .inr ⟨e, .start ‹_› now⟩
    · cases h
  | drain e => exact .inr ⟨e, drainStep_op h⟩
  | registerTimer e at' =>
    simp only [step] at h
    split at h
    · split at h
      · cases h
        exact .inr ⟨e, .registerTimer ‹_› ‹_›⟩
      · cases h
    · cases h
  | pollReturn e ready =>
    simp only [step] at h
    split at h
    · split at h
      · cases h
        exact .inr ⟨e, .poll_ready ‹_›⟩
      · cases h
        exact .inr ⟨e, .poll_pending ‹_›⟩
    · cases h

theorem Op.drain_eq {x : Context Agent Exec} (h : Op s x s') : s'.drain = s.drain := by
  cases h <;> rfl

theorem DrainOp.drain_of_ne {e e' : Exec} (h : DrainOp hasAlarm s e s') (he : e' ≠ e) :
    s'.drain e' = s.drain e' := by
  cases h with
  | @unlink f prev p hD => cases prev <;> simp [State.linkSet, he]
  | _ => simp [he]

end Machine

end Embassy.Executor
