import Embassy.Nrf.BufferedUarte
import Embassy.Nrf.Uarte

/-!
# The memory of the unbuffered UARTE

`embassy-nrf/src/uarte.rs`. A read and a write future lend their slices to the hardware,
which gets only an address and a length, and knows nothing of the lifetime of a borrow.
What the futures do about it: a poll that returns `Ready` has seen the end event; and a
future that is dropped while its transfer is under way stops the hardware, and spins until
it has seen the end event.

`Uarte` has the steps of the futures, of the handler and of the hardware. Here they are put
beside the EasyDMA registers and a memory, of which any part that is not lent may be
written by the program at any time.

Main results:

* `dma_confined` — the hardware writes to the slice of a read under way, and nowhere else,
  and reads from the slice of a write under way, whatever is dropped and when.
* `transfer_complete` — a read that returns has filled its slice with what came in, and a
  write that returns has sent its slice.
-/

namespace Embassy.Nrf

open Embassy.Lib Embassy.Util

/-- `target_constants::EASY_DMA_SIZE` -/
def Chip.easyDmaSize : Chip → Nat
  | .nrf52810 | .nrf52811 | .nrf52832 => 255
  | .nrf52833 | .nrf52840 => 65535

/-- A length that passes the assertion is not truncated. -/
theorem Chip.maxcnt_of_le {chip : Chip} {len : Nat} (h : len ≤ chip.easyDmaSize) :
    chip.maxcnt len = len := by
  refine Nat.mod_eq_of_lt ?_
  cases chip <;> exact Nat.lt_succ_of_le h

def Side.other : Side → Side
  | .rx => .tx
  | .tx => .rx

/-- A slice in memory. -/
structure Buffer where
  ptr : Nat
  len : Nat
  deriving DecidableEq, Repr

namespace Buffer

instance : Membership Nat Buffer where
  mem b addr := b.ptr ≤ addr ∧ addr < b.ptr + b.len

instance (b : Buffer) (addr : Nat) : Decidable (addr ∈ b) := inferInstanceAs (Decidable (_ ∧ _))

/-- No address is in both. -/
def Disjoint (b c : Buffer) : Prop := b.ptr + b.len ≤ c.ptr ∨ c.ptr + c.len ≤ b.ptr

instance (b c : Buffer) : Decidable (b.Disjoint c) := inferInstanceAs (Decidable (_ ∨ _))

theorem Disjoint.symm {b c : Buffer} (h : b.Disjoint c) : c.Disjoint b := Or.symm h

/-- An address of one slice is not in the other. -/
theorem Disjoint.not_mem {b c : Buffer} (h : b.Disjoint c) {addr : Nat} (hb : addr ∈ b) :
    addr ∉ c := by
  obtain ⟨hLow, hHigh⟩ := hb
  rintro ⟨hLow', hHigh'⟩
  rcases h with h | h
  · exact absurd (Nat.lt_of_lt_of_le hHigh h) (Nat.not_lt.mpr hLow')
  · exact absurd (Nat.lt_of_lt_of_le hHigh' h) (Nat.not_lt.mpr hLow)

end Buffer

/-- The EasyDMA registers of a direction, and its latest transfer. -/
structure EasyDma where
  ptr : Nat
  maxcnt : Nat
  /-- How many bytes the transfer has moved. -/
  amount : Nat
  /-- It was told to stop. -/
  stopping : Bool
  /-- The bytes that it received from the line, or sent to it. -/
  moved : List UInt8
  deriving DecidableEq, Repr

structure UarteMemory (Task : Type) where
  uarte : Uarte Task
  /-- The slice of the latest future of a direction. -/
  buffer : Side → Buffer
  dma : Side → EasyDma
  memory : Nat → UInt8

inductive MemoryAction (Task : Type) where
  /-- `read` or `write` is called with a slice. -/
  | create (sd : Side) (b : Buffer)
  /-- Any other step of `Uarte`. -/
  | uarte (a : UarteAction Task)
  /-- A byte comes in, and the hardware stores it. -/
  | receive (x : UInt8)
  /-- The hardware loads a byte and sends it. -/
  | send
  /-- The program writes to its memory. -/
  | store (addr : Nat) (x : UInt8)
  deriving DecidableEq, Repr

namespace EasyDma

def new : EasyDma where
  ptr := 0
  maxcnt := 0
  amount := 0
  stopping := false
  moved := []

/-- `r.rxd.ptr` and `r.rxd.maxcnt` -/
def load (chip : Chip) (b : Buffer) (d : EasyDma) : EasyDma :=
  { d with ptr := b.ptr, maxcnt := chip.maxcnt b.len }

/-- `r.tasks_startrx` -/
def start (d : EasyDma) : EasyDma := { d with amount := 0, stopping := false, moved := [] }

/-- `r.tasks_stoprx` -/
def stop (d : EasyDma) : EasyDma := { d with stopping := true }

/-- The first poll of a future loads its slice. It asserts that the slice is not too long, and
panics otherwise. -/
def onPoll (chip : Chip) (b : Buffer) (pc : TransferPc) (d : EasyDma) : Option EasyDma :=
  if pc = .created then if b.len ≤ chip.easyDmaSize then some (d.load chip b) else none
  else some d

/-- A future triggers the tasks of the hardware. -/
def onAdvance (pc : TransferPc) (d : EasyDma) : EasyDma :=
  match pc with
  | .start => d.start
  | .stop => d.stop
  | _ => d

/-- The hardware is done with the slice, or was told to stop. -/
def Done (d : EasyDma) : Prop := d.amount = d.maxcnt ∨ d.stopping = true

instance (d : EasyDma) : Decidable d.Done := inferInstanceAs (Decidable (_ ∨ _))

/-- The transfer moves a byte. -/
def move (d : EasyDma) (x : UInt8) : EasyDma :=
  { d with amount := d.amount + 1, moved := d.moved ++ [x] }

end EasyDma

variable {Task : Type}

namespace UarteMemory

def new (memory : Nat → UInt8) : UarteMemory Task where
  uarte := .new
  buffer := fun _ => ⟨0, 0⟩
  dma := fun _ => .new
  memory := memory

/-- There is a future in this direction, which borrows its slice. -/
def Lent (s : UarteMemory Task) (sd : Side) : Prop := (s.uarte.side sd).pc ≠ .idle

instance (s : UarteMemory Task) (sd : Side) : Decidable (s.Lent sd) :=
  inferInstanceAs (Decidable (_ ≠ _))

/-- The hardware can move a byte. -/
def Moves (s : UarteMemory Task) (sd : Side) : Prop :=
  (s.uarte.side sd).running = true ∧ (s.dma sd).amount < (s.dma sd).maxcnt

instance (s : UarteMemory Task) (sd : Side) : Decidable (s.Moves sd) :=
  inferInstanceAs (Decidable (_ ∧ _))

/-- The next byte of memory that it gets to. -/
def addr (s : UarteMemory Task) (sd : Side) : Nat := (s.dma sd).ptr + (s.dma sd).amount

/-- What a step of `Uarte` does to the registers. -/
def registers (chip : Chip) (s : UarteMemory Task) : UarteAction Task → Option (Side → EasyDma)
  | .create _ => none
  | .poll sd _ =>
    ((s.dma sd).onPoll chip (s.buffer sd) (s.uarte.side sd).pc).map (Function.update s.dma sd)
  | .advance sd =>
    some (Function.update s.dma sd ((s.dma sd).onAdvance (s.uarte.side sd).pc))
  | .complete sd => if (s.dma sd).Done then some s.dma else none
  | .drop _ | .stopped _ | .interrupt | .handle => some s.dma

def step [DecidableEq Task] (chip : Chip) (s : UarteMemory Task) :
    MemoryAction Task → Option (UarteMemory Task)
  | .create sd b =>
    -- The slice of a read is borrowed mutably.
    if s.Lent sd.other → b.Disjoint (s.buffer sd.other) then
      (s.uarte.step (.create sd)).map fun u =>
        { s with uarte := u, buffer := Function.update s.buffer sd b }
    else none
  | .uarte a => do
    let dma ← s.registers chip a
    let u ← s.uarte.step a
    return { s with uarte := u, dma := dma }
  | .receive x =>
    if s.Moves .rx then
      some { s with
        memory := Function.update s.memory (s.addr .rx) x
        dma := Function.update s.dma .rx ((s.dma .rx).move x) }
    else none
  | .send =>
    if s.Moves .tx then
      some { s with dma := Function.update s.dma .tx ((s.dma .tx).move (s.memory (s.addr .tx))) }
    else none
  | .store addr x =>
    if (s.Lent .rx → addr ∉ s.buffer .rx) ∧ (s.Lent .tx → addr ∉ s.buffer .tx) then
      some { s with memory := Function.update s.memory addr x }
    else none

end UarteMemory

-- ---------------------------------------------------------------------------
-- One direction
-- ---------------------------------------------------------------------------

/-- The transfer was started, and its end was not seen yet. -/
def TransferPc.started : TransferPc → Bool
  | .register | .check | .waiting | .disable | .resetStopped | .stop | .spin => true
  | .idle | .created | .resetEvent | .enable | .start | .finish => false

/-- The registers were loaded for the future, and the transfer is not started yet. -/
def TransferPc.starting : TransferPc → Bool
  | .resetEvent | .enable | .start => true
  | _ => false

/-- The future is still to complete, or about to. -/
def TransferPc.wanted : TransferPc → Bool
  | .register | .check | .waiting | .finish => true
  | _ => false

/-- The first bytes of a slice. -/
def Buffer.take (b : Buffer) (memory : Nat → UInt8) (n : Nat) : List UInt8 :=
  (List.range n).map fun k => memory (b.ptr + k)

/-- The bytes of a slice. -/
def Buffer.bytes (b : Buffer) (memory : Nat → UInt8) : List UInt8 := b.take memory b.len

namespace Buffer

variable {b : Buffer} {memory : Nat → UInt8}

@[simp]
theorem length_take (n : Nat) : (b.take memory n).length = n := by
  rw [take, List.length_map, List.length_range]

theorem take_succ (n : Nat) : b.take memory (n + 1) = b.take memory n ++ [memory (b.ptr + n)] := by
  rw [take, List.range_succ, List.map_append]
  rfl

/-- A byte changes that is not among them. -/
theorem take_update {addr n : Nat} {x : UInt8} (h : addr < b.ptr ∨ b.ptr + n ≤ addr) :
    b.take (Function.update memory addr x) n = b.take memory n := by
  refine List.map_congr_left fun k hk => Function.update_of_ne ?_ x memory
  have := List.mem_range.mp hk
  omega

/-- A byte outside of the slice changes. -/
theorem take_update_of_not_mem {addr n : Nat} {x : UInt8} (hn : n ≤ b.len) (h : addr ∉ b) :
    b.take (Function.update memory addr x) n = b.take memory n := by
  refine take_update ?_
  rcases Nat.lt_or_ge addr b.ptr with hLow | hLow
  · exact .inl hLow
  · refine .inr (Nat.le_trans (Nat.add_le_add_left hn b.ptr) (Nat.not_lt.mp fun hHigh => ?_))
    exact h ⟨hLow, hHigh⟩

end Buffer

/-- What holds of a direction: its future, its slice, its registers, and the memory. -/
structure DmaInv (memory : Nat → UInt8) (b : Buffer) (t : Transfer Task) (d : EasyDma) : Prop where
  /-- The hardware runs only for a future that has started it. -/
  owned : t.running = true → t.pc.started = true ∧ t.ended = false
  /-- The end event of an earlier transfer is gone. -/
  reset : t.pc = .enable ∨ t.pc = .start → t.ended = false
  seen : t.pc = .finish → t.ended = true
  loaded : t.pc.starting = true ∨ t.pc.started = true ∨ t.pc.wanted = true →
    d.ptr = b.ptr ∧ d.maxcnt = b.len
  moved : t.pc.started = true ∨ t.pc.wanted = true →
    d.amount ≤ d.maxcnt ∧ d.moved = b.take memory d.amount
  /-- Without a drop, the hardware ends a transfer when it has moved all of it. -/
  whole : t.pc.wanted = true → d.stopping = false ∧ (t.ended = true → d.amount = d.maxcnt)

namespace DmaInv

variable {memory : Nat → UInt8} {b : Buffer} {t t' : Transfer Task} {d : EasyDma} {chip : Chip}

/-- Without a transfer nothing is asked of the hardware. -/
theorem idle (hRunning : t.running = false) (hPc : t.pc = .idle ∨ t.pc = .created) :
    DmaInv memory b t d := by
  refine ⟨fun h => (nomatch hRunning.symm.trans h), fun h => ?_, fun h => ?_, fun h => ?_,
    fun h => ?_, fun h => ?_⟩ <;>
    rcases hPc with hPc | hPc <;> rw [hPc] at h <;> exact absurd h (by decide)

/-- Only what the future and the hardware look at counts. -/
theorem same (hI : DmaInv memory b t d) (hPc : t'.pc = t.pc) (hRunning : t'.running = t.running)
    (hEnded : t'.ended = t.ended) : DmaInv memory b t' d := by
  refine ⟨?_, ?_, ?_, ?_, ?_, ?_⟩ <;> rw [hPc]
  · rw [hRunning, hEnded]
    exact hI.owned
  · rw [hEnded]
    exact hI.reset
  · rw [hEnded]
    exact hI.seen
  · exact hI.loaded
  · exact hI.moved
  · rw [hEnded]
    exact hI.whole

/-- The hardware does not run for a future that has not started it. -/
theorem not_running (hI : DmaInv memory b t d) (hPc : t.pc.started = false) :
    t.running = false :=
  eq_false_of_ne_true fun hRunning => nomatch hPc.symm.trans (hI.owned hRunning).1

/-- Nor when the end event was seen. -/
theorem not_running_of_ended (hI : DmaInv memory b t d) (hEnded : t.ended = true) :
    t.running = false :=
  eq_false_of_ne_true fun hRunning => nomatch (hI.owned hRunning).2.symm.trans hEnded

/-- The first poll loads the registers; a later one leaves them. -/
theorem poll {w : Task} {d' : EasyDma} (hI : DmaInv memory b t d) (ht : t.poll w = some t')
    (hd : d.onPoll chip b t.pc = some d') : DmaInv memory b t' d' := by
  unfold Transfer.poll at ht
  unfold EasyDma.onPoll at hd
  split at ht
  · rename_i hPc
    cases ht
    -- the first poll loads the pointer and the length; the transfer is not started yet
    have hRunning := hI.not_running (by rw [hPc]; rfl)
    rw [if_pos hPc] at hd
    obtain ⟨hLen, hd⟩ := Option.ite_none_right_eq_some.mp hd
    cases hd
    exact ⟨fun h => (nomatch hRunning.symm.trans h), by simp, (nomatch ·),
      fun _ => ⟨rfl, Chip.maxcnt_of_le hLen⟩, by simp [TransferPc.started, TransferPc.wanted],
      (nomatch ·)⟩
  · rename_i hPc
    cases ht
    rw [hPc, if_neg (by decide)] at hd
    cases hd
    -- a later poll only registers the waker
    have hWanted : t.pc.wanted = true := by rw [hPc]; rfl
    exact ⟨fun h => ⟨rfl, (hI.owned h).2⟩, by simp, (nomatch ·),
      fun _ => hI.loaded (.inr (.inr hWanted)), fun _ => hI.moved (.inr hWanted),
      fun _ => hI.whole hWanted⟩
  · cases ht

/-- A future that is dropped at work goes on to stop the hardware. -/
theorem drop (hI : DmaInv memory b t d) (ht : t.drop = some t') : DmaInv memory b t' d := by
  unfold Transfer.drop at ht
  split at ht
  · rename_i hPc
    cases ht
    exact .idle (hI.not_running (by rw [hPc]; rfl)) (.inl rfl)
  · rename_i hPc
    cases ht
    have hStarted : t.pc.started = true := by rw [hPc]; rfl
    exact ⟨fun h => ⟨rfl, (hI.owned h).2⟩, by simp, (nomatch ·),
      fun _ => hI.loaded (.inr (.inl hStarted)), fun _ => hI.moved (.inl hStarted), (nomatch ·)⟩
  · cases ht

/-- The future goes on from one step of a transfer under way to the next. -/
theorem goes_on (hI : DmaInv memory b t d) (pc : TransferPc) (hStarted : t.pc.started = true)
    (hNext : pc.started = true) (hWanted : pc.wanted = true → t.pc.wanted = true) :
    DmaInv memory b { t with pc := pc } d := by
  refine ⟨fun h => ⟨hNext, (hI.owned h).2⟩, ?_, ?_, fun _ => hI.loaded (.inr (.inl hStarted)),
    fun _ => hI.moved (.inl hStarted), fun h => hI.whole (hWanted h)⟩
  · rintro (rfl | rfl) <;> exact nomatch hNext
  · rintro rfl
    exact nomatch hNext

/-- The steps of a future, one by one. -/
theorem advance (hI : DmaInv memory b t d) (ht : t.advance = some t') :
    DmaInv memory b t' (d.onAdvance t.pc) := by
  unfold Transfer.advance at ht
  -- one step of the future or of its drop
  cases hPc : t.pc with
  | idle | created | waiting =>
    rw [hPc] at ht
    cases ht
  | resetEvent =>
    rw [hPc] at ht
    cases ht
    have hRunning := hI.not_running (by rw [hPc]; rfl)
    exact ⟨fun h => (nomatch hRunning.symm.trans h), fun _ => rfl, (nomatch ·),
      fun _ => hI.loaded (.inl (by rw [hPc]; rfl)), by simp [TransferPc.started, TransferPc.wanted],
      (nomatch ·)⟩
  | enable =>
    rw [hPc] at ht
    cases ht
    have hRunning := hI.not_running (by rw [hPc]; rfl)
    exact ⟨fun h => (nomatch hRunning.symm.trans h), fun _ => hI.reset (.inl hPc), (nomatch ·),
      fun _ => hI.loaded (.inl (by rw [hPc]; rfl)), by simp [TransferPc.started, TransferPc.wanted],
      (nomatch ·)⟩
  | start =>
    rw [hPc] at ht
    cases ht
    -- the END event was reset before the start, so the transfer runs
    have hEnded := hI.reset (.inr hPc)
    exact ⟨fun _ => ⟨rfl, hEnded⟩, by simp, (nomatch ·),
      fun _ => hI.loaded (.inl (by rw [hPc]; rfl)), fun _ => ⟨Nat.zero_le _, rfl⟩,
      fun _ => ⟨rfl, fun h => (nomatch hEnded.symm.trans h)⟩⟩
  | register =>
    rw [hPc] at ht
    obtain ⟨w, -, rfl⟩ := Option.map_eq_some_iff.mp ht
    exact (hI.goes_on .check (by rw [hPc]; rfl) rfl (by rw [hPc]; exact fun _ => rfl)).same
      rfl rfl rfl
  | check =>
    rw [hPc] at ht
    have hStarted : t.pc.started = true := by rw [hPc]; rfl
    have hWanted : t.pc.wanted = true := by rw [hPc]; rfl
    rcases ite_eq_iff.mp ht with ⟨hEnded, ht⟩ | ⟨-, ht⟩
    · cases ht
      -- the event is there: the peripheral has let go of the buffer
      have hRunning := hI.not_running_of_ended hEnded
      exact ⟨fun h => (nomatch hRunning.symm.trans h), by simp, fun _ => hEnded,
        fun _ => hI.loaded (.inr (.inl hStarted)), fun _ => hI.moved (.inl hStarted),
        fun _ => hI.whole hWanted⟩
    · cases ht
      exact (hI.goes_on .waiting hStarted rfl fun _ => hWanted).same rfl rfl rfl
  | finish =>
    rw [hPc] at ht
    cases ht
    exact .idle (hI.not_running (by rw [hPc]; rfl)) (.inl rfl)
  | disable =>
    rw [hPc] at ht
    cases ht
    exact (hI.goes_on .resetStopped (by rw [hPc]; rfl) rfl (nomatch ·)).same rfl rfl rfl
  | resetStopped =>
    rw [hPc] at ht
    cases ht
    exact (hI.goes_on .stop (by rw [hPc]; rfl) rfl (nomatch ·)).same rfl rfl rfl
  -- the buffer stays lent until the spin has seen the event
  | stop =>
    rw [hPc] at ht
    cases ht
    have hStarted : t.pc.started = true := by rw [hPc]; rfl
    exact ⟨fun h => ⟨rfl, (hI.owned h).2⟩, by simp, (nomatch ·),
      fun _ => hI.loaded (.inr (.inl hStarted)), fun _ => hI.moved (.inl hStarted), (nomatch ·)⟩
  -- the drop returns the buffer only once the transfer has ended
  | spin =>
    rw [hPc] at ht
    obtain ⟨hEnded, ht⟩ := Option.ite_none_right_eq_some.mp ht
    cases ht
    exact .idle (hI.not_running_of_ended hEnded) (.inl rfl)

/-- The hardware ends a transfer, which it was told to if it has not moved all of it. -/
theorem complete (hI : DmaInv memory b t d) (hRunning : t.running = true) (hDone : d.Done) :
    DmaInv memory b { t with ended := true, running := false } d := by
  obtain ⟨hStarted, -⟩ := hI.owned hRunning
  refine ⟨(nomatch ·), ?_, fun _ => rfl, hI.loaded, hI.moved, fun hWanted => ?_⟩
  · rintro (hPc | hPc) <;> rw [hPc] at hStarted <;> exact nomatch hStarted
  · obtain ⟨hNot, -⟩ := hI.whole hWanted
    exact ⟨hNot, fun _ => hDone.resolve_right (by rw [hNot]; decide)⟩

/-- Memory changes outside of the slice, or without a future that has borrowed it. -/
theorem elsewhere {addr : Nat} {x : UInt8} (hI : DmaInv memory b t d)
    (hNot : t.pc ≠ .idle → addr ∉ b) : DmaInv (Function.update memory addr x) b t d := by
  refine ⟨hI.owned, hI.reset, hI.seen, hI.loaded, fun h => ?_, hI.whole⟩
  obtain ⟨hLe, hMoved⟩ := hI.moved h
  have hMaxcnt := (hI.loaded (.inr h)).2
  refine ⟨hLe, hMoved.trans (Buffer.take_update_of_not_mem (hMaxcnt ▸ hLe) (hNot ?_)).symm⟩
  rintro hPc
  -- A future that is idle has nothing moved.
  rw [hPc] at h
  exact absurd h (by decide)

/-- The hardware stores a byte that has come in. -/
theorem receive {x : UInt8} (hI : DmaInv memory b t d) (hRunning : t.running = true)
    (hMore : d.amount < d.maxcnt) :
    DmaInv (Function.update memory (d.ptr + d.amount) x) b t (d.move x) := by
  obtain ⟨hStarted, hEnded⟩ := hI.owned hRunning
  obtain ⟨hPtr, -⟩ := hI.loaded (.inr (.inl hStarted))
  obtain ⟨-, hMoved⟩ := hI.moved (.inl hStarted)
  refine ⟨hI.owned, hI.reset, hI.seen, hI.loaded, fun _ => ⟨hMore, ?_⟩, fun hWanted =>
    ⟨(hI.whole hWanted).1, fun h => (nomatch hEnded.symm.trans h)⟩⟩
  show d.moved ++ [x] = b.take _ (d.amount + 1)
  rw [Buffer.take_succ, Buffer.take_update (.inr (hPtr ▸ Nat.le_refl _)), ← hMoved, hPtr,
    Function.update_self]

/-- The hardware loads a byte and sends it. -/
theorem send (hI : DmaInv memory b t d) (hRunning : t.running = true)
    (hMore : d.amount < d.maxcnt) :
    DmaInv memory b t (d.move (memory (d.ptr + d.amount))) := by
  have hSame := hI.receive (x := memory (d.ptr + d.amount)) hRunning hMore
  rwa [Function.update_eq_self] at hSame

/-- What the hardware gets to is in the slice that was lent to it. -/
theorem addr_mem (hI : DmaInv memory b t d) (hRunning : t.running = true)
    (hMore : d.amount < d.maxcnt) : t.pc.started = true ∧ d.ptr + d.amount ∈ b := by
  obtain ⟨hStarted, -⟩ := hI.owned hRunning
  obtain ⟨hPtr, hMaxcnt⟩ := hI.loaded (.inr (.inl hStarted))
  refine ⟨hStarted, hPtr ▸ Nat.le_add_right _ _, ?_⟩
  rw [← hPtr, ← hMaxcnt]
  exact Nat.add_lt_add_left hMore d.ptr

/-- A future that completes has its slice moved. -/
theorem finish (hI : DmaInv memory b t d) (hPc : t.pc = .finish) :
    d.moved = b.bytes memory := by
  have hWanted : t.pc.wanted = true := by rw [hPc]; rfl
  obtain ⟨-, hMoved⟩ := hI.moved (.inr hWanted)
  -- The end event was seen, and without a drop it comes when all is moved.
  have hAll := (hI.whole hWanted).2 (hI.seen hPc)
  rw [hMoved, hAll, (hI.loaded (.inr (.inr hWanted))).2]
  rfl

end DmaInv

-- ---------------------------------------------------------------------------
-- Both directions
-- ---------------------------------------------------------------------------

namespace UarteMemory

structure Inv (s : UarteMemory Task) : Prop where
  side : ∀ sd, DmaInv s.memory (s.buffer sd) (s.uarte.side sd) (s.dma sd)
  /-- The slice of a read is borrowed mutably. -/
  apart : s.Lent .rx → s.Lent .tx → (s.buffer .rx).Disjoint (s.buffer .tx)

/-- No slice is lent, and the hardware is idle. -/
theorem inv_new (memory : Nat → UInt8) : (new memory : UarteMemory Task).Inv where
  side := fun _ => .idle rfl (.inl rfl)
  apart := fun h => absurd rfl h

variable {chip : Chip} {s s' : UarteMemory Task}

/-- What one direction gets to is not lent to the other. -/
theorem Inv.not_mem (hI : s.Inv) {sd : Side} (hLent : s.Lent sd) {addr : Nat}
    (h : addr ∈ s.buffer sd) : s.Lent sd.other → addr ∉ s.buffer sd.other := by
  intro hOther
  cases sd with
  | rx => exact (hI.apart hLent hOther).not_mem h
  | tx => exact (hI.apart hOther hLent).symm.not_mem h

/-- A step of one direction, which keeps its slice. -/
theorem Inv.set (hI : s.Inv) {sd : Side} {t : Transfer Task} {d : EasyDma}
    (hLent : t.pc ≠ .idle → s.Lent sd) (hSide : DmaInv s.memory (s.buffer sd) t d) :
    Inv { s with uarte := s.uarte.set sd t, dma := Function.update s.dma sd d } := by
  have hBefore : ∀ sd', ((s.uarte.set sd t).side sd').pc ≠ .idle → s.Lent sd' :=
    (Function.forall_update_iff s.uarte.side fun sd' t => t.pc ≠ .idle → s.Lent sd').mpr
      ⟨hLent, fun _ _ h => h⟩
  refine ⟨fun sd' => ?_, fun hRx hTx => hI.apart (hBefore .rx hRx) (hBefore .tx hTx)⟩
  show DmaInv s.memory (s.buffer sd') (Function.update s.uarte.side sd t sd')
    (Function.update s.dma sd d sd')
  by_cases hSd : sd' = sd
  · subst hSd
    rw [Function.update_self, Function.update_self]
    exact hSide
  · rw [Function.update_of_ne hSd, Function.update_of_ne hSd]
    exact hI.side sd'

/-- A step that leaves the futures and the hardware as they are. -/
theorem Inv.same (hI : s.Inv) {u : Uarte Task}
    (hSame : ∀ sd, (u.side sd).pc = (s.uarte.side sd).pc ∧
      (u.side sd).running = (s.uarte.side sd).running ∧
      (u.side sd).ended = (s.uarte.side sd).ended) :
    Inv { s with uarte := u } where
  side := fun sd => (hI.side sd).same (hSame sd).1 (hSame sd).2.1 (hSame sd).2.2
  apart := fun hRx hTx =>
    hI.apart (fun h => hRx ((hSame .rx).1.trans h)) (fun h => hTx ((hSame .tx).1.trans h))

end UarteMemory

namespace Uarte

variable {s s' : Uarte Task}

/-- The handler only wakes, and disables interrupts. -/
theorem handle_same [DecidableEq Task] (hs : s.handle s.handler = some s') (sd : Side) :
    (s'.side sd).pc = (s.side sd).pc ∧ (s'.side sd).running = (s.side sd).running ∧
      (s'.side sd).ended = (s.side sd).ended := by
  -- the handler wakes and clears: it never moves a future or the hardware
  have hSet : ∀ sd' (t : Transfer Task), (t.pc = (s.side sd').pc ∧
      t.running = (s.side sd').running ∧ t.ended = (s.side sd').ended) →
      ((s.set sd' t).side sd).pc = (s.side sd).pc ∧
        ((s.set sd' t).side sd).running = (s.side sd).running ∧
        ((s.set sd' t).side sd).ended = (s.side sd).ended := by
    intro sd' t ht
    exact (Function.forall_update_iff s.side fun sd t => t.pc = (s.side sd).pc ∧
      t.running = (s.side sd).running ∧ t.ended = (s.side sd).ended).mpr
        ⟨ht, fun _ _ => ⟨rfl, rfl, rfl⟩⟩ sd
  cases hPc : s.handler with
  | out =>
    rw [hPc] at hs
    cases hs
  | check sd' | checkStopped sd' =>
    rw [hPc] at hs
    cases hs
    exact ⟨rfl, rfl, rfl⟩
  | wake sd' | clear sd' | clearStopped sd' =>
    rw [hPc] at hs
    cases hs
    exact hSet sd' _ ⟨rfl, rfl, rfl⟩

end Uarte

namespace UarteMemory

variable {chip : Chip} {s s' : UarteMemory Task} {a : MemoryAction Task}

/-- A future is created, with its slice. -/
theorem Inv.create (hI : s.Inv) {sd : Side} {b : Buffer} (hPc : (s.uarte.side sd).pc = .idle)
    (hApart : s.Lent sd.other → b.Disjoint (s.buffer sd.other)) :
    Inv { s with
      uarte := s.uarte.set sd { s.uarte.side sd with pc := .created }
      buffer := Function.update s.buffer sd b } := by
  have hRunning := (hI.side sd).not_running (by rw [hPc]; rfl)
  refine ⟨fun sd' => ?_, ?_⟩
  · show DmaInv s.memory (Function.update s.buffer sd b sd')
      (Function.update s.uarte.side sd _ sd') (s.dma sd')
    by_cases hSd : sd' = sd
    · subst hSd
      rw [Function.update_self, Function.update_self]
      exact .idle hRunning (.inr rfl)
    · rw [Function.update_of_ne hSd, Function.update_of_ne hSd]
      exact hI.side sd'
  · cases sd with
    | rx => exact fun _ hTx => hApart hTx
    | tx => exact fun hRx _ => (hApart hRx).symm

/-- The steps of the driver, each of one direction or of the handler. -/
theorem Inv.uarte [DecidableEq Task] {a : UarteAction Task} (hI : s.Inv)
    (hs : s.step chip (.uarte a) = some s') : s'.Inv := by
  obtain ⟨dma, hDma, hs⟩ := Option.bind_eq_some_iff.mp hs
  obtain ⟨u, hu, hs⟩ := Option.bind_eq_some_iff.mp hs
  cases hs
  -- every action keeps the invariant of its own side; the two buffers are apart
  cases a with
  | create sd => cases hDma
  | poll sd w =>
    obtain ⟨d, hd, rfl⟩ := Option.map_eq_some_iff.mp hDma
    obtain ⟨t, ht, rfl⟩ := Option.map_eq_some_iff.mp hu
    refine hI.set (fun _ hIdle => ?_) ((hI.side sd).poll ht hd)
    rw [Transfer.poll, hIdle] at ht
    cases ht
  | drop sd =>
    cases hDma
    obtain ⟨t, ht, rfl⟩ := Option.map_eq_some_iff.mp hu
    rw [← Function.update_eq_self sd s.dma]
    refine hI.set (fun _ hIdle => ?_) ((hI.side sd).drop ht)
    rw [Transfer.drop, hIdle] at ht
    cases ht
  | advance sd =>
    cases hDma
    obtain ⟨t, ht, rfl⟩ := Option.map_eq_some_iff.mp hu
    refine hI.set (fun _ hIdle => ?_) ((hI.side sd).advance ht)
    rw [Transfer.advance, hIdle] at ht
    cases ht
  -- the hardware raises END when the last byte is through
  | complete sd =>
    obtain ⟨hDone, hDma⟩ := Option.ite_none_right_eq_some.mp hDma
    obtain ⟨hRunning, hu⟩ := Option.ite_none_right_eq_some.mp hu
    cases hDma
    cases hu
    rw [← Function.update_eq_self sd s.dma]
    exact hI.set id ((hI.side sd).complete hRunning hDone)
  | stopped sd =>
    cases hDma
    cases hu
    rw [← Function.update_eq_self sd s.dma]
    exact hI.set id ((hI.side sd).same rfl rfl rfl)
  | interrupt =>
    cases hDma
    obtain ⟨-, hu⟩ := Option.ite_none_right_eq_some.mp hu
    cases hu
    exact hI.same fun _ => ⟨rfl, rfl, rfl⟩
  | handle =>
    cases hDma
    exact hI.same (Uarte.handle_same hu)

/-- Every step keeps what the hardware may use. -/
theorem inv_step [DecidableEq Task] (hI : s.Inv) (hs : s.step chip a = some s') : s'.Inv := by
  cases a with
  | create sd b =>
    obtain ⟨hApart, hs⟩ := Option.ite_none_right_eq_some.mp hs
    obtain ⟨u, hu, rfl⟩ := Option.map_eq_some_iff.mp hs
    obtain ⟨hPc, hu⟩ := Option.ite_none_right_eq_some.mp hu
    cases hu
    exact hI.create hPc hApart
  | uarte a => exact hI.uarte hs
  | receive x =>
    obtain ⟨⟨hRunning, hMore⟩, hs⟩ := Option.ite_none_right_eq_some.mp hs
    cases hs
    -- the byte lands in the receive buffer, so not in the other one
    obtain ⟨hStarted, hMem⟩ := (hI.side .rx).addr_mem hRunning hMore
    have hLent : s.Lent .rx := fun hIdle => by rw [hIdle] at hStarted; cases hStarted
    refine ⟨fun sd => ?_, hI.apart⟩
    cases sd with
    | rx => exact (hI.side .rx).receive hRunning hMore
    | tx => exact (hI.side .tx).elsewhere (hI.not_mem hLent hMem)
  | send =>
    obtain ⟨⟨hRunning, hMore⟩, hs⟩ := Option.ite_none_right_eq_some.mp hs
    cases hs
    refine ⟨fun sd => ?_, hI.apart⟩
    cases sd with
    | rx => exact hI.side .rx
    | tx => exact (hI.side .tx).send hRunning hMore
  -- the program writes outside both buffers while they are lent
  | store addr x =>
    obtain ⟨⟨hRx, hTx⟩, hs⟩ := Option.ite_none_right_eq_some.mp hs
    cases hs
    refine ⟨fun sd => ?_, hI.apart⟩
    cases sd with
    | rx => exact (hI.side .rx).elsewhere hRx
    | tx => exact (hI.side .tx).elsewhere hTx

theorem inv_of_run [DecidableEq Task] {memory : Nat → UInt8}
    (hRun : Run (step chip) (fun _ _ => True) (new memory : UarteMemory Task) s) : s.Inv :=
  hRun.invariant (I := Inv) (inv_new memory) fun _ _ _ hI _ hs => inv_step hI hs

/-- The future has started its transfer, and is neither complete nor gone. -/
def UnderWay (s : UarteMemory Task) (sd : Side) : Prop :=
  (s.uarte.side sd).pc.started = true

/--
**The hardware keeps to what was lent to it.** On every chip, whatever the memory, the slices
and the order of all steps, and wherever a future is dropped: a byte of memory changes by a
store of the program, or is in the slice of a read under way, in which the hardware stores
what came in; and a byte that the hardware sends is in the slice of a write under way.
-/
theorem dma_confined [DecidableEq Task] {memory : Nat → UInt8}
    (hRun : Run (step chip) (fun _ _ => True) (new memory : UarteMemory Task) s)
    (hs : s.step chip a = some s') :
    (∀ addr, s'.memory addr ≠ s.memory addr → (∃ x, a = .store addr x) ∨
      (∃ x, a = .receive x) ∧ s.UnderWay .rx ∧ addr ∈ s.buffer .rx) ∧
    (a = .send → s.UnderWay .tx ∧ s.addr .tx ∈ s.buffer .tx) := by
  have hI := inv_of_run hRun
  -- memory changes by a store of the program or a byte received
  cases a with
  | create sd b =>
    obtain ⟨-, hs⟩ := Option.ite_none_right_eq_some.mp hs
    obtain ⟨u, -, rfl⟩ := Option.map_eq_some_iff.mp hs
    exact ⟨fun _ h => absurd rfl h, (nomatch ·)⟩
  | uarte a =>
    obtain ⟨dma, -, hs⟩ := Option.bind_eq_some_iff.mp hs
    obtain ⟨u, -, hs⟩ := Option.bind_eq_some_iff.mp hs
    cases hs
    exact ⟨fun _ h => absurd rfl h, (nomatch ·)⟩
  | receive x =>
    obtain ⟨⟨hRunning, hMore⟩, hs⟩ := Option.ite_none_right_eq_some.mp hs
    cases hs
    obtain ⟨hStarted, hMem⟩ := (hI.side .rx).addr_mem hRunning hMore
    -- the address the hardware writes is in the buffer lent to it
    refine ⟨fun addr hChanged => .inr ⟨⟨x, rfl⟩, hStarted, ?_⟩, (nomatch ·)⟩
    rcases eq_or_ne addr (s.addr .rx) with rfl | hOther
    · exact hMem
    · exact absurd (Function.update_of_ne hOther x s.memory) hChanged
  | send =>
    obtain ⟨⟨hRunning, hMore⟩, hs⟩ := Option.ite_none_right_eq_some.mp hs
    cases hs
    exact ⟨fun _ h => absurd rfl h, fun _ => (hI.side .tx).addr_mem hRunning hMore⟩
  | store addr' x =>
    obtain ⟨-, hs⟩ := Option.ite_none_right_eq_some.mp hs
    cases hs
    refine ⟨fun addr hChanged => .inl ⟨x, ?_⟩, (nomatch ·)⟩
    rcases eq_or_ne addr addr' with rfl | hOther
    · rfl
    · exact absurd (Function.update_of_ne hOther x s.memory) hChanged

/-- A byte comes in while the drop of a read spins. -/
theorem dma_confined_dropped : ∃ s s' : UarteMemory Nat,
    Run (step .nrf52840) (fun _ _ => True) (new fun _ => 0) s ∧
      (s.uarte.side .rx).pc = .spin ∧ s.step .nrf52840 (.receive 8) = some s' ∧
      ∀ addr, s'.memory addr ≠ s.memory addr →
        (∃ x, (.receive 8 : MemoryAction Nat) = .store addr x) ∨
          (∃ x, (.receive 8 : MemoryAction Nat) = .receive x) ∧ s.UnderWay .rx ∧
            addr ∈ s.buffer .rx := by
  obtain ⟨s, hRun, hSpin, hSome⟩ : ∃ s : UarteMemory Nat,
      Run (step .nrf52840) (fun _ _ => True) (new fun _ => 0) s ∧
        (s.uarte.side .rx).pc = .spin ∧
        (s.step .nrf52840 (.receive 8)).isSome = true := by
    have hRun : Run (step .nrf52840) (fun _ _ => True) (new fun _ => 0 : UarteMemory Nat) _ :=
      Run.execOk_get _ [.create .rx ⟨100, 3⟩, .uarte (.poll .rx 1), .uarte (.advance .rx),
        .uarte (.advance .rx), .uarte (.advance .rx), .uarte (.advance .rx),
        .uarte (.advance .rx), .receive 7, .uarte (.drop .rx), .uarte (.advance .rx),
        .uarte (.advance .rx), .uarte (.advance .rx)] (by decide +kernel)
    exact ⟨_, hRun, by decide +kernel, by decide +kernel⟩
  have hs := (Option.some_get hSome).symm
  exact ⟨s, _, hRun, hSpin, hs, (dma_confined hRun hs).1⟩

/--
**A transfer that completes was whole.** On every chip, whatever the memory, the slices and
the order of all steps, and whatever other futures were dropped before: where a poll is about
to return `Ok`, the bytes that the hardware moved in this transfer are those of the slice, as
they are in memory then. For a read this is what came in, for a write what was sent.
-/
theorem transfer_complete [DecidableEq Task] {memory : Nat → UInt8}
    (hRun : Run (step chip) (fun _ _ => True) (new memory : UarteMemory Task) s) (sd : Side)
    (hPc : (s.uarte.side sd).pc = .finish) :
    (s.dma sd).moved = (s.buffer sd).bytes s.memory :=
  ((inv_of_run hRun).side sd).finish hPc

/-- A read is dropped, and the next one returns what came in for it, in the same slice. -/
theorem transfer_complete_second : ∃ s : UarteMemory Nat,
    Run (step .nrf52832) (fun _ _ => True) (new fun _ => 0) s ∧
      (s.buffer .rx).bytes s.memory = [8, 9] ∧
      (s.dma .rx).moved = (s.buffer .rx).bytes s.memory := by
  have hRun : Run (step .nrf52832) (fun _ _ => True) (new fun _ => 0 : UarteMemory Nat) _ :=
    Run.execOk_get _ [.create .rx ⟨100, 2⟩, .uarte (.poll .rx 1), .uarte (.advance .rx),
      .uarte (.advance .rx), .uarte (.advance .rx), .uarte (.advance .rx), .uarte (.advance .rx),
      .receive 7, .uarte (.drop .rx), .uarte (.advance .rx), .uarte (.advance .rx),
      .uarte (.advance .rx), .uarte (.complete .rx), .uarte (.advance .rx), .store 101 5,
      .create .rx ⟨100, 2⟩, .uarte (.poll .rx 1), .uarte (.advance .rx), .uarte (.advance .rx),
      .uarte (.advance .rx), .receive 8, .receive 9, .uarte (.complete .rx), .uarte (.advance .rx),
      .uarte (.advance .rx)] (by decide +kernel)
  exact ⟨_, hRun, by decide +kernel, transfer_complete hRun .rx (by decide +kernel)⟩

end UarteMemory

end Embassy.Nrf
