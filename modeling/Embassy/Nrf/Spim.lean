import Embassy.Nrf.EndEvent
import Embassy.Nrf.UarteMemory

/-!
# The SPI master

`read_write` of `embassy-nrf/src/spim.rs`. The future lends two slices to the hardware, which
sends the one while it fills the other, a byte of each at a time; `EndEvent` has its steps.
The lengths are written to the MAXCNT registers, of `width` bits, without a check; and the
future has no guard, so that nothing stops the hardware if it is dropped.

Main results:

* `spim_confined` — the hardware uses the two slices, and no other memory, as long as no
  future is dropped while it is at work.
* `spim_escapes` — the condition is needed.
* `exchange_complete` — what a future that returns has sent, and what is in its slice, under
  the same condition.
-/

namespace Embassy.Nrf

open Embassy.Lib Embassy.Util

namespace Buffer

variable {b : Buffer} {memory : Nat → UInt8}

@[simp] theorem length_bytes : (b.bytes memory).length = b.len := length_take b.len

theorem getElem_bytes {k : Nat} (h : k < (b.bytes memory).length) :
    (b.bytes memory)[k] = memory (b.ptr + k) := by
  simp [bytes, take]

theorem getElem?_bytes {k : Nat} (h : k < b.len) :
    (b.bytes memory)[k]? = some (memory (b.ptr + k)) := by
  simp [bytes, take, h]

/-- A byte in the slice changes. -/
theorem bytes_update {k : Nat} {x : UInt8} :
    b.bytes (Function.update memory (b.ptr + k) x) = (b.bytes memory).set k x := by
  refine List.ext_getElem (by simp) fun i hi hi' => ?_
  rw [getElem_bytes, List.getElem_set]
  by_cases hEq : k = i
  · rw [if_pos hEq, hEq, Function.update_self]
  · rw [if_neg hEq, getElem_bytes, Function.update_of_ne]
    omega

/-- A byte outside of the slice changes. -/
theorem bytes_update_of_not_mem {addr : Nat} {x : UInt8} (h : addr ∉ b) :
    b.bytes (Function.update memory addr x) = b.bytes memory :=
  take_update_of_not_mem (Nat.le_refl _) h

end Buffer

/-- `target_constants::SRAM_LOWER` -/
def SRAM_LOWER : Nat := 0x20000000

/-- `target_constants::SRAM_UPPER` -/
def SRAM_UPPER : Nat := 0x30000000

/-- `slice_in_ram` -/
def Buffer.InRam (b : Buffer) : Prop := SRAM_LOWER ≤ b.ptr ∧ b.ptr + b.len < SRAM_UPPER

/-- `slice_in_ram_or` does not return the error. -/
def Buffer.DmaOk (b : Buffer) : Prop := b.len = 0 ∨ b.InRam

instance (b : Buffer) : Decidable b.DmaOk :=
  inferInstanceAs (Decidable (_ ∨ _ ∧ _))

/-- `spim::Error` -/
inductive SpimError where
  | txBufferTooLong
  | rxBufferTooLong
  | dmaBufferNotInDataMemory
  deriving DecidableEq, Repr

structure Spim (Task : Type) where
  event : EndEvent Task
  /-- The slices of the latest future. -/
  rx : Buffer
  tx : Buffer
  /-- `r.rxd.ptr` and `r.rxd.maxcnt` -/
  rxd : Buffer
  txd : Buffer
  /-- What is sent when there is nothing left to send. -/
  orc : UInt8
  /-- The bytes of the latest transfer, in both directions. -/
  sent : List UInt8
  received : List UInt8
  memory : Nat → UInt8
  /-- The memory when the future was created. -/
  before : Nat → UInt8
  /-- What the latest future returned. -/
  result : Option (Except SpimError Unit)

inductive SpimAction (Task : Type) where
  /-- `read_write` is called with two slices. -/
  | create (rx tx : Buffer)
  | poll (w : Task)
  /-- Any other step of `EndEvent`. -/
  | event (a : EndEventAction Task)
  /-- A byte is sent, and `x` comes in. -/
  | exchange (x : UInt8)
  /-- The program writes to its memory. -/
  | store (addr : Nat) (x : UInt8)

variable {Task : Type}

namespace Spim

def new (orc : UInt8) (event : EndEvent Task) (memory : Nat → UInt8) : Spim Task where
  event := event
  rx := ⟨0, 0⟩
  tx := ⟨0, 0⟩
  rxd := ⟨0, 0⟩
  txd := ⟨0, 0⟩
  orc := orc
  sent := []
  received := []
  memory := memory
  before := memory
  result := none

/-- There is a future, which borrows its slices. -/
def Lent (s : Spim Task) : Prop := s.event.pc ≠ .idle

instance (s : Spim Task) : Decidable s.Lent := inferInstanceAs (Decidable (_ ≠ _))

/-- How many bytes the transfer has. -/
def total (s : Spim Task) : Nat := max s.rxd.len s.txd.len

/-- The hardware can exchange a byte. -/
def Exchanges (s : Spim Task) : Prop := s.event.running = true ∧ s.received.length < s.total

instance (s : Spim Task) : Decidable s.Exchanges := inferInstanceAs (Decidable (_ ∧ _))

/-- The registers that are loaded for a slice; a length that is too long is truncated. -/
def load (width : Nat) (b : Buffer) : Buffer := ⟨b.ptr, b.len % 2 ^ width⟩

/-- What is sent next. -/
def next (s : Spim Task) : UInt8 :=
  let k := s.sent.length
  if k < s.txd.len then s.memory (s.txd.ptr + k) else s.orc

/-- What comes in is stored as long as there is room for it. -/
def stored (s : Spim Task) (x : UInt8) : Nat → UInt8 :=
  let k := s.received.length
  if k < s.rxd.len then Function.update s.memory (s.rxd.ptr + k) x else s.memory

def pollWith (width : Nat) (s : Spim Task) (w : Task) : Option (Spim Task) :=
  if s.event.pc = .created then
    if s.rx.DmaOk ∧ s.tx.DmaOk then
      (s.event.poll w).map fun e =>
        { s with event := e, rxd := load width s.rx, txd := load width s.tx }
    else
      some { s with
        event := { s.event with pc := .idle }
        result := some (.error .dmaBufferNotInDataMemory) }
  else (s.event.poll w).map fun e => { s with event := e }

def advance (s : Spim Task) : Option (Spim Task) :=
  (s.event.advance s.event.pc).map fun e =>
    match s.event.pc with
    | .start => { s with event := e, sent := [], received := [] }
    | .finish => { s with event := e, result := some (.ok ()) }
    | _ => { s with event := e }

def step [DecidableEq Task] (width : Nat) (s : Spim Task) : SpimAction Task → Option (Spim Task)
  | .create rx tx =>
    -- The slice that is read into is borrowed mutably.
    if rx.Disjoint tx then
      (s.event.step .create).map fun e =>
        { s with event := e, rx := rx, tx := tx, before := s.memory, result := none }
    else none
  | .poll w => s.pollWith width w
  | .event .create | .event (.poll _) => none
  | .event .advance => s.advance
  | .event .complete =>
    if s.received.length = s.total then
      (s.event.step .complete).map fun e => { s with event := e }
    else none
  | .event a => (s.event.step a).map fun e => { s with event := e }
  | .exchange x =>
    if s.Exchanges then
      some { s with
        memory := s.stored x
        sent := s.sent ++ [s.next]
        received := s.received ++ [x] }
    else none
  | .store addr x =>
    if s.Lent → addr ∉ s.rx ∧ addr ∉ s.tx then
      some { s with memory := Function.update s.memory addr x }
    else none

/-- No future is dropped while the hardware is at work for it. -/
def Kept (s : Spim Task) (a : SpimAction Task) : Prop :=
  match a with
  | .event .drop => s.event.running = false
  | _ => True

/-- What the hardware gets to next is in slices that are lent to it, and are in RAM. -/
def Confined (s : Spim Task) : Prop := s.Exchanges → s.Lent ∧
  (s.received.length < s.rxd.len → s.rx.InRam ∧ s.rxd.ptr + s.received.length ∈ s.rx) ∧
  (s.sent.length < s.txd.len → s.tx.InRam ∧ s.txd.ptr + s.sent.length ∈ s.tx)

end Spim

/-- The registers are loaded for the future. -/
def EndEventPc.started : EndEventPc → Bool
  | .check | .finish | .disable | .setHandler | .setContext | .enable | .waiting => true
  | _ => false

namespace Spim

/-- The bytes of a transfer that is complete. -/
def outgoing (s : Spim Task) : List UInt8 :=
  (s.tx.bytes s.memory).take s.txd.len ++ List.replicate (s.total - s.txd.len) s.orc

/-- The registers are those of a slice, which was checked. -/
structure Loaded (width : Nat) (b regs : Buffer) : Prop where
  eq : regs = load width b
  ok : b.DmaOk

theorem Loaded.ptr {b regs : Buffer} {width : Nat} (h : Loaded width b regs) :
    regs.ptr = b.ptr := by
  rw [h.eq]
  rfl

/-- The register has as many bits of the length as it is wide. -/
theorem Loaded.len {b regs : Buffer} {width : Nat} (h : Loaded width b regs) :
    regs.len = b.len % 2 ^ width := by
  rw [h.eq]
  rfl

theorem Loaded.len_le {b regs : Buffer} {width : Nat} (h : Loaded width b regs) :
    regs.len ≤ b.len := h.len ▸ Nat.mod_le _ _

/-- What the registers describe is in the slice, and in RAM. -/
theorem Loaded.mem {b regs : Buffer} {width k : Nat} (h : Loaded width b regs)
    (hk : k < regs.len) : b.InRam ∧ regs.ptr + k ∈ b := by
  have hLt := Nat.lt_of_lt_of_le hk h.len_le
  refine ⟨h.ok.resolve_left (Nat.ne_of_gt (Nat.zero_lt_of_lt hLt)), ?_⟩
  rw [h.ptr]
  exact ⟨Nat.le_add_right _ _, Nat.add_lt_add_left hLt _⟩

structure Inv (width : Nat) (s : Spim Task) : Prop where
  /-- The hardware is at work only for a future that has started it. -/
  owned : s.event.running = true → s.event.pc.started = true ∧ s.event.ended = false
  reset : s.event.pc = .enableEnd ∨ s.event.pc = .start → s.event.ended = false
  seen : s.event.pc = .finish → s.event.ended = true
  apart : s.Lent → s.rx.Disjoint s.tx
  loaded : s.event.pc.polled = true → Loaded width s.rx s.rxd ∧ Loaded width s.tx s.txd
  /-- Nothing is stored yet. -/
  untouched : s.Lent → s.event.pc.started = false → s.rx.bytes s.memory = s.rx.bytes s.before
  moved : s.event.pc.started = true → s.sent.length = s.received.length ∧
    s.received.length ≤ s.total ∧ s.sent = s.outgoing.take s.received.length ∧
    s.rx.bytes s.memory = s.received.take s.rxd.len ++
      (s.rx.bytes s.before).drop (min s.received.length s.rxd.len)
  whole : s.event.pc.started = true → s.event.ended = true → s.received.length = s.total

/-- Without a future there is nothing to be said of the hardware. -/
theorem inv_new (width : Nat) (orc : UInt8) {e : EndEvent Task} (hPc : e.pc = .idle)
    (hRunning : e.running = false) (memory : Nat → UInt8) : (new orc e memory).Inv width := by
  constructor
  case owned => exact fun h => nomatch hRunning.symm.trans h
  case reset => exact fun h => by rcases h with h | h <;> exact nomatch hPc.symm.trans h
  case seen => exact fun h => nomatch hPc.symm.trans h
  case apart => exact fun h => absurd hPc h
  case loaded =>
    intro h
    have h : e.pc.polled = true := h
    rw [hPc] at h
    cases h
  case untouched => exact fun h => absurd hPc h
  case moved | whole =>
    intro h
    have h : e.pc.started = true := h
    rw [hPc] at h
    cases h

variable {width : Nat} {s s' : Spim Task} {a : SpimAction Task}

/-- Before the start the hardware is not at work. -/
theorem Inv.not_running (hI : s.Inv width) (hPc : s.event.pc.started = false) :
    s.event.running = false :=
  eq_false_of_ne_true fun hRunning => nomatch hPc.symm.trans (hI.owned hRunning).1

/-- A step that leaves the future, the event and the hardware as they are. -/
theorem Inv.same (hI : s.Inv width) {e : EndEvent Task} (hPc : e.pc = s.event.pc)
    (hRunning : e.running = s.event.running) (hEnded : e.ended = s.event.ended) :
    Inv width { s with event := e } := by
  refine ⟨?_, ?_, ?_, ?_, ?_, ?_, ?_, ?_⟩ <;> simp only [Lent, hPc, hRunning, hEnded]
  · exact hI.owned
  · exact hI.reset
  · exact hI.seen
  · exact hI.apart
  · exact hI.loaded
  · exact hI.untouched
  · exact hI.moved
  · exact hI.whole

/-- There is no future left, and the hardware is not at work. -/
theorem Inv.idle {e : EndEvent Task} (hPc : e.pc = .idle) (hRunning : e.running = false)
    {result : Option (Except SpimError Unit)} :
    Inv width { s with event := e, result := result } := by
  have hNot : e.pc.started = false ∧ e.pc.polled = false := by
    rw [hPc]
    exact ⟨rfl, rfl⟩
  exact ⟨fun h => (nomatch hRunning.symm.trans h),
    fun h => (h.elim (fun h => nomatch hPc.symm.trans h) fun h => nomatch hPc.symm.trans h),
    fun h => (nomatch hPc.symm.trans h), fun h => absurd hPc h,
    fun h => (nomatch hNot.2.symm.trans h), fun h => absurd hPc h,
    fun h => (nomatch hNot.1.symm.trans h), fun h => (nomatch hNot.1.symm.trans h)⟩

/-- A transfer that was started belongs to a future. -/
theorem lent_of_started (h : s.event.pc.started = true) : s.Lent := fun hIdle => by
  rw [hIdle] at h
  cases h

theorem polled_of_started {pc : EndEventPc} (h : pc.started = true) : pc.polled = true := by
  cases pc <;> first | rfl | cases h

/-- The future goes on from one step of a transfer under way to another. -/
theorem Inv.goes_on (hI : s.Inv width) {e : EndEvent Task}
    (hStarted : s.event.pc.started = true) (hNext : e.pc.started = true)
    (hSeen : e.pc = .finish → e.ended = true) (hRunning : e.running = s.event.running)
    (hEnded : e.ended = s.event.ended) : Inv width { s with event := e } := by
  refine ⟨fun h => ⟨hNext, ?_⟩, fun h => ?_, hSeen, fun _ => hI.apart (lent_of_started hStarted),
    fun _ => hI.loaded (polled_of_started hStarted), fun _ h => (nomatch hNext.symm.trans h),
    fun _ => hI.moved hStarted, fun _ h => hI.whole hStarted (hEnded.symm.trans h)⟩
  · exact hEnded.trans (hI.owned (hRunning.symm.trans h)).2
  · rcases h with hPc | hPc <;> rw [show e.pc = _ from hPc] at hNext <;> cases hNext

/-- The future goes on before it starts the transfer. -/
theorem Inv.prepare (hI : s.Inv width) {e : EndEvent Task} (hLent : s.Lent)
    (hBefore : s.event.pc.started = false) (hNext : e.pc.started = false)
    (hReset : e.pc = .enableEnd ∨ e.pc = .start → e.ended = false)
    (hLoaded : e.pc.polled = true → Loaded width s.rx s.rxd ∧ Loaded width s.tx s.txd)
    (hRunning : e.running = s.event.running) : Inv width { s with event := e } := by
  have hOff : e.running = false := hRunning.trans (hI.not_running hBefore)
  refine ⟨fun h => (nomatch hOff.symm.trans h), hReset, fun h => ?_, fun _ => hI.apart hLent,
    hLoaded, fun _ _ => hI.untouched hLent hBefore, fun h => (nomatch hNext.symm.trans h),
    fun h => (nomatch hNext.symm.trans h)⟩
  rw [show e.pc = _ from h] at hNext
  cases hNext

/-- A new future lends its slices, and the memory is as it is. -/
theorem Inv.create (hI : s.Inv width) {rx tx : Buffer} (hApart : rx.Disjoint tx)
    (hPc : s.event.pc = .idle) :
    Inv width { s with
      event := { s.event with pc := .created }
      rx := rx
      tx := tx
      before := s.memory
      result := none } := by
  have hOff := hI.not_running (by rw [hPc]; rfl)
  exact ⟨fun h => (nomatch hOff.symm.trans h), (by rcases · with h | h <;> cases h), (nomatch ·),
    fun _ => hApart, (nomatch ·), fun _ _ => rfl, (nomatch ·), (nomatch ·)⟩

/-- The first poll checks the slices and loads the registers; a later one changes neither. -/
theorem Inv.poll {w : Task} (hI : s.Inv width) (hs : s.pollWith width w = some s') :
    s'.Inv width := by
  unfold pollWith EndEvent.poll at hs
  cases hPc : s.event.pc with
  | created =>
    -- The checks are made once, on the slices as they were given.
    have hLent : s.Lent := fun h => nomatch hPc.symm.trans h
    have hBefore : s.event.pc.started = false := by rw [hPc]; rfl
    have hOff := hI.not_running hBefore
    rw [if_pos hPc] at hs
    split at hs
    · rename_i hOk
      rw [hPc] at hs
      cases hs
      exact ⟨fun h => (nomatch hOff.symm.trans h), (by rcases · with h | h <;> cases h),
        (nomatch ·), fun _ => hI.apart hLent, fun _ => ⟨⟨rfl, hOk.1⟩, ⟨rfl, hOk.2⟩⟩,
        fun _ _ => hI.untouched hLent hBefore, (nomatch ·), (nomatch ·)⟩
    · cases hs
      exact .idle (e := { s.event with pc := .idle }) rfl hOff
  | waiting =>
    rw [if_neg (by rw [hPc]; decide), hPc] at hs
    cases hs
    exact hI.goes_on (by rw [hPc]; rfl) rfl (nomatch ·) rfl rfl
  | idle | reset | enableEnd | start | check | finish | disable | setHandler | setContext
  | enable =>
    rw [if_neg (by rw [hPc]; decide), hPc] at hs
    cases hs

/-- The steps of a poll, one by one. -/
theorem Inv.advance (hI : s.Inv width) (hs : s.advance = some s') : s'.Inv width := by
  unfold Spim.advance EndEvent.advance at hs
  cases hPc : s.event.pc with
  | idle | created | waiting =>
    rw [hPc] at hs
    cases hs
  | reset =>
    rw [hPc] at hs
    cases hs
    have hLent : s.Lent := fun h => nomatch hPc.symm.trans h
    exact hI.prepare hLent (by rw [hPc]; rfl) rfl (fun _ => rfl)
      (fun _ => hI.loaded (by rw [hPc]; rfl)) rfl
  | enableEnd =>
    rw [hPc] at hs
    cases hs
    have hLent : s.Lent := fun h => nomatch hPc.symm.trans h
    exact hI.prepare hLent (by rw [hPc]; rfl) rfl (fun _ => hI.reset (.inl hPc))
      (fun _ => hI.loaded (by rw [hPc]; rfl)) rfl
  | start =>
    rw [hPc] at hs
    cases hs
    have hLent : s.Lent := fun h => nomatch hPc.symm.trans h
    -- Nothing is exchanged yet, and nothing was stored in the slice since the future was created.
    have hEnded := hI.reset (.inr hPc)
    have hUntouched := hI.untouched hLent (by rw [hPc]; rfl)
    refine ⟨fun _ => ⟨rfl, hEnded⟩, (by rcases · with h | h <;> cases h), (nomatch ·),
      fun _ => hI.apart hLent, fun _ => hI.loaded (by rw [hPc]; rfl), fun _ h => (nomatch h),
      fun _ => ⟨rfl, Nat.zero_le _, rfl, ?_⟩, fun _ h => (nomatch hEnded.symm.trans h)⟩
    show s.rx.bytes s.memory = [].take _ ++ (s.rx.bytes s.before).drop (min 0 _)
    rw [hUntouched, List.take_nil, Nat.zero_min, List.nil_append, List.drop_zero]
  | check =>
    rw [hPc] at hs
    cases hs
    refine hI.goes_on (by rw [hPc]; rfl) ?_ ?_ rfl rfl
    · cases s.event.ended <;> rfl
    · cases s.event.ended <;> simp
  | finish =>
    rw [hPc] at hs
    cases hs
    -- The event was seen, and the hardware has none while it is at work.
    refine .idle rfl (eq_false_of_ne_true fun hRunning => ?_)
    exact nomatch (hI.seen hPc).symm.trans (hI.owned hRunning).2
  | disable | setHandler | setContext | enable =>
    rw [hPc] at hs
    cases hs
    exact hI.goes_on (by rw [hPc]; rfl) rfl (nomatch ·) rfl rfl

/-- Memory changes outside of the slices that are lent. -/
theorem Inv.store {addr : Nat} {x : UInt8} (hI : s.Inv width)
    (hNot : s.Lent → addr ∉ s.rx ∧ addr ∉ s.tx) :
    Inv width { s with memory := Function.update s.memory addr x } := by
  refine ⟨hI.owned, hI.reset, hI.seen, hI.apart, hI.loaded, fun hLent hBefore => ?_,
    fun hStarted => ?_, hI.whole⟩
  · exact (Buffer.bytes_update_of_not_mem (hNot hLent).1).trans (hI.untouched hLent hBefore)
  · obtain ⟨hRx, hTx⟩ := hNot (lent_of_started hStarted)
    obtain ⟨hLength, hLe, hSent, hBytes⟩ := hI.moved hStarted
    refine ⟨hLength, hLe, ?_, (Buffer.bytes_update_of_not_mem hRx).trans hBytes⟩
    rw [outgoing, Buffer.bytes_update_of_not_mem hTx]
    exact hSent

/-- What the invariant says of the next exchange. -/
theorem Inv.confined (hI : s.Inv width) : s.Confined := by
  rintro ⟨hRunning, -⟩
  obtain ⟨hStarted, -⟩ := hI.owned hRunning
  obtain ⟨hRxd, hTxd⟩ := hI.loaded (polled_of_started hStarted)
  exact ⟨lent_of_started hStarted, hRxd.mem, hTxd.mem⟩

/-- What comes in does not change what is sent. -/
theorem Inv.bytes_tx_stored (hI : s.Inv width) (hExchanges : s.Exchanges) (x : UInt8) :
    s.tx.bytes (s.stored x) = s.tx.bytes s.memory := by
  obtain ⟨hLent, hRx, -⟩ := hI.confined hExchanges
  rw [stored]
  split
  · rename_i hLt
    exact Buffer.bytes_update_of_not_mem ((hI.apart hLent).not_mem (hRx hLt).2)
  · rfl

/-- The byte that is sent next is the next of the transfer. -/
theorem Inv.next_eq (hI : s.Inv width) (hExchanges : s.Exchanges) :
    s.outgoing[s.received.length]? = some s.next := by
  obtain ⟨hRunning, hMore⟩ := hExchanges
  obtain ⟨hStarted, -⟩ := hI.owned hRunning
  obtain ⟨hLength, -, -, -⟩ := hI.moved hStarted
  obtain ⟨-, hTxd⟩ := hI.loaded (polled_of_started hStarted)
  have hLe := hTxd.len_le
  have hTake : ((s.tx.bytes s.memory).take s.txd.len).length = s.txd.len := by
    rw [List.length_take, Buffer.length_bytes, Nat.min_eq_left hLe]
  have hMax : s.received.length - s.txd.len < s.total - s.txd.len ∨
      s.received.length < s.txd.len := by omega
  rw [next, outgoing, hLength]
  -- From the slice as long as it lasts, then the over-read character.
  by_cases hLt : s.received.length < s.txd.len
  · rw [List.getElem?_append_left (hTake.symm ▸ hLt), List.getElem?_take_of_lt hLt,
      Buffer.getElem?_bytes (Nat.lt_of_lt_of_le hLt hLe), if_pos hLt, hTxd.ptr]
  · rw [List.getElem?_append_right (hTake.symm ▸ Nat.not_lt.mp hLt), hTake,
      List.getElem?_replicate_of_lt (hMax.resolve_right hLt), if_neg hLt]

/-- What comes in is put behind what is there already. -/
theorem Inv.bytes_rx_stored (hI : s.Inv width) (hExchanges : s.Exchanges) (x : UInt8) :
    s.rx.bytes (s.stored x) = (s.received ++ [x]).take s.rxd.len ++
      (s.rx.bytes s.before).drop (min (s.received ++ [x]).length s.rxd.len) := by
  obtain ⟨hStarted, -⟩ := hI.owned hExchanges.1
  obtain ⟨-, -, -, hBytes⟩ := hI.moved hStarted
  obtain ⟨hRxd, -⟩ := hI.loaded (polled_of_started hStarted)
  have hLe := hRxd.len_le
  rw [stored, List.length_append, List.length_singleton]
  -- With room the byte replaces the first one that was there before; without, it is not stored.
  by_cases hLt : s.received.length < s.rxd.len
  · have hMin : min s.received.length s.rxd.len = s.received.length :=
      Nat.min_eq_left (Nat.le_of_lt hLt)
    have hMin' : min (s.received.length + 1) s.rxd.len = s.received.length + 1 :=
      Nat.min_eq_left hLt
    have hTake : (s.received ++ [x]).length ≤ s.rxd.len := by
      rw [List.length_append]
      exact hLt
    have hDrop : s.received.length < (s.rx.bytes s.before).length := by
      rw [Buffer.length_bytes]
      exact Nat.lt_of_lt_of_le hLt hLe
    rw [if_pos hLt, hRxd.ptr, Buffer.bytes_update, hBytes, hMin, hMin',
      List.take_of_length_le (Nat.le_of_lt hLt), List.drop_eq_getElem_cons hDrop,
      List.set_append_right _ _ (Nat.le_refl _), Nat.sub_self, List.set_cons_zero,
      List.take_of_length_le hTake, List.append_assoc]
    rfl
  · have hGe := Nat.not_lt.mp hLt
    rw [if_neg hLt, hBytes, Nat.min_eq_right hGe, Nat.min_eq_right (Nat.le_succ_of_le hGe),
      List.take_append_of_le_length hGe]

/-- One byte more in either direction. -/
theorem Inv.exchange {x : UInt8} (hI : s.Inv width) (hExchanges : s.Exchanges) :
    Inv width { s with
      memory := s.stored x
      sent := s.sent ++ [s.next]
      received := s.received ++ [x] } := by
  obtain ⟨hStarted, hEnded⟩ := hI.owned hExchanges.1
  obtain ⟨hLength, -, hSent, -⟩ := hI.moved hStarted
  refine ⟨hI.owned, hI.reset, hI.seen, hI.apart, hI.loaded,
    fun _ h => (nomatch hStarted.symm.trans h), fun _ => ⟨?_, ?_, ?_, ?_⟩,
    fun _ h => (nomatch hEnded.symm.trans h)⟩
  · rw [List.length_append, List.length_append, hLength]
    rfl
  · rw [List.length_append]
    exact hExchanges.2
  · -- What comes in may not change what is still to be sent: the slices are disjoint.
    have hOutgoing : Spim.outgoing { s with
        memory := s.stored x
        sent := s.sent ++ [s.next]
        received := s.received ++ [x] } = s.outgoing := by
      rw [outgoing, hI.bytes_tx_stored hExchanges]
      rfl
    have hNext := hI.next_eq hExchanges
    show s.sent ++ [s.next] = _
    rw [hOutgoing, List.length_append, List.length_singleton, List.take_add_one, hNext, ← hSent]
    rfl
  · exact hI.bytes_rx_stored hExchanges x

/-- The hardware ends a transfer when all of its bytes are exchanged. -/
theorem Inv.complete (hI : s.Inv width) (hRunning : s.event.running = true)
    (hAll : s.received.length = s.total) :
    Inv width { s with event := { s.event with running := false, ended := true } } := by
  obtain ⟨hStarted, -⟩ := hI.owned hRunning
  refine ⟨(nomatch ·), fun h => ?_, fun _ => rfl, hI.apart, hI.loaded, hI.untouched, hI.moved,
    fun _ _ => hAll⟩
  have hNot : s.event.pc = .enableEnd ∨ s.event.pc = .start := h
  rcases hNot with hPc | hPc <;> rw [hPc] at hStarted <;> cases hStarted

/-- The handler only wakes, and masks the line. -/
theorem handle_same [DecidableEq Task] {e e' : EndEvent Task} (hs : e.handle e.handler = some e') :
    e'.pc = e.pc ∧ e'.running = e.running ∧ e'.ended = e.ended := by
  unfold EndEvent.handle at hs
  split at hs <;> cases hs <;> exact ⟨rfl, rfl, rfl⟩

/-- The steps of the event, of which only the drop of a future needs the condition. -/
theorem Inv.event [DecidableEq Task] {e : EndEventAction Task} (hI : s.Inv width)
    (hKept : s.Kept (.event e)) (hs : s.step width (.event e) = some s') : s'.Inv width := by
  cases e with
  | create | poll => cases hs
  | advance => exact hI.advance hs
  | complete =>
    obtain ⟨hAll, hs⟩ := Option.ite_none_right_eq_some.mp hs
    obtain ⟨e, he, rfl⟩ := Option.map_eq_some_iff.mp hs
    obtain ⟨hRunning, he⟩ := Option.ite_none_right_eq_some.mp he
    cases he
    exact hI.complete hRunning hAll
  -- Here the condition on the run is used.
  | drop =>
    obtain ⟨e, he, rfl⟩ := Option.map_eq_some_iff.mp hs
    obtain ⟨-, he⟩ := Option.ite_none_right_eq_some.mp he
    cases he
    exact .idle (e := { s.event with pc := .idle }) rfl hKept
  | pend =>
    cases hs
    exact hI.same rfl rfl rfl
  | interrupt =>
    obtain ⟨e, he, rfl⟩ := Option.map_eq_some_iff.mp hs
    obtain ⟨-, he⟩ := Option.ite_none_right_eq_some.mp he
    cases he
    exact hI.same rfl rfl rfl
  | handle =>
    obtain ⟨e, he, rfl⟩ := Option.map_eq_some_iff.mp hs
    obtain ⟨hPc, hRunning, hEnded⟩ := handle_same he
    exact hI.same hPc hRunning hEnded

/-- The invariant is kept by every step, if no future is dropped at work. -/
theorem inv_step [DecidableEq Task] (hI : s.Inv width) (hKept : s.Kept a)
    (hs : s.step width a = some s') : s'.Inv width := by
  cases a with
  | create rx tx =>
    obtain ⟨hApart, hs⟩ := Option.ite_none_right_eq_some.mp hs
    obtain ⟨e, he, rfl⟩ := Option.map_eq_some_iff.mp hs
    obtain ⟨hPc, he⟩ := Option.ite_none_right_eq_some.mp he
    cases he
    exact hI.create hApart hPc
  | poll w => exact hI.poll hs
  | event e => exact hI.event hKept hs
  | exchange x =>
    obtain ⟨hExchanges, hs⟩ := Option.ite_none_right_eq_some.mp hs
    cases hs
    exact hI.exchange hExchanges
  | store addr x =>
    obtain ⟨hNot, hs⟩ := Option.ite_none_right_eq_some.mp hs
    cases hs
    exact hI.store hNot

variable {orc : UInt8} {enabled pending installed : Bool} {ctx : Option Task}
  {memory : Nat → UInt8}

theorem inv_of_run [DecidableEq Task]
    (hRun : Run (step width) Kept (new orc (.init enabled pending installed ctx) memory) s) :
    s.Inv width :=
  hRun.invariant (inv_new width orc rfl rfl memory)
    fun _ _ _ hI hKept hs => inv_step hI hKept hs

/--
**The hardware uses the slices that are lent to it**, and no other memory: whenever it
exchanges a byte there is a future, what it stores is in the slice to read into, and what it
loads is in the slice to be sent; both are in RAM. No future is to be dropped while the
hardware is at work for it.
-/
theorem spim_confined [DecidableEq Task]
    (hRun : Run (step width) Kept (new orc (.init enabled pending installed ctx) memory) s) :
    s.Confined := (inv_of_run hRun).confined

instance (s : Spim Task) : DecidablePred s.Kept := fun a =>
  match a with
  | .event .drop => inferInstanceAs (Decidable (_ = _))
  | .event .create | .event (.poll _) | .event .advance | .event .complete | .event .pend
  | .event .interrupt | .event .handle | .create .. | .poll _ | .exchange _ | .store .. =>
    isTrue trivial

/-- Three bytes are read while two are sent, of which the second is under way. -/
theorem spim_confined_second : ∃ s : Spim Nat,
    Run (step 8) Kept (new 0xff (.init true false false none) fun _ => 0) s ∧ s.Exchanges ∧
      s.received.length = 1 ∧ s.Confined := by
  have hRun : Run (step 8) Kept
      (new 0xff (.init true false false none) fun _ => 0 : Spim Nat) _ :=
    Run.execOk_get _ [.store 0x20000011 5, .create ⟨0x20000000, 3⟩ ⟨0x20000010, 2⟩, .poll 7,
      .event .advance, .event .advance, .event .advance, .exchange 1] (by decide +kernel)
  exact ⟨_, hRun, by decide +kernel, by decide +kernel, spim_confined hRun⟩

/-- A future is dropped when its slices are with the hardware. -/
theorem spim_escapes : ¬∀ s : Spim Nat,
    Run (step 8) (fun _ _ => True) (new 0 (.init false false false none) fun _ => 0) s →
      s.Confined := by
  intro hAll
  have hRun : Run (step 8) (fun _ _ => True)
      (new 0 (.init false false false none) fun _ => 0 : Spim Nat) _ :=
    Run.execOk_get _ [.create ⟨0x20000000, 3⟩ ⟨0x20000010, 0⟩, .poll 7, .event .advance,
      .event .advance, .event .advance, .event .advance, .event .advance, .event .advance,
      .event .advance, .event .advance, .event .drop] (by decide +kernel)
  exact absurd (hAll _ hRun (by decide +kernel)).1 (by decide +kernel)

/--
**A future that returns**, where none before was dropped while the hardware was at work: it has
sent the first bytes of its slice, and then the over-read character; and what came in is in
front in its other slice, of which the rest is what it was. Of both slices, as many bytes are
meant as fit into the register.
-/
theorem exchange_complete [DecidableEq Task]
    (hRun : Run (step width) Kept (new orc (.init enabled pending installed ctx) memory) s)
    (hPc : s.event.pc = .finish) (hs : s.step width (.event .advance) = some s') :
    let n := s.rx.len % 2 ^ width
    let m := s.tx.len % 2 ^ width
    s'.result = some (.ok ()) ∧
      s.sent = (s.tx.bytes s.memory).take m ++ List.replicate (max n m - m) s.orc ∧
      s.received.length = max n m ∧
      s'.rx.bytes s'.memory = s.received.take n ++ (s.rx.bytes s.before).drop n := by
  have hI := inv_of_run hRun
  have hStarted : s.event.pc.started = true := by rw [hPc]; rfl
  obtain ⟨hRxd, hTxd⟩ := hI.loaded (polled_of_started hStarted)
  obtain ⟨hLength, -, hSent, hBytes⟩ := hI.moved hStarted
  have hAll := hI.whole hStarted (hI.seen hPc)
  have hTotal : s.total = max (s.rx.len % 2 ^ width) (s.tx.len % 2 ^ width) := by
    rw [total, hRxd.len, hTxd.len]
  have hLe : s.txd.len ≤ s.total := Nat.le_max_right _ _
  have hOutgoing : s.outgoing.length = s.total := by
    rw [outgoing, List.length_append, List.length_take, Buffer.length_bytes,
      Nat.min_eq_left hTxd.len_le, List.length_replicate, Nat.add_sub_cancel' hLe]
  -- The last step only takes the event back and returns.
  have hReturned : s' = { s with
      event := { s.event with ended := false, pc := .idle }
      result := some (.ok ()) } := by
    have hs : s.advance = some s' := hs
    unfold Spim.advance EndEvent.advance at hs
    rw [hPc] at hs
    exact (Option.some.inj hs).symm
  subst hReturned
  refine ⟨rfl, ?_, hAll.trans hTotal, ?_⟩
  · rw [hSent, hAll, ← hOutgoing, List.take_length, outgoing, hTotal, hTxd.len]
  · have hMin : min s.total s.rxd.len = s.rxd.len := Nat.min_eq_right (Nat.le_max_left _ _)
    show s.rx.bytes s.memory = _
    rw [hBytes, hAll, hMin, hRxd.len]

/-- A slice of 257 bytes, of which one fits into the register: it is all that is read. -/
theorem exchange_complete_truncated : ∃ s s' : Spim Nat,
    Run (step 8) Kept (new 0xff (.init true false false none) fun _ => 0) s ∧
      s.step 8 (.event .advance) = some s' ∧ s.rx.len = 257 ∧ s'.result = some (.ok ()) ∧
      s.sent = [0xff] ∧
      s'.rx.bytes s'.memory = s.received.take 1 ++ (s.rx.bytes s.before).drop 1 := by
  have hRun : Run (step 8) Kept
      (new 0xff (.init true false false none) fun _ => 0 : Spim Nat) _ :=
    Run.execOk_get _ [.create ⟨0x20000000, 257⟩ ⟨0, 0⟩, .poll 7, .event .advance,
      .event .advance, .event .advance, .exchange 1, .event .complete, .event .advance]
      (by decide +kernel)
  obtain ⟨hOk, -, -, hBytes⟩ := exchange_complete hRun (by decide +kernel)
    (Option.some_get (by decide +kernel)).symm
  exact ⟨_, _, hRun, (Option.some_get (by decide +kernel)).symm, by decide +kernel, hOk,
    by decide +kernel, hBytes⟩

end Spim

end Embassy.Nrf
