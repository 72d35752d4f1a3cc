import Mathlib.Data.List.Basic
import Embassy.Lib.Run

/-!
# The ring buffer

`embassy-extras/src/ring_buffer.rs`. The buffer hands out the contiguous part of
its free space (`push_buf`) and of its contents (`pop_buf`) as slices; the caller
writes or reads there and then says how much with `push` and `pop`. A slice is
given by its place in the buffer. What would panic (the assertion in `wrap`, a
slice index, a subtraction below zero) is `none`.

`start = end` is the case of an empty and of a full buffer, and the flag `empty`
says which. `contents` is the list of stored bytes in the order in which they
leave, and is what the operations are about.

Main results:

* `WF.push` / `WF.pop` — the representation stays well formed as long as nothing
  panics, however the operations are used.
* `pushBuf_spec` / `popBuf_spec` — the slices, in terms of the number of bytes
  stored.
* `push_contents` / `pop_contents` — what the operations do to the contents.
* `ring_buffer_refines_fifo` — the buffer is a bounded queue of bytes.
-/

namespace Embassy.Extras

open Embassy.Lib

/-- The slice `buf[off..off + len]` of a buffer. -/
structure Slice where
  off : Nat
  len : Nat
  deriving DecidableEq, Repr

structure RingBuffer where
  buf : List UInt8
  start : Nat
  end_ : Nat
  empty : Bool
  deriving DecidableEq, Repr

namespace RingBuffer

-- ---------------------------------------------------------------------------
-- Operations
-- ---------------------------------------------------------------------------

def new (buf : List UInt8) : RingBuffer where
  buf := buf
  start := 0
  end_ := 0
  empty := true

/-- `&mut self.buf[lo..hi]`. -/
def index (b : RingBuffer) (lo hi : Nat) : Option Slice :=
  if lo ≤ hi ∧ hi ≤ b.buf.length then some ⟨lo, hi - lo⟩ else none

/-- `m - n` of type `usize`. -/
def sub (m n : Nat) : Option Nat := if n ≤ m then some (m - n) else none

def wrap (b : RingBuffer) (n : Nat) : Option Nat :=
  if n ≤ b.buf.length then some (if n = b.buf.length then 0 else n) else none

def pushBuf (b : RingBuffer) : Option Slice :=
  if b.start = b.end_ ∧ b.empty = false then b.index 0 0
  else do
    let n ← if b.start ≤ b.end_ then sub b.buf.length b.end_ else sub b.start b.end_
    b.index b.end_ (b.end_ + n)

def push (b : RingBuffer) (n : Nat) : Option RingBuffer :=
  if n = 0 then some b
  else do
    let end_ ← b.wrap (b.end_ + n)
    some { b with end_ := end_, empty := false }

def popBuf (b : RingBuffer) : Option Slice :=
  if b.empty = true then b.index 0 0
  else do
    let n ← if b.end_ ≤ b.start then sub b.buf.length b.start else sub b.end_ b.start
    b.index b.start (b.start + n)

def pop (b : RingBuffer) (n : Nat) : Option RingBuffer :=
  if n = 0 then some b
  else do
    let start ← b.wrap (b.start + n)
    some { b with start := start, empty := decide (start = b.end_) }

def clear (b : RingBuffer) : RingBuffer := { b with start := 0, end_ := 0, empty := true }

/-- The bytes of a slice. -/
def read (b : RingBuffer) (sl : Slice) : List UInt8 := (b.buf.drop sl.off).take sl.len

/-- The byte at `i` is written, through a slice of the buffer. -/
def set (b : RingBuffer) (i : Nat) (x : UInt8) : RingBuffer := { b with buf := b.buf.set i x }

/-- `buf[off..off + xs.len()].copy_from_slice(xs)`. -/
def copy (b : RingBuffer) (off : Nat) : List UInt8 → RingBuffer
  | [] => b
  | x :: xs => (b.set off x).copy (off + 1) xs

-- ---------------------------------------------------------------------------
-- Contents
-- ---------------------------------------------------------------------------

def capacity (b : RingBuffer) : Nat := b.buf.length

/-- The number of bytes stored. -/
def len (b : RingBuffer) : Nat :=
  if b.empty = true then 0
  else if b.start < b.end_ then b.end_ - b.start
  else b.buf.length - b.start + b.end_

/-- Where the `k`-th stored byte lies. -/
def place (b : RingBuffer) (k : Nat) : Nat := (b.start + k) % b.buf.length

/-- The stored bytes, oldest first. -/
def contents (b : RingBuffer) : List UInt8 :=
  (List.range b.len).map fun k => b.buf.getD (b.place k) 0

/-- What every operation keeps, also when it is used wrongly. -/
structure WF (b : RingBuffer) : Prop where
  start_le : b.start = 0 ∨ b.start < b.buf.length
  end_le : b.end_ = 0 ∨ b.end_ < b.buf.length
  emptied : b.empty = true → b.start = b.end_
  room : b.empty = false → 0 < b.buf.length

/-- A new buffer is empty, with both indices at the beginning. -/
theorem wf_new (mem : List UInt8) : (new mem).WF := by
  constructor <;> simp [new]

/-- `clear` forgets the contents and keeps the memory. -/
theorem WF.clear (b : RingBuffer) : b.clear.WF := by
  constructor <;> simp [RingBuffer.clear]

variable {b b' : RingBuffer} {sl : Slice} {n : Nat}

/-- What `wrap` gives: the index, or zero at the end of the memory. -/
theorem wrap_eq {e : Nat} (h : b.wrap n = some e) :
    n ≤ b.buf.length ∧ (e = 0 ∧ n = b.buf.length ∨ e = n ∧ n < b.buf.length) := by
  unfold wrap at h
  split at h
  · rename_i hLe
    cases h
    refine ⟨hLe, ?_⟩
    split
    · exact .inl ⟨rfl, ‹_›⟩
    · exact .inr ⟨rfl, by omega⟩
  · cases h

/-- The assertion in `wrap` holds within the memory. -/
theorem wrap_isSome (h : n ≤ b.buf.length) : ∃ e, b.wrap n = some e := by
  simp only [wrap, h, if_true]
  exact ⟨_, rfl⟩

/-- `push` moves the end and nothing else. -/
theorem push_cases (h : b.push n = some b') : n = 0 ∧ b' = b ∨
    ∃ e, n ≠ 0 ∧ b.wrap (b.end_ + n) = some e ∧ b' = { b with end_ := e, empty := false } := by
  unfold push at h
  split at h
  · cases h
    exact .inl ⟨‹_›, rfl⟩
  · obtain ⟨e, hE, h⟩ := Option.bind_eq_some_iff.mp h
    cases h
    exact .inr ⟨e, ‹_›, hE, rfl⟩

/-- `pop` moves the start, and may empty the buffer. -/
theorem pop_cases (h : b.pop n = some b') : n = 0 ∧ b' = b ∨
    ∃ e, n ≠ 0 ∧ b.wrap (b.start + n) = some e ∧
      b' = { b with start := e, empty := decide (e = b.end_) } := by
  unfold pop at h
  split at h
  · cases h
    exact .inl ⟨‹_›, rfl⟩
  · obtain ⟨e, hE, h⟩ := Option.bind_eq_some_iff.mp h
    cases h
    exact .inr ⟨e, ‹_›, hE, rfl⟩

theorem pop_zero (b : RingBuffer) : b.pop 0 = some b := rfl

/-- The representation is kept by any `push` that does not panic. -/
theorem WF.push (hB : b.WF) (h : b.push n = some b') : b'.WF := by
  rcases push_cases h with ⟨-, rfl⟩ | ⟨e, hn, hE, rfl⟩
  · exact hB
  · have hWrap := wrap_eq hE
    constructor
    case start_le => exact hB.start_le
    case end_le =>
      show e = 0 ∨ e < b.buf.length
      omega
    case emptied => simp
    case room =>
      intro _
      show 0 < b.buf.length
      omega

/-- The representation is kept by any `pop` that does not panic. -/
theorem WF.pop (hB : b.WF) (h : b.pop n = some b') : b'.WF := by
  rcases pop_cases h with ⟨-, rfl⟩ | ⟨e, hn, hE, rfl⟩
  · exact hB
  · have hWrap := wrap_eq hE
    constructor
    case start_le =>
      show e = 0 ∨ e < b.buf.length
      omega
    case end_le => exact hB.end_le
    case emptied => simp
    case room =>
      intro _
      show 0 < b.buf.length
      omega

theorem start_push (h : b.push n = some b') : b'.start = b.start := by
  rcases push_cases h with ⟨-, rfl⟩ | ⟨e, -, -, rfl⟩
  · rfl
  · rfl

/-- The end is an index into the memory, or zero. -/
theorem WF.end_mod (hB : b.WF) : b.end_ % b.capacity = b.end_ := by
  rcases hB.end_le with hZero | hLt
  · rw [hZero, Nat.zero_mod]
  · exact Nat.mod_eq_of_lt hLt

/-- The end goes round the buffer. -/
theorem end_push (hB : b.WF) (h : b.push n = some b') :
    b'.end_ = (b.end_ + n) % b.capacity := by
  rcases push_cases h with ⟨rfl, rfl⟩ | ⟨e, -, hE, rfl⟩
  · exact hB.end_mod.symm
  · show e = (b.end_ + n) % b.buf.length
    rcases (wrap_eq hE).2 with ⟨rfl, hEnd⟩ | ⟨rfl, hLt⟩
    · rw [hEnd, Nat.mod_self]
    · rw [Nat.mod_eq_of_lt hLt]

theorem end_pop (h : b.pop n = some b') : b'.end_ = b.end_ := by
  rcases pop_cases h with ⟨-, rfl⟩ | ⟨e, -, -, rfl⟩
  · rfl
  · rfl

theorem buf_push (h : b.push n = some b') : b'.buf = b.buf := by
  rcases push_cases h with ⟨-, rfl⟩ | ⟨e, -, -, rfl⟩
  · rfl
  · rfl

theorem capacity_push (h : b.push n = some b') : b'.capacity = b.capacity := by
  unfold capacity
  rw [buf_push h]

theorem buf_pop (h : b.pop n = some b') : b'.buf = b.buf := by
  rcases pop_cases h with ⟨-, rfl⟩ | ⟨e, -, -, rfl⟩
  · rfl
  · rfl

theorem capacity_pop (h : b.pop n = some b') : b'.capacity = b.capacity := by
  unfold capacity
  rw [buf_pop h]

/-- A slice shows after `pop` what it showed before. -/
theorem read_pop (h : b.pop n = some b') (sl : Slice) : b'.read sl = b.read sl := by
  unfold read
  rw [buf_pop h]

/-- A write changes the memory only. -/
theorem WF.set (hB : b.WF) (i : Nat) (x : UInt8) : (b.set i x).WF := by
  constructor
  case start_le => simpa [RingBuffer.set] using hB.start_le
  case end_le => simpa [RingBuffer.set] using hB.end_le
  case emptied => exact hB.emptied
  case room => simpa [RingBuffer.set] using hB.room

-- ---------------------------------------------------------------------------
-- The slices
-- ---------------------------------------------------------------------------

/-- Slicing within the memory does not panic. -/
theorem index_eq {lo hi : Nat} (h : lo ≤ hi ∧ hi ≤ b.buf.length) :
    b.index lo hi = some ⟨lo, hi - lo⟩ := by
  simp [index, h]

theorem sub_eq {m k : Nat} (h : k ≤ m) : sub m k = some (m - k) := by
  simp [sub, h]

/-- The two steps by which both slices are cut out. -/
theorem region_eq {m k lo : Nat} (h : k ≤ m) (hEnd : lo + (m - k) ≤ b.buf.length) :
    (sub m k).bind (fun n => b.index lo (lo + n)) = some ⟨lo, m - k⟩ := by
  rw [sub_eq h, Option.bind_some, index_eq ⟨Nat.le_add_right _ _, hEnd⟩, Nat.add_sub_cancel_left]

/-- No more is stored than there is memory. -/
theorem WF.len_le (hB : b.WF) : b.len ≤ b.capacity := by
  have := hB.start_le
  have := hB.end_le
  unfold len capacity
  split
  · omega
  · split <;> omega

/-- `push_buf` by its three cases: full, up to the end of the memory, up to the start. -/
theorem WF.pushBuf_eq (hB : b.WF) : b.pushBuf =
    some (if b.start = b.end_ ∧ b.empty = false then ⟨0, 0⟩
      else ⟨b.end_, if b.start ≤ b.end_ then b.buf.length - b.end_ else b.start - b.end_⟩) := by
  have hS := hB.start_le
  have hE := hB.end_le
  by_cases hFull : b.start = b.end_ ∧ b.empty = false
  · simp only [pushBuf, hFull, and_self, if_true]
    exact index_eq (by simp)
  · by_cases hLe : b.start ≤ b.end_
    · simp only [pushBuf, hFull, hLe, if_true, if_false]
      exact region_eq (by omega) (by omega)
    · simp only [pushBuf, hFull, hLe, if_false]
      exact region_eq (by omega) (by omega)

/-- `pop_buf` by its three cases: empty, up to the end of the memory, up to the end of what is
stored. -/
theorem WF.popBuf_eq (hB : b.WF) : b.popBuf =
    some (if b.empty = true then ⟨0, 0⟩
      else ⟨b.start, if b.end_ ≤ b.start then b.buf.length - b.start else b.end_ - b.start⟩) := by
  have hS := hB.start_le
  have hE := hB.end_le
  by_cases hEmpty : b.empty = true
  · simp only [popBuf, hEmpty, if_true]
    exact index_eq (by simp)
  · by_cases hLe : b.end_ ≤ b.start
    · simp only [popBuf, hEmpty, hLe, if_true, Bool.false_eq_true, if_false]
      exact region_eq (by omega) (by omega)
    · simp only [popBuf, hEmpty, hLe, Bool.false_eq_true, if_false]
      exact region_eq (by omega) (by omega)

/-- `push_buf` does not panic. -/
theorem WF.pushBuf_some (hB : b.WF) : ∃ sl, b.pushBuf = some sl := ⟨_, hB.pushBuf_eq⟩

/-- `pop_buf` does not panic. -/
theorem WF.popBuf_some (hB : b.WF) : ∃ sl, b.popBuf = some sl := ⟨_, hB.popBuf_eq⟩

/-- What `push_buf` returns: room behind the end, and none only if the buffer is
full. -/
theorem pushBuf_spec (hB : b.WF) (h : b.pushBuf = some sl) : sl.off + sl.len ≤ b.capacity ∧
    b.len + sl.len ≤ b.capacity ∧ (sl.len = 0 ↔ b.len = b.capacity) ∧
    (0 < sl.len → sl.off = b.end_) := by
  have hS := hB.start_le
  have hE := hB.end_le
  have hEmpty := hB.emptied
  have hRoom := hB.room
  cases h.symm.trans hB.pushBuf_eq
  unfold capacity len
  grind

/-- What `pop_buf` returns: stored bytes from the start on, and none only if there
are none. -/
theorem popBuf_spec (hB : b.WF) (h : b.popBuf = some sl) : sl.off + sl.len ≤ b.capacity ∧
    sl.len ≤ b.len ∧ (sl.len = 0 ↔ b.len = 0) ∧ (0 < sl.len → sl.off = b.start) := by
  have hS := hB.start_le
  have hE := hB.end_le
  have hRoom := hB.room
  cases h.symm.trans hB.popBuf_eq
  unfold capacity len
  grind

/-- From the beginning of the buffer on, all bytes are found. -/
theorem popBuf_len_of_start (hB : b.WF) (h : b.popBuf = some sl) (hStart : b.start = 0) :
    sl.len = b.len := by
  have hE := hB.end_le
  have hSl := hB.popBuf_eq
  rw [h] at hSl
  unfold len
  grind

/-- Stored bytes are found up to the end of the buffer. -/
theorem le_popBuf_len (hB : b.WF) (h : b.popBuf = some sl) (hn : n ≤ b.len)
    (hEnd : b.start + n ≤ b.capacity) : n ≤ sl.len := by
  have hE := hB.end_le
  have hSl := hB.popBuf_eq
  rw [h] at hSl
  unfold len at hn
  unfold capacity at hEnd
  grind

/-- How much room is found. -/
theorem pushBuf_len (hB : b.WF) (h : b.pushBuf = some sl) :
    sl.len = min (b.capacity - b.end_) (b.capacity - b.len) := by
  have hS := hB.start_le
  have hE := hB.end_le
  have hEmpty := hB.emptied
  have hSl := hB.pushBuf_eq
  rw [h] at hSl
  unfold len capacity
  grind

/-- Up to the end of the buffer, bytes are stored or there is room. -/
theorem le_len_pushBuf (hB : b.WF) (h : b.pushBuf = some sl) (hEnd : b.start + n ≤ b.capacity) :
    n ≤ b.len + sl.len := by
  have hS := hB.start_le
  have hE := hB.end_le
  have hEmpty := hB.emptied
  have hSl := hB.pushBuf_eq
  rw [h] at hSl
  unfold len
  unfold capacity at hEnd
  grind

/-- Room that was found stays, and at its place, when bytes are removed. -/
theorem pushBuf_pop (hB : b.WF) (hPop : b.pop n = some b') {sp : Slice}
    (hSp : b.popBuf = some sp) (hn : n ≤ sp.len) (h : b.pushBuf = some sl) :
    ∃ sl', b'.pushBuf = some sl' ∧ sl.len ≤ sl'.len ∧ (0 < sl.len → sl'.off = sl.off) := by
  refine ⟨_, (hB.pop hPop).pushBuf_eq, ?_⟩
  have hS := hB.start_le
  have hE := hB.end_le
  have hEmpty := hB.emptied
  have hSl := hB.pushBuf_eq
  have hSp' := hB.popBuf_eq
  rw [h] at hSl
  rw [hSp] at hSp'
  rcases pop_cases hPop with ⟨rfl, rfl⟩ | ⟨e, hPos, hW, rfl⟩
  · grind
  · have hWrap := wrap_eq hW
    grind

/-- Bytes that were found stay, and at their place, when others are added. -/
theorem popBuf_push (hB : b.WF) (hPush : b.push n = some b') {sp : Slice}
    (hSp : b.pushBuf = some sp) (hn : n ≤ sp.len) (h : b.popBuf = some sl) :
    ∃ sl', b'.popBuf = some sl' ∧ sl.len ≤ sl'.len ∧ (0 < sl.len → sl'.off = sl.off) := by
  refine ⟨_, (hB.push hPush).popBuf_eq, ?_⟩
  have hS := hB.start_le
  have hE := hB.end_le
  have hEmpty := hB.emptied
  have hSl := hB.popBuf_eq
  have hSp' := hB.pushBuf_eq
  rw [h] at hSl
  rw [hSp] at hSp'
  rcases push_cases hPush with ⟨rfl, rfl⟩ | ⟨e, hPos, hW, rfl⟩
  · grind
  · have hWrap := wrap_eq hW
    grind

/-- The rest of the bytes that were found stays. -/
theorem popBuf_pop (hB : b.WF) (h : b.popBuf = some sl) (hn : n < sl.len)
    (hPop : b.pop n = some b') : b'.popBuf = some ⟨sl.off + n, sl.len - n⟩ := by
  rw [(hB.pop hPop).popBuf_eq]
  have hS := hB.start_le
  have hE := hB.end_le
  have hSl := hB.popBuf_eq
  rw [h] at hSl
  rcases pop_cases hPop with ⟨rfl, rfl⟩ | ⟨e, hPos, hW, rfl⟩
  · grind
  · have hWrap := wrap_eq hW
    grind

-- ---------------------------------------------------------------------------
-- The contents
-- ---------------------------------------------------------------------------

/-- A stored byte lies at `i`. -/
def Stored (b : RingBuffer) (i : Nat) : Prop := ∃ k < b.len, b.place k = i

@[simp]
theorem length_contents (b : RingBuffer) : b.contents.length = b.len := by
  simp [contents]

theorem contents_eq_nil : b.contents = [] ↔ b.len = 0 := by
  rw [← List.length_eq_zero_iff, length_contents]

/-- Places go round the buffer once. -/
theorem WF.place_eq (hB : b.WF) {k : Nat} (hk : k < b.capacity) :
    b.place k = if b.start + k < b.capacity then b.start + k else b.start + k - b.capacity := by
  have hS := hB.start_le
  unfold place capacity at *
  split
  · exact Nat.mod_eq_of_lt ‹_›
  · rw [Nat.mod_eq_sub_mod (by omega), Nat.mod_eq_of_lt (by omega)]

/-- Different bytes lie at different places. -/
theorem WF.place_inj (hB : b.WF) {j k : Nat} (hj : j < b.capacity) (hk : k < b.capacity)
    (h : b.place j = b.place k) : j = k := by
  have hS := hB.start_le
  rw [hB.place_eq hj, hB.place_eq hk] at h
  unfold capacity at *
  split at h <;> split at h <;> omega

/-- `push_buf` shows the places behind the stored bytes. -/
theorem pushBuf_place (hB : b.WF) (h : b.pushBuf = some sl) {j : Nat} (hj : j < sl.len) :
    b.place (b.len + j) = sl.off + j := by
  obtain ⟨_hIn, hLen, -, hOff⟩ := pushBuf_spec hB h
  have hEnd := hOff (by omega)
  have hS := hB.start_le
  have hE := hB.end_le
  have hEmpty := hB.emptied
  rw [hB.place_eq (by omega)]
  unfold len capacity at *
  grind

/-- `pop_buf` shows the places of the first stored bytes. -/
theorem popBuf_place (hB : b.WF) (h : b.popBuf = some sl) {j : Nat} (hj : j < sl.len) :
    b.place j = sl.off + j := by
  obtain ⟨hIn, hLen, -, hOff⟩ := popBuf_spec hB h
  have hStart := hOff (by omega)
  have hLe := hB.len_le
  rw [hB.place_eq (by omega), if_pos (by omega), hStart]

theorem read_eq (hIn : sl.off + sl.len ≤ b.capacity) :
    b.read sl = (List.range sl.len).map fun j => b.buf.getD (sl.off + j) 0 := by
  unfold capacity at hIn
  apply List.ext_getElem
  · simp [read]
    omega
  · intro j h₁ h₂
    simp only [List.length_map, List.length_range] at h₂
    have hj : sl.off + j < b.buf.length := by omega
    simp [read, hj]

/-- The beginning of a slice is a slice. -/
theorem take_read (hn : n ≤ sl.len) :
    (b.read sl).take n = b.read ⟨sl.off, n⟩ := by
  simp only [read, List.take_take]
  rw [Nat.min_eq_left hn]

/-- The stored bytes in two parts. -/
theorem range_map_add {f : Nat → UInt8} (m k : Nat) : (List.range (m + k)).map f =
    (List.range m).map f ++ (List.range k).map fun j => f (m + j) := by
  rw [List.range_add, List.map_append, List.map_map]
  rfl

/-- `push_buf` is disjoint from the stored bytes. -/
theorem not_stored_of_pushBuf (hB : b.WF) (h : b.pushBuf = some sl) {j : Nat} (hj : j < sl.len) :
    ¬b.Stored (sl.off + j) := by
  rintro ⟨k, hk, hPlace⟩
  obtain ⟨-, hLen, -⟩ := pushBuf_spec hB h
  rw [← pushBuf_place hB h hj] at hPlace
  have := hB.place_inj (by omega) (by omega) hPlace
  omega

/-- A write outside of the stored bytes does not show. -/
theorem contents_set {i : Nat} {x : UInt8} (h : ¬b.Stored i) :
    (b.set i x).contents = b.contents := by
  have hLen : (b.set i x).len = b.len := by simp [len, set]
  unfold contents
  rw [hLen]
  refine List.map_congr_left fun k hk => ?_
  have hNe : i ≠ b.place k := fun hEq => h ⟨k, List.mem_range.mp hk, hEq.symm⟩
  have hPlace : (b.set i x).place k = b.place k := by simp [place, set]
  rw [hPlace]
  simp [set, List.getD_eq_getElem?_getD, List.getElem?_set_ne hNe]

/-- `push` adds to the count, within what `push_buf` has shown. -/
theorem len_push (hB : b.WF) (h : b.pushBuf = some sl) (hn : n ≤ sl.len)
    (hPush : b.push n = some b') : b'.len = b.len + n := by
  obtain ⟨hIn, hLen, -, hOff⟩ := pushBuf_spec hB h
  rcases push_cases hPush with ⟨rfl, rfl⟩ | ⟨e, hPos, hE, rfl⟩
  · rfl
  · have hEnd := hOff (by omega)
    have hWrap := wrap_eq hE
    have hS := hB.start_le
    have hE := hB.end_le
    have hEmpty := hB.emptied
    unfold len capacity at *
    grind

/-- `pop` takes from the count, within what `pop_buf` has shown. -/
theorem len_pop (hB : b.WF) (h : b.popBuf = some sl) (hn : n ≤ sl.len)
    (hPop : b.pop n = some b') : b'.len = b.len - n := by
  obtain ⟨hIn, hLen, -, hOff⟩ := popBuf_spec hB h
  rcases pop_cases hPop with ⟨rfl, rfl⟩ | ⟨e, hPos, hE, rfl⟩
  · rfl
  · have hStart := hOff (by omega)
    have hWrap := wrap_eq hE
    have hS := hB.start_le
    have hE := hB.end_le
    have hEmpty := hB.emptied
    unfold len capacity at *
    grind

/-- `push(n)` appends the first `n` bytes of `push_buf`. -/
theorem push_contents (hB : b.WF) (h : b.pushBuf = some sl) (hn : n ≤ sl.len) :
    ∃ b', b.push n = some b' ∧ b'.contents = b.contents ++ (b.read sl).take n := by
  obtain ⟨hIn, hLen, -, hOff⟩ := pushBuf_spec hB h
  have hPush : ∃ b', b.push n = some b' := by
    by_cases hZero : n = 0
    · exact ⟨b, by simp [push, hZero]⟩
    · have hEnd := hOff (by omega)
      obtain ⟨e, hE⟩ := wrap_isSome (b := b) (n := b.end_ + n) (by unfold capacity at hIn; omega)
      exact ⟨_, by simp [push, hZero, hE]; rfl⟩
  obtain ⟨b', hPush⟩ := hPush
  refine ⟨b', hPush, ?_⟩
  have hSame : b'.buf = b.buf ∧ b'.start = b.start := ⟨buf_push hPush, start_push hPush⟩
  have hPlace : ∀ k, b'.place k = b.place k := by
    intro k
    simp only [place, hSame]
  rw [take_read hn, read_eq (by show sl.off + n ≤ _; omega)]
  simp only [contents, len_push hB h hn hPush, hPlace, hSame]
  rw [range_map_add]
  congr 1
  refine List.map_congr_left fun j hj => ?_
  rw [pushBuf_place hB h (Nat.lt_of_lt_of_le (List.mem_range.mp hj) hn)]

/-- `pop(n)` removes the first `n` bytes. -/
theorem pop_contents (hB : b.WF) (h : b.popBuf = some sl) (hn : n ≤ sl.len) :
    ∃ b', b.pop n = some b' ∧ b'.contents = b.contents.drop n := by
  obtain ⟨hIn, hLen, -, hOff⟩ := popBuf_spec hB h
  -- the new start wraps at the end of the buffer
  have hPop : ∃ b', b.pop n = some b' := by
    by_cases hZero : n = 0
    · exact ⟨b, by simp [pop, hZero]⟩
    · have hStart := hOff (by omega)
      obtain ⟨e, hE⟩ := wrap_isSome (b := b) (n := b.start + n) (by unfold capacity at hIn; omega)
      exact ⟨_, by simp [pop, hZero, hE]; rfl⟩
  obtain ⟨b', hPop⟩ := hPop
  refine ⟨b', hPop, ?_⟩
  -- nothing is written, and the places shift by `n`
  have hPlace : b'.buf = b.buf ∧ ∀ k, b'.place k = b.place (n + k) := by
    rcases pop_cases hPop with ⟨rfl, rfl⟩ | ⟨e, hn, hE, rfl⟩
    · exact ⟨rfl, fun k => by rw [Nat.zero_add]⟩
    · have hStart := hOff (by omega)
      refine ⟨rfl, fun k => ?_⟩
      show (e + k) % b.buf.length = (b.start + (n + k)) % b.buf.length
      rcases (wrap_eq hE).2 with ⟨rfl, hEnd⟩ | ⟨rfl, -⟩
      · rw [← Nat.add_assoc, hEnd, Nat.zero_add, Nat.add_mod_left]
      · rw [Nat.add_assoc]
  have hSplit : b.len = n + (b.len - n) := by omega
  simp only [contents, len_pop hB h hn hPop, hPlace]
  conv_rhs => rw [hSplit, range_map_add]
  rw [List.drop_left' (by simp)]

/-- `pop_buf` is a prefix of the contents. -/
theorem read_popBuf (hB : b.WF) (h : b.popBuf = some sl) : b.read sl = b.contents.take sl.len := by
  obtain ⟨hIn, hLen, -, hOff⟩ := popBuf_spec hB h
  have hSplit : b.len = sl.len + (b.len - sl.len) := by omega
  rw [read_eq hIn]
  unfold contents
  rw [hSplit, range_map_add, List.take_left' (by simp)]
  refine List.map_congr_left fun j hj => ?_
  rw [popBuf_place hB h (List.mem_range.mp hj)]

/-- The bytes of `pop_buf` are stored ones. -/
theorem stored_of_popBuf (hB : b.WF) (h : b.popBuf = some sl) {j : Nat} (hj : j < sl.len) :
    b.Stored (sl.off + j) := by
  obtain ⟨-, hLen, -⟩ := popBuf_spec hB h
  exact ⟨j, by omega, popBuf_place hB h hj⟩

-- ---------------------------------------------------------------------------
-- A slice that is held
-- ---------------------------------------------------------------------------

/-- The slice is the beginning of `pop_buf`, as it was or as it has grown since. -/
def Front (b : RingBuffer) (sl : Slice) : Prop :=
  ∃ sp, b.popBuf = some sp ∧ sl.len ≤ sp.len ∧ (0 < sl.len → sp.off = sl.off)

theorem front_of_popBuf (h : b.popBuf = some sl) : b.Front sl :=
  ⟨sl, h, Nat.le_refl _, fun _ => rfl⟩

/-- An empty slice, wherever it is. -/
theorem WF.front_empty (hB : b.WF) (off : Nat) : b.Front ⟨off, 0⟩ := by
  obtain ⟨sp, hSp⟩ := hB.popBuf_some
  exact ⟨sp, hSp, Nat.zero_le _, fun h => absurd h (Nat.lt_irrefl 0)⟩

/-- The slice shows no more than is stored. -/
theorem Front.len_le (hF : b.Front sl) (hB : b.WF) : sl.len ≤ b.len := by
  obtain ⟨sp, hSp, hLe, -⟩ := hF
  obtain ⟨-, hLen, -⟩ := popBuf_spec hB hSp
  exact Nat.le_trans hLe hLen

/-- What is pushed comes behind the slice. -/
theorem Front.push (hF : b.Front sl) (hB : b.WF) {sp : Slice} (hSp : b.pushBuf = some sp)
    (hn : n ≤ sp.len) (hPush : b.push n = some b') : b'.Front sl := by
  obtain ⟨so, hSo, hLe, hOff⟩ := hF
  obtain ⟨so', hSo', hLe', hOff'⟩ := popBuf_push hB hPush hSp hn hSo
  refine ⟨so', hSo', Nat.le_trans hLe hLe', fun hPos => ?_⟩
  rw [hOff' (Nat.lt_of_lt_of_le hPos hLe), hOff hPos]

/-- What is popped leaves the rest of the slice. -/
theorem Front.pop (hF : b.Front sl) (hB : b.WF) (hn : n ≤ sl.len) (hPop : b.pop n = some b') :
    b'.Front ⟨sl.off + n, sl.len - n⟩ := by
  obtain ⟨sp, hSp, hLe, hOff⟩ := hF
  by_cases hAll : n = sl.len
  · rw [hAll, Nat.sub_self]
    exact (hB.pop hPop).front_empty _
  · have hLess : n < sp.len := by omega
    refine ⟨_, popBuf_pop hB hSp hLess hPop, Nat.sub_le_sub_right hLe n, fun _ => ?_⟩
    show sp.off + n = sl.off + n
    rw [hOff (by omega)]

/-- As much as the slice shows may be popped. -/
theorem Front.pop_contents (hF : b.Front sl) (hB : b.WF) (hn : n ≤ sl.len) :
    ∃ b', b.pop n = some b' ∧ b'.contents = b.contents.drop n := by
  obtain ⟨sp, hSp, hLe, -⟩ := hF
  exact RingBuffer.pop_contents hB hSp (Nat.le_trans hn hLe)

/-- What is seen through the slice. -/
theorem Front.read (hF : b.Front sl) (hB : b.WF) (hn : n ≤ sl.len) :
    b.read ⟨sl.off, n⟩ = b.contents.take n := by
  obtain ⟨sp, hSp, hLe, hOff⟩ := hF
  by_cases hZero : n = 0
  · subst hZero
    rw [List.take_zero]
    exact List.take_zero
  · rw [← hOff (by omega), ← take_read (Nat.le_trans hn hLe), read_popBuf hB hSp, List.take_take,
      Nat.min_eq_left (Nat.le_trans hn hLe)]

/-- The rest of what is seen through the slice. -/
theorem Front.read_rest (hF : b.Front sl) (hB : b.WF) (r : Nat) :
    b.read ⟨sl.off + r, sl.len - r⟩ = (b.contents.take sl.len).drop r := by
  rw [← hF.read hB (Nat.le_refl _)]
  simp only [RingBuffer.read, List.drop_take, List.drop_drop]

/-- A byte that is seen through the slice. -/
theorem Front.getD (hF : b.Front sl) (hB : b.WF) {r : Nat} (hr : r < sl.len) :
    b.contents.drop r = b.buf.getD (sl.off + r) 0 :: b.contents.drop (r + 1) := by
  have hLen := hF.len_le hB
  obtain ⟨sp, hSp, hLe, hOff⟩ := hF
  have hIn : r < b.contents.length := by
    rw [length_contents]
    omega
  rw [List.drop_eq_getElem_cons hIn]
  congr 1
  simp only [contents, List.getElem_map, List.getElem_range]
  rw [popBuf_place hB hSp (Nat.lt_of_lt_of_le hr hLe), hOff (by omega)]

/-- The bytes of the slice are stored ones. -/
theorem Front.stored (hF : b.Front sl) (hB : b.WF) {i : Nat} (hi : i < sl.len) :
    b.Stored (sl.off + i) := by
  obtain ⟨sp, hSp, hLe, hOff⟩ := hF
  rw [← hOff (by omega)]
  exact stored_of_popBuf hB hSp (Nat.lt_of_lt_of_le hi hLe)

-- ---------------------------------------------------------------------------
-- Writes through a slice
-- ---------------------------------------------------------------------------

@[simp]
theorem pushBuf_set (b : RingBuffer) (i : Nat) (x : UInt8) : (b.set i x).pushBuf = b.pushBuf := by
  simp [pushBuf, index, set]

@[simp]
theorem popBuf_set (b : RingBuffer) (i : Nat) (x : UInt8) : (b.set i x).popBuf = b.popBuf := by
  simp [popBuf, index, set]

@[simp]
theorem capacity_set (b : RingBuffer) (i : Nat) (x : UInt8) :
    (b.set i x).capacity = b.capacity := by
  simp [capacity, set]

/-- A byte written behind those already there. -/
theorem read_set {off m : Nat} {x : UInt8} (h : off + m < b.capacity) :
    (b.set (off + m) x).read ⟨off, m + 1⟩ = b.read ⟨off, m⟩ ++ [x] := by
  unfold capacity at h
  apply List.ext_getElem?
  intro i
  simp only [read, set, List.getElem?_take, List.getElem?_drop, List.getElem?_append,
    List.length_take, List.length_drop, List.getElem?_set]
  rcases Nat.lt_trichotomy i m with hLt | hEq | hGt
  · rw [if_pos (by omega), if_neg (by omega), if_pos (by omega), if_pos hLt]
  · subst hEq
    rw [if_pos (by omega), if_pos rfl, if_pos h, if_neg (by omega), Nat.min_eq_left (by omega),
      Nat.sub_self]
    rfl
  · rw [if_neg (by omega), if_neg (by omega), Nat.min_eq_left (by omega)]
    exact (List.getElem?_eq_none (by simp only [List.length_singleton]; omega)).symm

@[simp]
theorem start_copy (b : RingBuffer) (off : Nat) (xs : List UInt8) :
    (b.copy off xs).start = b.start := by
  induction xs generalizing b off with
  | nil => rfl
  | cons x xs ih => exact ih _ _

@[simp]
theorem end_copy (b : RingBuffer) (off : Nat) (xs : List UInt8) :
    (b.copy off xs).end_ = b.end_ := by
  induction xs generalizing b off with
  | nil => rfl
  | cons x xs ih => exact ih _ _

theorem getElem?_copy_of_lt {xs : List UInt8} {off i : Nat} (h : i < off) :
    (b.copy off xs).buf[i]? = b.buf[i]? := by
  induction xs generalizing b off with
  | nil => rfl
  | cons x xs ih =>
    rw [copy, ih (by omega)]
    simp only [set, List.getElem?_set]
    rw [if_neg (by omega)]

/-- What was copied is read back. -/
theorem read_copy {xs : List UInt8} {off : Nat} (h : off + xs.length ≤ b.capacity) :
    (b.copy off xs).read ⟨off, xs.length⟩ = xs := by
  induction xs generalizing b off with
  | nil => rfl
  | cons x xs ih =>
    rw [List.length_cons] at h
    have hFits : off + 1 + xs.length ≤ (b.set off x).capacity := by
      rw [capacity_set]
      omega
    have hRest := ih hFits
    have hFirst : ((b.set off x).copy (off + 1) xs).buf[off]? = some x := by
      rw [getElem?_copy_of_lt (Nat.lt_succ_self off)]
      unfold capacity at h
      simp only [set, List.getElem?_set]
      rw [if_pos trivial, if_pos (by omega)]
    obtain ⟨hIn, hAt⟩ := List.getElem?_eq_some_iff.mp hFirst
    simp only [read] at hRest
    simp only [read, copy, List.length_cons]
    rw [List.drop_eq_getElem_cons hIn, List.take_succ_cons, hAt, hRest]

/-- What is written through `push_buf` does not show before it is pushed. -/
theorem copy_spec {xs : List UInt8} (hB : b.WF) (h : b.pushBuf = some sl) {k : Nat}
    (hLen : k + xs.length ≤ sl.len) :
    (b.copy (sl.off + k) xs).WF ∧ (b.copy (sl.off + k) xs).pushBuf = some sl ∧
      (b.copy (sl.off + k) xs).popBuf = b.popBuf ∧
      (b.copy (sl.off + k) xs).capacity = b.capacity ∧
      (b.copy (sl.off + k) xs).contents = b.contents := by
  induction xs generalizing b k with
  | nil => exact ⟨hB, h, rfl, rfl, rfl⟩
  | cons x xs ih =>
    rw [List.length_cons] at hLen
    have hSet := ih (b := b.set (sl.off + k) x) (k := k + 1) (hB.set _ _)
      (by rw [pushBuf_set]; exact h) (by omega)
    rw [popBuf_set, capacity_set,
      contents_set (not_stored_of_pushBuf hB h (by omega))] at hSet
    exact hSet

/-- Whether a slice is at the front does not depend on the bytes. -/
theorem Front.set (hF : b.Front sl) (i : Nat) (x : UInt8) : (b.set i x).Front sl := by
  unfold Front
  rw [popBuf_set]
  exact hF

/-- `b'` is `b` with the bytes `xs` appended. -/
structure Appended (b b' : RingBuffer) (xs : List UInt8) : Prop where
  wf : b'.WF
  capacity : b'.capacity = b.capacity
  start : b'.start = b.start
  contents : b'.contents = b.contents ++ xs
  front : ∀ so, b.Front so → b'.Front so

/-- Bytes written through `push_buf` and then pushed are appended. -/
theorem push_copy {xs : List UInt8} (hB : b.WF) (h : b.pushBuf = some sl)
    (hLen : xs.length ≤ sl.len) :
    ∃ b', (b.copy sl.off xs).push xs.length = some b' ∧ b.Appended b' xs := by
  have hFits : 0 + xs.length ≤ sl.len := by omega
  have hSpec := copy_spec hB h hFits
  rw [Nat.add_zero] at hSpec
  obtain ⟨hC, hSl, hPop, hCap, hContents⟩ := hSpec
  obtain ⟨b', hPush, hContents'⟩ := push_contents hC hSl hLen
  obtain ⟨hIn, -⟩ := pushBuf_spec hB h
  refine ⟨b', hPush, hC.push hPush, (capacity_push hPush).trans hCap, ?_, ?_, fun so hSo => ?_⟩
  · rw [start_push hPush, start_copy]
  · rw [hContents', hContents, take_read hLen, read_copy]
    omega
  · have hCopied : (b.copy sl.off xs).Front so := by
      unfold Front
      rw [hPop]
      exact hSo
    exact hCopied.push hC hSl hLen hPush

/-- Bytes copied into `push_buf` and then pushed are appended. -/
theorem appended_of_push {xs : List UInt8} (hB : b.WF) (h : b.pushBuf = some sl)
    (hLen : xs.length ≤ sl.len) (hPush : (b.copy sl.off xs).push xs.length = some b') :
    b.Appended b' xs := by
  obtain ⟨b'', hPush', hAppended⟩ := push_copy hB h hLen
  cases hPush.symm.trans hPush'
  exact hAppended

/-- As many bytes are appended as fit. -/
theorem appended_of_write {xs : List UInt8} (hB : b.WF) (h : b.pushBuf = some sl)
    (hPush : (b.copy sl.off (xs.take (min sl.len xs.length))).push (min sl.len xs.length) =
      some b') : b.Appended b' (xs.take (min sl.len xs.length)) := by
  have hLen : (xs.take (min sl.len xs.length)).length = min sl.len xs.length := by
    rw [List.length_take]
    omega
  exact appended_of_push hB h (by omega) (by rw [hLen]; exact hPush)

-- ---------------------------------------------------------------------------
-- A bounded queue
-- ---------------------------------------------------------------------------

/-- What a user does with the buffer. -/
inductive Use where
  /-- `push_buf()[i] = x` -/
  | write (i : Nat) (x : UInt8)
  | push (n : Nat)
  | pop (n : Nat)
  | clear
  deriving DecidableEq, Repr

def apply (b : RingBuffer) : Use → Option RingBuffer
  | .write i x => do
    let sl ← b.pushBuf
    if i < sl.len then some (b.set (sl.off + i) x) else none
  | .push n => b.push n
  | .pop n => b.pop n
  | .clear => some b.clear

/-- A user stays within the slices it is given. -/
def Allowed (b : RingBuffer) : Use → Prop
  | .write i _ => ∃ sl, b.pushBuf = some sl ∧ i < sl.len
  | .push n => ∃ sl, b.pushBuf = some sl ∧ n ≤ sl.len
  | .pop n => ∃ sl, b.popBuf = some sl ∧ n ≤ sl.len
  | .clear => True

/-- What a use means for a queue with the contents `q`, when `push_buf` holds the
bytes `free`. -/
def Use.onQueue (q free : List UInt8) : Use → List UInt8
  | .write _ _ => q
  | .push n => q ++ free.take n
  | .pop n => q.drop n
  | .clear => []

/-- The buffer represents the queue `q`. -/
structure Represents (b : RingBuffer) (q : List UInt8) : Prop where
  bounded : q.length ≤ b.capacity
  /-- `pop_buf` is a prefix of the queue, and is empty only with it. -/
  popBuf : ∃ sl, b.popBuf = some sl ∧ b.read sl <+: q ∧ (sl.len = 0 ↔ q = [])
  /-- `push_buf` is apart from the bytes of the queue, which lie each at a place of
  its own, and is empty only if that is full. -/
  pushBuf : ∃ sl, b.pushBuf = some sl ∧ (sl.len = 0 ↔ q.length = b.capacity) ∧
    ∃ place : Nat → Nat, ∀ k, (hk : k < q.length) → b.buf[place k]? = some q[k] ∧
      (∀ j < q.length, place j = place k → j = k) ∧ ∀ j < sl.len, place k ≠ sl.off + j

/-- A well-formed buffer represents its contents. -/
theorem WF.represents (hB : b.WF) : b.Represents b.contents := by
  have hLe := hB.len_le
  constructor
  case bounded => rwa [length_contents]
  case popBuf =>
    obtain ⟨sl, hSl⟩ := hB.popBuf_some
    obtain ⟨-, -, hZero, -⟩ := popBuf_spec hB hSl
    refine ⟨sl, hSl, ?_, by rw [contents_eq_nil, hZero]⟩
    rw [read_popBuf hB hSl]
    exact List.take_prefix _ _
  -- the free slice meets no place that is stored
  case pushBuf =>
    obtain ⟨sl, hSl⟩ := hB.pushBuf_some
    obtain ⟨-, -, hZero, -⟩ := pushBuf_spec hB hSl
    refine ⟨sl, hSl, by rw [length_contents, hZero], b.place, ?_⟩
    intro k hk
    rw [length_contents] at hk
    refine ⟨?_, ?_, fun j hj hEq => not_stored_of_pushBuf hB hSl hj ⟨k, hk, hEq⟩⟩
    case refine_2 =>
      intro j hj
      rw [length_contents] at hj
      exact hB.place_inj (by omega) (by omega)
    have hPlace : b.place k < b.buf.length := Nat.mod_lt _ (by unfold capacity at hLe; omega)
    simp [contents, hPlace]

/-- An allowed use does not panic, and means for the contents what it means for
the queue. -/
theorem apply_contents (hB : b.WF) {u : Use} (hAllowed : b.Allowed u) :
    ∃ b' free, b.apply u = some b' ∧ b'.WF ∧ b'.capacity = b.capacity ∧
      (∃ sl, b.pushBuf = some sl ∧ free = b.read sl) ∧
      b'.contents = u.onQueue b.contents free := by
  obtain ⟨sl, hSl⟩ := hB.pushBuf_some
  cases u with
  -- a write into the free slice is not seen
  | write i x =>
    obtain ⟨sl', hSl', hi⟩ := hAllowed
    cases hSl.symm.trans hSl'
    refine ⟨b.set (sl.off + i) x, _, ?_, hB.set _ _, ?_, ⟨sl, hSl, rfl⟩, ?_⟩
    · simp [apply, hSl, hi]
    · simp [capacity, set]
    · exact contents_set (not_stored_of_pushBuf hB hSl hi)
  | push n =>
    obtain ⟨sl', hSl', hn⟩ := hAllowed
    cases hSl.symm.trans hSl'
    obtain ⟨b', hPush, hContents⟩ := push_contents hB hSl hn
    exact ⟨b', _, hPush, hB.push hPush, capacity_push hPush, ⟨sl, hSl, rfl⟩, hContents⟩
  | pop n =>
    obtain ⟨sp, hSp, hn⟩ := hAllowed
    obtain ⟨b', hPop, hContents⟩ := pop_contents hB hSp hn
    exact ⟨b', _, hPop, hB.pop hPop, capacity_pop hPop, ⟨sl, hSl, rfl⟩, hContents⟩
  | clear => exact ⟨b.clear, _, rfl, .clear b, rfl, ⟨sl, hSl, rfl⟩, rfl⟩

/--
**The ring buffer is a bounded queue.** Over memory of any length and after any
uses within the slices it hands out, the buffer represents a queue, its
`contents`; and any further such use succeeds and has on the contents the effect
it has on the queue: `push(n)` appends the first `n` bytes of `push_buf`, `pop(n)`
removes the first `n` bytes, `clear` removes all.
-/
theorem ring_buffer_refines_fifo {mem : List UInt8} {b : RingBuffer}
    (hRun : Run apply Allowed (new mem) b) :
    b.capacity = mem.length ∧ b.Represents b.contents ∧ ∀ u, b.Allowed u →
      ∃ b' sl, b.apply u = some b' ∧ b.pushBuf = some sl ∧
        b'.contents = u.onQueue b.contents (b.read sl) := by
  have hInv : b.WF ∧ b.capacity = mem.length := by
    refine hRun.invariant (I := fun b => b.WF ∧ b.capacity = mem.length) ⟨wf_new mem, rfl⟩ ?_
    rintro c u c' ⟨hC, hCap⟩ hAllowed hs
    obtain ⟨d, -, hApply, hD, hCap', -⟩ := apply_contents hC hAllowed
    cases hApply.symm.trans hs
    exact ⟨hD, hCap'.trans hCap⟩
  obtain ⟨hB, hCap⟩ := hInv
  refine ⟨hCap, hB.represents, fun u hAllowed => ?_⟩
  obtain ⟨b', free, hApply, -, -, ⟨sl, hSl, rfl⟩, hContents⟩ := apply_contents hB hAllowed
  exact ⟨b', sl, hApply, hSl, hContents⟩

instance (b : RingBuffer) (u : Use) : Decidable (b.Allowed u) :=
  match u, hp : b.pushBuf, hq : b.popBuf with
  | .write i _, some sl, _ => decidable_of_iff (i < sl.len) (by simp [Allowed, hp])
  | .write _ _, none, _ => isFalse (by simp [Allowed, hp])
  | .push n, some sl, _ => decidable_of_iff (n ≤ sl.len) (by simp [Allowed, hp])
  | .push _, none, _ => isFalse (by simp [Allowed, hp])
  | .pop n, _, some sl => decidable_of_iff (n ≤ sl.len) (by simp [Allowed, hq])
  | .pop _, _, none => isFalse (by simp [Allowed, hq])
  | .clear, _, _ => isTrue trivial

/-- A buffer of three bytes is filled to its end, half emptied and wrapped around. -/
theorem ring_buffer_refines_fifo_wrapped : ∃ b, Run apply Allowed (new [0, 0, 0]) b ∧
    b.contents = [3, 4] ∧ b.capacity = 3 ∧ b.Represents b.contents := by
  have hRun : Run apply Allowed (new [0, 0, 0]) _ :=
    Run.execOk_get _ [.write 0 1, .write 1 2, .write 2 3, .push 3, .pop 2, .write 0 4, .push 1]
      (by decide +kernel)
  obtain ⟨hCap, hRep, -⟩ := ring_buffer_refines_fifo hRun
  exact ⟨_, hRun, by decide +kernel, hCap, hRep⟩

end RingBuffer

end Embassy.Extras
