import Embassy.Io.Traits
import Embassy.Lib.Future

/-!
# Copying and writing

`embassy/src/io/util/copy_buf.rs` and `write_all.rs`. What a call of `poll` got done is
in the reader, the writer and the future, and the next call goes on from there.

* `CopyBuf.Delivered`, `WriteAll.Delivered` — what holds when `poll` returns.
* `copy_buf_write_all` — it holds at every return.
-/

namespace Embassy.Io

open Stream' (Seq)
open Lib Util

-- ---------------------------------------------------------------------------
-- CopyBuf
-- ---------------------------------------------------------------------------

structure CopyBuf (R W : Type) where
  reader : R
  writer : W
  amt : Nat

namespace CopyBuf

variable {R W : Type}

def new (reader : R) (writer : W) : CopyBuf R W where
  reader := reader
  writer := writer
  amt := 0

def body [AsyncBufRead R] [AsyncWrite W] (bits : Nat) (this : CopyBuf R W) :
    Flow (CopyBuf R W) (Except Error Nat) :=
  match pollFillBuf this.reader with
  | (r, .pending) => .pending { this with reader := r }
  | (r, .ready (.error e)) => .ready { this with reader := r } (.error e)
  | (r, .ready (.ok buffer)) =>
    if buffer = [] then .ready { this with reader := r } (.ok this.amt)
    else
      match pollWrite this.writer buffer with
      | (w, .pending) => .pending { this with reader := r, writer := w }
      | (w, .ready (.error e)) => .ready { this with reader := r, writer := w } (.error e)
      | (w, .ready (.ok i)) =>
        if i = 0 then .ready { this with reader := r, writer := w } (.error .writeZero)
        else .orPanic do
          let amt ← checkedAdd bits this.amt i
          some (.next ⟨consume r i, w, amt⟩)

variable [ByteStream R] [ByteSink W]

/-- The same bytes were consumed and accepted, and counted. -/
def Copied (r : R) (w : W) (g : CopyBuf R W) : Prop :=
  ∃ t, Consumed r t g.reader ∧ accepted g.writer = accepted w ++ t ∧ g.amt = t.length

/-- What holds when `poll` returns: `Ok` is at the end of the stream, and a panic only after
more bytes than can be counted. -/
def Delivered (bits : Nat) (r : R) (w : W) : Flow (CopyBuf R W) (Except Error Nat) → Prop
  | .next _ => False
  | .pending g => Copied r w g
  | .ready g (.ok amt) => Copied r w g ∧ amt = g.amt ∧ unread g.reader = .nil
  | .ready g (.error _) => Copied r w g
  | .panic => ∃ t s, unread r = front t s ∧ 2 ^ bits ≤ t.length

theorem body_copied (bits : Nat) {r : R} {w : W} {f : CopyBuf R W} (h : Copied r w f) :
    (f.body bits).Keeps (Copied r w) (Delivered bits r w) := by
  obtain ⟨t, hConsumed, hAccepted, hAmt⟩ := h
  unfold body
  -- the bytes consumed are those the writer took
  rcases hFill : pollFillBuf f.reader with ⟨r', (e | buffer) | _⟩
  · exact ⟨t, hConsumed.fill hFill, hAccepted, hAmt⟩
  · have hSame := hConsumed.fill hFill
    by_cases hNil : buffer = []
    · obtain ⟨s, hUnread, hEnd⟩ := unread_buffer hFill
      rw [hNil, front_nil, hEnd hNil] at hUnread
      simp only [hNil, if_true]
      exact ⟨⟨t, hSame, hAccepted, hAmt⟩, rfl, (unread_fill hFill).trans hUnread⟩
    simp only [hNil, if_false]
    rcases hWrite : pollWrite f.writer buffer with ⟨w', (e | i) | _⟩
    · exact ⟨t, hSame, (accepted_refuse hWrite fun _ h => nomatch h).trans hAccepted, hAmt⟩
    · obtain ⟨hLe, hTaken⟩ := accepted_write hWrite
      have hMore := hConsumed.buffer hFill hLe
      have hWritten : accepted w' = accepted w ++ (t ++ buffer.take i) := by
        rw [hTaken, hAccepted, List.append_assoc]
      by_cases hZero : i = 0
      · simp only [hZero, if_true]
        rw [hZero, List.take_zero, List.append_nil] at hWritten
        exact ⟨t, hSame, hWritten, hAmt⟩
      have hLen : (t ++ buffer.take i).length = f.amt + i := by
        rw [List.length_append, List.length_take_of_le hLe, hAmt]
      simp only [hZero, if_false]
      unfold checkedAdd
      -- the count may overflow, which panics
      by_cases hFits : f.amt + i < 2 ^ bits
      · rw [if_pos hFits]
        exact ⟨_, hMore, hWritten, hLen.symm⟩
      · rw [if_neg hFits]
        exact ⟨_, _, hMore.2, hLen ▸ Nat.le_of_not_lt hFits⟩
    · have hCopied : Copied r w { f with reader := r', writer := w' } :=
        ⟨t, hSame, (accepted_refuse hWrite fun _ h => nomatch h).trans hAccepted, hAmt⟩
      exact ⟨hCopied, hCopied⟩
  · have hCopied : Copied r w { f with reader := r' } :=
      ⟨t, hConsumed.fill hFill, hAccepted, hAmt⟩
    exact ⟨hCopied, hCopied⟩

end CopyBuf

-- ---------------------------------------------------------------------------
-- WriteAll
-- ---------------------------------------------------------------------------

structure WriteAll (W : Type) where
  writer : W
  buf : List UInt8

namespace WriteAll

variable {W : Type}

def new (writer : W) (buf : List UInt8) : WriteAll W where
  writer := writer
  buf := buf

def body [AsyncWrite W] (this : WriteAll W) : Flow (WriteAll W) (Except Error Unit) :=
  if this.buf = [] then .ready this (.ok ())
  else
    match pollWrite this.writer this.buf with
    | (w, .pending) => .pending { this with writer := w }
    | (w, .ready (.error e)) => .ready { this with writer := w } (.error e)
    | (w, .ready (.ok n)) =>
      -- `split_at`
      if n ≤ this.buf.length then
        if n = 0 then .panic else .next ⟨w, this.buf.drop n⟩
      else .panic

variable [ByteSink W]

/-- The writer accepted what is no more in the buffer. -/
def Sent (w : W) (buf : List UInt8) (g : WriteAll W) : Prop :=
  ∃ t, buf = t ++ g.buf ∧ accepted g.writer = accepted w ++ t

/-- What holds when `poll` returns: `Ok` is when everything was accepted, and a panic only
when the writer returned 0. -/
def Delivered (w : W) (buf : List UInt8) : Flow (WriteAll W) (Except Error Unit) → Prop
  | .next _ => False
  | .pending g => Sent w buf g ∧ accepted g.writer ≠ accepted w ++ buf
  | .ready g (.ok ()) => Sent w buf g ∧ accepted g.writer = accepted w ++ buf
  | .ready g (.error _) => Sent w buf g ∧ accepted g.writer ≠ accepted w ++ buf
  | .panic => ∃ g, Sent w buf g ∧ g.buf ≠ [] ∧ (pollWrite g.writer g.buf).2 = .ready (.ok 0)

/-- Everything was accepted when nothing is left. -/
theorem Sent.all_iff {w : W} {buf : List UInt8} {g : WriteAll W} (h : Sent w buf g) :
    accepted g.writer = accepted w ++ buf ↔ g.buf = [] := by
  obtain ⟨t, rfl, hAccepted⟩ := h
  rw [hAccepted, List.append_cancel_left_eq, List.self_eq_append_right]

theorem body_sent {w : W} {buf : List UInt8} {f : WriteAll W} (h : Sent w buf f) :
    f.body.Keeps (Sent w buf) (Delivered w buf) := by
  unfold body
  by_cases hNil : f.buf = []
  · simp only [hNil, if_true]
    exact ⟨h, h.all_iff.mpr hNil⟩
  simp only [hNil, if_false]
  have hSent := h
  obtain ⟨t, hSplit, hAccepted⟩ := h
  -- the writer accepts nothing
  have hSame : ∀ w' p, pollWrite f.writer f.buf = (w', p) → (∀ n, p ≠ .ready (.ok n)) →
      Sent w buf { f with writer := w' } ∧ accepted w' ≠ accepted w ++ buf := by
    intro w' p hWrite hNot
    have hSent' : Sent w buf { f with writer := w' } :=
      ⟨t, hSplit, (accepted_refuse hWrite hNot).trans hAccepted⟩
    exact ⟨hSent', fun hAll => hNil (hSent'.all_iff.mp hAll)⟩
  rcases hWrite : pollWrite f.writer f.buf with ⟨w', (e | n) | _⟩
  · exact hSame w' _ hWrite fun _ h => nomatch h
  · obtain ⟨hLe, hTaken⟩ := accepted_write hWrite
    simp only [hLe, if_true]
    by_cases hZero : n = 0
    · simp only [hZero, if_true]
      rw [hZero] at hWrite
      exact ⟨f, hSent, hNil, congrArg Prod.snd hWrite⟩
    · simp only [hZero, if_false]
      refine ⟨t ++ f.buf.take n, ?_, ?_⟩
      · rw [hSplit, List.append_assoc, List.take_append_drop]
      · rw [hTaken, hAccepted, List.append_assoc]
  · have hBusy := hSame w' _ hWrite fun _ h => nomatch h
    exact ⟨hBusy.1, hBusy⟩

end WriteAll

-- ---------------------------------------------------------------------------
-- Both of them
-- ---------------------------------------------------------------------------

/-- At every return, what was taken from the reader or the buffer is what the writer
accepted. -/
theorem copy_buf_write_all {R W : Type} [ByteStream R] [ByteSink W] (w : W) :
    (∀ bits (r : R) o, Returned (CopyBuf.body bits) (.new r w) o →
      CopyBuf.Delivered bits r w o) ∧
    ∀ buf o, Returned WriteAll.body (.new w buf) o → WriteAll.Delivered w buf o := by
  constructor
  · intro bits r o h
    have hNew : CopyBuf.Copied r w (.new r w) := ⟨[], .refl, (List.append_nil _).symm, rfl⟩
    exact h.post hNew fun _ => CopyBuf.body_copied bits
  · intro buf o h
    have hNew : WriteAll.Sent w buf (.new w buf) := ⟨[], rfl, (List.append_nil _).symm⟩
    exact h.post hNew fun _ => WriteAll.body_sent

/-- Two of three bytes are written, then the writer is busy, and fails at the next poll. -/
theorem copy_buf_write_all_busy :
    ∃ (r : Script .eof) (w : Sink) (g : CopyBuf (Script .eof) Sink) (g' : WriteAll Sink),
      Returned (CopyBuf.body 32) (.new r w) (.ready g (.error .other)) ∧
      CopyBuf.Copied r w g ∧ g.amt = 2 ∧
      Returned WriteAll.body (.new w [1, 2, 3]) (.ready g' (.error .other)) ∧
      WriteAll.Sent w [1, 2, 3] g' ∧ g'.buf = [3] := by
  have hCopy : Returned (CopyBuf.body 32)
      (.new (⟨[some [1, 2, 3]], 0⟩ : Script .eof)
        (⟨[.ready (.ok 2), .pending, .ready (.error .other)], []⟩ : Sink))
      (.ready ⟨⟨[some [3]], 2⟩, ⟨[], [1, 2]⟩, 2⟩ (.error .other)) :=
    .later (.first ⟨2, rfl⟩) ⟨1, rfl⟩
  have hWrite : Returned WriteAll.body
      (.new (⟨[.ready (.ok 2), .pending, .ready (.error .other)], []⟩ : Sink) [1, 2, 3])
      (.ready ⟨⟨[], [1, 2]⟩, [3]⟩ (.error .other)) :=
    .later (.first ⟨2, rfl⟩) ⟨1, rfl⟩
  exact ⟨_, _, _, _, hCopy, (copy_buf_write_all _).1 _ _ _ hCopy, rfl, hWrite,
    ((copy_buf_write_all (R := Script .eof) _).2 _ _ hWrite).1, rfl⟩

end Embassy.Io
