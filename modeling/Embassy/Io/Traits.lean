import Embassy.Lib.Stream
import Embassy.Util.Waker

/-!
# Readers and writers

`embassy/src/io/error.rs` and the traits of `embassy/src/io/traits.rs`. A reader
is a state with all that it will do: which calls return `Pending`, and how many
bytes the others show. `ByteStream` and `ByteSink` say what the documentation of
the traits promises.

* `Consumed r t r'` — the bytes `t` were consumed between `r` and `r'`.
* `Script`, `Sink` — a reader and a writer whose answers are given in advance.
-/

namespace Embassy.Io

open Stream' (Seq)
open Lib Util

inductive Error where
  | notFound
  | permissionDenied
  | connectionRefused
  | connectionReset
  | connectionAborted
  | notConnected
  | addrInUse
  | addrNotAvailable
  | brokenPipe
  | alreadyExists
  | wouldBlock
  | invalidInput
  | invalidData
  | timedOut
  | writeZero
  | interrupted
  | unexpectedEof
  | truncated
  | other
  deriving DecidableEq, Repr

/-- What a call of `poll_fill_buf` returns. -/
abbrev Fill := Poll (Except Error (List UInt8))

class AsyncBufRead (R : Type) where
  pollFillBuf : R → R × Fill
  consume : R → Nat → R

class AsyncWrite (W : Type) where
  pollWrite : W → List UInt8 → W × Poll (Except Error Nat)

export AsyncBufRead (pollFillBuf consume)
export AsyncWrite (pollWrite)

-- ---------------------------------------------------------------------------
-- Arithmetic and slices
-- ---------------------------------------------------------------------------

/-- `m - n` of type `usize`. -/
def checkedSub (m n : Nat) : Option Nat := if n ≤ m then some (m - n) else none

/-- `m + n` of type `usize`, with pointers of `w` bits. -/
def checkedAdd (w m n : Nat) : Option Nat := if m + n < 2 ^ w then some (m + n) else none

/-- `buf[n..n + p].copy_from_slice(&rbuf[..p])`. -/
def copyFrom (buf : List UInt8) (n : Nat) (rbuf : List UInt8) (p : Nat) : Option (List UInt8) :=
  if n + p ≤ buf.length ∧ p ≤ rbuf.length then
    some (buf.take n ++ rbuf.take p ++ buf.drop (n + p))
  else none

-- ---------------------------------------------------------------------------
-- What the traits promise
-- ---------------------------------------------------------------------------

/-- A reader of a stream of bytes, which may be endless. -/
class ByteStream (R : Type) extends AsyncBufRead R where
  unread : R → Seq UInt8
  /-- How many bytes were consumed. -/
  consumed : R → Nat
  fill : ∀ r, unread (pollFillBuf r).1 = unread r ∧ consumed (pollFillBuf r).1 = consumed r
  /-- The buffer holds the next bytes, and is empty only at the end of the stream. -/
  buffer : ∀ r buf, (pollFillBuf r).2 = .ready (.ok buf) → ∃ s, unread r = front buf s ∧
    (buf = [] → s = .nil) ∧ ∀ n ≤ buf.length,
      unread (consume (pollFillBuf r).1 n) = front (buf.drop n) s ∧
        consumed (consume (pollFillBuf r).1 n) = consumed r + n

export ByteStream (unread consumed)

/-- A writer that accepts some bytes of what it is given, from the front. -/
class ByteSink (W : Type) extends AsyncWrite W where
  accepted : W → List UInt8
  write : ∀ w buf n, (pollWrite w buf).2 = .ready (.ok n) →
    n ≤ buf.length ∧ accepted (pollWrite w buf).1 = accepted w ++ buf.take n
  refuse : ∀ w buf, (∀ n, (pollWrite w buf).2 ≠ .ready (.ok n)) →
    accepted (pollWrite w buf).1 = accepted w

export ByteSink (accepted)

section Readers

variable {R : Type}

/-- `Pending` is returned at `r`. -/
def Pends [AsyncBufRead R] (r' r : R) : Prop := pollFillBuf r = (r', .pending)

variable (R)

/-- `Pending` is not returned forever. -/
def Responds [AsyncBufRead R] : Prop := ∀ r : R, Acc Pends r

/-- `Pending` is not returned forever while there are bytes to come. -/
def Arrives [ByteStream R] : Prop := ∀ r : R, unread r ≠ .nil → Acc Pends r

def Infallible [AsyncBufRead R] : Prop :=
  ∀ r r' : R, ∀ e, pollFillBuf r ≠ (r', .ready (.error e))

end Readers

/-- The bytes `t` were consumed between `r` and `r'`. -/
def Consumed {R : Type} [ByteStream R] (r : R) (t : List UInt8) (r' : R) : Prop :=
  consumed r' = consumed r + t.length ∧ unread r = front t (unread r')

namespace Consumed

variable {R : Type} [ByteStream R] {r r₁ r' : R} {t u buf : List UInt8} {n : Nat} {s : Seq UInt8}

theorem refl : Consumed r [] r := ⟨rfl, front_nil.symm⟩

theorem trans (h : Consumed r t r₁) (h' : Consumed r₁ u r') : Consumed r (t ++ u) r' := by
  constructor
  · rw [h'.1, h.1, List.length_append, Nat.add_assoc]
  · rw [front_append, h.2, h'.2]

/-- The bytes consumed are told by the streams before and after. -/
theorem inj (h : Consumed r t r') (h' : Consumed r u r') : t = u := by
  have hLen : t.length = u.length := Nat.add_left_cancel (h.1.symm.trans h'.1)
  exact (front_inj (h.2.symm.trans h'.2) hLen).1

/-- What is left of a stream that begins with the bytes consumed. -/
theorem unread_eq (h : Consumed r t r') (hUnread : unread r = front t s) : unread r' = s :=
  (front_inj (h.2.symm.trans hUnread) rfl).2

/-- A call of `poll_fill_buf` consumes nothing. -/
theorem fill {p : Fill} (h : Consumed r t r₁)
    (hFill : pollFillBuf r₁ = (r', p)) : Consumed r t r' := by
  have hKeeps := ByteStream.fill r₁
  rw [hFill] at hKeeps
  exact ⟨hKeeps.2.trans h.1, h.2.trans (congrArg (front t) hKeeps.1.symm)⟩

/-- Of the bytes that are shown, some are consumed. -/
theorem buffer (h : Consumed r t r₁) (hFill : pollFillBuf r₁ = (r', .ready (.ok buf)))
    (hn : n ≤ buf.length) : Consumed r (t ++ buf.take n) (consume r' n) := by
  obtain ⟨s, hUnread, -, hConsume⟩ := ByteStream.buffer r₁ buf (congrArg Prod.snd hFill)
  rw [hFill] at hConsume
  obtain ⟨hRest, hCount⟩ := hConsume n hn
  refine h.trans ⟨?_, ?_⟩
  · rw [hCount, List.length_take, Nat.min_eq_left hn]
  · rw [hRest, ← front_append, List.take_append_drop]
    exact hUnread

end Consumed

section Fill

variable {R : Type} [ByteStream R] {r r' : R} {buf : List UInt8}

/-- A call of `poll_fill_buf` takes nothing. -/
theorem unread_fill {p : Fill} (h : pollFillBuf r = (r', p)) :
    unread r' = unread r := by
  have hKeeps := (ByteStream.fill r).1
  rwa [h] at hKeeps

/-- The stream begins with the bytes that are shown. -/
theorem unread_buffer (h : pollFillBuf r = (r', .ready (.ok buf))) :
    ∃ s, unread r = front buf s ∧ (buf = [] → s = .nil) := by
  obtain ⟨s, hUnread, hEnd, -⟩ := ByteStream.buffer r buf (congrArg Prod.snd h)
  exact ⟨s, hUnread, hEnd⟩

/-- What is left after some of the bytes that are shown. -/
theorem unread_consume {n : Nat} (h : pollFillBuf r = (r', .ready (.ok buf)))
    (hn : n ≤ buf.length) :
    unread (consume r' n) = front (buf.drop n) (unread (consume r' buf.length)) := by
  obtain ⟨s, -, -, hConsume⟩ := ByteStream.buffer r buf (congrArg Prod.snd h)
  rw [h] at hConsume
  rw [(hConsume n hn).1, (hConsume buf.length (Nat.le_refl _)).1, List.drop_length, front_nil]

end Fill

section Write

variable {W : Type} [ByteSink W] {w w' : W} {buf : List UInt8} {n : Nat}

/-- A writer that is ready has accepted a prefix. -/
theorem accepted_write (h : pollWrite w buf = (w', .ready (.ok n))) :
    n ≤ buf.length ∧ accepted w' = accepted w ++ buf.take n := by
  have hWrite := ByteSink.write w buf n (congrArg Prod.snd h)
  rwa [h] at hWrite

/-- A writer that is not ready has accepted nothing. -/
theorem accepted_refuse {p : Poll (Except Error Nat)} (h : pollWrite w buf = (w', p))
    (hNot : ∀ n, p ≠ .ready (.ok n)) : accepted w' = accepted w := by
  have hRefuse := ByteSink.refuse w buf (by rw [h]; exact hNot)
  rwa [h] at hRefuse

end Write

-- ---------------------------------------------------------------------------
-- Answers given in advance
-- ---------------------------------------------------------------------------

/-- What a reader returns after its last byte, on every call. -/
inductive Last where
  | eof
  | pending
  | error (e : Error)

def Last.fill : Last → Fill
  | .eof => .ready (.ok [])
  | .pending => .pending
  | .error e => .ready (.error e)

/-- A reader that is given by its answers; `none` is `Pending`. -/
structure Script (last : Last) where
  answers : List (Option (List UInt8))
  read : Nat

namespace Script

variable {last : Last}

/-- The answers that are left, and the next one. -/
def fill (last : Last) : List (Option (List UInt8)) → List (Option (List UInt8)) × Fill
  | [] => ([], last.fill)
  | none :: as => (as, .pending)
  | some [] :: as => fill last as
  | some (b :: bs) :: as => (some (b :: bs) :: as, .ready (.ok (b :: bs)))

def take (n : Nat) : List (Option (List UInt8)) → List (Option (List UInt8))
  | some buf :: as => some (buf.drop n) :: as
  | as => as

def bytes : List (Option (List UInt8)) → List UInt8
  | [] => []
  | some buf :: as => buf ++ bytes as
  | none :: as => bytes as

/-- The bytes of a script stay until they are consumed. -/
theorem bytes_fill (last : Last) (as : List (Option (List UInt8))) :
    bytes (fill last as).1 = bytes as := by
  induction as with
  | nil => rfl
  | cons a as ih =>
    rcases a with _ | _ | _
    · rfl
    · exact ih
    · rfl

/-- The buffer is that of the first answer left, or is empty at the end. -/
theorem fill_ok {as as' : List (Option (List UInt8))} {buf : List UInt8}
    (h : fill last as = (as', .ready (.ok buf))) :
    as' = [] ∧ buf = [] ∨ buf ≠ [] ∧ ∃ rest, as' = some buf :: rest := by
  induction as with
  | nil =>
    cases last with
    | eof =>
      cases h
      exact .inl ⟨rfl, rfl⟩
    | pending | error => cases h
  | cons a as ih =>
    rcases a with _ | _ | _
    · cases h
    · exact ih h
    · cases h
      exact .inr ⟨List.cons_ne_nil _ _, as, rfl⟩

instance : ByteStream (Script last) where
  pollFillBuf s := ({ s with answers := (fill last s.answers).1 }, (fill last s.answers).2)
  consume s n := { s with answers := take n s.answers, read := s.read + n }
  unread s := .ofList (bytes s.answers)
  consumed s := s.read
  fill s := ⟨congrArg Seq.ofList (bytes_fill last s.answers), rfl⟩
  buffer := by
    intro s buf h
    have hFill : fill last s.answers = ((fill last s.answers).1, .ready (.ok buf)) :=
      Prod.ext rfl h
    have hBytes := bytes_fill last s.answers
    rcases fill_ok hFill with ⟨hAs, rfl⟩ | ⟨hBuf, rest, hAs⟩
    · rw [hAs] at hBytes
      refine ⟨.nil, ?_, fun _ => rfl, fun n hn => ?_⟩
      · rw [← hBytes, front_nil]
        exact Seq.ofList_nil
      · cases Nat.le_zero.mp hn
        rw [hAs]
        exact ⟨Seq.ofList_nil.trans front_nil.symm, rfl⟩
    · rw [hAs] at hBytes
      refine ⟨.ofList (bytes rest), ?_, fun hNil => absurd hNil hBuf, fun n _ => ?_⟩
      · rw [← hBytes]
        exact Seq.ofList_append buf (bytes rest)
      · rw [hAs]
        exact ⟨Seq.ofList_append (buf.drop n) (bytes rest), rfl⟩

theorem bytes_of_unread {s : Script last} (h : unread s = .nil) : bytes s.answers = [] := by
  have hSeq : Seq.ofList (bytes s.answers) = .nil := h
  cases hBytes : bytes s.answers with
  | nil => rfl
  | cons b bs =>
    rw [hBytes, Seq.ofList_cons] at hSeq
    exact absurd hSeq Seq.cons_ne_nil

/-- A script that ends pending is so when its bytes are consumed. -/
theorem fill_pending {as : List (Option (List UInt8))} (h : bytes as = []) :
    (fill .pending as).2 = .pending := by
  induction as with
  | nil => rfl
  | cons a as ih =>
    rcases a with _ | _ | _
    · rfl
    · exact ih h
    · cases h

/-- A script without pauses answers with a buffer. -/
theorem fill_ready {as : List (Option (List UInt8))} (h : ∀ a ∈ as, a ≠ none) :
    ∃ buf, (fill .eof as).2 = .ready (.ok buf) ∧
      ∀ n, ∀ a ∈ take n (fill .eof as).1, a ≠ none := by
  induction as with
  | nil => exact ⟨[], rfl, fun _ _ hMem => nomatch hMem⟩
  | cons a as ih =>
    have hRest : ∀ a ∈ as, a ≠ none := fun a hMem => h a (List.mem_cons_of_mem _ hMem)
    rcases a with _ | _ | ⟨b, bs⟩
    · exact absurd rfl (h none (List.mem_cons_self ..))
    · exact ih hRest
    · refine ⟨b :: bs, rfl, fun n a hMem => ?_⟩
      rcases List.mem_cons.mp hMem with rfl | hMem
      · exact Option.some_ne_none _
      · exact hRest a hMem

/-- `Pending` is returned as often as the answers say. -/
theorem acc_pends {as : List (Option (List UInt8))} (h : last ≠ .pending ∨ bytes as ≠ [])
    (n : Nat) : Acc Pends (⟨as, n⟩ : Script last) := by
  induction as with
  | nil =>
    refine ⟨_, fun r' hPends => ?_⟩
    have hLast : last.fill = .pending := congrArg Prod.snd hPends
    cases last with
    | pending => exact absurd h (by simp [bytes])
    | eof | error => cases hLast
  | cons a as ih =>
    rcases a with _ | _ | ⟨b, bs⟩
    · refine ⟨_, fun r' hPends => ?_⟩
      cases hPends
      exact ih h
    · exact ⟨_, fun r' hPends => (ih h).inv hPends⟩
    · exact ⟨_, fun r' hPends => nomatch congrArg Prod.snd hPends⟩

/-- A script that does not end pending always answers at some time. -/
theorem responds (h : last ≠ .pending) : Responds (Script last) :=
  fun s => acc_pends (.inl h) s.read

/-- A script is pending only as often as it says. -/
theorem arrives : Arrives (Script last) := by
  refine fun s hUnread => acc_pends (.inr fun hNil => hUnread ?_) s.read
  show Seq.ofList (bytes s.answers) = .nil
  rw [hNil]
  exact Seq.ofList_nil

theorem infallible (h : ∀ e, last ≠ .error e) : Infallible (Script last) := by
  rintro ⟨as, n⟩ r' e hFill
  have hError : (fill last as).2 = .ready (.error e) := congrArg Prod.snd hFill
  clear hFill
  induction as with
  | nil =>
    cases last with
    | error e' => exact h e' rfl
    | eof | pending => cases hError
  | cons a as ih =>
    rcases a with _ | _ | _
    · cases hError
    · exact ih hError
    · cases hError

end Script

/-- A writer that is given by its answers; it accepts no more than it is given. -/
structure Sink where
  answers : List (Poll (Except Error Nat))
  taken : List UInt8

namespace Sink

def write (s : Sink) (buf : List UInt8) : Sink × Poll (Except Error Nat) :=
  match s.answers with
  | [] => (s, .pending)
  | .ready (.ok n) :: as => (⟨as, s.taken ++ buf.take n⟩, .ready (.ok (min n buf.length)))
  | a :: as => (⟨as, s.taken⟩, a)

instance : ByteSink Sink where
  pollWrite := write
  accepted s := s.taken
  write := by
    rintro ⟨_ | ⟨(e | m) | _, as⟩, taken⟩ buf n h
    · cases h
    · cases h
    · cases h
      refine ⟨Nat.min_le_right .., congrArg (taken ++ ·) ?_⟩
      exact List.take_eq_take_min
    · cases h
  refuse := by
    rintro ⟨_ | ⟨(e | m) | _, as⟩, taken⟩ buf h
    · rfl
    · rfl
    · exact absurd rfl (h _)
    · rfl

end Sink

end Embassy.Io
