import Embassy.Io.Traits
import Embassy.Lib.Future

/-!
# Draining a reader

`embassy/src/io/util/drain.rs`. `Drain` consumes all that the reader shows until it returns
`Pending`; an empty buffer, which is the end of the stream, is consumed like any other.

* `Takes` — all that is shown is consumed, for some calls.
* `drain_poll` — the poll returns exactly if the reader has no bytes for once, so it does
  not where the reader comes to the end of its stream.
-/

namespace Embassy.Io

open Stream' (Seq)
open Lib Util

-- ---------------------------------------------------------------------------
-- Readers that are drained
-- ---------------------------------------------------------------------------

section Takes

variable {R : Type} [ByteStream R]

/-- The buffers that are shown one after another hold `t`, and each is consumed. -/
inductive Takes (r : R) : List UInt8 → R → Prop where
  | refl : Takes r [] r
  | buffer {t buf : List UInt8} {r₁ r₂ : R} :
      Takes r t r₁ → pollFillBuf r₁ = (r₂, .ready (.ok buf)) →
      Takes r (t ++ buf) (consume r₂ buf.length)

theorem Takes.consumed {r r' : R} {t : List UInt8} (h : Takes r t r') : Consumed r t r' := by
  induction h with
  | refl => exact .refl
  | buffer _ hFill ih =>
    have hMore := ih.buffer hFill (Nat.le_refl _)
    rwa [List.take_length] at hMore

/-- The reader returns `Pending`, or an error. -/
def Refuses (r : R) : Prop :=
  ∃ r', pollFillBuf r = (r', .pending) ∨ ∃ e, pollFillBuf r = (r', .ready (.error e))

/-- After its last byte, the reader returns `Pending`. -/
def PendsAtEnd (r : R) : Prop :=
  ∀ t r', Takes r t r' → unread r' = .nil → ∃ r'', pollFillBuf r' = (r'', .pending)

/-- After its last byte, the reader returns an empty buffer. -/
def EofAtEnd (r : R) : Prop :=
  ∀ t r', Takes r t r' → unread r' = .nil → ∃ r'', pollFillBuf r' = (r'', .ready (.ok []))

/-- A finite stream is taken up to its end, if it does not stop before. -/
theorem PendsAtEnd.refuses {r : R} (h : PendsAtEnd r) {t₁ t₂ : List UInt8} {r₁ : R}
    (hTakes : Takes r t₁ r₁) (hUnread : unread r₁ = front t₂ .nil) :
    ∃ t r', Takes r t r' ∧ Refuses r' ∧ t.length ≤ (t₁ ++ t₂).length := by
  -- on the bytes that are left
  induction hLen : t₂.length using Nat.strong_induction_on generalizing t₁ t₂ r₁ with
  | _ n ih =>
    rcases hFill : pollFillBuf r₁ with ⟨r₂, (e | buf) | _⟩
    · exact ⟨t₁, r₁, hTakes, ⟨r₂, .inr ⟨e, hFill⟩⟩, by rw [List.length_append]; omega⟩
    · obtain ⟨s, hs, hEnd⟩ := unread_buffer hFill
      have hFront := hs.symm.trans hUnread
      by_cases hNil : buf = []
      · rw [hNil, front_nil, hEnd hNil] at hs
        obtain ⟨r', hPending⟩ := h t₁ r₁ hTakes hs
        cases hFill.symm.trans hPending
      have hPos := List.length_pos_iff.mpr hNil
      obtain ⟨rest, rfl, hRest⟩ := front_eq_front hFront (length_le_of_front hFront)
      rw [List.length_append] at hLen
      have hMore : Takes r (t₁ ++ buf) (consume r₂ buf.length) := hTakes.buffer hFill
      have hLeft : unread (consume r₂ buf.length) = front rest .nil := by
        have hConsumed := Consumed.refl.buffer hFill (Nat.le_refl buf.length)
        rw [List.nil_append, List.take_length] at hConsumed
        rw [hConsumed.unread_eq hs, hRest]
      obtain ⟨t, r', hTakes', hRefuses, hLe⟩ := ih rest.length (by omega) hMore hLeft rfl
      exact ⟨t, r', hTakes', hRefuses, by rwa [List.append_assoc] at hLe⟩
    · exact ⟨t₁, r₁, hTakes, ⟨r₂, .inl hFill⟩, by rw [List.length_append]; omega⟩

end Takes

-- ---------------------------------------------------------------------------
-- Drain
-- ---------------------------------------------------------------------------

/-- `n` counts the bytes of one poll. -/
structure Drain (R : Type) where
  reader : R
  n : Nat

namespace Drain

variable {R : Type}

def new (reader : R) : Drain R where
  reader := reader
  n := 0

def body [AsyncBufRead R] (bits : Nat) (d : Drain R) : Flow (Drain R) (Except Error Nat) :=
  match pollFillBuf d.reader with
  | (r, .pending) => .ready { d with reader := r } (.ok d.n)
  | (r, .ready (.error e)) => .ready { d with reader := r } (.error e)
  | (r, .ready (.ok buf)) => .orPanic do
    let n ← checkedAdd bits d.n buf.length
    some (.next ⟨consume r buf.length, n⟩)

variable [ByteStream R]

/-- A poll returns how many bytes were consumed, or the error of the reader. -/
def Returns (bits : Nat) (r : R) : Prop :=
  ∃ g x, Polls (body bits) (new r) (.ready g x) ∧
    ((∃ t, x = .ok t.length ∧ Consumed r t g.reader) ∨
      ∃ e r₁, x = .error e ∧ pollFillBuf r₁ = (g.reader, .ready (.error e)))

theorem polls_takes {bits : Nat} {r r' : R} {t : List UInt8} (h : Takes r t r')
    (hFits : t.length < 2 ^ bits) {o : Flow (Drain R) (Except Error Nat)} :
    Polls (body bits) (new r) o ↔ Polls (body bits) ⟨r', t.length⟩ o := by
  induction h with
  | refl => exact Iff.rfl
  | @buffer t buf r₁ r₂ _ hFill ih =>
    rw [List.length_append] at hFits
    rw [ih (by omega), List.length_append]
    refine Polls.next ?_
    unfold body checkedAdd
    simp only [hFill, if_pos hFits, Option.bind_eq_bind, Option.bind_some]
    rfl

/-- The bytes taken so far are counted. -/
def Counted (bits : Nat) (r : R) (d : Drain R) : Prop :=
  ∃ t, Takes r t d.reader ∧ t.length < 2 ^ bits ∧ d.n = t.length

theorem body_counted {bits : Nat} {r : R} {d : Drain R} (h : Counted bits r d) :
    (d.body bits).Keeps (Counted bits r) fun o =>
      o = .panic ∨ ∃ t r', Takes r t r' ∧ t.length < 2 ^ bits ∧ Refuses r' := by
  obtain ⟨t, hTakes, hFits, hn⟩ := h
  unfold body
  rcases hFill : pollFillBuf d.reader with ⟨r', (e | buf) | _⟩
  · exact .inr ⟨t, d.reader, hTakes, hFits, r', .inr ⟨e, hFill⟩⟩
  · have hLen : (t ++ buf).length = d.n + buf.length := by rw [List.length_append, hn]
    unfold checkedAdd
    by_cases hMore : d.n + buf.length < 2 ^ bits
    · simp only [if_pos hMore]
      exact ⟨t ++ buf, hTakes.buffer hFill, hLen ▸ hMore, hLen.symm⟩
    · simp only [if_neg hMore]
      exact .inl rfl
  · exact .inr ⟨t, d.reader, hTakes, hFits, r', .inl hFill⟩

theorem returns_iff (bits : Nat) (r : R) :
    Returns bits r ↔ ∃ t r', Takes r t r' ∧ t.length < 2 ^ bits ∧ Refuses r' := by
  constructor
  · rintro ⟨g, x, hPoll, -⟩
    have hNew : Counted bits r (new r) := ⟨[], .refl, Nat.two_pow_pos bits, rfl⟩
    have hEnd := (Returned.first hPoll).post hNew fun _ => body_counted
    exact hEnd.resolve_left fun hEq => nomatch hEq
  · rintro ⟨t, r₁, hTakes, hFits, r₂, hPending | ⟨e, hError⟩⟩
    · refine ⟨⟨r₂, t.length⟩, .ok t.length, (polls_takes hTakes hFits).mpr ?_,
        .inl ⟨t, rfl, hTakes.consumed.fill hPending⟩⟩
      refine .ends ?_ fun _ h => nomatch h
      unfold body
      rw [hPending]
    · refine ⟨⟨r₂, t.length⟩, .error e, (polls_takes hTakes hFits).mpr ?_,
        .inr ⟨e, r₁, rfl, hError⟩⟩
      refine .ends ?_ fun _ h => nomatch h
      unfold body
      rw [hError]

/-- A poll returns exactly if the reader, all of whose bytes are consumed, refuses more of
them. At the end of the stream that is so where the reader returns `Pending` there; where it
returns an empty buffer, it must have refused before. -/
theorem drain_poll (bits : Nat) (r : R) :
    (Returns bits r ↔ ∃ t r', Takes r t r' ∧ t.length < 2 ^ bits ∧ Refuses r') ∧
    ∀ t, unread r = front t .nil → t.length < 2 ^ bits →
      (PendsAtEnd r → Returns bits r) ∧
      (EofAtEnd r →
        (Returns bits r ↔ ∃ t' r', Takes r t' r' ∧ unread r' ≠ .nil ∧ Refuses r')) := by
  refine ⟨returns_iff bits r, fun t hUnread hFits => ⟨fun hEnd => ?_, fun hEnd => ?_⟩⟩
  · obtain ⟨t', r', hTakes, hRefuses, hLe⟩ := hEnd.refuses .refl hUnread
    exact (returns_iff bits r).mpr ⟨t', r', hTakes, Nat.lt_of_le_of_lt hLe hFits, hRefuses⟩
  · rw [returns_iff]
    constructor
    · rintro ⟨t', r', hTakes, -, r'', hRefuses⟩
      refine ⟨t', r', hTakes, fun hNil => ?_, r'', hRefuses⟩
      obtain ⟨r₃, hEmpty⟩ := hEnd t' r' hTakes hNil
      rcases hRefuses with hPending | ⟨e, hError⟩
      · cases hEmpty.symm.trans hPending
      · cases hEmpty.symm.trans hError
    · rintro ⟨t', r', hTakes, -, hRefuses⟩
      refine ⟨t', r', hTakes, Nat.lt_of_le_of_lt ?_ hFits, hRefuses⟩
      exact length_le_of_front (hTakes.consumed.2.symm.trans hUnread)

theorem drain_poll_pending :
    Returns 32 (⟨[some [1, 2], some [3]], 0⟩ : Script .pending) := by
  have hEnd : PendsAtEnd (⟨[some [1, 2], some [3]], 0⟩ : Script .pending) := by
    rintro - ⟨as, n⟩ - hNil
    exact ⟨_, Prod.ext rfl (Script.fill_pending (Script.bytes_of_unread hNil))⟩
  have hUnread : unread (⟨[some [1, 2], some [3]], 0⟩ : Script .pending) = front [1, 2, 3] .nil :=
    Seq.ofList_append [1, 2, 3] []
  exact ((drain_poll 32 _).2 [1, 2, 3] hUnread (by decide)).1 hEnd

/-- No poll of a script without `Pending` refuses, and at its end there is the empty buffer. -/
theorem takes_script {r r' : Script .eof} {t : List UInt8} (h : Takes r t r')
    (hAnswers : ∀ a ∈ r.answers, a ≠ none) :
    ∃ r'' buf, pollFillBuf r' = (r'', .ready (.ok buf)) := by
  have hKeeps : ∀ a ∈ r'.answers, a ≠ none := by
    induction h with
    | refl => exact hAnswers
    | @buffer _ buf r₁ r₂ _ hFill ih =>
      obtain ⟨-, -, hRest⟩ := Script.fill_ready ih
      have hNext : (pollFillBuf r₁).1 = r₂ := congrArg Prod.fst hFill
      rw [← hNext]
      exact hRest buf.length
  obtain ⟨buf, hBuf, -⟩ := Script.fill_ready hKeeps
  exact ⟨_, buf, Prod.ext rfl hBuf⟩

/-- A stream of one byte, of which the reader shows the end. -/
theorem drain_poll_eof : unread (⟨[some [1]], 0⟩ : Script .eof) = front [1] .nil ∧
    EofAtEnd (⟨[some [1]], 0⟩ : Script .eof) ∧ ¬ Returns 32 (⟨[some [1]], 0⟩ : Script .eof) := by
  refine ⟨Seq.ofList_append [1] [], ?_, ?_⟩
  · intro t r' hTakes hNil
    obtain ⟨r'', buf, hFill⟩ := takes_script hTakes (by decide)
    obtain ⟨s, hs, -⟩ := unread_buffer hFill
    obtain ⟨rfl, -⟩ := front_eq_nil (hs.symm.trans hNil)
    exact ⟨r'', hFill⟩
  · rw [returns_iff]
    rintro ⟨t, r', hTakes, -, r'', hRefuses⟩
    obtain ⟨r₁, buf, hFill⟩ := takes_script hTakes (by decide)
    rcases hRefuses with hPending | ⟨e, hError⟩
    · cases hFill.symm.trans hPending
    · cases hFill.symm.trans hError

end Drain

end Embassy.Io
