import Embassy.Io.Copy
import Embassy.Io.Reads

/-!
# Everything is forwarded

What `copy_buf.rs` and `write_all.rs` get done in the end, between a reader that shows what
is to come and a writer that goes on accepting. The first two waits are not related: while
the writer is busy the reader is polled again, and the other way round.

* `WriteAll.yields` — everything is accepted.
* `CopyBuf.forwards` — everything that is to come is copied.
-/

namespace Embassy.Io

open Stream' (Seq)
open Lib Util

section Writers

variable (W : Type) [AsyncWrite W]

/-- A writer does not fail, and accepts something of what it is given. -/
def Reliable : Prop :=
  ∀ (w w' : W) buf p, pollWrite w buf = (w', .ready p) → ∃ n, p = .ok n ∧ (buf ≠ [] → n ≠ 0)

variable {W}

/-- `Pending` is returned at `w`. -/
def Blocks (w' w : W) : Prop := ∃ buf, pollWrite w buf = (w', .pending)

end Writers

-- ---------------------------------------------------------------------------
-- WriteAll
-- ---------------------------------------------------------------------------

namespace WriteAll

variable {W : Type} [ByteSink W] {w : W} {buf : List UInt8}

theorem yields (hOk : Reliable W) {live : Prop} (hTakes : live → ∀ w : W, Acc Blocks w) :
    Yields live body (.new w buf) fun g x =>
      x = .ok () ∧ accepted g.writer = accepted w ++ buf := by
  have hNew : Sent w buf (.new w buf) := ⟨[], rfl, (List.append_nil _).symm⟩
  refine .intro (Sent w buf) (fun f => f.buf.length) (fun g f => Blocks g.writer f.writer)
    hNew ?_ fun hLive f _ => InvImage.accessible WriteAll.writer (hTakes hLive f.writer)
  rintro f hSent
  have hAll := hSent.all_iff
  obtain ⟨t, hSplit, hAccepted⟩ := hSent
  unfold body
  by_cases hNil : f.buf = []
  · simp only [hNil, if_true]
    exact ⟨rfl, hAll.mpr hNil⟩
  simp only [hNil, if_false]
  -- the writer takes a byte at least, or blocks
  rcases hWrite : pollWrite f.writer f.buf with ⟨w', p | _⟩
  · obtain ⟨n, rfl, hPos⟩ := hOk _ _ _ _ hWrite
    obtain ⟨hLe, hTaken⟩ := accepted_write hWrite
    simp only [hLe, hPos hNil, if_true, if_false]
    refine ⟨⟨t ++ f.buf.take n, ?_, ?_⟩, ?_⟩
    · rw [hSplit, List.append_assoc, List.take_append_drop]
    · rw [hTaken, hAccepted, List.append_assoc]
    · show (f.buf.drop n).length < f.buf.length
      have := hPos hNil
      have := List.length_pos_iff.mpr hNil
      rw [List.length_drop]
      omega
  · have hSame := (accepted_refuse hWrite fun _ h => nomatch h).trans hAccepted
    exact ⟨⟨t, hSplit, hSame⟩, rfl, f.buf, hWrite⟩

end WriteAll

-- ---------------------------------------------------------------------------
-- CopyBuf
-- ---------------------------------------------------------------------------

namespace CopyBuf

variable {R W : Type} [ByteStream R] [ByteSink W] {r : R} {w : W} {bits : Nat} {t : List UInt8}

/-- A return after which nothing is left to read. -/
def Emptied : Flow (CopyBuf R W) (Except Error Nat) → Prop
  | .pending g => unread g.reader = .nil
  | .ready g (.ok _) => unread g.reader = .nil
  | _ => False

/-- What a pass does, between a reader and a writer that do not fail. -/
inductive Pass (bits : Nat) (f : CopyBuf R W) : Flow (CopyBuf R W) (Except Error Nat) → Prop where
  | reads {r' : R} : Pends r' f.reader → Pass bits f (.pending { f with reader := r' })
  | writes {r' : R} {w' : W} : unread r' = unread f.reader → Blocks w' f.writer →
      Pass bits f (.pending { f with reader := r', writer := w' })
  | eof {r' : R} : pollFillBuf f.reader = (r', .ready (.ok [])) → unread r' = .nil →
      Pass bits f (.ready { f with reader := r' } (.ok f.amt))
  | next {r' : R} {w' : W} {c : List UInt8} : c ≠ [] →
      unread f.reader = front c (unread r') → f.amt + c.length < 2 ^ bits →
      Pass bits f (.next ⟨r', w', f.amt + c.length⟩)
  | panic {c : List UInt8} {s : Seq UInt8} : unread f.reader = front c s →
      2 ^ bits ≤ f.amt + c.length → Pass bits f .panic

theorem body_pass (hRead : Infallible R) (hWrite : Reliable W) (f : CopyBuf R W) :
    Pass bits f (f.body bits) := by
  unfold body
  -- one pass: the reader first, then the writer with what it showed
  rcases hFill : pollFillBuf f.reader with ⟨r', (e | buffer) | _⟩
  · exact absurd hFill (hRead _ _ _)
  · obtain ⟨s, hUnread, hEnd⟩ := unread_buffer hFill
    by_cases hNil : buffer = []
    · rw [hNil, front_nil, hEnd hNil] at hUnread
      simp only [hNil, if_true]
      exact .eof (hNil ▸ hFill) ((unread_fill hFill).trans hUnread)
    simp only [hNil, if_false]
    rcases hAnswer : pollWrite f.writer buffer with ⟨w', p | _⟩
    · obtain ⟨n, rfl, hPos⟩ := hWrite _ _ _ _ hAnswer
      obtain ⟨hLe, -⟩ := accepted_write hAnswer
      have hLen : (buffer.take n).length = n := List.length_take_of_le hLe
      have hRest := ((Consumed.refl (r := f.reader)).buffer hFill hLe).2
      rw [List.nil_append] at hRest
      simp only [hPos hNil, if_false]
      unfold checkedAdd
      by_cases hFits : f.amt + n < 2 ^ bits
      · rw [if_pos hFits]
        have hPass : Pass bits f (.next ⟨consume r' n, w', f.amt + (buffer.take n).length⟩) :=
          .next (List.ne_nil_of_length_pos (by have := hPos hNil; omega)) hRest (by rwa [hLen])
        rwa [hLen] at hPass
      · rw [if_neg hFits]
        exact .panic hRest (by rw [hLen]; exact Nat.le_of_not_lt hFits)
    · exact .writes (unread_fill hFill) ⟨buffer, hAnswer⟩
  · exact .reads hFill

/-- A wait is for the reader, or for the writer with the reader polled in between. -/
theorem acc_waits (hRead : Infallible R) (hArrives : Arrives R) (hWrite : Reliable W)
    (hTakes : ∀ w : W, Acc Blocks w) {f : CopyBuf R W} (hMore : unread f.reader ≠ .nil) :
    Acc (fun g f => body bits f = .pending g) f := by
  have hAccW := hTakes f.writer
  generalize hW : f.writer = w at hAccW
  induction hAccW generalizing f with
  | intro w _ ihW =>
    have hAccR := hArrives f.reader hMore
    generalize hR : f.reader = r at hAccR
    induction hAccR generalizing f with
    | intro r _ ihR =>
      refine ⟨f, fun g hPending => ?_⟩
      have hPass : Pass bits f (f.body bits) := body_pass hRead hWrite f
      rw [hPending] at hPass
      cases hPass with
      | reads hPends =>
        have hSame := unread_fill hPends
        exact ihR _ (hR ▸ hPends) (fun hNil => hMore (hSame.symm.trans hNil)) hW rfl
      | writes hSame hBlocks =>
        exact ihW _ (hW ▸ hBlocks) (fun hNil => hMore (hSame.symm.trans hNil)) rfl

/-- A pass, if the rest is dealt with after it. -/
theorem forwards_pass (hRead : Infallible R) (hWrite : Reliable W) {f : CopyBuf R W}
    (hUnread : unread f.reader = front t .nil) (hFits : f.amt + t.length < 2 ^ bits)
    (hRest : ∀ u (g : CopyBuf R W), u.length < t.length → unread g.reader = front u .nil →
      g.amt + u.length < 2 ^ bits → ∃ o, Returned (body bits) g o ∧ Emptied o)
    (hWait : ∀ g, body bits f = .pending g → unread f.reader ≠ .nil →
      unread g.reader = unread f.reader → g.amt = f.amt →
        ∃ o, Returned (body bits) g o ∧ Emptied o) :
    ∃ o, Returned (body bits) f o ∧ Emptied o := by
  have hPass : Pass bits f (f.body bits) := body_pass hRead hWrite f
  -- what one pass leaves, the rest of the copy does
  cases hBody : body bits f with
  | next g =>
    rw [hBody] at hPass
    cases hPass with
    | @next r' w' c hc hAfter hSum =>
      have hEq := hAfter.symm.trans hUnread
      obtain ⟨u, rfl, hLeft⟩ := front_eq_front hEq (length_le_of_front hEq)
      have hPos := List.length_pos_iff.mpr hc
      rw [List.length_append] at hFits
      obtain ⟨o, hReturned, hEmptied⟩ := hRest u ⟨r', w', f.amt + c.length⟩
        (by rw [List.length_append]; omega) hLeft (by show f.amt + c.length + _ < _; omega)
      exact ⟨o, hReturned.next hBody, hEmptied⟩
  | pending g =>
    rw [hBody] at hPass
    have hSame : unread g.reader = unread f.reader ∧ g.amt = f.amt := by
      cases hPass with
      | reads hPends => exact ⟨unread_fill hPends, rfl⟩
      | writes hSame => exact ⟨hSame, rfl⟩
    -- pending with nothing left to read is where the copy ends
    by_cases hMore : unread f.reader = .nil
    · exact ⟨.pending g, .first (.ends hBody fun _ hEq => nomatch hEq), hSame.1.trans hMore⟩
    · obtain ⟨o, hReturned, hEmptied⟩ := hWait g hBody hMore hSame.1 hSame.2
      exact ⟨o, hReturned.pending hBody, hEmptied⟩
  | ready g x =>
    rw [hBody] at hPass
    refine ⟨.ready g x, .first (.ends hBody fun _ hEq => nomatch hEq), ?_⟩
    cases hPass with
    | eof _ hEnd => exact hEnd
  | panic =>
    rw [hBody] at hPass
    cases hPass with
    | panic hFront hOver =>
      have hLen := length_le_of_front (hFront.symm.trans hUnread)
      omega

/-- What is to come is read, however often the one or the other is not ready. -/
theorem forwards_from (hRead : Infallible R) (hArrives : Arrives R) (hWrite : Reliable W)
    (hTakes : ∀ w : W, Acc Blocks w) {f : CopyBuf R W} (hUnread : unread f.reader = front t .nil)
    (hFits : f.amt + t.length < 2 ^ bits) : ∃ o, Returned (body bits) f o ∧ Emptied o := by
  -- on what is left, and then on the waits
  induction hn : t.length using Nat.strong_induction_on generalizing f t with
  | _ n ih =>
    subst hn
    have hRest : ∀ u (g : CopyBuf R W), u.length < t.length → unread g.reader = front u .nil →
        g.amt + u.length < 2 ^ bits → ∃ o, Returned (body bits) g o ∧ Emptied o :=
      fun u g hLess hLeft hSum => ih u.length hLess hLeft hSum rfl
    by_cases hMore : unread f.reader = .nil
    · exact forwards_pass hRead hWrite hUnread hFits hRest fun g _ hNot => absurd hMore hNot
    · have hAcc : Acc (fun g f => body bits f = .pending g) f :=
        acc_waits hRead hArrives hWrite hTakes hMore
      clear hMore ih
      induction hAcc with
      | intro f _ ihWait =>
        refine forwards_pass hRead hWrite hUnread hFits hRest fun g hPending _ hSame hAmt => ?_
        exact ihWait g hPending (hSame.trans hUnread) (hAmt ▸ hFits)

/-- All that is to come is copied in the end, and nothing else. -/
theorem forwards (hRead : Infallible R) (hArrives : Arrives R) (hWrite : Reliable W)
    (hTakes : ∀ w : W, Acc Blocks w) (hUnread : unread r = front t .nil)
    (hFits : t.length < 2 ^ bits) : ∃ o, Returned (body bits) (.new r w) o ∧
      Delivered bits r w o ∧ Emptied o := by
  have hNew : Copied r w (.new r w) := ⟨[], .refl, (List.append_nil _).symm, rfl⟩
  obtain ⟨o, hReturned, hEmptied⟩ := forwards_from (f := .new r w) hRead hArrives hWrite hTakes
    hUnread (by rwa [show (new r w).amt = 0 from rfl, Nat.zero_add])
  exact ⟨o, hReturned, hReturned.post hNew fun _ => body_copied bits, hEmptied⟩

end CopyBuf

end Embassy.Io
