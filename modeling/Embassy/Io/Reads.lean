import Embassy.Io.Traits
import Embassy.Lib.Future

/-!
# Futures that read

What the futures of `embassy/src/io/util` have in common that read into a buffer.

* `Flow.Reads` / `Yields.reads` — what is to be proved of one pass of such a
  future, and what follows for the future.
* `Shows` — what the reader can show in a pass.
* `filled` — a buffer with bytes written to its beginning, as far as they fit.
-/

namespace Embassy.Io

open Stream' (Seq)
open Lib Util

section Reads

variable {R : Type} {F α : Type*} [ByteStream R]

/-- A pass, after which the bytes `got` of `got ++ todo` were consumed and `P` holds, goes
on with more of them, or waits for the reader, or ends with `Q`. -/
def Flow.Reads (r : R) (reader : F → R) (P : List UInt8 → F → Prop) (Q : F → α → Prop) (f : F)
    (got todo : List UInt8) : Flow F α → Prop
  | .next g => ∃ c rest, todo = c ++ rest ∧ c ≠ [] ∧ Consumed r (got ++ c) (reader g) ∧
      P (got ++ c) g
  | .pending g => pollFillBuf (reader f) = (reader g, .pending) ∧ P got g
  | .ready g x => Q g x
  | .panic => False

/-- `Pending` is not returned forever until the bytes `t` are consumed, nor right after. -/
def Delivers (r : R) (t : List UInt8) : Prop :=
  ∀ got todo r', t = got ++ todo → Consumed r got r' → Acc Pends r'

/-- A reader that always answers delivers everything. -/
theorem Responds.delivers (h : Responds R) (r : R) (t : List UInt8) : Delivers r t :=
  fun _ _ r' _ _ => h r'

/-- A reader delivers the bytes before those that still arrive. -/
theorem Arrives.delivers (h : Arrives R) {r : R} {t : List UInt8} {stop : Seq UInt8}
    (hUnread : unread r = front t stop) (hStop : stop ≠ .nil) : Delivers r t := by
  intro got todo r' hSplit hConsumed
  rw [hSplit, front_append] at hUnread
  refine h r' fun hNil => hStop ?_
  rw [hConsumed.unread_eq hUnread] at hNil
  exact (front_eq_nil hNil).2

/-- From one pass to the future: every pass consumes a byte of the stretch, ends, or waits for the
reader. -/
theorem Yields.reads {live : Prop} {body : F → Flow F α} {r : R} {t : List UInt8}
    (reader : F → R) {P : List UInt8 → F → Prop} {Q : F → α → Prop} {f : F}
    (hReader : reader f = r) (hP : P [] f)
    (hStep : ∀ got todo f, t = got ++ todo → Consumed r got (reader f) → P got f →
      Flow.Reads r reader P Q f got todo (body f))
    (hWaits : live → ∀ got todo f g, t = got ++ todo → Consumed r got (reader f) → P got f →
      body f = .pending g → Acc Pends (reader f)) :
    Yields live body f Q := by
  refine .intro (fun f => ∃ got todo, t = got ++ todo ∧ Consumed r got (reader f) ∧ P got f)
    (fun f => consumed r + t.length - consumed (reader f))
    (fun g f => body f = .pending g ∧ Pends (reader g) (reader f))
    ⟨[], t, rfl, hReader ▸ .refl, hP⟩ ?_ ?_
  · rintro f ⟨got, todo, rfl, hConsumed, hPf⟩
    have hPass := hStep got todo f rfl hConsumed hPf
    cases hBody : body f with
    | next g =>
      rw [hBody] at hPass
      obtain ⟨c, rest, rfl, hNe, hMore, hPg⟩ := hPass
      refine ⟨⟨got ++ c, rest, (List.append_assoc ..).symm, hMore, hPg⟩, ?_⟩
      have hPos := List.length_pos_iff.mpr hNe
      have hCount := hMore.1
      have hBefore := hConsumed.1
      simp only [List.length_append] at hCount ⊢
      omega
    | pending g =>
      rw [hBody] at hPass
      obtain ⟨hFill, hPg⟩ := hPass
      have hSame := hConsumed.fill hFill
      refine ⟨⟨got, todo, rfl, hSame, hPg⟩, ?_, hBody, hFill⟩
      show _ - consumed (reader g) = _ - consumed (reader f)
      rw [hSame.1, hConsumed.1]
    | ready g x =>
      rw [hBody] at hPass
      exact hPass
    | panic =>
      rw [hBody] at hPass
      exact hPass
  · rintro hLive f ⟨got, todo, hSplit, hConsumed, hPf⟩
    -- only a pass that returns `Pending` waits
    refine ⟨f, fun g hg => ?_⟩
    have hAcc := hWaits hLive got todo f g hSplit hConsumed hPf hg.1
    have hSub : Subrelation (fun g f => body f = .pending g ∧ Pends (reader g) (reader f))
        (InvImage Pends reader) := fun h => h.2
    exact (hSub.accessible (InvImage.accessible reader hAcc)).inv hg

/-- What a call of `poll_fill_buf` returns after the bytes `got`, of a stream that begins
with `got ++ todo` and goes on with `stop`. -/
inductive Shows (r : R) (got todo : List UInt8) (stop : Seq UInt8) : R × Fill → Prop where
  | pending {r' : R} : Shows r got todo stop (r', .pending)
  | eof {r' : R} : todo = [] → stop = .nil → Consumed r got r' →
      Shows r got todo stop (r', .ready (.ok []))
  | bytes {r' : R} {rbuf : List UInt8} {s : Seq UInt8} :
      rbuf ≠ [] → front rbuf s = front todo stop →
      (∀ n ≤ rbuf.length, Consumed r (got ++ rbuf.take n) (consume r' n)) →
      Shows r got todo stop (r', .ready (.ok rbuf))

/-- A reader without errors shows the next bytes of the stretch or what stops it. -/
theorem shows_fill (hOk : Infallible R) {r r₁ : R} {got todo : List UInt8} {stop : Seq UInt8}
    (hConsumed : Consumed r got r₁) (hUnread : unread r = front (got ++ todo) stop) :
    Shows r got todo stop (pollFillBuf r₁) := by
  have hRest : unread r₁ = front todo stop := by
    rw [front_append] at hUnread
    exact hConsumed.unread_eq hUnread
  rcases hFill : pollFillBuf r₁ with ⟨r', (e | _ | ⟨b, rbuf⟩) | _⟩
  · exact absurd hFill (hOk _ _ _)
  · obtain ⟨s, hs, hEnd⟩ := unread_buffer hFill
    rw [front_nil, hEnd rfl] at hs
    obtain ⟨rfl, rfl⟩ := front_eq_nil (hRest.symm.trans hs)
    exact .eof rfl rfl (hConsumed.fill hFill)
  · obtain ⟨s, hs, -⟩ := unread_buffer hFill
    exact .bytes (List.cons_ne_nil b rbuf) (hs.symm.trans hRest) fun n hn =>
      hConsumed.buffer hFill hn
  · exact .pending

end Reads

-- ---------------------------------------------------------------------------
-- Buffers that are filled
-- ---------------------------------------------------------------------------

/-- The buffer, with `t` written to its beginning as far as it fits. -/
def filled (buf t : List UInt8) : List UInt8 := t.take buf.length ++ buf.drop t.length

section Filled

variable {buf got rbuf : List UInt8} {p : Nat}

@[simp]
theorem filled_nil (buf : List UInt8) : filled buf [] = buf := by
  unfold filled
  rw [List.take_nil]
  rfl

/-- A buffer keeps its length. -/
@[simp]
theorem length_filled (buf t : List UInt8) : (filled buf t).length = buf.length := by
  unfold filled
  rw [List.length_append, List.length_take, List.length_drop]
  omega

/-- Bytes that fit are in front of what was there. -/
theorem filled_of_le (h : got.length ≤ buf.length) :
    filled buf got = got ++ buf.drop got.length := by
  unfold filled
  rw [List.take_of_length_le h]

/-- Bytes that do not fit are cut. -/
theorem filled_of_ge (h : buf.length ≤ got.length) : filled buf got = got.take buf.length := by
  unfold filled
  rw [List.drop_of_length_le h, List.append_nil]

theorem filled_eq_min (buf t : List UInt8) :
    filled buf t = t.take (min t.length buf.length) ++ buf.drop (min t.length buf.length) := by
  rcases Nat.le_total buf.length t.length with hFull | hRoom
  · rw [filled_of_ge hFull, Nat.min_eq_right hFull, List.drop_length, List.append_nil]
  · rw [filled_of_le hRoom, Nat.min_eq_left hRoom, List.take_length]

/-- More bytes are written behind those that are in the buffer. -/
theorem copyFrom_filled (buf got : List UInt8) (hp : p ≤ rbuf.length) :
    copyFrom (filled buf got) (min got.length buf.length) rbuf
      (min p (buf.length - min got.length buf.length)) =
        some (filled buf (got ++ rbuf.take p)) := by
  unfold copyFrom
  rw [if_pos ⟨by rw [length_filled]; omega, by omega⟩]
  congr 1
  rcases Nat.le_total buf.length got.length with hFull | hRoom
  · -- nothing fits
    have hMore : buf.length ≤ (got ++ rbuf.take p).length := by
      rw [List.length_append]
      omega
    have hLen : (got.take buf.length).length = buf.length := List.length_take_of_le hFull
    rw [filled_of_ge hFull, filled_of_ge hMore, Nat.min_eq_right hFull, Nat.sub_self,
      Nat.min_zero, List.take_zero, List.append_nil, Nat.add_zero, List.take_append_drop,
      List.take_append_of_le_length hFull]
  · rw [filled_of_le hRoom, Nat.min_eq_left hRoom, List.take_left, List.drop_append]
    unfold filled
    rw [List.take_append, List.take_of_length_le hRoom, List.take_take, List.length_append,
      List.length_take_of_le hp, List.drop_drop, Nat.min_comm p]
    congr 1
    rw [List.drop_of_length_le (Nat.le_add_right ..), List.nil_append]
    rcases Nat.le_total p (buf.length - got.length) with hFits | hOver
    · congr 1
      omega
    · rw [List.drop_of_length_le (by omega), List.drop_of_length_le (by omega)]

end Filled

end Embassy.Io
