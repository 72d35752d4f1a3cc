import Embassy.Io.Reads

/-!
# Filling a buffer

`embassy/src/io/util/read_exact.rs` and `read_to_end.rs`. `ReadExact` keeps the rest of the
buffer as a slice that gets shorter, `ReadToEnd` keeps how much of it is filled.

* `read_exact_read_to_end` — what is read, copied and consumed does not depend on how the
  reader shows it.
-/

namespace Embassy.Io

open Stream' (Seq)
open Lib Util

/-- What is taken of a buffer that is shown is next in the stream. -/
theorem exists_eq_take_append {rbuf todo : List UInt8} {s stop : Seq UInt8} {n : Nat}
    (h : front rbuf s = front todo stop) (hn : n ≤ rbuf.length)
    (hRoom : n ≤ todo.length ∨ stop = .nil) : ∃ rest, todo = rbuf.take n ++ rest := by
  have hShort : (rbuf.take n).length ≤ todo.length := by
    rw [List.length_take_of_le hn]
    rcases hRoom with hRoom | rfl
    · exact hRoom
    · exact Nat.le_trans hn (length_le_of_front h)
  rw [← List.take_append_drop n rbuf, front_append] at h
  obtain ⟨rest, hRest, -⟩ := front_eq_front h hShort
  exact ⟨rest, hRest⟩

-- ---------------------------------------------------------------------------
-- ReadExact
-- ---------------------------------------------------------------------------

/-- The destination is `stored`, which is filled, and the slice `buf`. -/
structure ReadExact (R : Type) where
  reader : R
  stored : List UInt8
  buf : List UInt8

namespace ReadExact

variable {R : Type}

def new (reader : R) (buf : List UInt8) : ReadExact R where
  reader := reader
  stored := []
  buf := buf

def body [AsyncBufRead R] (this : ReadExact R) : Flow (ReadExact R) (Except Error Unit) :=
  if this.buf = [] then .ready this (.ok ())
  else
    match pollFillBuf this.reader with
    | (r, .pending) => .pending { this with reader := r }
    | (r, .ready (.error e)) => .ready { this with reader := r } (.error e)
    | (r, .ready (.ok buf)) =>
      if buf = [] then .ready { this with reader := r } (.error .unexpectedEof)
      else .orPanic do
        let n := min this.buf.length buf.length
        let dest ← copyFrom this.buf 0 buf n
        -- `split_at_mut`
        some (.next ⟨consume r n, this.stored ++ dest.take n, dest.drop n⟩)

variable [ByteStream R]

theorem yields (hOk : Infallible R) {live : Prop} {r : R} {t buf : List UInt8}
    {stop : Seq UInt8} (hUnread : unread r = front t stop)
    (hLen : t.length = buf.length ∨ t.length < buf.length ∧ stop = .nil)
    (hWaits : live → ∀ got todo r', t = got ++ todo → Consumed r got r' →
      got.length < buf.length → Acc Pends r') :
    Yields live body (.new r buf) fun w x => Consumed r t w.reader ∧
      w.stored ++ w.buf = t ++ buf.drop t.length ∧
      (t.length = buf.length ∧ x = .ok () ∨ t.length < buf.length ∧ x = .error .unexpectedEof) := by
  -- after each pass the buffer is filled up to what was read
  refine Yields.reads reader (t := t)
    (P := fun got w => w.stored = got ∧ w.buf = buf.drop got.length) rfl ⟨rfl, rfl⟩ ?_ ?_
  · rintro got todo w rfl hConsumed ⟨hStored, hBuf⟩
    rw [List.length_append] at hLen
    have hSlice : w.buf.length = buf.length - got.length := by rw [hBuf, List.length_drop]
    unfold body
    -- the buffer is full: the future ends
    by_cases hFull : w.buf = []
    · simp only [hFull, if_true]
      rw [hFull, List.length_nil] at hSlice
      have hTodo : todo = [] := List.eq_nil_of_length_eq_zero (by omega)
      rw [hTodo, List.length_nil] at hLen
      rw [hTodo, List.append_nil]
      exact ⟨hConsumed, by rw [hStored, hBuf], .inl ⟨by omega, rfl⟩⟩
    have hRoom := List.length_pos_iff.mpr hFull
    simp only [hFull, if_false]
    have hShows := shows_fill hOk hConsumed hUnread
    generalize hFill : pollFillBuf w.reader = o at hShows
    cases hShows with
    | pending => exact ⟨hFill, hStored, hBuf⟩
    | eof hTodo hStop hEnd =>
      rw [hTodo, List.length_nil] at hLen
      rw [hTodo, List.append_nil]
      exact ⟨hEnd, by rw [hStored, hBuf], .inr ⟨by omega, rfl⟩⟩
    -- as many bytes as are there and fit
    | @bytes r' rbuf s hNe hFront hBytes =>
      have hPos := List.length_pos_iff.mpr hNe
      generalize hn : min w.buf.length rbuf.length = n
      have hCopy : copyFrom w.buf 0 rbuf n = some (rbuf.take n ++ w.buf.drop n) := by
        unfold copyFrom
        rw [if_pos ⟨by omega, by omega⟩, List.take_zero, List.nil_append, Nat.zero_add]
      have hTake : (rbuf.take n).length = n := List.length_take_of_le (by omega)
      obtain ⟨rest, hRest⟩ := exists_eq_take_append (n := n) hFront (by omega)
        (hLen.imp (fun h => by omega) And.right)
      simp only [hNe, if_false, hn, hCopy, Option.bind_eq_bind, Option.bind_some]
      refine ⟨rbuf.take n, rest, hRest, ?_, hBytes n (by omega), ?_, ?_⟩
      · exact List.ne_nil_of_length_pos (by omega)
      · show w.stored ++ _ = _
        rw [List.take_left' hTake, hStored]
      · show List.drop n _ = _
        rw [List.drop_left' hTake, hBuf, List.drop_drop, List.length_append, hTake]
  · rintro hLive got todo w g hSplit hConsumed ⟨hStored, hBuf⟩ hPending
    refine hWaits hLive got todo _ hSplit hConsumed (Nat.lt_of_not_le fun hFull => ?_)
    unfold body at hPending
    rw [hBuf, List.drop_of_length_le hFull, if_pos rfl] at hPending
    cases hPending

end ReadExact

-- ---------------------------------------------------------------------------
-- ReadToEnd
-- ---------------------------------------------------------------------------

structure ReadToEnd (R : Type) where
  reader : R
  buf : List UInt8
  n : Nat

namespace ReadToEnd

variable {R : Type}

def new (reader : R) (buf : List UInt8) : ReadToEnd R where
  reader := reader
  buf := buf
  n := 0

def body [AsyncBufRead R] (w : ReadToEnd R) : Flow (ReadToEnd R) (Except Error Nat) :=
  match pollFillBuf w.reader with
  | (r, .pending) => .pending { w with reader := r }
  | (r, .ready (.error e)) => .ready { w with reader := r } (.error e)
  | (r, .ready (.ok rbuf)) =>
    if rbuf = [] then .ready { w with reader := r } (.ok w.n)
    else if w.n = w.buf.length then .ready { w with reader := r } (.error .truncated)
    else .orPanic do
      let p := min rbuf.length (← checkedSub w.buf.length w.n)
      let buf ← copyFrom w.buf w.n rbuf p
      some (.next ⟨consume r p, buf, w.n + p⟩)

variable [ByteStream R]

theorem yields (hOk : Infallible R) {live : Prop} {r : R} {t buf : List UInt8}
    {stop : Seq UInt8} (hUnread : unread r = front t stop) (hLe : t.length ≤ buf.length)
    (hLen : stop = .nil ∨ t.length = buf.length) (hWaits : live → Delivers r t) :
    Yields live body (.new r buf) fun w x => Consumed r t w.reader ∧
      w.buf = t ++ buf.drop t.length ∧
      (stop = .nil ∧ x = .ok t.length ∨ stop ≠ .nil ∧ x = .error .truncated) := by
  -- after each pass the buffer holds what was read, and the rest of the old one
  refine Yields.reads reader (t := t)
    (P := fun got w => w.buf = filled buf got ∧ w.n = got.length)
    rfl ⟨(filled_nil buf).symm, rfl⟩ ?_
    fun hLive got todo f _ hSplit hConsumed _ _ => hWaits hLive got todo _ hSplit hConsumed
  rintro got todo w rfl hConsumed ⟨hBuf, hn⟩
  rw [List.length_append] at hLe hLen
  have hGot : got.length ≤ buf.length := by omega
  have hShows := shows_fill hOk hConsumed hUnread
  unfold body
  generalize hFill : pollFillBuf w.reader = o at hShows
  cases hShows with
  | pending => exact ⟨hFill, hBuf, hn⟩
  -- the end of the stream ends the read
  | eof hTodo hStop hEnd =>
    rw [hTodo, List.append_nil]
    exact ⟨hEnd, hBuf.trans (filled_of_le hGot), .inl ⟨hStop, congrArg Except.ok hn⟩⟩
  | @bytes r' rbuf s hNe hFront hBytes =>
    have hPos := List.length_pos_iff.mpr hNe
    simp only [hNe, if_false, hBuf, hn, length_filled]
    by_cases hFull : got.length = buf.length
    · -- there is more than fits
      have hTodo : todo = [] := List.eq_nil_of_length_eq_zero (by omega)
      rw [hTodo, front_nil] at hFront
      have hMore : stop ≠ .nil := fun hNil => hNe (front_eq_nil (hFront.trans hNil)).1
      simp only [hFull, if_true]
      rw [hTodo, List.append_nil]
      exact ⟨hConsumed.fill hFill, filled_of_le hGot, .inr ⟨hMore, rfl⟩⟩
    generalize hp : min rbuf.length (buf.length - got.length) = p
    have hCopy : copyFrom (filled buf got) got.length rbuf p =
        some (filled buf (got ++ rbuf.take p)) := by
      have hFilled := copyFrom_filled buf got (show p ≤ rbuf.length by omega)
      rwa [Nat.min_eq_left hGot, Nat.min_eq_left (by omega)] at hFilled
    have hSub : checkedSub buf.length got.length = some (buf.length - got.length) := if_pos hGot
    obtain ⟨rest, hRest⟩ := exists_eq_take_append (n := p) hFront (by omega)
      (hLen.symm.imp (fun h => by omega) id)
    simp only [hFull, if_false, hSub, hp, hCopy, Option.bind_eq_bind, Option.bind_some]
    refine ⟨rbuf.take p, rest, hRest, ?_, hBytes p (by omega), rfl, ?_⟩
    · refine List.ne_nil_of_length_pos ?_
      rw [List.length_take]
      omega
    · show _ = (got ++ rbuf.take p).length
      rw [List.length_append, List.length_take_of_le (by omega)]

end ReadToEnd

-- ---------------------------------------------------------------------------
-- Both of them
-- ---------------------------------------------------------------------------

/-- A stream has as many bytes as the buffer, or fewer, and the bytes `t` that it has up to
there are read, however the reader shows them. -/
theorem read_exact_read_to_end {R : Type} [ByteStream R] (hOk : Infallible R) (r : R)
    (buf : List UInt8) :
    (∃ t s, unread r = front t s ∧ (t.length = buf.length ∨ t.length < buf.length ∧ s = .nil)) ∧
    ∀ t s, unread r = front t s →
      (t.length = buf.length → Yields (Arrives R) ReadExact.body (.new r buf) fun w x =>
        x = .ok () ∧ w.stored ++ w.buf = t ∧ Consumed r t w.reader) ∧
      (t.length < buf.length → s = .nil →
        Yields (Responds R) ReadExact.body (.new r buf) fun w x =>
          x = .error .unexpectedEof ∧ w.stored ++ w.buf = t ++ buf.drop t.length ∧
            Consumed r t w.reader) ∧
      (t.length ≤ buf.length → s = .nil →
        Yields (Responds R) ReadToEnd.body (.new r buf) fun w x =>
          x = .ok t.length ∧ w.buf = t ++ buf.drop t.length ∧ Consumed r t w.reader) ∧
      (t.length = buf.length → s ≠ .nil →
        Yields (Arrives R) ReadToEnd.body (.new r buf) fun w x =>
          x = .error .truncated ∧ w.buf = t ∧ Consumed r t w.reader) := by
  refine ⟨exists_front _ _, fun t s hUnread => ⟨?_, ?_, ?_, ?_⟩⟩
  · intro hLen
    -- as long as the buffer is not full, the stream has more
    have hWaits : Arrives R → ∀ got todo r', t = got ++ todo → Consumed r got r' →
        got.length < buf.length → Acc Pends r' := by
      rintro hArrives got todo r' rfl hConsumed hMore
      refine hArrives r' fun hNil => ?_
      rw [front_append] at hUnread
      rw [hConsumed.unread_eq hUnread] at hNil
      rw [(front_eq_nil hNil).1, List.append_nil] at hLen
      omega
    refine (ReadExact.yields hOk hUnread (.inl hLen) hWaits).mono ?_
    rintro w x ⟨hConsumed, hBuf, ⟨-, hx⟩ | ⟨hShort, -⟩⟩
    · refine ⟨hx, hBuf.trans ?_, hConsumed⟩
      rw [hLen, List.drop_length, List.append_nil]
    · omega
  · intro hShort hEnd
    refine (ReadExact.yields hOk hUnread (.inr ⟨hShort, hEnd⟩) fun h _ _ r' _ _ _ => h r').mono ?_
    rintro w x ⟨hConsumed, hBuf, ⟨hLen, -⟩ | ⟨-, hx⟩⟩
    · omega
    · exact ⟨hx, hBuf, hConsumed⟩
  · intro hLe hEnd
    refine (ReadToEnd.yields hOk hUnread hLe (.inl hEnd) fun h => h.delivers r t).mono ?_
    rintro w x ⟨hConsumed, hBuf, ⟨-, hx⟩ | ⟨hMore, -⟩⟩
    · exact ⟨hx, hBuf, hConsumed⟩
    · exact absurd hEnd hMore
  · intro hLen hMore
    refine (ReadToEnd.yields hOk hUnread (Nat.le_of_eq hLen) (.inr hLen)
      fun h => h.delivers hUnread hMore).mono ?_
    rintro w x ⟨hConsumed, hBuf, ⟨hEnd, -⟩ | ⟨-, hx⟩⟩
    · exact absurd hEnd hMore
    · refine ⟨hx, hBuf.trans ?_, hConsumed⟩
      rw [hLen, List.drop_length, List.append_nil]

/-- A buffer for two bytes, of a stream of three that comes in two parts. -/
theorem read_exact_read_to_end_two :
    (∃ (w : ReadExact (Script .eof)) (x : Except Error Unit),
      Await ReadExact.body (.new ⟨[some [1], none, some [2, 3]], 0⟩ [0, 0]) w x ∧
        x = .ok () ∧ w.stored ++ w.buf = [1, 2] ∧ w.reader.read = 2) ∧
    ∃ (w : ReadToEnd (Script .eof)) (x : Except Error Nat),
      Await ReadToEnd.body (.new ⟨[some [1], none, some [2, 3]], 0⟩ [0, 0]) w x ∧
        x = .error .truncated ∧ w.buf = [1, 2] ∧ w.reader.read = 2 := by
  have hOk : Infallible (Script .eof) := Script.infallible fun _ h => nomatch h
  obtain ⟨-, hRead⟩ := read_exact_read_to_end hOk ⟨[some [1], none, some [2, 3]], 0⟩ [0, 0]
  obtain ⟨hExact, -, -, hMore⟩ :=
    hRead [1, 2] (.ofList [3]) (Seq.ofList_append [1, 2] [3])
  obtain ⟨hPost, hTotal⟩ := hExact rfl
  obtain ⟨w, x, hAwait⟩ := hTotal Script.arrives
  obtain ⟨hPost', hTotal'⟩ := hMore rfl (by rw [Seq.ofList_cons]; exact Seq.cons_ne_nil)
  obtain ⟨w', x', hAwait'⟩ := hTotal' Script.arrives
  obtain ⟨hx, hBuf, hConsumed⟩ := hPost w x hAwait
  obtain ⟨hx', hBuf', hConsumed'⟩ := hPost' w' x' hAwait'
  exact ⟨⟨w, x, hAwait, hx, hBuf, hConsumed.1⟩, w', x', hAwait', hx', hBuf', hConsumed'.1⟩

end Embassy.Io
