import Embassy.Io.Reads

/-!
# Reading and skipping by a predicate

`embassy/src/io/util/read_while.rs` and `skip_while.rs`.

* `Flow.Takes` — what a pass of either does; `Await.takes` and `Yields.takes`
  carry it to the future.
* `read_while_skip_while` — the bytes read, copied and consumed do not depend on
  how the reader shows them.
-/

namespace Embassy.Io

open Stream' (Seq)
open Lib Util

-- ---------------------------------------------------------------------------
-- The predicate
-- ---------------------------------------------------------------------------

/-- How many bytes of the buffer are before the first that fails `f`, and whether there
is one. -/
def position (f : UInt8 → Bool) (rbuf : List UInt8) : Nat × Bool :=
  match rbuf.findIdx? fun b => !f b with
  | some p => (p, true)
  | none => (rbuf.length, false)

/-- The predicate holds of all bytes, or fails first at the position. -/
theorem position_cases (f : UInt8 → Bool) (rbuf : List UInt8) :
    (∀ b ∈ rbuf, f b = true) ∧ position f rbuf = (rbuf.length, false) ∨
      ∃ c b rest, rbuf = c ++ b :: rest ∧ (∀ b ∈ c, f b = true) ∧ f b = false ∧
        position f rbuf = (c.length, true) := by
  have hNone : ∀ c : List UInt8, (∀ b ∈ c, f b = true) → c.findIdx? (fun b => !f b) = none := by
    intro c hAll
    simpa [List.findIdx?_eq_none_iff] using hAll
  have hTake : ∀ b ∈ rbuf.takeWhile f, f b = true := List.all_eq_true.mp List.all_takeWhile
  have hSplit := List.takeWhile_append_dropWhile (p := f) (l := rbuf)
  unfold position
  -- `position` finds the first byte that fails, if there is one
  cases hDrop : rbuf.dropWhile f with
  | nil =>
    rw [hDrop, List.append_nil] at hSplit
    rw [hSplit] at hTake
    rw [hNone rbuf hTake]
    exact .inl ⟨hTake, rfl⟩
  | cons b rest =>
    have hFails : f b = false := by
      have hNe : rbuf.dropWhile f ≠ [] := hDrop ▸ List.cons_ne_nil b rest
      simpa [hDrop] using List.head_dropWhile_not f hNe
    rw [hDrop] at hSplit
    refine .inr ⟨rbuf.takeWhile f, b, rest, hSplit.symm, hTake, hFails, ?_⟩
    rw [← hSplit, List.findIdx?_append, hNone _ hTake]
    simp [List.findIdx?_cons, hFails, hSplit]

/-- A stream that is at its end, or goes on with a byte that fails `f`. -/
def Stops (f : UInt8 → Bool) (s : Seq UInt8) : Prop := ∀ b s', s = .cons b s' → f b = false

/-- A stretch ends before a byte of which the predicate does not hold. -/
theorem stops_cons {f : UInt8 → Bool} {b : UInt8} {s : Seq UInt8} (h : f b = false) :
    Stops f (.cons b s) := by
  intro b' s' hEq
  rw [← (Seq.cons_eq_cons.mp hEq).1]
  exact h

theorem stops_nil {f : UInt8 → Bool} : Stops f .nil := fun _ _ h => absurd h.symm Seq.cons_ne_nil

/-- Bytes that pass `f` are before the place where the stream stops. -/
theorem front_of_stops {f : UInt8 → Bool} {c t : List UInt8} {s stop : Seq UInt8}
    (h : front c s = front t stop) (hAll : ∀ b ∈ c, f b = true) (hStops : Stops f stop) :
    ∃ rest, t = c ++ rest ∧ s = front rest stop := by
  rcases Nat.le_total c.length t.length with hShort | hLong
  · exact front_eq_front h hShort
  · obtain ⟨rest, rfl, hRest⟩ := front_eq_front h.symm hLong
    cases rest with
    | nil => exact ⟨[], by simp, by rw [hRest, front_nil, front_nil]⟩
    | cons b rest =>
      rw [front_cons] at hRest
      have hPass := hAll b (List.mem_append_right t (List.mem_cons_self ..))
      exact absurd hPass (by rw [hStops b _ hRest]; exact Bool.false_ne_true)

section Scans

variable {R : Type} [ByteStream R]

/-- What a call of `poll_fill_buf` returns after the bytes `got`, and where `f` stops in it. -/
inductive Scans (f : UInt8 → Bool) (r : R) (got : List UInt8) : R × Fill → Prop where
  | pending {r' : R} : Scans f r got (r', .pending)
  | error {r' : R} {e : Error} : Consumed r got r' → Scans f r got (r', .ready (.error e))
  | eof {r' : R} : Consumed r got r' → unread r' = .nil → Scans f r got (r', .ready (.ok []))
  | all {r' : R} {rbuf : List UInt8} :
      rbuf ≠ [] → (∀ b ∈ rbuf, f b = true) → position f rbuf = (rbuf.length, false) →
      Consumed r (got ++ rbuf) (consume r' rbuf.length) →
      Scans f r got (r', .ready (.ok rbuf))
  | found {r' : R} {c rest : List UInt8} {b : UInt8} {s : Seq UInt8} :
      (∀ b ∈ c, f b = true) → f b = false → position f (c ++ b :: rest) = (c.length, true) →
      Consumed r (got ++ c) (consume r' c.length) →
      unread (consume r' c.length) = .cons b s →
      Scans f r got (r', .ready (.ok (c ++ b :: rest)))

/-- What a pass finds in the buffer that the reader shows. -/
theorem scans_fill (f : UInt8 → Bool) {r r₁ : R} {got : List UInt8}
    (hConsumed : Consumed r got r₁) : Scans f r got (pollFillBuf r₁) := by
  rcases hFill : pollFillBuf r₁ with ⟨r', (e | rbuf) | _⟩
  · exact .error (hConsumed.fill hFill)
  · obtain ⟨s, hUnread, hEnd⟩ := unread_buffer hFill
    -- an empty buffer is the end of the stream
    by_cases hNil : rbuf = []
    · subst hNil
      rw [front_nil, hEnd rfl] at hUnread
      exact .eof (hConsumed.fill hFill) ((unread_fill hFill).trans hUnread)
    rcases position_cases f rbuf with ⟨hAll, hPos⟩ | ⟨c, b, rest, rfl, hAll, hb, hPos⟩
    · have hAfter := hConsumed.buffer hFill (Nat.le_refl _)
      rw [List.take_length] at hAfter
      exact .all hNil hAll hPos hAfter
    · have hLen : c.length ≤ (c ++ b :: rest).length := by
        rw [List.length_append]
        omega
      have hAfter := hConsumed.buffer hFill hLen
      have hLeft := unread_consume hFill hLen
      rw [List.take_left] at hAfter
      rw [List.drop_left, front_cons] at hLeft
      exact .found hAll hb hPos hAfter hLeft
  · exact .pending

end Scans

section Takes

variable {R : Type} {F : Type*} {α : Type*} [ByteStream R]

/-- A pass of a future that consumes bytes while they pass `f`, and is ready at the first
that does not. -/
def Flow.Takes (r : R) (reader : F → R) (f : UInt8 → Bool) (P : List UInt8 → F → Prop)
    (Q : List UInt8 → F → α → Prop) (w : F) (got : List UInt8) :
    Flow F (Except Error α) → Prop
  | .next g => ∃ c, c ≠ [] ∧ (∀ b ∈ c, f b = true) ∧ Consumed r (got ++ c) (reader g) ∧
      P (got ++ c) g
  | .pending g => pollFillBuf (reader w) = (reader g, .pending) ∧ P got g
  | .ready g (.ok x) => ∃ c b s, (∀ b ∈ c, f b = true) ∧ f b = false ∧
      unread (reader g) = .cons b s ∧ Consumed r (got ++ c) (reader g) ∧ Q (got ++ c) g x
  | .ready g (.error e) => Consumed r got (reader g) ∧
      (e = .unexpectedEof ∧ unread (reader g) = .nil ∨
        pollFillBuf (reader w) = (reader g, .ready (.error e)))
  | .panic => False

variable {body : F → Flow F (Except Error α)} {r : R} {reader : F → R} {f : UInt8 → Bool}
  {P : List UInt8 → F → Prop} {Q : List UInt8 → F → α → Prop} {w w' : F}

/-- The bytes that pass are consumed, and the next does not pass. -/
theorem Await.takes {x : α} (reader : F → R) (h : Await body w w' (.ok x))
    (hReader : reader w = r) (hP : P [] w)
    (hStep : ∀ got w, Consumed r got (reader w) → P got w →
      Flow.Takes r reader f P Q w got (body w)) :
    ∃ t b s, (∀ b ∈ t, f b = true) ∧ f b = false ∧ unread (reader w') = .cons b s ∧
      Consumed r t (reader w') ∧ Q t w' x := by
  -- along the await: what was taken so far all passes the test
  refine h.keeps
    (I := fun w => ∃ got, (∀ b ∈ got, f b = true) ∧ Consumed r got (reader w) ∧ P got w)
    (Q := fun o => ∀ g x, o = .ready g (.ok x) → ∃ t b s, (∀ b ∈ t, f b = true) ∧
      f b = false ∧ unread (reader g) = .cons b s ∧ Consumed r t (reader g) ∧ Q t g x)
    ⟨[], fun _ h => (nomatch h), hReader ▸ .refl, hP⟩ ?_ w' x rfl
  rintro w ⟨got, hGot, hConsumed, hPw⟩
  have hTakes := hStep got w hConsumed hPw
  cases hBody : body w with
  | next g =>
    rw [hBody] at hTakes
    obtain ⟨c, -, hc, hMore, hPg⟩ := hTakes
    exact ⟨got ++ c, List.forall_mem_append.mpr ⟨hGot, hc⟩, hMore, hPg⟩
  | pending g =>
    rw [hBody] at hTakes
    exact ⟨⟨got, hGot, hConsumed.fill hTakes.1, hTakes.2⟩, fun _ _ hEq => nomatch hEq⟩
  | ready g x =>
    rw [hBody] at hTakes
    rintro g x ⟨⟩
    obtain ⟨c, b, s, hc, hb, hUnread, hAfter, hQ⟩ := hTakes
    exact ⟨got ++ c, b, s, List.forall_mem_append.mpr ⟨hGot, hc⟩, hb, hUnread, hAfter, hQ⟩
  | panic => exact fun _ _ hEq => nomatch hEq

/-- Where the stream is known, so is what is consumed. -/
theorem Yields.takes (hOk : Infallible R) (reader : F → R) {live : Prop} {t : List UInt8}
    {stop : Seq UInt8}
    (hUnread : unread r = front t stop) (hAll : ∀ b ∈ t, f b = true) (hStops : Stops f stop)
    (hWaits : live → Delivers r t) (hReader : reader w = r) (hP : P [] w)
    (hStep : ∀ got w, Consumed r got (reader w) → P got w →
      Flow.Takes r reader f P Q w got (body w)) :
    Yields live body w fun g x => Consumed r t (reader g) ∧
      (stop = .nil ∧ x = .error .unexpectedEof ∨ stop ≠ .nil ∧ ∃ y, x = .ok y ∧ Q t g y) := by
  refine Yields.reads reader hReader hP ?_
    fun hLive got todo f _ hSplit hConsumed _ _ => hWaits hLive got todo _ hSplit hConsumed
  rintro got todo w rfl hConsumed hPw
  have hTodo : ∀ b ∈ todo, f b = true := fun b hb => hAll b (List.mem_append_right got hb)
  -- what is left, after more of it
  have hLeft : ∀ c g, Consumed r (got ++ c) (reader g) →
      front c (unread (reader g)) = front todo stop := by
    intro c g hMore
    rw [front_append] at hUnread
    have hEq := hMore.2
    rw [front_append, hConsumed.2] at hEq
    rw [← (front_inj hEq rfl).2]
    exact hConsumed.unread_eq hUnread
  have hPass := hStep got w hConsumed hPw
  cases hBody : body w with
  | next g =>
    rw [hBody] at hPass
    obtain ⟨c, hNe, hc, hMore, hPg⟩ := hPass
    obtain ⟨rest, hRest, -⟩ := front_of_stops (hLeft c g hMore) hc hStops
    exact ⟨c, rest, hRest, hNe, hMore, hPg⟩
  | pending g =>
    rw [hBody] at hPass
    exact hPass
  | ready g x =>
    rw [hBody] at hPass
    cases x with
    | ok x =>
      obtain ⟨c, b, s, hc, hb, hNext, hMore, hQ⟩ := hPass
      obtain ⟨rest, rfl, hRest⟩ := front_of_stops (hLeft c g hMore) hc hStops
      rw [hNext] at hRest
      cases rest with
      | nil =>
        rw [front_nil] at hRest
        rw [List.append_nil]
        exact ⟨hMore, .inr ⟨hRest ▸ Seq.cons_ne_nil, x, rfl, hQ⟩⟩
      | cons b' rest =>
        rw [front_cons] at hRest
        have hSame := (Seq.cons_eq_cons.mp hRest).1
        have hFails := hTodo b' (List.mem_append_right c (List.mem_cons_self ..))
        rw [← hSame, hb] at hFails
        cases hFails
    | error e =>
      obtain ⟨hSame, ⟨rfl, hNil⟩ | hError⟩ := hPass
      · have hEnd := hLeft [] g (by rwa [List.append_nil])
        rw [front_nil, hNil] at hEnd
        obtain ⟨rfl, rfl⟩ := front_eq_nil hEnd.symm
        rw [List.append_nil]
        exact ⟨hSame, .inl ⟨rfl, rfl⟩⟩
      · exact absurd hError (hOk _ _ _)
  | panic =>
    rw [hBody] at hPass
    exact hPass

end Takes

-- ---------------------------------------------------------------------------
-- ReadWhile
-- ---------------------------------------------------------------------------

structure ReadWhile (R : Type) where
  reader : R
  buf : List UInt8
  n : Nat
  f : UInt8 → Bool

namespace ReadWhile

variable {R : Type}

def new (reader : R) (f : UInt8 → Bool) (buf : List UInt8) : ReadWhile R where
  reader := reader
  buf := buf
  n := 0
  f := f

def body [AsyncBufRead R] (w : ReadWhile R) : Flow (ReadWhile R) (Except Error Nat) :=
  match pollFillBuf w.reader with
  | (r, .pending) => .pending { w with reader := r }
  | (r, .ready (.error e)) => .ready { w with reader := r } (.error e)
  | (r, .ready (.ok rbuf)) =>
    if rbuf = [] then .ready { w with reader := r } (.error .unexpectedEof)
    else .orPanic do
      let (p, done) := position w.f rbuf
      let p2 := min p (← checkedSub w.buf.length w.n)
      let buf ← copyFrom w.buf w.n rbuf p2
      -- it is all consumed, even if it does not fit
      let w := { w with reader := consume r p, buf := buf, n := w.n + p2 }
      if done then some (.ready w (.ok w.n)) else some (.next w)

/-- One pass of `read_while` takes the bytes of which the predicate holds. -/
theorem body_takes [ByteStream R] {r : R} {f : UInt8 → Bool} {buf got : List UInt8}
    {w : ReadWhile R} (hConsumed : Consumed r got w.reader) (hBuf : w.buf = filled buf got)
    (hn : w.n = min got.length buf.length) (hf : w.f = f) :
    Flow.Takes r reader f
      (fun got w => w.buf = filled buf got ∧ w.n = min got.length buf.length ∧ w.f = f)
      (fun t w n => n = min t.length buf.length ∧ w.buf = filled buf t) w got w.body := by
  -- the subtraction `buf.len() - n` never underflows
  have hRoom : checkedSub (filled buf got).length (min got.length buf.length) =
      some (buf.length - min got.length buf.length) := by
    unfold checkedSub
    rw [length_filled, if_pos (Nat.min_le_right ..)]
  -- bytes beyond the buffer are taken, and not counted
  have hCount : ∀ c : List UInt8, min got.length buf.length +
      min c.length (buf.length - min got.length buf.length) =
        min (got ++ c).length buf.length := by
    intro c
    rw [List.length_append]
    omega
  have hScans := scans_fill f hConsumed
  unfold body
  generalize hFill : pollFillBuf w.reader = o at hScans
  cases hScans with
  | pending => exact ⟨hFill, hBuf, hn, hf⟩
  | error hSame => exact ⟨hSame, .inr hFill⟩
  | eof hSame hEnd => exact ⟨hSame, .inl ⟨rfl, hEnd⟩⟩
  | @all _ rbuf hNe hAll hPos hAfter =>
    have hCopy := copyFrom_filled buf got (Nat.le_refl rbuf.length)
    rw [List.take_length] at hCopy
    simp only [hNe, if_false, hf, hPos, hRoom, hBuf, hn, hCopy, Option.bind_eq_bind,
      Option.bind_some]
    exact ⟨rbuf, hNe, hAll, hAfter, rfl, hCount rbuf, rfl⟩
  -- the byte that fails ends the read, and stays in the stream
  | @found _ c rest b s hAll hb hPos hAfter hNext =>
    have hNe : c ++ b :: rest ≠ [] := List.append_ne_nil_of_right_ne_nil c (List.cons_ne_nil b rest)
    have hLen : c.length ≤ (c ++ b :: rest).length := by
      rw [List.length_append]
      omega
    have hCopy := copyFrom_filled buf got hLen
    rw [List.take_left] at hCopy
    simp only [hNe, if_false, hf, hPos, hRoom, hBuf, hn, hCopy, Option.bind_eq_bind,
      Option.bind_some]
    exact ⟨c, b, s, hAll, hb, hNext, hAfter, hCount c, rfl⟩

/-- What was read when the future returns without an error. -/
theorem ok_consumed [ByteStream R] {r : R} {f : UInt8 → Bool} {buf : List UInt8}
    {w : ReadWhile R} {n : Nat} (h : Await body (.new r f buf) w (.ok n)) :
    ∃ t b s, (∀ b ∈ t, f b = true) ∧ f b = false ∧ unread w.reader = .cons b s ∧
      Consumed r t w.reader ∧ n = min t.length buf.length ∧ w.buf = filled buf t :=
  Await.takes reader (P := fun got w => w.buf = filled buf got ∧
      w.n = min got.length buf.length ∧ w.f = f)
    h rfl ⟨(filled_nil buf).symm, (Nat.zero_min _).symm, rfl⟩
    fun _ _ hConsumed ⟨hBuf, hn, hf⟩ => body_takes hConsumed hBuf hn hf

/-- What is read, when the bytes before `stop` pass `f` and the next does not. -/
theorem yields [ByteStream R] (hOk : Infallible R) {live : Prop} {r : R} {f : UInt8 → Bool}
    {buf t : List UInt8} {stop : Seq UInt8} (hUnread : unread r = front t stop)
    (hAll : ∀ b ∈ t, f b = true) (hStops : Stops f stop) (hWaits : live → Delivers r t) :
    Yields live body (.new r f buf) fun w x => Consumed r t w.reader ∧
      (stop = .nil ∧ x = .error .unexpectedEof ∨
        stop ≠ .nil ∧ ∃ n, x = .ok n ∧ n = min t.length buf.length ∧ w.buf = filled buf t) :=
  Yields.takes hOk reader (P := fun got w => w.buf = filled buf got ∧
      w.n = min got.length buf.length ∧ w.f = f)
    hUnread hAll hStops hWaits rfl ⟨(filled_nil buf).symm, (Nat.zero_min _).symm, rfl⟩
    fun _ _ hConsumed ⟨hBuf, hn, hf⟩ => body_takes hConsumed hBuf hn hf

end ReadWhile

-- ---------------------------------------------------------------------------
-- SkipWhile
-- ---------------------------------------------------------------------------

structure SkipWhile (R : Type) where
  reader : R
  f : UInt8 → Bool

namespace SkipWhile

variable {R : Type}

def new (reader : R) (f : UInt8 → Bool) : SkipWhile R where
  reader := reader
  f := f

def body [AsyncBufRead R] (w : SkipWhile R) : Flow (SkipWhile R) (Except Error Unit) :=
  match pollFillBuf w.reader with
  | (r, .pending) => .pending { w with reader := r }
  | (r, .ready (.error e)) => .ready { w with reader := r } (.error e)
  | (r, .ready (.ok buf)) =>
    if buf = [] then .ready { w with reader := r } (.error .unexpectedEof)
    else
      let (p, done) := position w.f buf
      let w := { w with reader := consume r p }
      if done then .ready w (.ok ()) else .next w

/-- One pass of `skip_while` takes the bytes of which the predicate holds. -/
theorem body_takes [ByteStream R] {r : R} {f : UInt8 → Bool} {got : List UInt8}
    {w : SkipWhile R} (hConsumed : Consumed r got w.reader) (hf : w.f = f) :
    Flow.Takes r reader f (fun _ w => w.f = f) (fun _ _ _ => True) w got w.body := by
  have hScans := scans_fill f hConsumed
  unfold body
  generalize hFill : pollFillBuf w.reader = o at hScans
  cases hScans with
  | pending => exact ⟨hFill, hf⟩
  | error hSame => exact ⟨hSame, .inr hFill⟩
  | eof hSame hEnd => exact ⟨hSame, .inl ⟨rfl, hEnd⟩⟩
  | @all _ rbuf hNe hAll hPos hAfter =>
    simp only [hNe, if_false, hf, hPos]
    exact ⟨rbuf, hNe, hAll, hAfter, rfl⟩
  | @found _ c rest b s hAll hb hPos hAfter hNext =>
    have hNe : c ++ b :: rest ≠ [] := List.append_ne_nil_of_right_ne_nil c (List.cons_ne_nil b rest)
    simp only [hNe, if_false, hf, hPos]
    exact ⟨c, b, s, hAll, hb, hNext, hAfter, trivial⟩

/-- What was skipped when the future returns without an error. -/
theorem ok_consumed [ByteStream R] {r : R} {f : UInt8 → Bool} {w : SkipWhile R} {x : Unit}
    (h : Await body (.new r f) w (.ok x)) :
    ∃ t b s, (∀ b ∈ t, f b = true) ∧ f b = false ∧ unread w.reader = .cons b s ∧
      Consumed r t w.reader := by
  obtain ⟨t, b, s, hAll, hb, hNext, hConsumed, -⟩ :=
    Await.takes reader (P := fun _ w => w.f = f) h rfl rfl
      fun _ _ hConsumed hf => body_takes hConsumed hf
  exact ⟨t, b, s, hAll, hb, hNext, hConsumed⟩

/-- The stretch is skipped, at some time. -/
theorem yields [ByteStream R] (hOk : Infallible R) {live : Prop} {r : R} {f : UInt8 → Bool}
    {t : List UInt8} {stop : Seq UInt8} (hUnread : unread r = front t stop)
    (hAll : ∀ b ∈ t, f b = true) (hStops : Stops f stop) (hWaits : live → Delivers r t) :
    Yields live body (.new r f) fun w x => Consumed r t w.reader ∧
      (stop = .nil ∧ x = .error .unexpectedEof ∨ stop ≠ .nil ∧ x = .ok ()) := by
  refine (Yields.takes hOk reader (P := fun _ w => w.f = f) hUnread hAll hStops hWaits rfl rfl
    fun _ _ hConsumed hf => body_takes hConsumed hf).mono ?_
  rintro w x ⟨hConsumed, hEnd | ⟨hStop, _, rfl, -⟩⟩
  · exact ⟨hConsumed, .inl hEnd⟩
  · exact ⟨hConsumed, .inr ⟨hStop, rfl⟩⟩

end SkipWhile

-- ---------------------------------------------------------------------------
-- Both of them
-- ---------------------------------------------------------------------------

/-- The bytes `t` before the first that fails `f` are read or skipped, however the reader
shows them; if the stream ends before such a byte, all of it is. -/
theorem read_while_skip_while {R : Type} [ByteStream R] (hOk : Infallible R) (r : R)
    (f : UInt8 → Bool) (buf t : List UInt8) (hAll : ∀ b ∈ t, f b = true) :
    (∀ b s, f b = false → unread r = front t (.cons b s) →
      Yields (Arrives R) ReadWhile.body (.new r f buf) (fun w x =>
        x = .ok (min t.length buf.length) ∧
          w.buf = t.take (min t.length buf.length) ++ buf.drop (min t.length buf.length) ∧
          Consumed r t w.reader) ∧
      Yields (Arrives R) SkipWhile.body (.new r f) fun w x =>
        x = .ok () ∧ Consumed r t w.reader) ∧
    (unread r = front t .nil →
      Yields (Responds R) ReadWhile.body (.new r f buf) (fun w x =>
        x = .error .unexpectedEof ∧ Consumed r t w.reader) ∧
      Yields (Responds R) SkipWhile.body (.new r f) fun w x =>
        x = .error .unexpectedEof ∧ Consumed r t w.reader) := by
  constructor
  · intro b s hb hUnread
    have hStop : Seq.cons b s ≠ .nil := Seq.cons_ne_nil
    have hStops : Stops f (.cons b s) := stops_cons hb
    -- more is to come, as the byte that fails is not read yet
    have hWaits : Arrives R → Delivers r t := fun h => h.delivers hUnread hStop
    constructor
    · refine (ReadWhile.yields hOk hUnread hAll hStops hWaits).mono ?_
      rintro w x ⟨hConsumed, ⟨hNil, -⟩ | ⟨-, n, rfl, rfl, hBuf⟩⟩
      · exact absurd hNil hStop
      · exact ⟨rfl, hBuf.trans (filled_eq_min buf t), hConsumed⟩
    · refine (SkipWhile.yields hOk hUnread hAll hStops hWaits).mono ?_
      rintro w x ⟨hConsumed, ⟨hNil, -⟩ | ⟨-, rfl⟩⟩
      · exact absurd hNil hStop
      · exact ⟨rfl, hConsumed⟩
  · intro hUnread
    have hStops : Stops f .nil := stops_nil
    have hWaits : Responds R → Delivers r t := fun h => h.delivers r t
    constructor
    · refine (ReadWhile.yields hOk hUnread hAll hStops hWaits).mono ?_
      rintro w x ⟨hConsumed, ⟨-, hx⟩ | ⟨hNil, -⟩⟩
      · exact ⟨hx, hConsumed⟩
      · exact absurd rfl hNil
    · refine (SkipWhile.yields hOk hUnread hAll hStops hWaits).mono ?_
      rintro w x ⟨hConsumed, ⟨-, hx⟩ | ⟨hNil, -⟩⟩
      · exact ⟨hx, hConsumed⟩
      · exact absurd rfl hNil

/-- A line is read in three parts, and is longer than the buffer; a stream without an LF is
skipped to its end. -/
theorem read_while_skip_while_line :
    (∃ w x, Await ReadWhile.body
      (.new (⟨[none, some [97, 98], none, some [99, 10, 100]], 0⟩ : Script .eof) (· != 10) [0, 0])
        w x ∧ x = .ok 2 ∧ w.buf = [97, 98] ∧ w.reader.read = 3) ∧
    ∃ w x, Await SkipWhile.body (.new (⟨[none, some [97, 98]], 0⟩ : Script .eof) (· != 10)) w x ∧
      x = .error .unexpectedEof ∧ w.reader.read = 2 := by
  have hOk : Infallible (Script .eof) := Script.infallible fun _ h => nomatch h
  constructor
  · have hUnread : unread (⟨[none, some [97, 98], none, some [99, 10, 100]], 0⟩ : Script .eof) =
        front [97, 98, 99] (.cons 10 (.ofList [100])) := by
      rw [← Seq.ofList_cons]
      exact Seq.ofList_append [97, 98, 99] [10, 100]
    obtain ⟨hPost, hTotal⟩ := ((read_while_skip_while hOk _ (· != 10) [0, 0] [97, 98, 99]
      (by simp)).1 10 _ rfl hUnread).1
    obtain ⟨w, x, hAwait⟩ := hTotal Script.arrives
    obtain ⟨hx, hBuf, hConsumed⟩ := hPost w x hAwait
    exact ⟨w, x, hAwait, hx, hBuf, hConsumed.1⟩
  · have hUnread : unread (⟨[none, some [97, 98]], 0⟩ : Script .eof) = front [97, 98] .nil :=
      Seq.ofList_append [97, 98] []
    obtain ⟨hPost, hTotal⟩ := ((read_while_skip_while hOk _ (· != 10) [] [97, 98]
      (by simp)).2 hUnread).2
    obtain ⟨w, x, hAwait⟩ := hTotal (Script.responds fun h => nomatch h)
    obtain ⟨hx, hConsumed⟩ := hPost w x hAwait
    exact ⟨w, x, hAwait, hx, hConsumed.1⟩

end Embassy.Io
