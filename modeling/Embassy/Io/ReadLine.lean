import Embassy.Io.ReadWhile

/-!
# Reading lines

`embassy/src/io/util/read_byte.rs` and `read_line` of `embassy/src/io/util/mod.rs`,
an `async fn` that awaits four futures one after another.

* `Line` — a line with the empty lines before it and the CRs and the LF after it.
* `read_line_lines` — such lines are read one after another, each into its buffer.
* `read_line_consumed` — the byte after the CRs is consumed whatever it is, so
  what is consumed belongs to one line exactly when that byte is the LF.
-/

namespace Embassy.Io

open Stream' (Seq)
open Lib Util

-- ---------------------------------------------------------------------------
-- ReadByte
-- ---------------------------------------------------------------------------

structure ReadByte (R : Type) where
  reader : R

namespace ReadByte

variable {R : Type}

def new (reader : R) : ReadByte R where
  reader := reader

def body [AsyncBufRead R] (w : ReadByte R) : Flow (ReadByte R) (Except Error UInt8) :=
  match pollFillBuf w.reader with
  | (r, .pending) => .pending ⟨r⟩
  | (r, .ready (.error e)) => .ready ⟨r⟩ (.error e)
  | (r, .ready (.ok rbuf)) =>
    match rbuf with
    | [] => .ready ⟨r⟩ (.error .unexpectedEof)
    | b :: _ => .ready ⟨consume r 1⟩ (.ok b)

variable [ByteStream R]

/-- A byte that is there is read, at some time. -/
theorem yields (hOk : Infallible R) {live : Prop} {r : R} {b : UInt8} {s : Seq UInt8}
    (hUnread : unread r = .cons b s) (hWaits : live → Delivers r []) :
    Yields live body (.new r) fun w x => x = .ok b ∧ Consumed r [b] w.reader := by
  have hFront : unread r = front [] (.cons b s) := hUnread.trans front_nil.symm
  refine Yields.reads reader (P := fun _ _ => True) rfl trivial ?_
    fun hLive got todo f _ hSplit hConsumed _ _ => hWaits hLive got todo _ hSplit hConsumed
  intro got todo w hSplit hConsumed _
  obtain ⟨rfl, rfl⟩ := List.append_eq_nil_iff.mp hSplit.symm
  have hShows := shows_fill hOk hConsumed hFront
  unfold body
  generalize hFill : pollFillBuf w.reader = o at hShows
  cases hShows with
  | pending => exact ⟨hFill, trivial⟩
  | eof _ hNil => exact absurd hNil Seq.cons_ne_nil
  | @bytes r' rbuf s' hNe hFront' hBytes =>
    cases rbuf with
    | nil => exact absurd rfl hNe
    | cons b' rbuf =>
      rw [front_cons, front_nil] at hFront'
      obtain ⟨rfl, -⟩ := Seq.cons_eq_cons.mp hFront'
      exact ⟨rfl, hBytes 1 (Nat.succ_le_succ (Nat.zero_le _))⟩

/-- One byte is consumed, whatever it is. -/
theorem ok_consumed {r : R} {w : ReadByte R} {b : UInt8} (h : Await body (.new r) w (.ok b)) :
    Consumed r [b] w.reader := by
  refine h.keeps (I := fun w => Consumed r [] w.reader)
    (Q := fun o => ∀ g b, o = .ready g (.ok b) → Consumed r [b] g.reader)
    .refl (fun w hConsumed => ?_) w b rfl
  unfold body
  rcases hFill : pollFillBuf w.reader with ⟨r', (e | _ | ⟨b', rbuf⟩) | _⟩
  · exact fun _ _ hEq => nomatch hEq
  · exact fun _ _ hEq => nomatch hEq
  · rintro _ _ ⟨⟩
    exact hConsumed.buffer (n := 1) hFill (Nat.succ_le_succ (Nat.zero_le _))
  · exact ⟨hConsumed.fill hFill, fun _ _ hEq => nomatch hEq⟩

end ReadByte

-- ---------------------------------------------------------------------------
-- read_line
-- ---------------------------------------------------------------------------

/-- `\r` -/
def cr : UInt8 := 13

/-- `\n` -/
def lf : UInt8 := 10

/-- Which future is awaited; those after `read` keep the buffer and `n`. -/
inductive ReadLine (R : Type) where
  | skip (w : SkipWhile R) (buf : List UInt8)
  | read (w : ReadWhile R)
  | skipCr (w : SkipWhile R) (buf : List UInt8) (n : Nat)
  | byte (w : ReadByte R) (buf : List UInt8) (n : Nat)
  | done (reader : R) (buf : List UInt8)

namespace ReadLine

variable {R : Type}

def new (r : R) (buf : List UInt8) : ReadLine R :=
  .skip (.new r fun b => b == cr || b == lf) buf

def reader : ReadLine R → R
  | skip w _ => w.reader
  | read w => w.reader
  | skipCr w _ _ => w.reader
  | byte w _ _ => w.reader
  | done r _ => r

def buf : ReadLine R → List UInt8
  | skip _ buf => buf
  | read w => w.buf
  | skipCr _ buf _ => buf
  | byte _ buf _ => buf
  | done _ buf => buf

def body [AsyncBufRead R] : ReadLine R → Flow (ReadLine R) (Except Error Nat)
  | skip w buf => w.body.stage (skip · buf) fun w x =>
    match x with
    | .error e => .ready (done w.reader buf) (.error e)
    | .ok () => .next (read (.new w.reader (fun b => b != cr && b != lf) buf))
  | read w => w.body.stage read fun w x =>
    match x with
    | .error e => .ready (done w.reader w.buf) (.error e)
    | .ok n => .next (skipCr (.new w.reader fun b => b == cr) w.buf n)
  | skipCr w buf n => w.body.stage (skipCr · buf n) fun w x =>
    match x with
    | .error e => .ready (done w.reader buf) (.error e)
    | .ok () => .next (byte (.new w.reader) buf n)
  | byte w buf n => w.body.stage (byte · buf n) fun w x =>
    match x with
    | .error e => .ready (done w.reader buf) (.error e)
    | .ok _ => .ready (done w.reader buf) (.ok n)
  -- a future is not polled after it was ready
  | done _ _ => .panic

-- ---------------------------------------------------------------------------
-- Lines that end with an LF
-- ---------------------------------------------------------------------------

section Lines

variable [ByteStream R] {r : R} {buf L : List UInt8} {n k : Nat} {b : UInt8} {s : Seq UInt8}

/-- The last stage, at the line feed. -/
theorem byte_yields (hOk : Infallible R) (hUnread : unread r = .cons b s) :
    Yields (Arrives R) body (byte (.new r) buf n) fun g y =>
      y = .ok n ∧ g.buf = buf ∧ Consumed r [b] g.reader := by
  have hWaits : Arrives R → Delivers r [] := fun h =>
    h.delivers (hUnread.trans front_nil.symm) Seq.cons_ne_nil
  refine (ReadByte.yields hOk hUnread hWaits).stage (byte · buf n) (fun _ => rfl) ?_
  rintro w x ⟨rfl, hConsumed⟩
  simp only [resume_ready]
  refine ⟨?_, fun _ => ⟨_, _, rfl, rfl⟩⟩
  rintro g y ⟨rfl, rfl⟩
  exact ⟨rfl, rfl, hConsumed⟩

/-- The stage before it, over any number of carriage returns. -/
theorem skipCr_yields (hOk : Infallible R)
    (hUnread : unread r = front (.replicate k cr) (.cons lf s)) :
    Yields (Arrives R) body (skipCr (.new r fun b => b == cr) buf n) fun g y =>
      y = .ok n ∧ g.buf = buf ∧ Consumed r (.replicate k cr ++ [lf]) g.reader := by
  have hAll : ∀ b ∈ List.replicate k cr, (b == cr) = true := fun b hb =>
    beq_iff_eq.mpr (List.eq_of_mem_replicate hb)
  have hWaits : Arrives R → Delivers r (.replicate k cr) := fun h =>
    h.delivers hUnread Seq.cons_ne_nil
  refine (SkipWhile.yields hOk hUnread hAll (stops_cons rfl) hWaits).andThen (skipCr · buf n)
    (fun _ => rfl) ?_
  rintro w x ⟨hConsumed, ⟨hNil, -⟩ | ⟨-, rfl⟩⟩
  · exact absurd hNil Seq.cons_ne_nil
  · refine ⟨_, rfl, (byte_yields hOk (hConsumed.unread_eq hUnread)).mono ?_⟩
    rintro g y ⟨hy, hBuf, hByte⟩
    exact ⟨hy, hBuf, hConsumed.trans hByte⟩

/-- The text of a line ends at the first carriage return or line feed. -/
theorem stops_crs (k : Nat) (s : Seq UInt8) :
    Stops (fun b => b != cr && b != lf) (front (.replicate k cr) (.cons lf s)) := by
  cases k with
  | zero =>
    rw [List.replicate_zero, front_nil]
    exact stops_cons rfl
  | succ k =>
    rw [List.replicate_succ, front_cons]
    exact stops_cons rfl

/-- The first stage, over the text. -/
theorem read_yields (hOk : Infallible R) (hL : ∀ b ∈ L, b ≠ cr ∧ b ≠ lf)
    (hUnread : unread r = front L (front (.replicate k cr) (.cons lf s))) :
    Yields (Arrives R) body (read (.new r (fun b => b != cr && b != lf) buf)) fun g y =>
      y = .ok (min L.length buf.length) ∧ g.buf = filled buf L ∧
        Consumed r (L ++ (.replicate k cr ++ [lf])) g.reader := by
  have hAll : ∀ b ∈ L, (b != cr && b != lf) = true := fun b hb => by simpa using hL b hb
  have hStop : front (.replicate k cr) (.cons lf s) ≠ .nil := fun h =>
    absurd (front_eq_nil h).2 Seq.cons_ne_nil
  have hStops := stops_crs k s
  have hWaits : Arrives R → Delivers r L := fun h => h.delivers hUnread hStop
  refine (ReadWhile.yields hOk hUnread hAll hStops hWaits).andThen read (fun _ => rfl) ?_
  rintro w x ⟨hConsumed, ⟨hNil, -⟩ | ⟨-, n, rfl, rfl, hBuf⟩⟩
  · exact absurd hNil hStop
  · refine ⟨_, rfl, (skipCr_yields hOk (hConsumed.unread_eq hUnread)).mono ?_⟩
    rintro g y ⟨hy, hBuf', hRest⟩
    exact ⟨hy, hBuf'.trans hBuf, hConsumed.trans hRest⟩

end Lines

end ReadLine

/-- A line, with the empty lines before it and how it ends. -/
structure Line where
  blank : List UInt8
  text : List UInt8
  crs : Nat
  blank_mem : ∀ b ∈ blank, b = cr ∨ b = lf
  text_mem : ∀ b ∈ text, b ≠ cr ∧ b ≠ lf
  text_ne : text ≠ []

def Line.bytes (l : Line) : List UInt8 := l.blank ++ (l.text ++ (.replicate l.crs cr ++ [lf]))

/-- A whole line is read, in three stages. -/
theorem ReadLine.line_yields {R : Type} [ByteStream R] (hOk : Infallible R) {r : R} (l : Line)
    (buf : List UInt8) {rest : Seq UInt8} (hUnread : unread r = front l.bytes rest) :
    Yields (Arrives R) body (new r buf) fun g y => y = .ok (min l.text.length buf.length) ∧
      g.buf = filled buf l.text ∧ Consumed r l.bytes g.reader := by
  -- blank bytes, the text, the line end
  have hSplit : unread r = front l.blank
      (front l.text (front (.replicate l.crs cr) (.cons lf rest))) := by
    rw [hUnread, Line.bytes, front_append, front_append, front_append, front_cons, front_nil]
  have hAll : ∀ b ∈ l.blank, (b == cr || b == lf) = true := fun b hb => by
    simpa using l.blank_mem b hb
  obtain ⟨b, text, hText⟩ := List.exists_cons_of_ne_nil l.text_ne
  have hStop : front l.text (front (.replicate l.crs cr) (.cons lf rest)) ≠ .nil := fun h =>
    l.text_ne (front_eq_nil h).1
  -- the skip stops at the first byte of the text
  have hStops : Stops (fun b => b == cr || b == lf)
      (front l.text (front (.replicate l.crs cr) (.cons lf rest))) := by
    rw [hText, front_cons]
    have hb := l.text_mem b (hText ▸ List.mem_cons_self ..)
    exact stops_cons (by simpa using hb)
  have hWaits : Arrives R → Delivers r l.blank := fun h => h.delivers hSplit hStop
  refine (SkipWhile.yields hOk hSplit hAll hStops hWaits).andThen (skip · buf) (fun _ => rfl) ?_
  rintro w x ⟨hConsumed, ⟨hNil, -⟩ | ⟨-, rfl⟩⟩
  · exact absurd hNil hStop
  · refine ⟨_, rfl, (read_yields hOk l.text_mem (hConsumed.unread_eq hSplit)).mono ?_⟩
    rintro g y ⟨hy, hBuf, hRest⟩
    exact ⟨hy, hBuf, hConsumed.trans hRest⟩

/-- `read_line` is called again and again, with one buffer after another. -/
inductive ReadLines {R : Type} [AsyncBufRead R] :
    R → List (List UInt8) → R → List (Except Error Nat × List UInt8) → Prop where
  | nil {r : R} : ReadLines r [] r []
  | cons {r r' : R} {buf : List UInt8} {bufs : List (List UInt8)} {g : ReadLine R}
      {y : Except Error Nat} {ys : List (Except Error Nat × List UInt8)} :
      Await ReadLine.body (.new r buf) g y → ReadLines g.reader bufs r' ys →
      ReadLines r (buf :: bufs) r' ((y, g.buf) :: ys)

/-- One line after another. -/
theorem ReadLines.lines {R : Type} [ByteStream R] (hOk : Infallible R) {rest : Seq UInt8}
    {r : R} {ls : List (Line × List UInt8)}
    (hUnread : unread r = front (ls.flatMap fun l => l.1.bytes) rest) :
    (∀ r' ys, ReadLines r (ls.map Prod.snd) r' ys → unread r' = rest ∧
      ys = ls.map fun l => (.ok (min l.1.text.length l.2.length), filled l.2 l.1.text)) ∧
    (Arrives R → ∃ r' ys, ReadLines r (ls.map Prod.snd) r' ys) := by
  -- induction on the lines; each read ends where the next line starts
  induction ls generalizing r with
  | nil =>
    refine ⟨?_, fun _ => ⟨r, [], .nil⟩⟩
    rintro r' ys (_ | _)
    exact ⟨hUnread.trans front_nil, rfl⟩
  | cons l ls ih =>
    obtain ⟨line, buf⟩ := l
    rw [List.flatMap_cons, front_append] at hUnread
    obtain ⟨hPost, hTotal⟩ := ReadLine.line_yields hOk line buf hUnread
    have hNext : ∀ g y, Await ReadLine.body (.new r buf) g y →
        unread g.reader = front (ls.flatMap fun l => l.1.bytes) rest := fun g y hAwait =>
      (hPost g y hAwait).2.2.unread_eq hUnread
    constructor
    · rintro r' ys (_ | ⟨hAwait, hRest⟩)
      obtain ⟨rfl, hBuf, -⟩ := hPost _ _ hAwait
      obtain ⟨hEnd, rfl⟩ := (ih (hNext _ _ hAwait)).1 _ _ hRest
      rw [List.map_cons, hBuf]
      exact ⟨hEnd, rfl⟩
    · intro hArrives
      obtain ⟨g, y, hAwait⟩ := hTotal hArrives
      obtain ⟨r', ys, hRest⟩ := (ih (hNext g y hAwait)).2 hArrives
      exact ⟨r', _, .cons hAwait hRest⟩

/-- A line is read into the buffer as far as it fits, and all of it is consumed; so line
after line is read. -/
theorem read_line_lines {R : Type} [ByteStream R] (hOk : Infallible R) (r : R)
    (rest : Seq UInt8) :
    (∀ (l : Line) (buf : List UInt8), unread r = front l.bytes rest →
      Yields (Arrives R) ReadLine.body (.new r buf) fun g y =>
        y = .ok (min l.text.length buf.length) ∧ g.buf = filled buf l.text ∧
          Consumed r l.bytes g.reader ∧ unread g.reader = rest) ∧
    ∀ ls : List (Line × List UInt8), unread r = front (ls.flatMap fun l => l.1.bytes) rest →
      (∀ r' ys, ReadLines r (ls.map Prod.snd) r' ys → unread r' = rest ∧
        ys = ls.map fun l => (.ok (min l.1.text.length l.2.length), filled l.2 l.1.text)) ∧
      (Arrives R → ∃ r' ys, ReadLines r (ls.map Prod.snd) r' ys) := by
  refine ⟨fun l buf hUnread => (ReadLine.line_yields hOk l buf hUnread).mono ?_,
    fun ls hUnread => ReadLines.lines hOk hUnread⟩
  rintro g y ⟨hy, hBuf, hConsumed⟩
  exact ⟨hy, hBuf, hConsumed, hConsumed.unread_eq hUnread⟩

/-- `"\rab\r\nc\n\n"` is shown in pieces, and its two lines are read. -/
theorem read_line_lines_two : ∃ (r' : Script .eof) (ys : List (Except Error Nat × List UInt8)),
    ReadLines (⟨[some [13, 97], none, some [98, 13], none, some [10], some [99, 10, 10]], 0⟩ :
      Script .eof) [[0], [0, 0]] r' ys ∧
    ys = [(.ok 1, [97]), (.ok 1, [99, 0])] ∧ unread r' = .ofList [10] := by
  have hOk : Infallible (Script .eof) := Script.infallible fun _ h => nomatch h
  obtain ⟨hPost, hTotal⟩ := (read_line_lines hOk (⟨[some [13, 97], none, some [98, 13], none,
    some [10], some [99, 10, 10]], 0⟩ : Script .eof) (.ofList [10])).2
      [(⟨[13], [97, 98], 1, by simp [cr], by simp [cr, lf], by simp⟩, [0]),
        (⟨[], [99], 0, by simp, by simp [cr, lf], by simp⟩, [0, 0])]
      (Seq.ofList_append [13, 97, 98, 13, 10, 99, 10] [10])
  obtain ⟨r', ys, hLines⟩ := hTotal Script.arrives
  obtain ⟨hRest, hys⟩ := hPost r' ys hLines
  exact ⟨r', ys, hLines, hys, hRest⟩

-- ---------------------------------------------------------------------------
-- Any stream
-- ---------------------------------------------------------------------------

namespace ReadLine

variable {R : Type} [ByteStream R]

/-- What was consumed is what `read_line` returned `n` for, with `buf'` in the buffer `buf`,
and else CRs and LFs only. -/
def OneLine (r r' : R) (buf buf' : List UInt8) (n : Nat) : Prop :=
  ∃ T L U, (∀ b ∈ T, b = cr ∨ b = lf) ∧ (∀ b ∈ L, b ≠ cr ∧ b ≠ lf) ∧ (∀ b ∈ U, b = cr ∨ b = lf) ∧
    Consumed r (T ++ (L ++ U)) r' ∧ n = min L.length buf.length ∧ buf' = filled buf L

/-- The line `L`, the CRs `C` and one more byte are consumed. -/
structure Ends (r : R) (buf T L C : List UInt8) (b : UInt8) (g : ReadLine R) (n : Nat) : Prop where
  blank : ∀ b ∈ T, b = cr ∨ b = lf
  text : ∀ b ∈ L, b ≠ cr ∧ b ≠ lf
  text_ne : L ≠ []
  crs : ∀ b ∈ C, b = cr
  last : C = [] → b = lf
  last_ne : b ≠ cr
  consumed : Consumed r (T ++ (L ++ (C ++ [b]))) g.reader
  count : n = min L.length buf.length
  buffer : g.buf = filled buf L

/-- A line that was read is taken apart by the stages that read it. -/
theorem ok_ends {r : R} {buf : List UInt8} {g : ReadLine R} {n : Nat}
    (h : Await body (new r buf) g (.ok n)) : ∃ T L C b, Ends r buf T L C b g n := by
  -- the four futures, one after another
  obtain ⟨w₁, _ | _, hSkip, hAfter⟩ := (await_stage (skip · buf) fun _ => rfl).mp h
  · cases (resume_ready.mp hAfter).2
  obtain ⟨w₂, _ | m, hRead, hAfter⟩ := (await_stage read fun _ => rfl).mp (resume_next.mp hAfter)
  · cases (resume_ready.mp hAfter).2
  obtain ⟨w₃, _ | _, hSkipCr, hAfter⟩ :=
    (await_stage (skipCr · w₂.buf m) fun _ => rfl).mp (resume_next.mp hAfter)
  · cases (resume_ready.mp hAfter).2
  obtain ⟨w₄, _ | b, hByte, hAfter⟩ :=
    (await_stage (byte · w₂.buf m) fun _ => rfl).mp (resume_next.mp hAfter)
  · cases (resume_ready.mp hAfter).2
  obtain ⟨rfl, hn⟩ := resume_ready.mp hAfter
  cases hn
  obtain ⟨T, b₁, s₁, hT, hb₁, hNext₁, hConsumed₁⟩ := SkipWhile.ok_consumed hSkip
  obtain ⟨L, b₂, s₂, hL, hb₂, hNext₂, hConsumed₂, rfl, hBuf⟩ := ReadWhile.ok_consumed hRead
  obtain ⟨C, b₃, s₃, hC, hb₃, hNext₃, hConsumed₃⟩ := SkipWhile.ok_consumed hSkipCr
  have hConsumed₄ := ReadByte.ok_consumed hByte
  have hLast : b₃ = b := by
    have hEq := hConsumed₄.2
    rw [hNext₃, front_cons] at hEq
    exact (Seq.cons_eq_cons.mp hEq).1
  subst hLast
  refine ⟨T, L, C, b₃, ?_, ?_, ?_, ?_, ?_, ?_, ?_, rfl, hBuf⟩
  · exact fun b hb => by simpa using hT b hb
  · exact fun b hb => by simpa using hL b hb
  · rintro rfl
    have hEq := hConsumed₂.2
    rw [front_nil, hNext₁, hNext₂] at hEq
    rw [(Seq.cons_eq_cons.mp hEq).1] at hb₁
    simp_all
  · exact fun b hb => by simpa using hC b hb
  · rintro rfl
    have hEq := hConsumed₃.2
    rw [front_nil, hNext₂, hNext₃] at hEq
    rw [(Seq.cons_eq_cons.mp hEq).1] at hb₂
    simp_all
  · exact fun hEq => by simp [hEq] at hb₃
  · exact hConsumed₁.trans (hConsumed₂.trans (hConsumed₃.trans hConsumed₄))

/-- What is dropped is what the predicate holds of. -/
theorem dropWhile_append {p : UInt8 → Bool} {t u : List UInt8} (hAll : ∀ b ∈ t, p b = true)
    (hStop : ∀ b u', u = b :: u' → p b = false) : (t ++ u).dropWhile p = u := by
  rw [List.dropWhile_append_of_pos hAll]
  cases u with
  | nil => rfl
  | cons b u' =>
    rw [List.dropWhile_cons_of_neg]
    rw [hStop b u' rfl]
    exact Bool.false_ne_true

/-- Where only CRs and LFs are around a line, its CRs end with the LF. -/
theorem Ends.eq_lf {r : R} {buf T L C : List UInt8} {b : UInt8} {g : ReadLine R} {n : Nat}
    (h : Ends r buf T L C b g n) {T' L' U : List UInt8} (hT : ∀ b ∈ T', b = cr ∨ b = lf)
    (hL : ∀ b ∈ L', b ≠ cr ∧ b ≠ lf) (hU : ∀ b ∈ U, b = cr ∨ b = lf)
    (hConsumed : Consumed r (T' ++ (L' ++ U)) g.reader) : b = lf := by
  have hEq : T' ++ (L' ++ U) = T ++ (L ++ (C ++ [b])) := hConsumed.inj h.consumed
  obtain ⟨x, xs, hText⟩ := List.exists_cons_of_ne_nil h.text_ne
  have hx := h.text x (hText ▸ List.mem_cons_self ..)
  -- both splits start their text at the first byte that is not blank
  have hLine : L' ++ U = L ++ (C ++ [b]) := by
    cases L' with
    | nil =>
      have hMem : x ∈ T' ++ ([] ++ U) := by
        rw [hEq, hText]
        simp
      rw [List.nil_append, List.mem_append] at hMem
      rcases hMem.elim (hT x) (hU x) with hCr | hLf
      · exact absurd hCr hx.1
      · exact absurd hLf hx.2
    | cons y ys =>
      have hy := hL y (List.mem_cons_self ..)
      have hLeft : (T' ++ (y :: ys ++ U)).dropWhile (fun b => b == cr || b == lf) =
          y :: ys ++ U := dropWhile_append (fun b hb => by simpa using hT b hb) <| by
        rintro b u' hHead
        cases hHead
        simpa using hy
      have hRight : (T ++ (L ++ (C ++ [b]))).dropWhile (fun b => b == cr || b == lf) =
          L ++ (C ++ [b]) := dropWhile_append (fun b hb => by simpa using h.blank b hb) <| by
        rw [hText]
        rintro b u' hHead
        cases hHead
        simpa using hx
      rw [← hLeft, hEq, hRight]
  -- and end it at the first byte of the line end
  have hEnd : U = C ++ [b] := by
    have hLeft : (L' ++ U).dropWhile (fun b => b != cr && b != lf) = U :=
      dropWhile_append (fun b hb => by simpa using hL b hb) <| by
        rintro b u' rfl
        simpa using fun hNe => (hU b (List.mem_cons_self ..)).resolve_left hNe
    have hRight : (L ++ (C ++ [b])).dropWhile (fun b => b != cr && b != lf) = C ++ [b] :=
      dropWhile_append (fun b hb => by simpa using h.text b hb) <| by
        intro b' u' hHead
        cases C with
        | nil =>
          cases hHead
          rw [h.last rfl]
          rfl
        | cons c cs =>
          have hSame : c = b' := (List.cons.inj hHead).1
          rw [← hSame, h.crs c (List.mem_cons_self ..)]
          rfl
    rw [← hLeft, hLine, hRight]
  exact (hU b (by rw [hEnd]; simp)).resolve_left h.last_ne

/-- Where a stretch of bytes stops, it stops in one way. -/
theorem stops_unique {f : UInt8 → Bool} {t u : List UInt8} {s v : Seq UInt8}
    (h : front t s = front u v) (ht : ∀ b ∈ t, f b = true) (hu : ∀ b ∈ u, f b = true)
    (hs : Stops f s) (hv : Stops f v) : t = u ∧ s = v := by
  obtain ⟨c, rfl, hRest⟩ := front_of_stops h ht hv
  obtain ⟨c', hBack, -⟩ := front_of_stops h.symm hu hs
  rw [List.append_assoc, List.self_eq_append_right, List.append_eq_nil_iff] at hBack
  obtain ⟨rfl, -⟩ := hBack
  rw [front_nil] at hRest
  exact ⟨(List.append_nil t).symm, hRest⟩

/-- A line that ends with an LF is the one that is read. -/
theorem Ends.line {r : R} {buf T L C : List UInt8} {b : UInt8} {g : ReadLine R} {n : Nat}
    (h : Ends r buf T L C b g n) {l : Line} {rest : Seq UInt8}
    (hUnread : unread r = front l.bytes rest) : b = lf := by
  -- the same bytes, split twice: blank, text, carriage returns, the last byte
  have hEq : front T (front L (front C (.cons b (unread g.reader)))) =
      front l.blank (front l.text (front (.replicate l.crs cr) (.cons lf rest))) := by
    have hLeft := h.consumed.2
    rw [hUnread, Line.bytes] at hLeft
    simpa only [front_append, front_cons, front_nil] using hLeft.symm
  obtain ⟨x, xs, hText⟩ := List.exists_cons_of_ne_nil h.text_ne
  obtain ⟨y, ys, hText'⟩ := List.exists_cons_of_ne_nil l.text_ne
  obtain ⟨-, hText₂⟩ := stops_unique (f := fun b => b == cr || b == lf) hEq
    (fun b hb => by simpa using h.blank b hb) (fun b hb => by simpa using l.blank_mem b hb)
    (by rw [hText, front_cons]; exact stops_cons (by simpa using h.text x (by simp [hText])))
    (by rw [hText', front_cons]; exact stops_cons (by simpa using l.text_mem y (by simp [hText'])))
  obtain ⟨-, hCrs⟩ := stops_unique (f := fun b => b != cr && b != lf) hText₂
    (fun b hb => by simpa using h.text b hb) (fun b hb => by simpa using l.text_mem b hb)
    (by
      cases C with
      | nil =>
        rw [front_nil, h.last rfl]
        exact stops_cons rfl
      | cons c cs =>
        rw [front_cons, h.crs c (List.mem_cons_self ..)]
        exact stops_cons rfl)
    (stops_crs l.crs rest)
  obtain ⟨-, hLast⟩ := stops_unique (f := fun b => b == cr) hCrs
    (fun b hb => by simpa using h.crs b hb)
    (fun b hb => beq_iff_eq.mpr (List.eq_of_mem_replicate hb))
    (stops_cons (by simpa using h.last_ne)) (stops_cons rfl)
  exact (Seq.cons_eq_cons.mp hLast).1

/-- What is consumed belongs to the line that is returned exactly if the stream begins with
a line that ends with an LF. -/
theorem read_line_consumed {r : R} {buf : List UInt8} {g : ReadLine R} {n : Nat}
    (h : Await body (new r buf) g (.ok n)) : OneLine r g.reader buf g.buf n ↔
      ∃ (l : Line) (rest : Seq UInt8), unread r = front l.bytes rest := by
  obtain ⟨T, L, C, b, hEnds⟩ := ok_ends h
  have hCrs : C = .replicate C.length cr := List.eq_replicate_of_mem hEnds.crs
  constructor
  · rintro ⟨T', L', U, hT, hL, hU, hConsumed, -, -⟩
    have hLf := hEnds.eq_lf hT hL hU hConsumed
    refine ⟨⟨T, L, C.length, hEnds.blank, hEnds.text, hEnds.text_ne⟩, unread g.reader, ?_⟩
    rw [Line.bytes, ← hCrs, ← hLf]
    exact hEnds.consumed.2
  · rintro ⟨l, rest, hUnread⟩
    have hLf := hEnds.line hUnread
    refine ⟨T, L, C ++ [b], hEnds.blank, hEnds.text, ?_, hEnds.consumed, hEnds.count,
      hEnds.buffer⟩
    intro b' hb
    rcases List.mem_append.mp hb with hC | hLast
    · exact .inl (hEnds.crs b' hC)
    · exact .inr ((List.mem_singleton.mp hLast).trans hLf)

/-- A line of one letter before a line feed. -/
theorem read_line_consumed_lf : ∃ g : ReadLine (Script .eof),
    Await body (new ⟨[some [97, 10, 98]], 0⟩ [0]) g (.ok 1) ∧
      OneLine ⟨[some [97, 10, 98]], 0⟩ g.reader [0] g.buf 1 := by
  refine ⟨done ⟨[some [98]], 2⟩ [97], ?_, ?_⟩
  · exact .next rfl (.next rfl (.next rfl (.ready rfl)))
  · exact (read_line_consumed (.next rfl (.next rfl (.next rfl (.ready rfl))))).mpr
      ⟨⟨[], [97], 0, by simp, by simp [cr, lf], by simp⟩, .ofList [98],
        Seq.ofList_append [97, 10] [98]⟩

/-- After a lone CR, the first byte of the next line is consumed. -/
theorem read_line_lone_cr : ∃ g : ReadLine (Script .eof),
    Await body (new ⟨[some [97, 13, 98]], 0⟩ [0]) g (.ok 1) ∧
      ¬ OneLine ⟨[some [97, 13, 98]], 0⟩ g.reader [0] g.buf 1 := by
  refine ⟨done ⟨[some []], 3⟩ [97], ?_, ?_⟩
  · exact .next rfl (.next rfl (.next rfl (.ready rfl)))
  · rintro ⟨T, L, U, hT, hL, hU, hConsumed, -, -⟩
    have hEnds : Ends (⟨[some [97, 13, 98]], 0⟩ : Script .eof) [0] [] [97] [13] 98
        (done ⟨[some []], 3⟩ [97]) 1 :=
      ⟨by simp, by simp [cr, lf], by simp, by simp [cr], by simp, by simp [cr],
        ⟨rfl, Seq.ofList_append [97, 13, 98] []⟩, rfl, rfl⟩
    exact absurd (hEnds.eq_lf hT hL hU hConsumed) (by decide)

end ReadLine

end Embassy.Io
