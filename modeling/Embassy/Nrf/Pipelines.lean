import Embassy.Io.ReadExact
import Embassy.Io.ReadLine
import Embassy.Nrf.ReadHalf
import Embassy.Nrf.WriteHalf

/-!
# The utilities of `io` over a split port

`embassy/src/io/util` with the halves of a `BufferedUarte`: what arrives on the line of the
one device is what the application reads, and what the application writes is what gets on
the wire, however the handler, the DMA and the calls are scheduled. A buffer for sending has
to fit into MAXCNT for that, since longer ones lose bytes. A future gets ready if its buffer
of the driver is not empty and fits; a buffer of no bytes never has room, and one that does
not fit may start a transfer of none.

Main results:

* `ReadHalf.read_exact_half`, `ReadHalf.read_lines_half` — what is read of a line.
* `WriteHalf.write_all_half` — what is written is sent.
* `copy_halves` — a bridge between two devices forwards every byte, once and in order.
-/

namespace Embassy.Nrf

open Stream' (Seq)
open Lib Extras Util Io

variable {Task : Type} [DecidableEq Task] {chip : Chip} {rxSize txSize : Nat}

-- ---------------------------------------------------------------------------
-- Reading
-- ---------------------------------------------------------------------------

namespace ReadHalf

variable {h h' : ReadHalf Task chip rxSize txSize} {t u : List UInt8}

theorem unread_eq_left (hLeft : h.left = t ++ u) : unread h = front t (.ofList u) := by
  show Seq.ofList h.left = front t _
  rw [hLeft, Seq.ofList_append]
  rfl

/-- What is to be read is what is left, and no more. -/
theorem unread_left (h : ReadHalf Task chip rxSize txSize) : unread h = front h.left .nil := by
  have hAll := unread_eq_left (h := h) (List.append_nil _).symm
  rwa [Seq.ofList_nil] at hAll

/-- The bytes that are left follow those that were consumed. -/
theorem left_of_consumed (hConsumed : Consumed h t h') : h.left = t ++ h'.left := by
  refine Seq.ofList_injective ?_
  rw [Seq.ofList_append]
  exact hConsumed.2

/-- `read_exact` waits when there are too few bytes, and does not fail. -/
theorem read_exact_ok {w w' : ReadExact (ReadHalf Task chip rxSize txSize)}
    {x : Except Error Unit} (hBody : w.body = .ready w' x) : x = .ok () := by
  unfold ReadExact.body at hBody
  split at hBody
  · cases hBody
    rfl
  · rcases hFill : pollFillBuf w.reader with ⟨r, (e | buf) | _⟩
    · exact absurd hFill (infallible _ _ _)
    · rw [hFill] at hBody
      by_cases hNil : buf = []
      · exact absurd (hNil ▸ hFill) (never_ends _ _)
      · simp only [hNil, if_false] at hBody
        cases hCopy : copyFrom w.buf 0 buf (min w.buf.length buf.length) <;>
          simp [hCopy, Flow.orPanic] at hBody
    · rw [hFill] at hBody
      cases hBody

/-- `read_exact` gets ready only if there are as many bytes as asked for, on whatever side of
the DMA, and does so if the buffer of the driver is not empty and fits into MAXCNT. They are
the next ones, and no others are consumed. -/
theorem read_exact_half (h : ReadHalf Task chip rxSize txSize) (buf : List UInt8) :
    Yields (buf.length ≤ h.left.length ∧ 0 < rxSize ∧ rxSize < 2 ^ chip.maxcntBits)
      ReadExact.body (.new h buf) fun w x =>
        x = .ok () ∧ buf.length ≤ h.left.length ∧
          w.stored ++ w.buf = h.left.take buf.length ∧
          w.reader.left = h.left.drop buf.length ∧
          w.reader.handle.receiver.consumed.length =
            h.handle.receiver.consumed.length + buf.length := by
  -- the bytes are enough, or the future never ends
  by_cases hLen : buf.length ≤ h.left.length
  · have hTake : (h.left.take buf.length).length = buf.length := List.length_take_of_le hLen
    have hSplit := (List.take_append_drop buf.length h.left).symm
    -- until the buffer is full, some of them are still unread
    have hWaits : (buf.length ≤ h.left.length ∧ 0 < rxSize ∧ rxSize < 2 ^ chip.maxcntBits) →
        ∀ got todo r', h.left.take buf.length = got ++ todo → Consumed h got r' →
          got.length < buf.length → Acc Pends r' := by
      rintro ⟨-, hRx, hFits⟩ got todo r' - hConsumed hMore
      refine arrives hRx hFits r' fun hNil => ?_
      have hAll := left_of_consumed hConsumed
      have hRest : r'.left = [] := Seq.ofList_injective (hNil.trans Seq.ofList_nil.symm)
      rw [hRest, List.append_nil] at hAll
      rw [hAll] at hLen
      omega
    refine (ReadExact.yields infallible (unread_eq_left hSplit) (.inl hTake) hWaits).mono ?_
    rintro w x ⟨hConsumed, hBuf, ⟨-, hx⟩ | ⟨hShort, -⟩⟩
    · refine ⟨hx, hLen, hBuf.trans ?_, ?_, ?_⟩
      · rw [hTake, List.drop_length, List.append_nil]
      · refine List.append_cancel_left ((left_of_consumed hConsumed).symm.trans ?_)
        exact hSplit
      · exact hConsumed.1.trans (congrArg _ hTake)
    · omega
  · refine ⟨fun w x hAwait => ?_, fun hEnough => absurd hEnough.1 hLen⟩
    obtain ⟨-, -, ⟨hSame, -⟩ | ⟨-, hx⟩⟩ := (ReadExact.yields infallible (unread_left h)
      (.inr ⟨Nat.lt_of_not_le hLen, rfl⟩) fun hFalse : False => hFalse.elim).1 w x hAwait
    · exact absurd (Nat.le_of_eq hSame.symm) hLen
    · obtain ⟨w', -, hBody⟩ := hAwait.rule (I := fun _ => True) trivial fun _ _ _ _ => trivial
      cases hx.symm.trans (read_exact_ok hBody)

/-- Four bytes arrive, of which three are asked for, through a buffer of two. The other half
asks for the handler before the first call. -/
theorem read_exact_half_three :
    ∃ (w : ReadExact (ReadHalf Nat .nrf52840 2 1)) (x : Except Error Unit),
      Await ReadExact.body (.new (new .nrf52840 [0, 0] [0] 0 [1, 2, 3, 4] [[some .pend]])
        [0, 0, 0]) w x ∧
      x = .ok () ∧ w.stored ++ w.buf = [1, 2, 3] ∧ w.reader.left = [4] := by
  obtain ⟨hPost, hTotal⟩ := read_exact_half
    (new .nrf52840 [0, 0] [0] 0 [1, 2, 3, 4] [[some .pend]] : ReadHalf Nat .nrf52840 2 1) [0, 0, 0]
  obtain ⟨w, x, hAwait⟩ := hTotal (by decide)
  obtain ⟨hx, -, hBytes, hLeft, -⟩ := hPost w x hAwait
  exact ⟨w, x, hAwait, hx, hBytes, hLeft⟩

/-- Line after line is read of the bytes that arrive, each into its buffer. The calls do
finish if the buffer of the driver is not empty and fits into MAXCNT. -/
theorem read_lines_half (h : ReadHalf Task chip rxSize txSize) (ls : List (Io.Line × List UInt8))
    (rest : List UInt8) (hLeft : h.left = (ls.flatMap fun l => l.1.bytes) ++ rest) :
    (∀ (h' : ReadHalf Task chip rxSize txSize) ys, ReadLines h (ls.map Prod.snd) h' ys →
      h'.left = rest ∧
        ys = ls.map fun l => (.ok (min l.1.text.length l.2.length), Io.filled l.2 l.1.text)) ∧
    (0 < rxSize → rxSize < 2 ^ chip.maxcntBits → ∃ h' ys, ReadLines h (ls.map Prod.snd) h' ys) := by
  obtain ⟨hPost, hTotal⟩ := ReadLines.lines infallible (unread_eq_left hLeft)
  refine ⟨fun h' ys hLines => ?_, fun hRx hFits => hTotal (arrives hRx hFits)⟩
  obtain ⟨hRest, hys⟩ := hPost h' ys hLines
  exact ⟨Seq.ofList_injective hRest, hys⟩

/-- Two lines, through a buffer of two bytes. -/
theorem read_lines_half_two :
    ∃ (h' : ReadHalf Nat .nrf52840 2 1) (ys : List (Except Error Nat × List UInt8)),
      ReadLines (new .nrf52840 [0, 0] [0] 0 [13, 97, 98, 13, 10, 99, 10, 10] [] :
        ReadHalf Nat .nrf52840 2 1) [[0], [0, 0]] h' ys ∧
      h'.left = [10] ∧ ys = [(.ok 1, [97]), (.ok 1, [99, 0])] := by
  obtain ⟨hPost, hTotal⟩ := read_lines_half
    (new .nrf52840 [0, 0] [0] 0 [13, 97, 98, 13, 10, 99, 10, 10] [] :
      ReadHalf Nat .nrf52840 2 1)
    [(⟨[13], [97, 98], 1, by simp [cr], by simp [cr, lf], by simp⟩, [0]),
      (⟨[], [99], 0, by simp, by simp [cr, lf], by simp⟩, [0, 0])] [10] rfl
  obtain ⟨h', ys, hLines⟩ := hTotal (by decide) (by decide)
  obtain ⟨hRest, hys⟩ := hPost h' ys hLines
  exact ⟨h', ys, hLines, hRest, hys⟩

end ReadHalf

-- ---------------------------------------------------------------------------
-- Writing
-- ---------------------------------------------------------------------------

namespace WriteHalf

/-- Where an accepted byte is, if the buffer fits: on the wire, with the DMA, or stored. -/
theorem accounted (hFits : txSize < 2 ^ chip.maxcntBits) (h : WriteHalf Task chip rxSize txSize) :
    h.handle.sender.wire ++ h.handle.sender.inFlight ++ h.handle.sender.remaining =
      h.handle.sender.accepted :=
  (h.sound.sender hFits).intact.accounted.symm

/-- `write_all` gets ready, unless the buffer of the driver is empty, and the bytes then follow
what was accepted before; all of it is on the wire after some rounds of service. -/
theorem write_all_half (h : WriteHalf Task chip rxSize txSize) (buf : List UInt8)
    (hFits : txSize < 2 ^ chip.maxcntBits) :
    Yields (0 < txSize) WriteAll.body (.new h buf) fun g x =>
      x = .ok () ∧
        g.writer.handle.sender.wire ++ g.writer.handle.sender.inFlight ++
          g.writer.handle.sender.remaining = h.handle.sender.accepted ++ buf ∧
        ∃ n, (serve^[n] g.writer).handle.sender.wire = h.handle.sender.accepted ++ buf := by
  refine (WriteAll.yields reliable fun hTx h => takes hTx hFits h).mono ?_
  rintro g x ⟨hx, hAccepted⟩
  obtain ⟨n, hn⟩ := exists_serve hFits g.writer
  exact ⟨hx, (accounted hFits g.writer).trans hAccepted, n, hn.trans hAccepted⟩

/-- Three bytes, through a buffer of one. -/
theorem write_all_half_three :
    ∃ (g : WriteAll (WriteHalf Bool .nrf52832 1 1)) (x : Except Error Unit) (n : Nat),
      Await WriteAll.body (.new (new .nrf52832 [0] [0] true [[.pend], [.interrupt]]) [1, 2, 3])
        g x ∧
      x = .ok () ∧ (serve^[n] g.writer).handle.sender.wire = [1, 2, 3] := by
  obtain ⟨hPost, hTotal⟩ := write_all_half
    (new .nrf52832 [0] [0] true [[.pend], [.interrupt]] : WriteHalf Bool .nrf52832 1 1)
    [1, 2, 3] (by decide)
  obtain ⟨g, x, hAwait⟩ := hTotal (by decide)
  obtain ⟨hx, -, n, hWire⟩ := hPost g x hAwait
  exact ⟨g, x, n, hAwait, hx, hWire⟩

end WriteHalf

-- ---------------------------------------------------------------------------
-- Copying
-- ---------------------------------------------------------------------------

variable {Task' : Type} [DecidableEq Task'] {chip' : Chip} {rxSize' txSize' bits : Nat}

/-- A pass of `copy_buf` from half to half neither ends nor panics, while the bytes can be
counted. -/
theorem copy_waits {f : CopyBuf (ReadHalf Task chip rxSize txSize)
    (WriteHalf Task' chip' rxSize' txSize')} (hFits : f.amt + f.reader.left.length < 2 ^ bits) :
    (∃ g, f.body bits = .next g) ∨ ∃ g, f.body bits = .pending g := by
  have hPass : CopyBuf.Pass bits f (f.body bits) :=
    CopyBuf.body_pass ReadHalf.infallible WriteHalf.reliable f
  cases hBody : f.body bits with
  | next g => exact .inl ⟨g, rfl⟩
  | pending g => exact .inr ⟨g, rfl⟩
  | ready g x =>
    rw [hBody] at hPass
    cases hPass with
    | eof hFill => exact absurd hFill (ReadHalf.never_ends _ _)
  | panic =>
    rw [hBody] at hPass
    cases hPass with
    | panic hFront hOver =>
      have := length_le_of_front (hFront.symm.trans (ReadHalf.unread_left f.reader))
      omega

/-- A bridge from the line of one device to the wire of another, for as many bytes as can be
counted, and with a buffer for sending that fits into MAXCNT. At every return of `poll` it
waits for more, and the bytes that it took are the next ones of the line and are on the wire
or on their way, in order; and all of the line gets there if neither buffer is empty and the
one for receiving fits. -/
theorem copy_halves (r : ReadHalf Task chip rxSize txSize)
    (w : WriteHalf Task' chip' rxSize' txSize') (hCount : r.left.length < 2 ^ bits)
    (hFits : txSize' < 2 ^ chip'.maxcntBits) :
    (∀ o, Returned (CopyBuf.body bits) (.new r w) o → ∃ g t, o = .pending g ∧
      r.left = t ++ g.reader.left ∧ g.amt = t.length ∧
        g.writer.handle.sender.wire ++ g.writer.handle.sender.inFlight ++
          g.writer.handle.sender.remaining = w.handle.sender.accepted ++ t) ∧
    (0 < rxSize → rxSize < 2 ^ chip.maxcntBits → 0 < txSize' →
      ∃ g n, Returned (CopyBuf.body bits) (.new r w) (.pending g) ∧ g.reader.left = [] ∧
        (WriteHalf.serve^[n] g.writer).handle.sender.wire =
          w.handle.sender.accepted ++ r.left) := by
  -- every return is a wait, with all that was read written
  have hAll : ∀ o, Returned (CopyBuf.body bits) (.new r w) o → ∃ g t, o = .pending g ∧
      r.left = t ++ g.reader.left ∧ g.amt = t.length ∧
        g.writer.handle.sender.accepted = w.handle.sender.accepted ++ t := by
    intro o hReturned
    have hNew : CopyBuf.Copied r w (.new r w) := ⟨[], .refl, (List.append_nil _).symm, rfl⟩
    have hKeeps := fun f (h : CopyBuf.Copied r w f) => CopyBuf.body_copied bits h
    obtain ⟨f, hCopied, hBody, hEnds⟩ :=
      hReturned.rule hNew fun f g hf hPass => (hKeeps f hf).pass hPass
    have hPost := (hKeeps f hCopied).post (hBody ▸ hEnds)
    obtain ⟨t, hConsumed, -, hAmt⟩ := hCopied
    have hSum : f.amt + f.reader.left.length < 2 ^ bits := by
      rw [ReadHalf.left_of_consumed hConsumed, List.length_append, ← hAmt] at hCount
      exact hCount
    rcases copy_waits hSum with ⟨g, hNext⟩ | ⟨g, hPending⟩
    · exact absurd (hBody.symm.trans hNext) (hEnds g)
    · rw [hPending] at hPost
      obtain ⟨u, hConsumed', hAccepted, hAmt'⟩ := hPost
      exact ⟨g, u, hBody.symm.trans hPending, ReadHalf.left_of_consumed hConsumed', hAmt',
        hAccepted⟩
  constructor
  · intro o hReturned
    obtain ⟨g, t, rfl, hLeft, hAmt, hAccepted⟩ := hAll o hReturned
    exact ⟨g, t, rfl, hLeft, hAmt, (WriteHalf.accounted hFits g.writer).trans hAccepted⟩
  · intro hRx hRxFits hTx
    -- the copy does get to where nothing is left to read
    obtain ⟨o, hReturned, -, hEmptied⟩ : ∃ o, Returned (CopyBuf.body bits) (.new r w) o ∧
        CopyBuf.Delivered bits r w o ∧ CopyBuf.Emptied o := CopyBuf.forwards
      ReadHalf.infallible (ReadHalf.arrives hRx hRxFits) WriteHalf.reliable
      (WriteHalf.takes hTx hFits) (ReadHalf.unread_left r) hCount
    obtain ⟨g, t, rfl, hLeft, -, hAccepted⟩ := hAll o hReturned
    have hNil : g.reader.left = [] := Seq.ofList_injective (hEmptied.trans Seq.ofList_nil.symm)
    obtain ⟨n, hn⟩ := WriteHalf.exists_serve hFits g.writer
    rw [hNil, List.append_nil] at hLeft
    exact ⟨g, n, hReturned, hNil, hn.trans (hLeft ▸ hAccepted)⟩

/-- Three bytes go from a buffer of two to a buffer of one. -/
theorem copy_halves_three :
    ∃ (g : CopyBuf (ReadHalf Nat .nrf52840 2 1) (WriteHalf Bool .nrf52832 1 1)) (n : Nat),
      Returned (CopyBuf.body 32) (.new (.new .nrf52840 [0, 0] [0] 0 [1, 2, 3] [])
        (.new .nrf52832 [0] [0] true [])) (.pending g) ∧
      g.reader.left = [] ∧ (WriteHalf.serve^[n] g.writer).handle.sender.wire = [1, 2, 3] := by
  obtain ⟨-, hTotal⟩ := copy_halves
    (.new .nrf52840 [0, 0] [0] 0 [1, 2, 3] [] : ReadHalf Nat .nrf52840 2 1)
    (.new .nrf52832 [0] [0] true [] : WriteHalf Bool .nrf52832 1 1)
    (show 3 < 2 ^ 32 by decide) (by decide)
  exact hTotal (by decide) (by decide) (by decide)

end Embassy.Nrf
