import Mathlib.Algebra.Ring.Parity
import Mathlib.Data.Stream.Init
import Mathlib.Tactic.Ring

/-!
# The UART of the RP2040

`embassy-rp/src/uart.rs`. `new` writes registers; a panic in it ends the run of the
monad, and what was written before stays written.

* `new_divisor` — the divisor that `new` writes is right, but for the baud rates whose
  divisor rounds up to a whole number.
* `send_transmits` — `send` transmits everything exactly if the FIFO always has room,
  as it does not wait for it.
-/

namespace Embassy.Rp

-- ---------------------------------------------------------------------------
-- Uart::new
-- ---------------------------------------------------------------------------

structure Config where
  baudrate : UInt32
  dataBits : UInt8
  stopBits : UInt8
  deriving DecidableEq, Repr

def Config.default : Config where
  baudrate := 115200
  dataBits := 8
  stopBits := 1

structure LcrH where
  wlen : UInt8
  stp2 : Bool
  pen : Bool
  eps : Bool
  fen : Bool
  deriving DecidableEq, Repr

structure Cr where
  uarten : Bool
  rxe : Bool
  txe : Bool
  deriving DecidableEq, Repr

/-- The function that is selected for each pin. -/
structure Funcsel where
  tx : UInt8
  rx : UInt8
  cts : UInt8
  rts : UInt8
  deriving DecidableEq, Repr

/-- The registers that `new` writes. -/
structure Regs where
  uartibrd : UInt32
  uartfbrd : UInt32
  uartlcrH : LcrH
  uartcr : Cr
  funcsel : Funcsel
  deriving DecidableEq, Repr

def Regs.zero : Regs where
  uartibrd := 0
  uartfbrd := 0
  uartlcrH := { wlen := 0, stp2 := false, pen := false, eps := false, fen := false }
  uartcr := { uarten := false, rxe := false, txe := false }
  funcsel := { tx := 0, rx := 0, cts := 0, rts := 0 }

namespace Uart

/-- What is written to UARTIBRD and UARTFBRD. -/
def divisors (baudRateDiv : UInt32) : UInt32 × UInt32 :=
  let baudIbrd := baudRateDiv >>> 7
  let baudFbrd := ((baudRateDiv &&& 0x7f) + 1) / 2
  if baudIbrd = 0 then (1, 0)
  else if baudIbrd ≥ 65535 then (65535, 0)
  else (baudIbrd, baudFbrd)

/-- The second component is `none` where the function panics. -/
def new (p : Regs) (config : Config) : Regs × Option Unit :=
  let clkBase : UInt32 := 12000000
  if config.baudrate = 0 then (p, none)
  else
    let (baudIbrd, baudFbrd) := divisors (8 * clkBase / config.baudrate)
    let p := { p with uartibrd := baudIbrd }
    let p := { p with uartfbrd := baudFbrd }
    -- `config.data_bits - 5`
    if config.dataBits < 5 then (p, none)
    else
      let p := { p with
        uartlcrH := {
          wlen := config.dataBits - 5
          stp2 := config.stopBits = 2
          pen := false
          eps := false
          fen := true } }
      let p := { p with uartcr := { uarten := true, rxe := true, txe := true } }
      ({ p with funcsel := { tx := 2, rx := 2, cts := 2, rts := 2 } }, some ())

/-- It is within the ranges of the registers, and unless it is clamped it is the rounded
divisor, in steps of 1/64. -/
structure Divides (baudrate : UInt32) (p : Regs) : Prop where
  ibrd_pos : 1 ≤ p.uartibrd.toNat
  ibrd_le : p.uartibrd.toNat ≤ 65535
  fbrd_le : p.uartfbrd.toNat ≤ 63
  rounded : 128 ≤ 96000000 / baudrate.toNat → 96000000 / baudrate.toNat < 65535 * 128 →
    64 * p.uartibrd.toNat + p.uartfbrd.toNat = (96000000 / baudrate.toNat + 1) / 2

/-- The divisors that are written are those of the baud rate. -/
theorem new_regs {config : Config} (h : config.baudrate ≠ 0) (p : Regs) :
    ((new p config).1.uartibrd, (new p config).1.uartfbrd) =
      divisors (96000000 / config.baudrate) := by
  unfold new
  simp only [if_neg h]
  split
  · rfl
  · rfl

/-- The division by 128, with its remainder halved. -/
theorem divisors_toNat (d : UInt32) :
    ((divisors d).1.toNat, (divisors d).2.toNat) =
      if d.toNat < 128 then (1, 0)
      else if 65535 * 128 ≤ d.toNat then (65535, 0)
      else (d.toNat / 128, (d.toNat % 128 + 1) / 2) := by
  have hIbrd : (d >>> 7).toNat = d.toNat / 128 := by
    rw [UInt32.toNat_shiftRight, Nat.shiftRight_eq_div_pow]
    rfl
  have hFbrd : (((d &&& 0x7f) + 1) / 2).toNat = (d.toNat % 128 + 1) / 2 := by
    have hMod : (d &&& 0x7f).toNat = d.toNat % 128 := by
      rw [UInt32.toNat_and]
      exact Nat.and_two_pow_sub_one_eq_mod d.toNat 7
    rw [UInt32.toNat_div, UInt32.toNat_add, hMod]
    have := Nat.mod_lt d.toNat (show 0 < 128 by decide)
    rw [Nat.mod_eq_of_lt]
    · rfl
    · show _ + 1 < _
      omega
  have hZero : d >>> 7 = 0 ↔ d.toNat < 128 := by
    rw [← UInt32.toNat_inj, hIbrd]
    show _ = 0 ↔ _
    omega
  have hBig : d >>> 7 ≥ 65535 ↔ 65535 * 128 ≤ d.toNat := by
    rw [ge_iff_le, UInt32.le_iff_toNat_le, hIbrd]
    show 65535 ≤ _ ↔ _
    omega
  unfold divisors
  simp only [hZero, hBig]
  split
  · rfl
  · split
    · rfl
    · rw [hIbrd, hFbrd]

/-- The quotient is one less than a multiple of 128, so the fraction rounds up to 64. -/
def Carries (baudrate m : Nat) : Prop :=
  2 ≤ m ∧ m ≤ 65535 ∧ (128 * m - 1) * baudrate ≤ 96000000 ∧ 96000000 < 128 * m * baudrate

/-- The fraction rounds up to 64 exactly for the last of every 128 quotients in range. -/
theorem exists_carries_iff {b : Nat} (hb : 0 < b) : (∃ m, Carries b m) ↔
    (128 ≤ 96000000 / b ∧ 96000000 / b < 65535 * 128) ∧ 96000000 / b % 128 = 127 := by
  unfold Carries
  simp only [← Nat.le_div_iff_mul_le hb, ← Nat.div_lt_iff_lt_mul hb]
  generalize 96000000 / b = d
  constructor
  · rintro ⟨m, hm⟩
    omega
  · intro hd
    exact ⟨d / 128 + 1, by omega⟩

/-- The registers divide as they should exactly for the other quotients. -/
theorem divides_iff {b d : UInt32} {p : Regs} (hd : d.toNat = 96000000 / b.toNat)
    (hp : (p.uartibrd, p.uartfbrd) = divisors d) :
    Divides b p ↔ ¬ ((128 ≤ d.toNat ∧ d.toNat < 65535 * 128) ∧ d.toNat % 128 = 127) := by
  have hRegs := divisors_toNat d
  rw [← hp] at hRegs
  constructor
  · rintro ⟨-, -, hFbrd, -⟩ ⟨⟨hPos, hLt⟩, hMod⟩
    rw [if_neg (Nat.not_lt_of_le hPos), if_neg (Nat.not_le_of_lt hLt)] at hRegs
    simp only [Prod.mk.injEq] at hRegs
    omega
  · intro h
    split at hRegs
    · simp only [Prod.mk.injEq] at hRegs
      exact ⟨by omega, by omega, by omega, by omega⟩
    · split at hRegs
      · simp only [Prod.mk.injEq] at hRegs
        exact ⟨by omega, by omega, by omega, by omega⟩
      · simp only [Prod.mk.injEq] at hRegs
        refine ⟨by omega, by omega, by omega, fun _ _ => ?_⟩
        rw [← hd]
        omega

/-- In steps of 1/64, the exact divisor is `48000000 / b`. -/
theorem rounded_nearest {b : Nat} (hb : 0 < b) :
    2 * b * ((96000000 / b + 1) / 2) ≤ 96000000 + b ∧
      96000000 < 2 * b * ((96000000 / b + 1) / 2) + b := by
  have hLow := Nat.div_mul_le_self 96000000 b
  have hHigh := Nat.lt_div_mul_add (a := 96000000) hb
  generalize 96000000 / b = d at *
  rcases Nat.even_or_odd' d with ⟨k, rfl | rfl⟩
  · have hHalf : (2 * k + 1) / 2 = k := by omega
    have hEq : 2 * b * k = 2 * k * b := by ring
    rw [hHalf, hEq]
    omega
  · have hHalf : (2 * k + 1 + 1) / 2 = k + 1 := by omega
    have hEq : 2 * b * (k + 1) = (2 * k + 1) * b + b := by ring
    rw [hHalf, hEq]
    omega

/-- The divisor is right unless it lies less than 1/128 below a whole number, where its
fraction does not fit in the register. What it is then is the nearest step. -/
theorem new_divisor (p : Regs) (config : Config) (h : config.baudrate ≠ 0) :
    (Divides config.baudrate (new p config).1 ↔ ¬ ∃ m, Carries config.baudrate.toNat m) ∧
      2 * config.baudrate.toNat * ((96000000 / config.baudrate.toNat + 1) / 2) ≤
          96000000 + config.baudrate.toNat ∧
        96000000 < 2 * config.baudrate.toNat * ((96000000 / config.baudrate.toNat + 1) / 2) +
          config.baudrate.toNat := by
  have hPos : 0 < config.baudrate.toNat := by
    refine Nat.pos_of_ne_zero fun hZero => h ?_
    rwa [← UInt32.toNat_inj]
  have hDiv : (96000000 / config.baudrate).toNat = 96000000 / config.baudrate.toNat :=
    UInt32.toNat_div ..
  refine ⟨?_, rounded_nearest hPos⟩
  rw [divides_iff hDiv (new_regs h p), hDiv, exists_carries_iff hPos]

/-- 115200 baud: the divisor is 833 / 128. -/
theorem new_divisor_default : (new .zero .default).2 = some () ∧
    Divides Config.default.baudrate (new .zero .default).1 := by
  refine ⟨rfl, (new_divisor .zero .default (by decide)).1.mpr ?_⟩
  rintro ⟨m, hm⟩
  have hm : Carries 115200 m := hm
  unfold Carries at hm
  omega

/-- At 376000 baud, the fraction is 64. -/
theorem new_divisor_carry :
    (new .zero { Config.default with baudrate := 376000 }).1.uartfbrd = 64 ∧
      ¬ Divides 376000 (new .zero { Config.default with baudrate := 376000 }).1 :=
  ⟨rfl, fun h => absurd h.fbrd_le (by decide)⟩

-- ---------------------------------------------------------------------------
-- Uart::send
-- ---------------------------------------------------------------------------

/-- The transmit FIFO, with how many bytes leave it before each time the flag is read. -/
structure Tx where
  depth : Nat
  fifo : List UInt8
  drains : Stream' Nat
  /-- The bytes that were written to the data register. -/
  written : List UInt8

namespace Tx

/-- What the FIFO is when the flag is read next. -/
def drain (p : Tx) : Tx :=
  { p with fifo := p.fifo.drop p.drains.head, drains := p.drains.tail }

def txff (p : Tx) : Bool := p.depth ≤ p.fifo.length

def writeData (p : Tx) (byte : UInt8) : Tx :=
  { p with fifo := p.fifo ++ [byte], written := p.written ++ [byte] }

end Tx

def send (p : Tx) (data : List UInt8) : Tx :=
  data.foldl (fun p byte =>
    let p := p.drain
    if !p.txff then p.writeData byte else p) p

/-- How many bytes the FIFO holds at the check for byte `i`, with all the bytes before it. -/
def fill (n : Nat) (drains : Stream' Nat) : Nat → Nat
  | 0 => n - drains.head
  | i + 1 => fill (n - drains.head + 1) drains.tail i

theorem send_cons (p : Tx) (byte : UInt8) (data : List UInt8) :
    send p (byte :: data) =
      send (if p.drain.txff then p.drain else p.drain.writeData byte) data := by
  unfold send
  rw [List.foldl_cons]
  cases hFull : p.drain.txff with
  | true => simp [hFull]
  | false => simp [hFull]

/-- Whether the FIFO is full at a check is told by what went out before. -/
theorem txff_drain (p : Tx) : p.drain.txff = true ↔ p.depth ≤ fill p.fifo.length p.drains 0 := by
  unfold Tx.txff Tx.drain fill
  rw [decide_eq_true_eq, List.length_drop]

/-- What is written is at most the data. -/
theorem length_written_send (p : Tx) (data : List UInt8) :
    (send p data).written.length ≤ p.written.length + data.length := by
  induction data generalizing p with
  | nil => exact Nat.le_refl _
  | cons byte data ih =>
    rw [send_cons, List.length_cons]
    split
    · have hRest : _ ≤ p.written.length + _ := ih p.drain
      omega
    · have hRest := ih (p.drain.writeData byte)
      have hOne : (p.drain.writeData byte).written.length = p.written.length + 1 :=
        List.length_append
      omega

/-- All bytes are written exactly if there is room at every check. -/
theorem written_send_iff (p : Tx) (data : List UInt8) :
    (send p data).written = p.written ++ data ↔
      ∀ i < data.length, fill p.fifo.length p.drains i < p.depth := by
  induction data generalizing p with
  | nil => simp [send]
  | cons byte data ih =>
    rw [send_cons]
    by_cases hFull : p.drain.txff = true
    · rw [if_pos hFull]
      have hLen := length_written_send p.drain data
      constructor
      · intro hAll
        rw [hAll, List.length_append, List.length_cons] at hLen
        exact absurd hLen (by show ¬ _ ≤ p.written.length + _; omega)
      · intro hRoom
        exact absurd (hRoom 0 (Nat.succ_pos _)) (Nat.not_lt_of_le ((txff_drain p).mp hFull))
    · rw [if_neg hFull]
      have hRoom : fill p.fifo.length p.drains 0 < p.depth :=
        Nat.lt_of_not_le fun hLe => hFull ((txff_drain p).mpr hLe)
      have hWritten : p.written ++ byte :: data = (p.drain.writeData byte).written ++ data :=
        List.append_cons ..
      have hFifo : (p.drain.writeData byte).fifo.length = p.fifo.length - p.drains.head + 1 := by
        show (p.fifo.drop _ ++ [byte]).length = _
        rw [List.length_append, List.length_drop, List.length_singleton]
      rw [hWritten, ih, hFifo]
      constructor
      · rintro hRest (_ | i) hi
        · exact hRoom
        · exact hRest i (Nat.lt_of_succ_lt_succ hi)
      · exact fun hAll i hi => hAll (i + 1) (Nat.succ_lt_succ hi)

/-- What fits in the FIFO finds room. -/
theorem fill_lt_of_fits {i n depth : Nat} (drains : Stream' Nat) (h : n + i < depth) :
    fill n drains i < depth := by
  induction i generalizing n drains with
  | zero => exact Nat.lt_of_le_of_lt (Nat.sub_le ..) h
  | succ i ih =>
    rw [fill]
    exact ih drains.tail (by omega)

/-- Everything is transmitted exactly if the FIFO has room at every check, with all that
was sent before; so whatever fits in the FIFO is. -/
theorem send_transmits (p : Tx) (data : List UInt8) :
    ((send p data).written = p.written ++ data ↔
      ∀ i < data.length, fill p.fifo.length p.drains i < p.depth) ∧
    (p.fifo.length + data.length ≤ p.depth → (send p data).written = p.written ++ data) := by
  refine ⟨written_send_iff p data, fun hFits => ?_⟩
  refine (written_send_iff p data).mpr fun i hi => fill_lt_of_fits p.drains ?_
  omega

/-- Two bytes into an empty FIFO of 32. -/
theorem send_transmits_short :
    (send ⟨32, [], Stream'.const 0, []⟩ [0x68, 0x69]).written = [0x68, 0x69] :=
  (send_transmits ⟨32, [], Stream'.const 0, []⟩ [0x68, 0x69]).2 (by decide)

/-- Of 33 bytes that are sent while nothing leaves the FIFO, the last is lost. -/
theorem send_full :
    (send ⟨32, [], Stream'.const 0, []⟩ (List.replicate 33 0x55)).written =
      List.replicate 32 0x55 := by
  decide +kernel

end Uart

end Embassy.Rp
