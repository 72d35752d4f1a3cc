import Mathlib.Algebra.Order.Ring.Nat
import Mathlib.Tactic.Ring

/-!
# Numbers made of bytes

`littleEndian f n` is the number whose bytes are `f 0`, `f 1` and so on, up to `n` of them.

* `littleEndian_byte` — its bytes are these.
* `littleEndian_add` — the first of them, and then the rest.
* `littleEndian_succ_or` — a byte is put in front of it by a shift and an `or`.
-/

namespace Embassy.Lib

def littleEndian (f : Nat → UInt8) : Nat → Nat
  | 0 => 0
  | n + 1 => littleEndian f n + (f n).toNat * 256 ^ n

/-- Byte `k` of a number. -/
def byteAt (x k : Nat) : Nat := x / 256 ^ k % 256

variable {f : Nat → UInt8} {m n k x : Nat}

theorem littleEndian_lt (f : Nat → UInt8) (n : Nat) : littleEndian f n < 256 ^ n := by
  induction n with
  | zero => exact Nat.one_pos
  | succ n ih =>
    have hByte : (f n).toNat * 256 ^ n ≤ 255 * 256 ^ n :=
      Nat.mul_le_mul_right _ (Nat.le_of_lt_succ (f n).toNat_lt)
    rw [littleEndian, Nat.pow_succ]
    omega

theorem littleEndian_add (f : Nat → UInt8) (m n : Nat) :
    littleEndian f (m + n) = littleEndian f m + 256 ^ m * littleEndian (fun i => f (m + i)) n := by
  induction n with
  | zero => rw [littleEndian, Nat.mul_zero, Nat.add_zero, Nat.add_zero]
  | succ n ih =>
    rw [← Nat.add_assoc, littleEndian, littleEndian, ih]
    ring

theorem littleEndian_byte (h : k < n) : byteAt (littleEndian f n) k = (f k).toNat := by
  have hBelow := littleEndian_lt f k
  have hByte := (f k).toNat_lt
  obtain ⟨m, rfl⟩ := Nat.exists_eq_add_of_lt h
  rw [byteAt, Nat.add_assoc, littleEndian_add, Nat.add_mul_div_left _ _ (Nat.pow_pos (by decide)),
    Nat.div_eq_of_lt hBelow, Nat.zero_add, Nat.add_comm m 1, littleEndian_add]
  have hFirst : littleEndian (fun i => f (k + i)) 1 = (f k).toNat := by
    rw [littleEndian, littleEndian, Nat.zero_add, Nat.pow_zero, Nat.mul_one, Nat.add_zero]
  rw [hFirst, Nat.pow_one, Nat.add_mul_mod_self_left, Nat.mod_eq_of_lt hByte]

theorem littleEndian_succ_or : littleEndian f (n + 1) =
    littleEndian f n ||| (f n).toNat <<< (8 * n) := by
  have hLt : littleEndian f n < 2 ^ (8 * n) := by
    rw [Nat.pow_mul]
    exact littleEndian_lt f n
  rw [Nat.or_comm, ← Nat.shiftLeft_add_eq_or_of_lt hLt, Nat.shiftLeft_eq, Nat.pow_mul,
    littleEndian, Nat.add_comm]

end Embassy.Lib
