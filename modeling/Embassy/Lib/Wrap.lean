import Mathlib.Data.Nat.Bitwise
import Mathlib.Data.Nat.ModEq
import Mathlib.Tactic.Ring

/-!
# Wrapping counters

Arithmetic of a counter that shows a growing tick count modulo its cycle:
toggling its top bit, and the next tick at which it shows a given value.
-/

namespace Embassy.Lib

/-- Toggling with a multiple of `2 ^ k` leaves the low `k` bits alone. -/
theorem xor_shiftLeft (x b k : Nat) :
    x ^^^ (b <<< k) = (x / 2 ^ k ^^^ b) * 2 ^ k + x % 2 ^ k := by
  have hDiv : (x ^^^ (b <<< k)) / 2 ^ k = x / 2 ^ k ^^^ b := by
    rw [Nat.xor_div_two_pow, Nat.shiftLeft_eq, Nat.mul_div_cancel _ (Nat.two_pow_pos k)]
  have hMod : (x ^^^ (b <<< k)) % 2 ^ k = x % 2 ^ k := by
    rw [Nat.xor_mod_two_pow, Nat.shiftLeft_eq, Nat.mul_mod_left, Nat.xor_zero]
  calc x ^^^ (b <<< k)
      = (x ^^^ (b <<< k)) / 2 ^ k * 2 ^ k + (x ^^^ (b <<< k)) % 2 ^ k :=
        (Nat.div_add_mod' _ _).symm
    _ = _ := by rw [hDiv, hMod]

/-- The parity of a sum, toggled by the parity of one summand. -/
theorem mod_two_xor (p k : Nat) : (p + k) % 2 ^^^ p % 2 = k % 2 := by
  rcases Nat.mod_two_eq_zero_or_one p with hp | hp <;>
    rcases Nat.mod_two_eq_zero_or_one k with hk | hk <;>
    simp [Nat.add_mod, hp, hk]

/-- A counter that shows the value of tick `a` at some tick after `tau` does
so not before `a`, if `a` is less than a cycle ahead. -/
theorem le_of_mod_eq {m tau a x : Nat} (hx : tau < x) (ha : a ≤ tau + m)
    (hMod : x % m = a % m) : a ≤ x := by
  by_contra hlt
  have hdvd : m ∣ a - x := (Nat.modEq_iff_dvd' (by omega)).mp hMod
  have := Nat.le_of_dvd (by omega) hdvd
  omega

/-- The number of ticks until a counter that shows `t % m` shows `v`. -/
theorem add_next_mod {m : Nat} (hm : 0 < m) (t v : Nat) :
    (t + (v + m - t % m) % m) % m = v % m := by
  have hlt := Nat.mod_lt t hm
  calc (t + (v + m - t % m) % m) % m
      = (t + (v + m - t % m)) % m := Nat.add_mod_mod ..
    _ = (v + m + m * (t / m)) % m := by
        congr 1
        have := Nat.div_add_mod t m
        omega
    _ = v % m := by rw [Nat.add_mul_mod_self_left, Nat.add_mod_right]

/-- Before that the counter does not show `v`. -/
theorem mod_ne_of_lt_next {m t v x : Nat} (hm : 0 < m) (hLo : t ≤ x)
    (hHi : x < t + (v + m - t % m) % m) : x % m ≠ v := by
  intro hx
  have hMod : x % m = (t + (v + m - t % m) % m) % m := by
    rw [add_next_mod hm, ← hx, Nat.mod_mod]
  have hdvd := (Nat.modEq_iff_dvd' (Nat.le_of_lt hHi)).mp hMod
  have hle := Nat.le_of_dvd (by omega) hdvd
  have hlt := Nat.mod_lt (v + m - t % m) hm
  omega

end Embassy.Lib
