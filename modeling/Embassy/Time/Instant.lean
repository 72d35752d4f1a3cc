import Mathlib.Algebra.Group.Nat.Defs
import Mathlib.Order.Basic

/-!
# Instants and durations

`embassy/src/time/instant.rs` and `duration.rs`. Both are a number of ticks of type `u64`;
`none` is the overflow panic.

* `mulDiv` — the product before the quotient, as all conversions of milliseconds and
  microseconds take it.
* `Conversion` — the ten conversions.
* `conversions_exact` — a conversion is exact exactly if its product fits.
-/

namespace Embassy.Time

def ticksPerSecond : UInt64 := 32768

-- ---------------------------------------------------------------------------
-- Checked arithmetic
-- ---------------------------------------------------------------------------

def checkedAdd (a b : UInt64) : Option UInt64 :=
  if a.toNat + b.toNat < 2 ^ 64 then some (a + b) else none

def checkedMul (a b : UInt64) : Option UInt64 :=
  if a.toNat * b.toNat < 2 ^ 64 then some (a * b) else none

/-- `x * num / den` -/
def mulDiv (x num den : UInt64) : Option UInt64 := (checkedMul x num).map (· / den)

section Checked

variable {a b c x num den : UInt64}

/-- A sum that fits is the sum. -/
theorem checkedAdd_eq_some_iff : checkedAdd a b = some c ↔ c.toNat = a.toNat + b.toNat := by
  have hLt := c.toNat_lt
  unfold checkedAdd
  split
  · rename_i hFits
    have hSum : (a + b).toNat = a.toNat + b.toNat := by
      rw [UInt64.toNat_add, Nat.mod_eq_of_lt hFits]
    rw [Option.some_inj, ← UInt64.toNat_inj, hSum, eq_comm]
  · rename_i hOver
    exact ⟨fun h => (nomatch h), fun h => absurd (h ▸ hLt) hOver⟩

/-- A sum is checked for the size of a word. -/
theorem checkedAdd_eq_none_iff : checkedAdd a b = none ↔ 2 ^ 64 ≤ a.toNat + b.toNat := by
  unfold checkedAdd
  split
  · rename_i hFits
    exact ⟨fun h => (nomatch h), fun h => absurd hFits (Nat.not_lt_of_le h)⟩
  · rename_i hOver
    exact ⟨fun _ => Nat.le_of_not_lt hOver, fun _ => rfl⟩

/-- A product fits or is refused. -/
theorem checkedMul_toNat : (checkedMul a b).map UInt64.toNat =
    if a.toNat * b.toNat < 2 ^ 64 then some (a.toNat * b.toNat) else none := by
  unfold checkedMul
  split
  · rename_i hFits
    rw [Option.map_some, UInt64.toNat_mul, Nat.mod_eq_of_lt hFits]
  · rfl

/-- The product is checked before the division, which rounds down. -/
theorem mulDiv_toNat : (mulDiv x num den).map UInt64.toNat =
    if x.toNat * num.toNat < 2 ^ 64 then some (x.toNat * num.toNat / den.toNat) else none := by
  have hDiv : ∀ y : UInt64, (y / den).toNat = y.toNat / den.toNat := fun y => UInt64.toNat_div y den
  unfold mulDiv
  rw [Option.map_map, show UInt64.toNat ∘ (· / den) = (· / den.toNat) ∘ UInt64.toNat from
    funext hDiv, ← Option.map_map, checkedMul_toNat]
  split
  · rfl
  · rfl

end Checked

-- ---------------------------------------------------------------------------
-- Duration
-- ---------------------------------------------------------------------------

structure Duration where
  ticks : UInt64
  deriving DecidableEq, Repr

namespace Duration

def asSecs (d : Duration) : UInt64 := d.ticks / ticksPerSecond

def asMillis (d : Duration) : Option UInt64 := mulDiv d.ticks 1000 ticksPerSecond

def asMicros (d : Duration) : Option UInt64 := mulDiv d.ticks 1000000 ticksPerSecond

def fromSecs (secs : UInt64) : Option Duration := (checkedMul secs ticksPerSecond).map mk

def fromMillis (millis : UInt64) : Option Duration := (mulDiv millis ticksPerSecond 1000).map mk

def fromMicros (micros : UInt64) : Option Duration :=
  (mulDiv micros ticksPerSecond 1000000).map mk

end Duration

-- ---------------------------------------------------------------------------
-- Instant
-- ---------------------------------------------------------------------------

structure Instant where
  ticks : UInt64
  deriving DecidableEq, Repr

namespace Instant

def max : Instant := ⟨0xffffffffffffffff⟩

def fromMillis (millis : UInt64) : Option Instant := (mulDiv millis ticksPerSecond 1000).map mk

def fromSecs (seconds : UInt64) : Option Instant := (checkedMul seconds ticksPerSecond).map mk

def asSecs (i : Instant) : UInt64 := i.ticks / ticksPerSecond

def asMillis (i : Instant) : Option UInt64 := mulDiv i.ticks 1000 ticksPerSecond

def checkedAdd (i : Instant) (duration : Duration) : Option Instant :=
  (Time.checkedAdd i.ticks duration.ticks).map mk

instance : LE Instant := ⟨fun a b => a.ticks ≤ b.ticks⟩

instance : DecidableLE Instant := fun a b => inferInstanceAs (Decidable (a.ticks ≤ b.ticks))

/-- `core::cmp::min` -/
def min (a b : Instant) : Instant := if a ≤ b then a else b

variable {a b : Instant} {d : Duration}

theorem le_iff : a ≤ b ↔ a.ticks.toNat ≤ b.ticks.toNat := UInt64.le_iff_toNat_le

/-- The earlier of two instants. -/
theorem min_toNat : (min a b).ticks.toNat = Nat.min a.ticks.toNat b.ticks.toNat := by
  unfold min
  split
  · rename_i hLe
    exact (Nat.min_eq_left (le_iff.mp hLe)).symm
  · rename_i hGt
    exact (Nat.min_eq_right (Nat.le_of_not_le fun hLe => hGt (le_iff.mpr hLe))).symm

/-- An instant that fits is later by the duration. -/
theorem checkedAdd_eq_some_iff :
    a.checkedAdd d = some b ↔ b.ticks.toNat = a.ticks.toNat + d.ticks.toNat := by
  rw [← Time.checkedAdd_eq_some_iff, checkedAdd, Option.map_eq_some_iff]
  constructor
  · rintro ⟨t, hSum, rfl⟩
    exact hSum
  · exact fun hSum => ⟨b.ticks, hSum, rfl⟩

/-- An instant that does not fit is refused. -/
theorem checkedAdd_eq_none_iff :
    a.checkedAdd d = none ↔ 2 ^ 64 ≤ a.ticks.toNat + d.ticks.toNat := by
  rw [← Time.checkedAdd_eq_none_iff, checkedAdd, Option.map_eq_none_iff]

end Instant

-- ---------------------------------------------------------------------------
-- Conversions
-- ---------------------------------------------------------------------------

inductive Conversion where
  | durationFromSecs
  | durationFromMillis
  | durationFromMicros
  | durationAsSecs
  | durationAsMillis
  | durationAsMicros
  | instantFromSecs
  | instantFromMillis
  | instantAsSecs
  | instantAsMillis
  deriving DecidableEq, Repr

namespace Conversion

/-- The conversion, of and to plain numbers. -/
def apply : Conversion → UInt64 → Option UInt64
  | durationFromSecs, x => (Duration.fromSecs x).map Duration.ticks
  | durationFromMillis, x => (Duration.fromMillis x).map Duration.ticks
  | durationFromMicros, x => (Duration.fromMicros x).map Duration.ticks
  | durationAsSecs, x => some (Duration.asSecs ⟨x⟩)
  | durationAsMillis, x => Duration.asMillis ⟨x⟩
  | durationAsMicros, x => Duration.asMicros ⟨x⟩
  | instantFromSecs, x => (Instant.fromSecs x).map Instant.ticks
  | instantFromMillis, x => (Instant.fromMillis x).map Instant.ticks
  | instantAsSecs, x => some (Instant.asSecs ⟨x⟩)
  | instantAsMillis, x => Instant.asMillis ⟨x⟩

/-- The exact value of the conversion of `x` is `x * num / den`. -/
def num : Conversion → Nat
  | durationFromSecs | durationFromMillis | durationFromMicros => 32768
  | instantFromSecs | instantFromMillis => 32768
  | durationAsSecs | instantAsSecs => 1
  | durationAsMillis | instantAsMillis => 1000
  | durationAsMicros => 1000000

def den : Conversion → Nat
  | durationFromSecs | instantFromSecs => 1
  | durationFromMillis | instantFromMillis => 1000
  | durationFromMicros => 1000000
  | durationAsSecs | durationAsMillis | durationAsMicros => 32768
  | instantAsSecs | instantAsMillis => 32768

def exact (c : Conversion) (x : UInt64) : Nat := x.toNat * c.num / c.den

/-- A conversion is exact, rounded down, where the product fits. -/
theorem apply_toNat (c : Conversion) (x : UInt64) : (c.apply x).map UInt64.toNat =
    if x.toNat * c.num < 2 ^ 64 then some (c.exact x) else none := by
  have hLt := x.toNat_lt
  unfold exact
  cases c with
  | durationFromSecs | instantFromSecs =>
    simp only [apply, Duration.fromSecs, Instant.fromSecs, Option.map_map]
    rw [num, den, Nat.div_one]
    exact checkedMul_toNat
  | durationFromMillis | durationFromMicros | instantFromMillis =>
    simp only [apply, Duration.fromMillis, Duration.fromMicros, Instant.fromMillis,
      Option.map_map]
    exact mulDiv_toNat
  | durationAsSecs | instantAsSecs =>
    rw [num, Nat.mul_one, if_pos hLt]
    exact congrArg some (UInt64.toNat_div x ticksPerSecond)
  | durationAsMillis | durationAsMicros | instantAsMillis => exact mulDiv_toNat

theorem apply_eq_some_iff {c : Conversion} {x y : UInt64} :
    c.apply x = some y ↔ x.toNat * c.num < 2 ^ 64 ∧ y.toNat = c.exact x := by
  have hApply := c.apply_toNat x
  cases hResult : c.apply x with
  | none =>
    rw [hResult] at hApply
    split at hApply
    · cases hApply
    · rename_i hOver
      exact ⟨fun h => (nomatch h), fun h => absurd h.1 hOver⟩
  | some z =>
    rw [hResult] at hApply
    split at hApply
    · rename_i hFits
      rw [← Option.some.inj hApply, UInt64.toNat_inj, Option.some_inj, eq_comm]
      exact ⟨fun h => ⟨hFits, h⟩, And.right⟩
    · cases hApply

/-- Milliseconds are rounded down to ticks. -/
theorem fromMillis_toNat {n : UInt64} {d : Duration} (h : Duration.fromMillis n = some d) :
    d.ticks.toNat = n.toNat * 32768 / 1000 :=
  (apply_eq_some_iff (c := durationFromMillis).mp (congrArg (Option.map Duration.ticks) h)).2

/-- Microseconds are rounded down to ticks. -/
theorem fromMicros_toNat {n : UInt64} {d : Duration} (h : Duration.fromMicros n = some d) :
    d.ticks.toNat = n.toNat * 32768 / 1000000 :=
  (apply_eq_some_iff (c := durationFromMicros).mp (congrArg (Option.map Duration.ticks) h)).2

/-- The result of `there` is given to `back`. -/
def roundTrip (there back : Conversion) (x : UInt64) : Option UInt64 :=
  (there.apply x).bind back.apply

/-- A product that fits is converted. -/
theorem exists_apply {c : Conversion} {x : UInt64} (h : x.toNat * c.num < 2 ^ 64) :
    ∃ y, c.apply x = some y ∧ y.toNat = c.exact x := by
  have hApply := c.apply_toNat x
  rw [if_pos h] at hApply
  exact Option.map_eq_some_iff.mp hApply

/-- From milliseconds and back, one may be missing. -/
theorem roundTrip_millis {there back : Conversion} (hThere : there.num = 32768)
    (hDen : there.den = 1000) (hBack : back.num = 1000) (hDen' : back.den = 32768) (m : UInt64) :
    (∃ y, roundTrip there back m = some y ∧ (y.toNat = m.toNat ∨ y.toNat + 1 = m.toNat)) ↔
      m.toNat * 32768 < 2 ^ 64 := by
  unfold roundTrip
  constructor
  · rintro ⟨y, hTrip, -⟩
    obtain ⟨t, hApply, -⟩ := Option.bind_eq_some_iff.mp hTrip
    rw [← hThere]
    exact (apply_eq_some_iff.mp hApply).1
  · intro hFits
    obtain ⟨t, hApply, ht⟩ := exists_apply (c := there) (x := m) (by rwa [hThere])
    rw [exact, hThere, hDen] at ht
    have hBackFits : t.toNat * back.num < 2 ^ 64 := by
      rw [hBack, ht]
      exact Nat.lt_of_le_of_lt (Nat.div_mul_le_self ..) hFits
    obtain ⟨y, hApply', hy⟩ := exists_apply hBackFits
    rw [exact, hBack, hDen', ht] at hy
    refine ⟨y, ?_, by omega⟩
    rw [hApply, Option.bind_some, hApply']

/-- Whole seconds survive the way to ticks and back. -/
theorem roundTrip_secs {there back : Conversion} (hThere : there.num = 32768)
    (hDen : there.den = 1) (hBack : back.num = 1) (hDen' : back.den = 32768) {s : UInt64}
    (hFits : there.exact s < 2 ^ 64) : roundTrip there back s = some s := by
  rw [exact, hThere, hDen, Nat.div_one] at hFits
  obtain ⟨t, hApply, ht⟩ := exists_apply (c := there) (x := s) (by rwa [hThere])
  rw [exact, hThere, hDen, Nat.div_one] at ht
  have hBackFits : t.toNat * back.num < 2 ^ 64 := by
    rw [hBack, Nat.mul_one, ht]
    exact hFits
  have hSame : s.toNat = back.exact t := by
    rw [exact, hBack, hDen', Nat.mul_one, ht, Nat.mul_div_cancel _ (by decide)]
  rw [roundTrip, hApply, Option.bind_some]
  exact apply_eq_some_iff.mpr ⟨hBackFits, hSame⟩

/-- Where the exact value fits, a conversion returns it exactly if the product fits before it
is divided; so do the ways from milliseconds and back, and those of seconds always do. -/
theorem conversions_exact (c : Conversion) (x : UInt64) :
    (c.exact x < 2 ^ 64 →
      ((∃ y, c.apply x = some y ∧ y.toNat = c.exact x) ↔ x.toNat * c.num < 2 ^ 64)) ∧
    (∀ p ∈ [(durationFromMillis, durationAsMillis), (instantFromMillis, instantAsMillis)],
      p.1.exact x < 2 ^ 64 →
        ((∃ y, roundTrip p.1 p.2 x = some y ∧ (y.toNat = x.toNat ∨ y.toNat + 1 = x.toNat)) ↔
          x.toNat * 32768 < 2 ^ 64)) ∧
    ∀ p ∈ [(durationFromSecs, durationAsSecs), (instantFromSecs, instantAsSecs)],
      p.1.exact x < 2 ^ 64 → roundTrip p.1 p.2 x = some x := by
  refine ⟨fun _ => ⟨?_, exists_apply⟩, ?_, ?_⟩
  · rintro ⟨y, hApply, -⟩
    exact (apply_eq_some_iff.mp hApply).1
  · intro p hMem _
    simp only [List.mem_cons, List.not_mem_nil, or_false] at hMem
    rcases hMem with rfl | rfl
    · exact roundTrip_millis rfl rfl rfl rfl x
    · exact roundTrip_millis rfl rfl rfl rfl x
  · intro p hMem hFits
    simp only [List.mem_cons, List.not_mem_nil, or_false] at hMem
    rcases hMem with rfl | rfl
    · exact roundTrip_secs rfl rfl rfl rfl hFits
    · exact roundTrip_secs rfl rfl rfl rfl hFits

/-- A day in milliseconds, and one more. -/
theorem conversions_exact_day :
    (∃ y, durationFromMillis.apply 86400001 = some y ∧
      y.toNat = durationFromMillis.exact 86400001) ∧
    (∃ y, roundTrip durationFromMillis durationAsMillis 86400001 = some y ∧
      (y.toNat = 86400001 ∨ y.toNat + 1 = 86400001)) ∧
    roundTrip instantFromSecs instantAsSecs 86400001 = some 86400001 := by
  obtain ⟨hExact, hMillis, hSecs⟩ := conversions_exact durationFromMillis 86400001
  exact ⟨(hExact (by decide)).mpr (by decide),
    (hMillis _ (List.mem_cons_self ..) (by decide)).mpr (by decide),
    hSecs _ (List.mem_cons_of_mem _ (List.mem_cons_self ..)) (by decide)⟩

/-- `Instant::MAX` has a number of milliseconds that fits. -/
theorem conversions_instant_max :
    instantAsMillis.exact Instant.max.ticks < 2 ^ 64 ∧ Instant.max.asMillis = none := by
  decide

end Conversion

end Embassy.Time
