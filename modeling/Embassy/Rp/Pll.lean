import Mathlib.Data.Rat.Cast.Order
import Mathlib.Tactic.Linarith
import Mathlib.Tactic.Ring

/-!
# The PLLs of the RP2040

`embassy-rp/src/pll.rs`. The feedback divider is computed for a reference of
`12 / refdiv` MHz, and the same number of MHz is written to the reference divider.

* `configure_some` — what is accepted, and what is programmed for it.
* `configure_vco` — the PLL never runs at the frequency that is asked for.
-/

namespace Embassy.Rp

/-- The PWR register. -/
structure Pwr where
  vcopd : Bool
  postdivpd : Bool
  dsmpd : Bool
  pd : Bool
  deriving DecidableEq, Repr

/-- The registers of a PLL. -/
structure Pll where
  pwr : Pwr
  refdiv : BitVec 6
  fbdivInt : BitVec 12
  postdiv1 : BitVec 3
  postdiv2 : BitVec 3
  deriving DecidableEq, Repr

namespace Pll

def xoscMhz : UInt32 := 12

/-- The second component is `none` where the function panics: a division by zero, or an
assertion that fails. -/
def configure (p : Pll) (refdiv vcoFreq : UInt32) (postDiv1 postDiv2 : UInt8) :
    Pll × Option Unit :=
  let p := { p with pwr := { vcopd := true, postdivpd := true, dsmpd := true, pd := true } }
  let p := { p with fbdivInt := 0 }
  if refdiv = 0 then (p, none)
  else
    let refMhz := xoscMhz / refdiv
    let p := { p with refdiv := refMhz.toBitVec.setWidth 6 }
    if refMhz * 1000000 = 0 then (p, none)
    else
      let fbdiv := vcoFreq / (refMhz * 1000000)
      if ¬ (fbdiv ≥ 16 ∧ fbdiv ≤ 520) then (p, none)
      else if ¬ ((postDiv1 ≥ 1 ∧ postDiv1 ≤ 7) ∧ postDiv2 ≥ 1 ∧ postDiv2 ≤ 7) then (p, none)
      else if ¬ postDiv2 ≤ postDiv1 then (p, none)
      else if ¬ refMhz ≤ vcoFreq / 16 then (p, none)
      else
        let p := { p with fbdivInt := fbdiv.toBitVec.setWidth 12 }
        let p := { p with pwr := { p.pwr with pd := false, vcopd := false } }
        -- it is waited for the lock
        let p := { p with
          postdiv1 := postDiv1.toBitVec.setWidth 3
          postdiv2 := postDiv2.toBitVec.setWidth 3 }
        ({ p with pwr := { p.pwr with postdivpd := false } }, some ())

-- ---------------------------------------------------------------------------
-- What it is programmed to
-- ---------------------------------------------------------------------------

/-- The frequency of the reference, which is divided by REFDIV. -/
def ref (p : Pll) : ℚ := 12000000 / p.refdiv.toNat

/-- The frequency of the VCO. -/
def vco (p : Pll) : ℚ := p.ref * p.fbdivInt.toNat

/-- What `configure` programs for what it accepts. -/
structure Programmed (p : Pll) (refdiv vcoFreq : UInt32) (postDiv1 postDiv2 : UInt8) : Prop where
  refdiv_pos : 1 ≤ refdiv.toNat
  refdiv_le : refdiv.toNat ≤ 12
  refdiv_eq : p.refdiv.toNat = 12 / refdiv.toNat
  fbdiv_ge : 16 ≤ p.fbdivInt.toNat
  fbdiv_eq : p.fbdivInt.toNat = vcoFreq.toNat / (12 / refdiv.toNat * 1000000)
  postdiv1_eq : p.postdiv1.toNat = postDiv1.toNat
  postdiv2_eq : p.postdiv2.toNat = postDiv2.toNat

/-- A value that fits in a field is written as it is. -/
theorem toNat_setWidth_of_lt {v w : Nat} {x : BitVec v} (h : x.toNat < 2 ^ w) :
    (x.setWidth w).toNat = x.toNat := by
  rw [BitVec.toNat_setWidth, Nat.mod_eq_of_lt h]

theorem configure_some {p p' : Pll} {refdiv vcoFreq : UInt32} {postDiv1 postDiv2 : UInt8}
    (h : configure p refdiv vcoFreq postDiv1 postDiv2 = (p', some ())) :
    Programmed p' refdiv vcoFreq postDiv1 postDiv2 := by
  unfold configure at h
  dsimp only at h
  -- the six assertions, each of which panics otherwise
  split at h
  · cases h
  split at h
  · cases h
  split at h
  · cases h
  split at h
  · cases h
  split at h
  · cases h
  split at h
  · cases h
  rename_i hRefdiv hRef hFbdiv hPost _ _
  simp only [not_not] at hFbdiv hPost
  cases h
  have hPos : 1 ≤ refdiv.toNat := by
    refine Nat.pos_of_ne_zero fun hZero => hRefdiv ?_
    rwa [← UInt32.toNat_inj]
  have hMhz : (xoscMhz / refdiv).toNat = 12 / refdiv.toNat := UInt32.toNat_div ..
  have hMhzLe : 12 / refdiv.toNat ≤ 12 := Nat.div_le_self ..
  -- the reference in hertz does not wrap
  have hHz : (xoscMhz / refdiv * 1000000).toNat = 12 / refdiv.toNat * 1000000 := by
    rw [UInt32.toNat_mul, hMhz, Nat.mod_eq_of_lt]
    · rfl
    · show _ * 1000000 < _
      omega
  have hHzPos : 12 / refdiv.toNat ≠ 0 := by
    intro hZero
    refine hRef ?_
    rw [← UInt32.toNat_inj, hHz, hZero]
    rfl
  have hDiv : (vcoFreq / (xoscMhz / refdiv * 1000000)).toNat =
      vcoFreq.toNat / (12 / refdiv.toNat * 1000000) := by
    rw [UInt32.toNat_div, hHz]
  -- the divider is within its bounds, so twelve bits hold it
  obtain ⟨hGe, hLe⟩ := hFbdiv
  rw [ge_iff_le, UInt32.le_iff_toNat_le, hDiv] at hGe
  rw [UInt32.le_iff_toNat_le, hDiv] at hLe
  have hFbdivEq : ((vcoFreq / (xoscMhz / refdiv * 1000000)).toBitVec.setWidth 12).toNat =
      vcoFreq.toNat / (12 / refdiv.toNat * 1000000) := by
    have hFits : (vcoFreq / (xoscMhz / refdiv * 1000000)).toNat < 2 ^ 12 :=
      hDiv ▸ Nat.lt_of_le_of_lt hLe (by decide)
    exact (toNat_setWidth_of_lt hFits).trans hDiv
  have hPost1 := UInt8.le_iff_toNat_le.mp hPost.1.2
  have hPost2 := UInt8.le_iff_toNat_le.mp hPost.2.2
  constructor
  case refdiv_pos => exact hPos
  case refdiv_le => exact Nat.le_of_not_lt fun hLt => hHzPos (Nat.div_eq_of_lt hLt)
  case refdiv_eq =>
    have hFits : (xoscMhz / refdiv).toNat < 2 ^ 6 := hMhz ▸ Nat.lt_of_le_of_lt hMhzLe (by decide)
    exact (toNat_setWidth_of_lt hFits).trans hMhz
  case fbdiv_ge =>
    rw [hFbdivEq]
    exact hGe
  case fbdiv_eq => exact hFbdivEq
  case postdiv1_eq => exact toNat_setWidth_of_lt (Nat.lt_of_le_of_lt hPost1 (by decide))
  case postdiv2_eq => exact toNat_setWidth_of_lt (Nat.lt_of_le_of_lt hPost2 (by decide))

theorem Programmed.mhz_pos {p : Pll} {refdiv vcoFreq : UInt32} {postDiv1 postDiv2 : UInt8}
    (h : Programmed p refdiv vcoFreq postDiv1 postDiv2) : 0 < 12 / refdiv.toNat :=
  Nat.div_pos h.refdiv_le h.refdiv_pos

theorem Programmed.ref_pos {p : Pll} {refdiv vcoFreq : UInt32} {postDiv1 postDiv2 : UInt8}
    (h : Programmed p refdiv vcoFreq postDiv1 postDiv2) : 0 < p.ref := by
  unfold ref
  rw [h.refdiv_eq]
  exact div_pos (by norm_num) (by exact_mod_cast h.mhz_pos)

/-- With a reference of `12 / refdiv` MHz, the output would be right. -/
theorem Programmed.near {p : Pll} {refdiv vcoFreq : UInt32} {postDiv1 postDiv2 : UInt8}
    (h : Programmed p refdiv vcoFreq postDiv1 postDiv2) :
    p.fbdivInt.toNat * (p.refdiv.toNat * 1000000) ≤ vcoFreq.toNat ∧
      vcoFreq.toNat < (p.fbdivInt.toNat + 1) * (p.refdiv.toNat * 1000000) := by
  rw [h.fbdiv_eq, h.refdiv_eq]
  have hPos := h.mhz_pos
  constructor
  · exact Nat.div_mul_le_self ..
  · rw [Nat.add_mul, Nat.one_mul]
    exact Nat.lt_div_mul_add (by omega)

/-- The output is too slow where the reference is divided by 4 or more, and else too fast. -/
theorem Programmed.off {p : Pll} {refdiv vcoFreq : UInt32} {postDiv1 postDiv2 : UInt8}
    (h : Programmed p refdiv vcoFreq postDiv1 postDiv2) :
    p.vco + p.ref ≤ vcoFreq.toNat ∨ vcoFreq.toNat < p.vco := by
  obtain ⟨hLow, hHigh⟩ := h.near
  have hGe := h.fbdiv_ge
  have hPos : 0 < p.refdiv.toNat := h.refdiv_eq ▸ h.mhz_pos
  have hCast : (0 : ℚ) < p.refdiv.toNat := by exact_mod_cast hPos
  unfold vco ref
  generalize p.refdiv.toNat = r at *
  generalize p.fbdivInt.toNat = f at *
  -- three times three is below twelve, four times four above
  rcases Nat.lt_or_ge r 4 with hFew | hMany
  · right
    have hSquare : (f + 1) * (r * r) ≤ 12 * f := by
      have hNine : (f + 1) * (r * r) ≤ (f + 1) * (3 * 3) :=
        Nat.mul_le_mul_left _ (Nat.mul_le_mul (by omega) (by omega))
      omega
    have hFast : vcoFreq.toNat * r < 12000000 * f :=
      calc vcoFreq.toNat * r < (f + 1) * (r * 1000000) * r := Nat.mul_lt_mul_of_pos_right hHigh hPos
        _ = (f + 1) * (r * r) * 1000000 := by ring
        _ ≤ 12 * f * 1000000 := Nat.mul_le_mul_right _ hSquare
        _ = 12000000 * f := by ring
    rw [div_mul_eq_mul_div, lt_div_iff₀ hCast]
    exact_mod_cast hFast
  · left
    have hSquare : 12 * (f + 1) ≤ f * (r * r) := by
      have hSixteen : f * (4 * 4) ≤ f * (r * r) :=
        Nat.mul_le_mul_left _ (Nat.mul_le_mul hMany hMany)
      omega
    have hSlow : 12000000 * (f + 1) ≤ vcoFreq.toNat * r :=
      calc 12000000 * (f + 1) = 12 * (f + 1) * 1000000 := by ring
        _ ≤ f * (r * r) * 1000000 := Nat.mul_le_mul_right _ hSquare
        _ = f * (r * 1000000) * r := by ring
        _ ≤ vcoFreq.toNat * r := Nat.mul_le_mul_right _ hLow
    have hSum : (12000000 : ℚ) / r * f + 12000000 / r = 12000000 * (f + 1) / r := by ring
    rw [hSum, div_le_iff₀ hCast]
    exact_mod_cast hSlow

/-- Nothing that is accepted divides by zero; but the output of the VCO is never what is
asked for, nor less than a step of the reference below it. -/
theorem configure_vco {p p' : Pll} {refdiv vcoFreq : UInt32} {postDiv1 postDiv2 : UInt8}
    (h : configure p refdiv vcoFreq postDiv1 postDiv2 = (p', some ())) :
    (0 < refdiv.toNat ∧ 0 < 12 / refdiv.toNat * 1000000) ∧
      ¬ (p'.vco ≤ vcoFreq.toNat ∧ vcoFreq.toNat < p'.vco + p'.ref) ∧
        p'.vco ≠ vcoFreq.toNat := by
  have hProgrammed := configure_some h
  have hMhz := hProgrammed.mhz_pos
  have hRef := hProgrammed.ref_pos
  refine ⟨⟨hProgrammed.refdiv_pos, by omega⟩, ?_⟩
  rcases hProgrammed.off with hSlow | hFast
  · exact ⟨fun hMeets => absurd hMeets.2 (not_lt_of_ge hSlow), by linarith⟩
  · exact ⟨fun hMeets => absurd hMeets.1 (not_le_of_gt hFast), ne_of_gt hFast⟩

def zero : Pll where
  pwr := { vcopd := false, postdivpd := false, dsmpd := false, pd := false }
  refdiv := 0
  fbdivInt := 0
  postdiv1 := 0
  postdiv2 := 0

/-- The PLL of the USB is configured to 480 MHz. -/
theorem configure_vco_usb : (configure zero 1 480000000 5 2).1.vco ≠ 480000000 := by
  have h := configure_vco (show configure zero 1 480000000 5 2 =
    ((configure zero 1 480000000 5 2).1, some ()) by decide)
  exact_mod_cast h.2.2

/-- That of the system is configured to 1500 MHz, and programmed to 125 MHz. -/
theorem configure_vco_sys : (configure zero 1 1500000000 6 2).2 = some () ∧
    (configure zero 1 1500000000 6 2).1.vco = 125000000 := by
  refine ⟨by decide, ?_⟩
  have hRefdiv : (configure zero 1 1500000000 6 2).1.refdiv.toNat = 12 := by decide
  have hFbdiv : (configure zero 1 1500000000 6 2).1.fbdivInt.toNat = 125 := by decide
  unfold vco ref
  rw [hRefdiv, hFbdiv]
  norm_num

end Pll

end Embassy.Rp
