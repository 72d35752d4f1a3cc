import Mathlib.Tactic.Ring
import Embassy.Lib.Wrap
import Embassy.Rtc.Driver

/-!
# The RTC clock

`now()` puts the software count `period` and the hardware counter together.
`period` may lag behind: boundaries that have passed and are not yet serviced
are missing from it. The invariant `ClockInv` says that nothing else is ever
missing, so the lag is the number of unserviced boundaries, and `calcNow_eq`
says what `calc_now` makes of a lag: one period is made up for by the parity
of the counter's top bit, a second one is not.

Main results:

* `clockInv_of_run` — in every run, `period` plus the unserviced boundaries is
  the number of periods passed.
* `nrf_now_exact` — on the nRF, where both boundaries request an interrupt,
  `now()` is the true time and never decreases.
* `stm32_now_exact_iff` — on the STM32 the overflow requests none, so a second
  boundary can be outstanding; `now()` is exact when fewer than two are.
-/

namespace Embassy.Rtc

open Embassy.Lib

-- ---------------------------------------------------------------------------
-- Arithmetic of periods and cycles
-- ---------------------------------------------------------------------------

namespace Chip

/-- A period is half a cycle of the counter. -/
theorem two_pow_periodBits (c : Chip) : 2 ^ c.periodBits = c.half := by
  cases c <;> rfl

theorem half_pos (c : Chip) : 0 < c.half := by
  cases c <;> simp [half]

theorem cycle_pos (c : Chip) : 0 < c.cycle := by
  cases c <;> simp [cycle]

/-- The shift in `calc_now`, as a product. -/
theorem shiftLeft_periodBits (c : Chip) (p : Nat) : p <<< c.periodBits = p * c.half := by
  rw [Nat.shiftLeft_eq, c.two_pow_periodBits]

/-- A compare register holds a timestamp modulo the counter's cycle. -/
theorem truncate_eq (c : Chip) (x : Nat) : c.truncate x = x % c.cycle := by
  cases c with
  | nrf =>
    -- The counter of the nRF has 24 bits.
    have hAnd := Nat.and_two_pow_sub_one_eq_mod (x % u32Size) 24
    simp only [truncate, cycle, u32Size] at hAnd ⊢
    rw [show (0xFFFFFF : Nat) = 2 ^ 24 - 1 from rfl, hAnd]
    omega
  | stm32 => rfl

/-- What a tick does to the number of periods passed. -/
theorem tick_cases (c : Chip) (tau : Nat) :
    ((tau + 1) % c.cycle = 0 ∧ (tau + 1) / c.half = tau / c.half + 1 ∧
      tau / c.half % 2 = 1 ∧ (tau + 1) % c.cycle ≠ c.half) ∨
    ((tau + 1) % c.cycle = c.half ∧ (tau + 1) / c.half = tau / c.half + 1 ∧
      tau / c.half % 2 = 0 ∧ (tau + 1) % c.cycle ≠ 0) ∨
    ((tau + 1) % c.cycle ≠ 0 ∧ (tau + 1) % c.cycle ≠ c.half ∧
      (tau + 1) / c.half = tau / c.half) := by
  cases c <;> simp only [half, cycle] <;> omega

end Chip

/-- The result of `calc_now` when `period` lags `k` periods behind. -/
theorem calcNow_eq (c : Chip) {p k tau : Nat} (h : tau / c.half = p + k) :
    calcNow c p (tau % c.cycle) = p * c.half + k % 2 * c.half + tau % c.half := by
  have hTop : tau % c.cycle / c.half = (p + k) % 2 := by
    rw [← h]
    cases c <;> simp only [Chip.half, Chip.cycle] <;> omega
  have hLow : tau % c.cycle % c.half = tau % c.half := by
    cases c <;> simp only [Chip.half, Chip.cycle] <;> omega
  rw [calcNow, xor_shiftLeft, Nat.and_one_is_mod, c.shiftLeft_periodBits,
    c.two_pow_periodBits, hTop, hLow, mod_two_xor]
  ring

/-- `calc_now` is exact if and only if `period` lags at most one period behind. -/
theorem calcNow_eq_iff (c : Chip) {p k tau : Nat} (h : tau / c.half = p + k) :
    calcNow c p (tau % c.cycle) = tau ↔ k ≤ 1 := by
  have hTau : tau = p * c.half + k * c.half + tau % c.half := by
    have hDiv := Nat.div_add_mod' tau c.half
    rw [h, Nat.add_mul] at hDiv
    omega
  rw [calcNow_eq c h]
  constructor
  · intro hEq
    have hMul : k % 2 * c.half = k * c.half := by omega
    have := Nat.eq_of_mul_eq_mul_right c.half_pos hMul
    omega
  · intro hk
    rw [Nat.mod_eq_of_lt (show k < 2 by omega)]
    exact hTau.symm

/-- A lagging `period` never makes `calc_now` run ahead. -/
theorem calcNow_le (c : Chip) {p tau : Nat} (h : p ≤ tau / c.half) :
    calcNow c p (tau % c.cycle) ≤ tau := by
  obtain ⟨k, hk⟩ := Nat.exists_eq_add_of_le h
  rw [calcNow_eq c hk]
  have hDiv := Nat.div_add_mod' tau c.half
  rw [hk, Nat.add_mul] at hDiv
  have := Nat.mul_le_mul_right c.half (Nat.mod_le k 2)
  omega

-- ---------------------------------------------------------------------------
-- Waiting
-- ---------------------------------------------------------------------------

/-- A tick that meets no boundary and no compare register only advances the
time. -/
theorem tick_quiet {c : Chip} {s : State} (hTicked : s.ticked = true)
    (hDiv : (s.tau + 1) / c.half = s.tau / c.half) (hCmp : ∀ n, compares c s n = false) :
    tick c s = s.atTick (s.tau + 1) := by
  have hB : (s.tau + 1) % c.cycle ≠ 0 ∧ (s.tau + 1) % c.cycle ≠ c.half := by
    rcases c.tick_cases s.tau with ⟨-, h, -⟩ | ⟨-, h, -⟩ | ⟨h0, hh, -⟩
    · omega
    · omega
    · exact ⟨h0, hh⟩
  simp [tick, State.atTick, hB.1, hB.2, hCmp, ← hTicked]

/-- Neither a boundary nor a compare register is met until tick `y`. -/
def Undisturbed (c : Chip) (s : State) (y : Nat) : Prop :=
  s.tau ≤ y ∧ s.ticked = true ∧ y / c.half = s.tau / c.half ∧
    ∀ n < c.realAlarmCount, y < s.tau + 1 + (s.cc n + c.cycle - (s.tau + 1) % c.cycle) % c.cycle

instance (c : Chip) (s : State) (y : Nat) : Decidable (Undisturbed c s y) :=
  inferInstanceAs (Decidable (_ ∧ _ ∧ _ ∧ _))

/-- No compare register is met on the way. -/
theorem Undisturbed.not_compares {c : Chip} {s : State} {y : Nat} (h : Undisturbed c s y)
    {x : Nat} (hLo : s.tau ≤ x) (hHi : x < y) (n : Nat) : compares c (s.atTick x) n = false := by
  by_contra hCmp
  obtain ⟨hn, hMod, -⟩ : n < c.realAlarmCount ∧ (x + 1) % c.cycle = s.cc n ∧
      s.ccAt n + c.settle ≤ x + 1 := by
    simpa [compares] using hCmp
  have hNext := h.2.2.2 n hn
  exact mod_ne_of_lt_next (t := s.tau + 1) c.cycle_pos (by omega) (by omega) hMod

/-- No boundary is met on the way. -/
theorem Undisturbed.div_eq {c : Chip} {s : State} {y : Nat} (h : Undisturbed c s y)
    {x : Nat} (hLo : s.tau ≤ x) (hHi : x ≤ y) : x / c.half = s.tau / c.half := by
  have h1 : s.tau / c.half ≤ x / c.half := Nat.div_le_div_right hLo
  have h2 : x / c.half ≤ y / c.half := Nat.div_le_div_right hHi
  have := h.2.2.1
  omega

/-- Waiting undisturbed until tick `y` only advances the time. -/
theorem run_wait {c : Chip} {ok : State → Action → Prop} {s : State} {y : Nat}
    (h : Undisturbed c s y)
    (hOk : ∀ x, s.tau ≤ x → x < y → (x + 1) / c.half = x / c.half → ok (s.atTick x) .tick) :
    Run (step c) ok s (s.atTick y) := by
  suffices hAll : ∀ x, s.tau ≤ x → x ≤ y → Run (step c) ok s (s.atTick x) from
    hAll y h.1 (Nat.le_refl _)
  intro x hx
  -- By induction on the tick that is reached.
  induction x, hx using Nat.le_induction with
  | base => exact fun _ => .refl
  | succ x hx ih =>
    intro hy
    have hDiv : (x + 1) / c.half = x / c.half := by
      rw [h.div_eq (by omega) hy, h.div_eq hx (by omega)]
    have hTick := tick_quiet (s := s.atTick x) h.2.1 hDiv (h.not_compares hx (by omega))
    exact (ih (by omega)).tail (a := .tick) (hOk x hx (by omega) hDiv) (congrArg some hTick)

-- ---------------------------------------------------------------------------
-- The invariant
-- ---------------------------------------------------------------------------

/-- `on_interrupt` has seen the overflow event off: it has cleared it or found
it not latched. -/
def Handler.pastOvf : Handler → Bool
  | .idle | .checkOvf | .clearOvf => false
  | _ => true

/-- `period` lacks exactly the unserviced boundaries. The overflow is pending
only in the first half of a cycle and the midway point only in the second,
unless both are: that happens only where the overflow requests no interrupt. -/
structure ClockInv (c : Chip) (s : State) : Prop where
  count : s.period + s.unserviced = s.tau / c.half
  midOdd : s.midPending = true → s.tau / c.half % 2 = 1
  ovfEven : s.ovfPending = true → s.midPending = false → s.tau / c.half % 2 = 0
  ovfIrq : c.ovfIrq = true → s.ovfPending = true → s.tau / c.half % 2 = 0
  ovfOnce : s.ovf = true → s.handler ≠ .periodOvf ∧ s.crit ≠ .fetchAdd .ovf
  midOnce : s.mid = true → s.handler ≠ .periodMid ∧ s.crit ≠ .fetchAdd .mid
  takenOvf : s.handler = .clearOvf → s.ovf = true
  takenMid : s.handler = .clearMid → s.mid = true
  critOvf : s.crit = .fetchAdd .ovf → s.handler = .checkMid
  critMid : s.crit = .fetchAdd .mid → s.handler = .check 0
  -- an overflow event that the running handler has missed is younger than it
  missed : s.handler.pastOvf = true → s.ovf = true → s.handlerAt + s.tau % c.cycle ≤ s.tau
  entered : s.handler ≠ .idle → s.handlerAt ≤ s.tau
  running : c.ovfIrq = false → s.handler ≠ .idle → s.tau < s.handlerAt + c.half
  range : s.tau < u32Size * c.half

/-- The assumptions under which the clock runs. -/
def ClockOk (c : Chip) (s : State) (a : Action) : Prop := Timely c s a ∧ InRange c s a

instance (c : Chip) (s : State) (a : Action) : Decidable (ClockOk c s a) :=
  inferInstanceAs (Decidable (_ ∧ _))

/-- Between boundaries, with the handler idle, a tick is in time. -/
theorem clockOk_tick {c : Chip} {s : State} (hH : s.handler = .idle)
    (hDiv : (s.tau + 1) / c.half = s.tau / c.half) (hR : s.tau + 1 < u32Size * c.half) :
    ClockOk c s .tick := by
  rcases c.tick_cases s.tau with ⟨-, h, -⟩ | ⟨-, h, -⟩ | ⟨h0, hh, -⟩
  · omega
  · omega
  · exact ⟨⟨fun h => absurd h h0, fun h => absurd h hh, fun _ h => absurd hH h⟩, hR⟩

/-- The overflow is neither latched nor under way in the handler. -/
theorem State.ovfPending_eq_false {s : State} : s.ovfPending = false ↔
    s.ovf = false ∧ s.handler ≠ .periodOvf ∧ s.crit ≠ .fetchAdd .ovf := by
  simp [State.ovfPending, and_assoc]

/-- The midway point is neither latched nor under way in the handler. -/
theorem State.midPending_eq_false {s : State} : s.midPending = false ↔
    s.mid = false ∧ s.handler ≠ .periodMid ∧ s.crit ≠ .fetchAdd .mid := by
  simp [State.midPending, and_assoc]

/-- At tick zero nothing has passed and nothing is pending. -/
theorem clockInv_init (c : Chip) : ClockInv c init := by
  constructor <;> cases c <;>
    simp [init, State.unserviced, State.ovfPending, State.midPending, Handler.pastOvf,
      u32Size, Chip.half]

namespace ClockInv

variable {c : Chip} {s s' : State}

/-- At the counter's overflow nothing is pending: the midway point has been
serviced in time, and with it the overflow before. -/
theorem not_ovfPending_of_odd (hI : ClockInv c s) (hMid : s.midPending = false)
    (hOdd : s.tau / c.half % 2 = 1) : s.ovfPending = false := by
  by_contra hOvf
  have := hI.ovfEven (Bool.not_eq_false _ ▸ hOvf) hMid
  omega

/-- An overflow that the running handler has missed came in the first half of
the running cycle. -/
theorem even_of_missed (hI : ClockInv c s) (hPast : s.handler.pastOvf = true)
    (hOvf : s.ovf = true) : s.tau / c.half % 2 = 0 := by
  cases hIrq : c.ovfIrq with
  | true => exact hI.ovfIrq hIrq (by simp [State.ovfPending, hOvf])
  | false =>
    have hMissed := hI.missed hPast hOvf
    have hRun := hI.running hIrq (by rintro hIdle; simp [hIdle, Handler.pastOvf] at hPast)
    cases c <;> simp only [Chip.half, Chip.cycle] at hMissed hRun ⊢ <;> omega

/-- The clock reads nothing but the time, the boundary events, `period` and
where the handler is. -/
theorem frame (hI : ClockInv c s) (hTau : s'.tau = s.tau) (hOvf : s'.ovf = s.ovf)
    (hMid : s'.mid = s.mid) (hPeriod : s'.period = s.period)
    (hH : s'.handler = s.handler) (hAt : s'.handlerAt = s.handlerAt)
    (hC : ∀ b, s.crit ≠ .fetchAdd b) (hC' : ∀ b, s'.crit ≠ .fetchAdd b) : ClockInv c s' := by
  have hOvfP : s'.ovfPending = s.ovfPending := by simp [State.ovfPending, *]
  have hMidP : s'.midPending = s.midPending := by simp [State.midPending, *]
  obtain ⟨h1, h2, h3, h4, h5, h6, h7, h8, h9, h10, h11, h12, h13, h14⟩ := hI
  constructor <;> simp_all [State.unserviced]

/-- A tick makes a boundary pending or only passes the time. -/
theorem tick (hI : ClockInv c s) (hT : Timely c s .tick) (hR : InRange c s .tick) :
    ClockInv c (tick c s) := by
  obtain ⟨hMidT, hOvfT, hRunT⟩ := hT
  -- the two boundaries the new count may be on
  have hOvfP : (Rtc.tick c s).ovfPending =
      (s.ovfPending || decide ((s.tau + 1) % c.cycle = 0)) := by
    simp only [State.ovfPending, Rtc.tick]
    grind
  have hMidP : (Rtc.tick c s).midPending =
      (s.midPending || decide ((s.tau + 1) % c.cycle = c.half)) := by
    simp only [State.midPending, Rtc.tick]
    grind
  have hCount := hI.count
  -- an overflow the handler has looked past came after the handler was entered
  have hMissed : s.handler.pastOvf = true →
      (s.ovf || decide ((s.tau + 1) % c.cycle = 0)) = true →
      s.handlerAt + (s.tau + 1) % c.cycle ≤ s.tau + 1 := by
    intro hPast hOvf
    have hEnt := hI.entered (by rintro hIdle; simp [hIdle, Handler.pastOvf] at hPast)
    by_cases hB : (s.tau + 1) % c.cycle = 0
    · omega
    · have := hI.missed hPast (by simpa [hB] using hOvf)
      cases c <;> simp only [Chip.cycle] at this hB ⊢ <;> omega
  have hEnt : s.handler ≠ .idle → s.handlerAt ≤ s.tau + 1 :=
    fun h => Nat.le_succ_of_le (hI.entered h)
  -- three kinds of tick: onto an overflow, onto a midway point, onto neither
  rcases c.tick_cases s.tau with ⟨hB, hDiv, hPar, hNe⟩ | ⟨hB, hDiv, hPar, hNe⟩ | ⟨hN0, hNh, hDiv⟩
  · -- the counter overflows: by now nothing is pending
    have hMid := hMidT hB
    have hOvf := hI.not_ovfPending_of_odd hMid hPar
    obtain ⟨-, hFlag⟩ := State.ovfPending_eq_false.mp hOvf
    exact
      { count := by simp_all [State.unserviced]
        midOdd := by simp_all
        ovfEven := by simp only [tick_tau]; omega
        ovfIrq := by simp only [tick_tau]; omega
        ovfOnce := fun _ => hFlag
        midOnce := by simpa [hNe] using hI.midOnce
        takenOvf := fun h => by simp [hI.takenOvf h]
        takenMid := fun h => by simp [hI.takenMid h]
        critOvf := hI.critOvf
        critMid := hI.critMid
        missed := hMissed
        entered := hEnt
        running := hRunT
        range := hR }
  · -- the midway point: its last one was serviced in time
    have hMid : s.midPending = false := by
      by_contra hMid
      have := hI.midOdd (Bool.not_eq_false _ ▸ hMid)
      omega
    obtain ⟨-, hFlag⟩ := State.midPending_eq_false.mp hMid
    simp only [hNe, decide_false, Bool.or_false] at hOvfP
    simp only [hMid, hB, decide_true, Bool.or_true] at hMidP
    exact
      { count := by
          simp only [State.unserviced, hMid, Bool.toNat_false] at hCount
          simp only [State.unserviced, hOvfP, hMidP, Bool.toNat_true, tick_period, tick_tau, hDiv]
          omega
        midOdd := by simp only [tick_tau]; omega
        ovfEven := by simp [hMidP]
        ovfIrq := by
          intro hIrq hOvf
          simp [hOvfP, hOvfT hB hIrq] at hOvf
        ovfOnce := by simpa [hNe] using hI.ovfOnce
        midOnce := fun _ => hFlag
        takenOvf := fun h => by simp [hI.takenOvf h]
        takenMid := fun h => by simp [hI.takenMid h]
        critOvf := hI.critOvf
        critMid := hI.critMid
        missed := hMissed
        entered := hEnt
        running := hRunT
        range := hR }
  · -- no boundary
    simp only [hN0, hNh, decide_false, Bool.or_false] at hOvfP hMidP
    exact
      { count := by simpa [State.unserviced, hOvfP, hMidP, hDiv] using hCount
        midOdd := by simpa [hMidP, hDiv] using hI.midOdd
        ovfEven := by simpa [hOvfP, hMidP, hDiv] using hI.ovfEven
        ovfIrq := by simpa [hOvfP, hDiv] using hI.ovfIrq
        ovfOnce := by simpa [hN0] using hI.ovfOnce
        midOnce := by simpa [hNh] using hI.midOnce
        takenOvf := fun h => by simp [hI.takenOvf h]
        takenMid := fun h => by simp [hI.takenMid h]
        critOvf := hI.critOvf
        critMid := hI.critMid
        missed := hMissed
        entered := hEnt
        running := hRunT
        range := hR }

theorem period_lt (hI : ClockInv c s) : s.tau / c.half < u32Size :=
  Nat.div_lt_of_lt_mul (Nat.mul_comm _ _ ▸ hI.range)

/-- The boundary that `fetch_add` counts is outstanding until then. -/
theorem succ_period_lt (hI : ClockInv c s) {b : Boundary} (hC : s.crit = .fetchAdd b) :
    s.period + 1 < u32Size := by
  have hU : 1 ≤ s.unserviced := by
    cases b <;> simp [State.unserviced, State.ovfPending, State.midPending, hC]
  have := hI.count
  have := hI.period_lt
  omega

/-- When `fetch_add` runs, no overflow is latched: the handler has just cleared
it, or looked for it less than half a cycle ago. -/
theorem ovf_of_fetchAdd (hI : ClockInv c s) {b : Boundary} (hC : s.crit = .fetchAdd b) :
    s.ovf = false := by
  by_contra hOvf
  have hOvf := Bool.not_eq_false _ ▸ hOvf
  cases b with
  | ovf => exact (hI.ovfOnce hOvf).2 hC
  | mid =>
    have := hI.even_of_missed (by simp [hI.critMid hC, Handler.pastOvf]) hOvf
    have := hI.midOdd (by simp [State.midPending, hC])
    omega

/-- `fetch_add` leaves no overflow uncounted. -/
theorem ovfPending_fetchAdd (hI : ClockInv c s) {b : Boundary} (hC : s.crit = .fetchAdd b) :
    (fetchAddPeriod s).ovfPending = false := by
  refine State.ovfPending_eq_false.mpr ⟨hI.ovf_of_fetchAdd hC, ?_, by simp⟩
  cases b with
  | ovf => simp [hI.critOvf hC]
  | mid => simp [hI.critMid hC]

/-- `fetch_add` counts the boundary it was called for. -/
theorem fetchAdd (hI : ClockInv c s) {b : Boundary} (hC : s.crit = .fetchAdd b) :
    ClockInv c (fetchAddPeriod s) := by
  have hCount := hI.count
  have hLt := hI.succ_period_lt hC
  have hRun := hI.running
  have hOvf := hI.ovf_of_fetchAdd hC
  have hOvfP := hI.ovfPending_fetchAdd hC
  cases b with
  | ovf =>
    -- the overflow's count is paid: it is no longer pending
    have hH := hI.critOvf hC
    have hMidP : (fetchAddPeriod s).midPending = s.midPending := by
      simp [State.midPending, hC]
    have hOvfPs : s.ovfPending = true := by simp [State.ovfPending, hC]
    simp only [State.unserviced, hOvfPs, Bool.toNat_true] at hCount
    exact
      { count := by
          simp only [State.unserviced, hMidP, hOvfP, Bool.toNat_false, fetchAddPeriod_period,
            fetchAddPeriod_tau]
          rw [Nat.mod_eq_of_lt hLt]
          omega
        midOdd := by simpa [hMidP] using hI.midOdd
        ovfEven := by simp [hOvfP]
        ovfIrq := by simp [hOvfP]
        ovfOnce := by simp [hOvf]
        midOnce := by simp [hH]
        takenOvf := by simp [hH]
        takenMid := by simp [hH]
        critOvf := by simp
        critMid := by simp
        missed := by simp [hOvf]
        entered := hI.entered
        running := hRun
        range := hI.range }
  | mid =>
    -- the midway point's count, taken with no overflow pending
    have hH := hI.critMid hC
    have hMidPs : s.midPending = true := by simp [State.midPending, hC]
    -- its event was cleared before `next_period` was called
    have hMid : s.mid = false := by
      by_contra hMid
      exact (hI.midOnce (Bool.not_eq_false _ ▸ hMid)).2 hC
    have hOvfPs : s.ovfPending = false :=
      State.ovfPending_eq_false.mpr ⟨hOvf, by simp [hH], by simp [hC]⟩
    have hMidP : (fetchAddPeriod s).midPending = false :=
      State.midPending_eq_false.mpr ⟨hMid, by simp [hH], by simp⟩
    simp only [State.unserviced, hOvfPs, hMidPs, Bool.toNat_true, Bool.toNat_false] at hCount
    exact
      { count := by
          simp only [State.unserviced, hMidP, hOvfP, Bool.toNat_false, fetchAddPeriod_period,
            fetchAddPeriod_tau]
          rw [Nat.mod_eq_of_lt hLt]
          omega
        midOdd := by simp [hMidP]
        ovfEven := by simp [hOvfP]
        ovfIrq := by simp [hOvfP]
        ovfOnce := by simp [hOvf]
        midOnce := by simp [hMid]
        takenOvf := by simp [hH]
        takenMid := by simp [hH]
        critOvf := by simp
        critMid := by simp
        missed := by simp [hOvf]
        entered := hI.entered
        running := hRun
        range := hI.range }

/-- A statement of `on_interrupt` moves a pending boundary along, or moves on. -/
theorem handler (hI : ClockInv c s) (hTau : s'.tau = s.tau)
    (hPeriod : s'.period = s.period) (hAt : s'.handlerAt = s.handlerAt)
    (hOvfP : s'.ovfPending = s.ovfPending) (hMidP : s'.midPending = s.midPending)
    (hIdle : s'.handler ≠ .idle → s.handler ≠ .idle)
    (hPast : s'.handler.pastOvf = true → s'.ovf = true → s.handler.pastOvf = true ∧ s.ovf = true)
    (hOvf : s'.ovf = true → s'.handler ≠ .periodOvf ∧ s'.crit ≠ .fetchAdd .ovf)
    (hMid : s'.mid = true → s'.handler ≠ .periodMid ∧ s'.crit ≠ .fetchAdd .mid)
    (hTo : s'.handler = .clearOvf → s'.ovf = true)
    (hTm : s'.handler = .clearMid → s'.mid = true)
    (hCo : s'.crit = .fetchAdd .ovf → s'.handler = .checkMid)
    (hCm : s'.crit = .fetchAdd .mid → s'.handler = .check 0) : ClockInv c s' where
  count := by simpa [State.unserviced, hTau, hPeriod, hOvfP, hMidP] using hI.count
  midOdd := by simpa [hMidP, hTau] using hI.midOdd
  ovfEven := by simpa [hOvfP, hMidP, hTau] using hI.ovfEven
  ovfIrq := by simpa [hOvfP, hTau] using hI.ovfIrq
  ovfOnce := hOvf
  midOnce := hMid
  takenOvf := hTo
  takenMid := hTm
  critOvf := hCo
  critMid := hCm
  missed := by
    intro hP hO
    rw [hAt, hTau]
    exact hI.missed (hPast hP hO).1 (hPast hP hO).2
  entered := by
    intro h
    rw [hAt, hTau]
    exact hI.entered (hIdle h)
  running := by
    intro hIrq h
    rw [hAt, hTau]
    exact hI.running hIrq (hIdle h)
  range := by simpa [hTau] using hI.range

/-- The clock's invariant is kept by every statement and every tick in time. -/
theorem step {a : Action} (hI : ClockInv c s) (hOk : ClockOk c s a)
    (h : step c s a = some s') : ClockInv c s' := by
  have hOnce := hI.ovfOnce
  have hMidOnce := hI.midOnce
  have hTo := hI.takenOvf
  have hTm := hI.takenMid
  cases step_stmt h with
  | tick => exact hI.tick hOk.1 hOk.2
  | fetchAdd hC => exact hI.fetchAdd hC
  | enter hC hH hR =>
    obtain ⟨h1, h2, h3, h4, h5, h6, h7, h8, h9, h10, h11, h12, h13, h14⟩ := hI
    have := c.half_pos
    constructor <;>
      simp_all [State.unserviced, State.ovfPending, State.midPending, Handler.pastOvf]
  -- The statements of the handler move a boundary along.
  | checkOvf_hit hC hH hE | checkOvf_miss hC hH hE | clearOvf hC hH | periodOvf hC hH
  | checkMid_hit hC hH hE | checkMid_miss hC hH hE | clearMid hC hH | periodMid hC hH
  | check_hit hC hH hn hE | check_miss hC hH hn hE | check_done hC hH hn | clear hC hH
  | trigger hC hH =>
    refine hI.handler rfl rfl rfl ?_ ?_ ?_ ?_ ?_ ?_ ?_ ?_ ?_ ?_ <;>
      simp_all [State.ovfPending, State.midPending, Handler.pastOvf]
  -- The others touch nothing that the clock reads.
  | arm_write hC hn hD | arm_skip hC hn hD | arm_done hC hn | armEnable hC | nowPeriod hC
  | nowCounter_due hC | nowCounter_near hC | nowCounter_far hC | writeCc hC | enable hC
  | disable hC | trigDisable hC | trigClear hC
  | trigCall hC | setAlarm hC hn hReal hTs | setCallback hC hn | nowLoad hC | nowRead hC hCall =>
    refine hI.frame rfl rfl rfl rfl rfl rfl ?_ ?_ <;> simp [hC]

/-- Where the overflow requests an interrupt, at most one boundary is pending. -/
theorem unserviced_le_one (hI : ClockInv c s) (hIrq : c.ovfIrq = true) :
    s.unserviced ≤ 1 := by
  have hEven := hI.ovfIrq hIrq
  have hOdd := hI.midOdd
  simp only [State.unserviced]
  cases hO : s.ovfPending <;> cases hM : s.midPending <;> simp_all

end ClockInv

/-- **The clock invariant along runs.** -/
theorem clockInv_of_run {c : Chip} {ok : State → Action → Prop} {s : State}
    (hOk : ∀ s a, ok s a → ClockOk c s a) (hRun : Run (step c) ok init s) : ClockInv c s :=
  hRun.invariant (clockInv_init c) fun _ _ _ hI hA hs => hI.step (hOk _ _ hA) hs

-- ---------------------------------------------------------------------------
-- `now()`
-- ---------------------------------------------------------------------------

/-- A `now()` call has loaded a `period` that lacked the boundaries unserviced
then. -/
def NowCall.Sound (c : Chip) (tau : Nat) (call : NowCall) : Prop :=
  call.period + call.unserviced = call.loadTick / c.half ∧ call.loadTick ≤ tau

structure NowInv (c : Chip) (s : State) : Prop where
  callers : ∀ call ∈ s.callers, call.Sound c s.tau
  inSection : ∀ n ts call, s.crit = .nowCounter n ts call →
    call.Sound c s.tau ∧ call.period = s.period
  done : ∀ r ∈ s.nows, r.Sound c r.readTick ∧ r.readTick ≤ s.tau ∧
    r.value = calcNow c r.period (r.readTick % c.cycle)
  order : s.nows.Pairwise fun r r' => r.readTick ≤ r'.readTick

theorem NowCall.Sound.mono {c : Chip} {tau tau' : Nat} {call : NowCall}
    (h : call.Sound c tau) (hle : tau ≤ tau') : call.Sound c tau' :=
  ⟨h.1, h.2.trans hle⟩

theorem nowInv_init (c : Chip) : NowInv c init := by
  constructor <;> simp [init]

namespace NowInv

variable {c : Chip} {s s' : State}

/-- The calls read nothing but the time, `period` and their own list. -/
theorem frame (hN : NowInv c s) (hTau : s'.tau = s.tau) (hCallers : s'.callers = s.callers)
    (hNows : s'.nows = s.nows) (hC : ∀ n ts call, s'.crit ≠ .nowCounter n ts call ∨
      s'.crit = s.crit ∧ s'.period = s.period) : NowInv c s' where
  callers := by simpa [hTau, hCallers] using hN.callers
  inSection := by
    intro n ts call hCrit
    rcases hC n ts call with hNe | ⟨hEq, hPeriod⟩
    · exact absurd hCrit hNe
    · rw [hTau, hPeriod]
      exact hN.inSection n ts call (hEq ▸ hCrit)
  done := by simpa [hTau, hNows] using hN.done
  order := by simpa [hNows] using hN.order

/-- A load of `period` lacks what is unserviced at that moment. -/
theorem loadPeriod (hI : ClockInv c s) : (loadPeriod s).Sound c s.tau :=
  ⟨hI.count, Nat.le_refl _⟩

/-- Reading the counter adds a result at the end of the history. -/
theorem append (hN : NowInv c s) {call : NowCall} (hCall : call.Sound c s.tau) :
    (∀ r ∈ s.nows ++ [readCounter c s call], r.Sound c r.readTick ∧ r.readTick ≤ s.tau ∧
      r.value = calcNow c r.period (r.readTick % c.cycle)) ∧
    (s.nows ++ [readCounter c s call]).Pairwise fun r r' => r.readTick ≤ r'.readTick := by
  constructor
  · intro r hr
    rcases List.mem_append.mp hr with hr | hr
    · exact hN.done r hr
    · rw [List.mem_singleton.mp hr]
      exact ⟨hCall, Nat.le_refl _, rfl⟩
  · -- The new read comes after all others.
    rw [List.pairwise_append]
    refine ⟨hN.order, List.pairwise_singleton _ _, ?_⟩
    intro r hr r' hr'
    rw [List.mem_singleton.mp hr']
    exact (hN.done r hr).2.1

/-- A call that loads `period` is sound then, and one that reads the counter is done. -/
theorem step {a : Action} (hN : NowInv c s) (hI : ClockInv c s)
    (h : step c s a = some s') : NowInv c s' := by
  cases step_stmt h with
  | tick =>
    exact
      { callers := fun call hCall => (hN.callers call hCall).mono (Nat.le_succ _)
        inSection := fun n ts call hC =>
          ⟨(hN.inSection n ts call hC).1.mono (Nat.le_succ _), (hN.inSection n ts call hC).2⟩
        done := fun r hr =>
          ⟨(hN.done r hr).1, Nat.le_succ_of_le (hN.done r hr).2.1, (hN.done r hr).2.2⟩
        order := hN.order }
  -- the two reads of `now`: the period first
  | nowPeriod hC =>
    refine { callers := hN.callers, inSection := ?_, done := hN.done, order := hN.order }
    intro n ts call hCrit
    cases hCrit
    exact ⟨loadPeriod hI, rfl⟩
  | nowCounter_due hC | nowCounter_near hC | nowCounter_far hC =>
    obtain ⟨hDone, hOrder⟩ := hN.append (hN.inSection _ _ _ hC).1
    exact { callers := hN.callers, inSection := by simp, done := hDone, order := hOrder }
  | nowLoad hC =>
    refine { callers := ?_, inSection := hN.inSection, done := hN.done, order := hN.order }
    intro call hCall
    rcases List.mem_append.mp hCall with hCall | hCall
    · exact hN.callers call hCall
    · rw [List.mem_singleton.mp hCall]
      exact (loadPeriod hI : (Rtc.loadPeriod s).Sound c s.tau)
  -- the counter last, which completes the call
  | nowRead hC hCall =>
    obtain ⟨hDone, hOrder⟩ := hN.append (hN.callers _ (List.mem_of_getElem? hCall))
    exact
      { callers := fun call h => hN.callers call (List.mem_of_mem_eraseIdx h)
        inSection := hN.inSection
        done := hDone
        order := hOrder }
  | enter | checkOvf_hit | checkOvf_miss | clearOvf | checkMid_hit | checkMid_miss | clearMid
  | check_hit | check_miss | check_done | clear | setCallback =>
    exact hN.frame rfl rfl rfl fun _ _ _ => .inr ⟨rfl, rfl⟩
  | periodOvf | periodMid | trigger | fetchAdd | arm_write | arm_skip | arm_done | armEnable
  | writeCc | enable | disable | trigDisable | trigClear | trigCall | setAlarm =>
    exact hN.frame rfl rfl rfl fun _ _ _ => .inl (by simp)

end NowInv

/-- Runs keep both invariants of the clock. -/
theorem nowInv_of_run {c : Chip} {ok : State → Action → Prop} {s : State}
    (hOk : ∀ s a, ok s a → ClockOk c s a) (hRun : Run (step c) ok init s) :
    ClockInv c s ∧ NowInv c s :=
  hRun.invariant (I := fun s => ClockInv c s ∧ NowInv c s) ⟨clockInv_init c, nowInv_init c⟩
    fun _ _ _ hI hA hs => ⟨hI.1.step (hOk _ _ hA) hs, hI.2.step hI.1 hs⟩

/-- The number of boundaries `now()` has to make up for: those unserviced when
it loaded `period`, and those that passed until it read the counter. -/
def NowResult.lag (c : Chip) (r : NowResult) : Nat :=
  r.unserviced + (r.readTick / c.half - r.loadTick / c.half)

/-- A finished `now()` call has returned the time of its counter read if and
only if it had to make up for at most one boundary. -/
theorem NowInv.value_eq_iff {c : Chip} {s : State} (hN : NowInv c s) {r : NowResult}
    (hr : r ∈ s.nows) : r.value = r.readTick ↔ r.lag c ≤ 1 := by
  obtain ⟨⟨hLoad, hLe⟩, -, hVal⟩ := hN.done r hr
  have hMono : r.loadTick / c.half ≤ r.readTick / c.half := Nat.div_le_div_right hLe
  rw [hVal]
  apply calcNow_eq_iff
  simp only [NowResult.lag]
  omega

/-- Exact results never decrease. -/
theorem NowInv.pairwise_value {c : Chip} {s : State} (hN : NowInv c s)
    (hEq : ∀ r ∈ s.nows, r.value = r.readTick) :
    s.nows.Pairwise fun r r' => r.value ≤ r'.value := by
  refine hN.order.imp_of_mem ?_
  intro r r' hr hr' hle
  rw [hEq r hr, hEq r' hr']
  exact hle

-- ---------------------------------------------------------------------------
-- The two clocks
-- ---------------------------------------------------------------------------

/-- `now()` is not delayed for more than a period between its two reads: it
reads the counter before the second boundary after the `period` it loaded. -/
def ReadInTime (c : Chip) (s : State) : Action → Prop
  | .nowRead i => ∀ call, s.callers[i]? = some call → s.tau < (call.period + 2) * c.half
  | _ => True

instance (c : Chip) (s : State) : (a : Action) → Decidable (ReadInTime c s a)
  | .nowRead i =>
    match h : s.callers[i]? with
    | some call => decidable_of_iff (s.tau < (call.period + 2) * c.half) (by simp [ReadInTime, h])
    | none => isTrue (by simp [ReadInTime, h])
  | .tick | .interrupt | .handler | .crit | .setAlarm _ _ | .setCallback _ _ | .nowLoad =>
    isTrue trivial

/-- The assumptions of the nRF clock. -/
def NrfClockOk (s : State) (a : Action) : Prop := ClockOk .nrf s a ∧ ReadInTime .nrf s a

instance (s : State) (a : Action) : Decidable (NrfClockOk s a) :=
  inferInstanceAs (Decidable (_ ∧ _))

/-- Only counter reads add to the history of `now()` results. -/
theorem nows_step {c : Chip} {s s' : State} {a : Action} (h : step c s a = some s') :
    s'.nows = s.nows ∨
    (∃ n ts call, s.crit = .nowCounter n ts call ∧
      s'.nows = s.nows ++ [readCounter c s call]) ∨
    (∃ i call, a = .nowRead i ∧ s.callers[i]? = some call ∧
      s'.nows = s.nows ++ [readCounter c s call]) := by
  cases step_stmt h with
  | nowCounter_due hC | nowCounter_near hC | nowCounter_far hC =>
    exact .inr (.inl ⟨_, _, _, hC, rfl⟩)
  | nowRead _ hCall => exact .inr (.inr ⟨_, _, rfl, hCall, rfl⟩)
  | _ => exact .inl rfl

/-- A `now()` inside `set_alarm` runs with the `period` it has loaded: on the
nRF that one is never two boundaries behind. -/
theorem nrf_section_exact {s : State} (hI : ClockInv .nrf s) (hN : NowInv .nrf s)
    {n ts : Nat} {call : NowCall} (hC : s.crit = .nowCounter n ts call) :
    (readCounter .nrf s call).value = s.tau := by
  obtain ⟨-, hPeriod⟩ := hN.inSection n ts call hC
  have hLag := hI.unserviced_le_one rfl
  exact (calcNow_eq_iff .nrf (by rw [hPeriod]; exact hI.count.symm)).mpr hLag

/-- A call outside of `set_alarm` that is in time is exact, since on the nRF at most one boundary
was missing when it loaded `period`. -/
theorem nrf_read_exact {s : State} (hN : NowInv .nrf s) {i : Nat} {call : NowCall}
    (hCall : s.callers[i]? = some call) (hT : ReadInTime .nrf s (.nowRead i)) :
    (readCounter .nrf s call).value = s.tau := by
  obtain ⟨hLoad, hLe⟩ := hN.callers call (List.mem_of_getElem? hCall)
  have hMono : call.loadTick / Chip.nrf.half ≤ s.tau / Chip.nrf.half := Nat.div_le_div_right hLe
  have hLt : s.tau / Chip.nrf.half < call.period + 2 :=
    Nat.div_lt_of_lt_mul (Nat.mul_comm _ _ ▸ hT call hCall)
  obtain ⟨k, hk⟩ := Nat.exists_eq_add_of_le
    (show call.period ≤ s.tau / Chip.nrf.half by omega)
  exact (calcNow_eq_iff .nrf hk).mpr (by omega)

/--
**The nRF clock is exact.** Both boundaries request an interrupt. If each is
serviced before the next one, and no `now()` is held up between its two reads
until the second boundary after the `period` it loaded, then every `now()`, in
every interleaving of ticks, interrupts and calls from any contexts, has
returned the true time of its counter read, and the results never decrease.
-/
theorem nrf_now_exact {s : State} (hRun : Run (step .nrf) NrfClockOk init s) :
    (∀ r ∈ s.nows, r.value = r.readTick) ∧
      s.nows.Pairwise (fun r r' => r.value ≤ r'.value) := by
  have hAll : ClockInv .nrf s ∧ NowInv .nrf s ∧ ∀ r ∈ s.nows, r.value = r.readTick := by
    refine hRun.invariant (I := fun s => ClockInv .nrf s ∧ NowInv .nrf s ∧
      ∀ r ∈ s.nows, r.value = r.readTick) ⟨clockInv_init _, nowInv_init _, by simp [init]⟩ ?_
    intro u a v ⟨hI, hN, hEq⟩ hOk hs
    refine ⟨hI.step hOk.1 hs, hN.step hI hs, ?_⟩
    intro r hr
    rcases nows_step hs with hNows | ⟨n, ts, call, hC, hNows⟩ | ⟨i, call, rfl, hCall, hNows⟩
    · exact hEq r (hNows ▸ hr)
    · rcases List.mem_append.mp (hNows ▸ hr) with hr | hr
      · exact hEq r hr
      · rw [List.mem_singleton.mp hr]
        exact nrf_section_exact hI hN hC
    · rcases List.mem_append.mp (hNows ▸ hr) with hr | hr
      · exact hEq r hr
      · rw [List.mem_singleton.mp hr]
        exact nrf_read_exact hN hCall hOk.2
  exact ⟨hAll.2.2, hAll.2.1.pairwise_value hAll.2.2⟩

/-- The first boundary: `now()` is started just before it and read after it,
and once more while its event is still pending. -/
theorem nrf_now_exact_at_boundary : ∃ s, Run (step .nrf) NrfClockOk init s ∧
    s.nows.map (·.value) = [0x800000, 0x800000] ∧
    (∀ r ∈ s.nows, r.value = r.readTick) ∧
      s.nows.Pairwise (fun r r' => r.value ≤ r'.value) := by
  have hWait : Run (step .nrf) NrfClockOk (tick .nrf init)
      ((tick .nrf init).atTick 0x7fffff) :=
    run_wait (by decide +kernel) fun x _ hx hDiv =>
      ⟨clockOk_tick rfl hDiv (by simp only [State.atTick_tau, u32Size, Chip.half]; omega), trivial⟩
  have hRun := ((Run.refl.tail (a := .tick) (by decide) rfl).trans hWait).trans
    (Run.execOk_get _ [.nowLoad, .tick, .nowRead 0, .nowLoad, .nowRead 0] (by decide +kernel))
  exact ⟨_, hRun, by decide +kernel, nrf_now_exact hRun⟩

/--
**The STM32 clock.** `start` enables the interrupt of the midway point, but not
that of the overflow. The overflow is counted when the next interrupt comes,
at the latest at the midway point; until that is serviced both are outstanding.
A `now()` has returned the true time of its counter read if and only if fewer
than two boundaries were outstanding: unserviced when it loaded `period`, or
passed between its two reads. If this holds of all calls, their results never
decrease.
-/
theorem stm32_now_exact_iff {k : Nat} {s : State}
    (hRun : Run (step (.stm32 k)) (ClockOk (.stm32 k)) init s) :
    (∀ r ∈ s.nows, r.value = r.readTick ↔ r.lag (.stm32 k) ≤ 1) ∧
      ((∀ r ∈ s.nows, r.lag (.stm32 k) ≤ 1) →
        s.nows.Pairwise fun r r' => r.value ≤ r'.value) := by
  obtain ⟨-, hN⟩ := nowInv_of_run (fun _ _ h => h) hRun
  refine ⟨fun r hr => hN.value_eq_iff hr, fun hLag => hN.pairwise_value ?_⟩
  intro r hr
  exact (hN.value_eq_iff hr).mpr (hLag r hr)

/-- A `now()` held up over the midway point and one made before it is
serviced: each makes up for one boundary. -/
theorem stm32_now_exact_midway : ∃ s, Run (step (.stm32 3)) (ClockOk (.stm32 3)) init s ∧
    s.nows.map (fun r => (r.readTick, r.value)) = [(0x8000, 0x8000), (0x8000, 0x8000)] ∧
    ((∀ r ∈ s.nows, r.value = r.readTick ↔ r.lag (.stm32 3) ≤ 1) ∧
      ((∀ r ∈ s.nows, r.lag (.stm32 3) ≤ 1) →
        s.nows.Pairwise fun r r' => r.value ≤ r'.value)) := by
  have hWait : Run (step (.stm32 3)) (ClockOk (.stm32 3)) (tick (.stm32 3) init)
      ((tick (.stm32 3) init).atTick 0x7fff) :=
    run_wait (by decide +kernel) fun x _ hx hDiv =>
      clockOk_tick rfl hDiv (by simp only [State.atTick_tau, u32Size, Chip.half]; omega)
  have hRun := ((Run.refl.tail (a := .tick) (by decide) rfl).trans hWait).trans
    (Run.execOk_get _ [.nowLoad, .tick, .nowRead 0, .nowLoad, .nowRead 0] (by decide +kernel))
  exact ⟨_, hRun, by decide +kernel, stm32_now_exact_iff hRun⟩

/-- The actions that take the midway interrupt and service it. -/
def serviceMid : List Action :=
  [.interrupt, .handler, .handler, .handler, .handler, .crit, .crit, .crit, .crit, .crit,
    .handler, .handler, .handler, .handler]

/-- The time goes back by a cycle: at tick 0x18000 the overflow of tick 0x10000
and the midway point are both unserviced. -/
theorem stm32_now_not_exact : ∃ s, Run (step (.stm32 3)) (ClockOk (.stm32 3)) init s ∧
    s.nows.map (fun r => (r.readTick, r.value)) = [(0x17fff, 0x17fff), (0x18000, 0x8000)] ∧
    ¬ (∀ r ∈ s.nows, r.value = r.readTick) ∧
    ¬ s.nows.Pairwise (fun r r' => r.value ≤ r'.value) := by
  have hWait : ∀ (s : State) (y : Nat), Undisturbed (.stm32 3) s y → s.handler = .idle →
      y < 0x20000 → Run (step (.stm32 3)) (ClockOk (.stm32 3)) s (s.atTick y) :=
    fun s y h hH hy => run_wait h fun x _ hx hDiv =>
      clockOk_tick hH hDiv (by simp only [State.atTick_tau, u32Size, Chip.half]; omega)
  have h1 : Run (step (.stm32 3)) (ClockOk (.stm32 3)) init _ :=
    Run.execOk_get _ [.tick] (by decide +kernel)
  have h2 := h1.trans (hWait _ 0x7fff (by decide +kernel) (by decide +kernel) (by omega))
  have h3 := h2.trans (Run.execOk_get _ (.tick :: serviceMid) (by decide +kernel))
  have h4 := h3.trans (Run.execOk_get _ [.tick] (by decide +kernel))
  have h5 := h4.trans (hWait _ 0xffff (by decide +kernel) (by decide +kernel) (by omega))
  have h6 := h5.trans (Run.execOk_get _ [.tick] (by decide +kernel))
  have h7 := h6.trans (hWait _ 0x17fff (by decide +kernel) (by decide +kernel) (by omega))
  have h8 := h7.trans (Run.execOk_get _ [.nowLoad, .nowRead 0, .tick, .nowLoad, .nowRead 0]
    (by decide +kernel))
  exact ⟨_, h8, by decide +kernel, by decide +kernel, by decide +kernel⟩

end Embassy.Rtc
