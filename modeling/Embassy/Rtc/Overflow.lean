import Embassy.Rtc.Lost

/-!
# The arithmetic of the RTC drivers

`next_period` computes `at - t` for every alarm, without a check: with overflow
checks it panics, in the time keeping interrupt, when an alarm's timestamp
`at` lies before the start `t` of the new period. `on_interrupt` looks at the
boundaries first and at the alarms after them, so this happens when an alarm
is due shortly before a boundary and is not triggered by then: because the
interrupt is taken late, or because `set_alarm` has moved the compare value
three ticks ahead, past the boundary.

`BoundaryClear` says of a tick into a new period that no such alarm is left,
apart from one that is in hand: its `set_alarm` has still to read the time, or
the running `on_interrupt` is still to come to it.

Main results:

* `next_period_no_underflow` — in every run of such ticks nothing overflows.
* `next_period_underflow` — the three ticks of `set_alarm`, on both chips.
-/

namespace Embassy.Rtc

open Embassy.Lib

-- ---------------------------------------------------------------------------
-- Conditions on the steps
-- ---------------------------------------------------------------------------

/-- `set_alarm(n)` runs and has not yet compared the timestamp with the time. -/
def Crit.deciding (n : Nat) : Crit → Bool
  | nowPeriod m _ | nowCounter m _ _ => m == n
  | _ => false

/-- The running `on_interrupt` has still to look at the event of alarm `n`. -/
def Handler.comingTo (n : Nat) : Handler → Bool
  | .check m => decide (m ≤ n)
  | .clear m | .trigger m => decide (m < n)
  | _ => false

/-- The running `on_interrupt` triggers alarm `n` before it looks at a boundary
again. -/
def State.serving (s : State) (n : Nat) : Bool :=
  s.handler.taken n || (s.ev n && s.handler.comingTo n)

/-- Alarm `n` is being set or triggered. -/
def State.inHand (s : State) (n : Nat) : Bool :=
  s.crit.deciding n || s.crit.triggering n || s.serving n

/-- When a period begins no alarm is left over from the one before. -/
def BoundaryClear (c : Chip) (s : State) : Action → Prop
  | .tick => (s.tau + 1) % c.half = 0 →
    ∀ n < alarmCount, s.tau + 1 ≤ s.timestamp n ∨ (tick c s).inHand n = true
  | _ => True

/-- Where the overflow requests no interrupt: no `set_alarm` goes by a clock
with two boundaries outstanding. -/
def SetsInTime (c : Chip) (s : State) (a : Action) : Prop :=
  c.ovfIrq = false → ∀ n < alarmCount, SetInTime c n s a

def PeriodOk (c : Chip) (s : State) (a : Action) : Prop :=
  ClockOk c s a ∧ BoundaryClear c s a ∧ SetsInTime c s a

instance (c : Chip) (s : State) : (a : Action) → Decidable (BoundaryClear c s a)
  | .tick => inferInstanceAs (Decidable (_ → _))
  | .interrupt | .handler | .crit | .setAlarm _ _ | .setCallback _ _ | .nowLoad | .nowRead _ =>
    isTrue trivial

instance (c : Chip) (s : State) (a : Action) : Decidable (SetsInTime c s a) :=
  inferInstanceAs (Decidable (_ → _))

instance (c : Chip) (s : State) (a : Action) : Decidable (PeriodOk c s a) :=
  inferInstanceAs (Decidable (_ ∧ _ ∧ _))

-- ---------------------------------------------------------------------------
-- The invariant
-- ---------------------------------------------------------------------------

/-- The start of the running period. -/
def State.periodStart (c : Chip) (s : State) : Nat := s.tau / c.half * c.half

/-- The boundary that began the running period is latched and not yet looked
at. -/
def State.latched (c : Chip) (s : State) : Bool :=
  if s.tau / c.half % 2 = 0 then s.ovf else s.mid

/-- Alarm `n` is in hand, and no `next_period` will meet it. -/
def State.spared (c : Chip) (s : State) (n : Nat) : Bool :=
  s.crit.deciding n || s.crit.triggering n || (s.latched c && s.serving n)

/-- The start of the period a running `next_period` is for. -/
def State.newStart (c : Chip) (s : State) : Option Nat :=
  match s.crit with
  | .fetchAdd _ => some ((s.period + 1) * c.half)
  | .arm p _ | .armEnable p _ => some (p * c.half)
  | _ => none

/-- No alarm is left over from before the running period, but in hand; none is
left for `next_period` to meet. -/
structure PeriodInv (c : Chip) (s : State) : Prop where
  clear : ∀ n < alarmCount, s.periodStart c ≤ s.timestamp n ∨ s.spared c n = true
  next : ∀ t, s.newStart c = some t → ∀ n < alarmCount, t ≤ s.timestamp n
  write : ∀ n ts t, s.crit = .writeCc n ts t → t ≤ s.tau
  sound : s.overflow = false

theorem periodInv_init (c : Chip) : PeriodInv c init := by
  constructor <;> simp [init, State.periodStart, State.newStart]

theorem State.periodStart_le (c : Chip) (s : State) : s.periodStart c ≤ s.tau :=
  Nat.div_mul_le_self _ _

namespace PeriodInv

variable {c : Chip} {s s' : State}

/-- A statement that leaves the time and the timestamps alone. -/
theorem frame (hP : PeriodInv c s) (hTau : s'.tau = s.tau) (hTs : s'.timestamp = s.timestamp)
    (hKeep : ∀ n < alarmCount, s.spared c n = true →
      s'.spared c n = true ∨ s.periodStart c ≤ s.timestamp n)
    (hNext : ∀ t, s'.newStart c = some t → ∀ n < alarmCount, t ≤ s.timestamp n)
    (hWrite : ∀ n ts t, s'.crit = .writeCc n ts t → t ≤ s.tau) (hSound : s'.overflow = false) :
    PeriodInv c s' where
  clear := by
    intro n hn
    have hStart : s'.periodStart c = s.periodStart c := by simp [State.periodStart, hTau]
    rw [hStart, hTs]
    rcases hP.clear n hn with h | h
    · exact .inl h
    · exact (hKeep n hn h).symm
  next := by rw [hTs]; exact hNext
  write := by rw [hTau]; exact hWrite
  sound := hSound

theorem latched_tick (hB : (s.tau + 1) % c.half = 0) : (tick c s).latched c = true := by
  simp only [State.latched, tick_tau, tick_ovf, tick_mid]
  split
  · have : (s.tau + 1) % c.cycle = 0 := by
      cases c <;> simp only [Chip.half, Chip.cycle] at * <;> omega
    simp [this]
  · have : (s.tau + 1) % c.cycle = c.half := by
      cases c <;> simp only [Chip.half, Chip.cycle] at * <;> omega
    simp [this]

theorem tick (hP : PeriodInv c s) (hClear : BoundaryClear c s .tick) :
    PeriodInv c (tick c s) where
  clear := by
    intro n hn
    by_cases hB : (s.tau + 1) % c.half = 0
    · -- a boundary: its event is latched, so an alarm in hand is spared
      have hStart : (Rtc.tick c s).periodStart c = s.tau + 1 :=
        Nat.div_mul_cancel (Nat.dvd_of_mod_eq_zero hB)
      rw [hStart]
      refine (hClear hB n hn).imp_right fun h => ?_
      rw [State.spared, latched_tick hB, Bool.true_and]
      exact h
    · have hDiv : (s.tau + 1) / c.half = s.tau / c.half := by
        cases c <;> simp only [Chip.half] at * <;> omega
      have hStart : (Rtc.tick c s).periodStart c = s.periodStart c := by
        simp [State.periodStart, hDiv]
      have hLatched : s.latched c = true → (Rtc.tick c s).latched c = true := by
        simp only [State.latched, tick_tau, tick_ovf, tick_mid, hDiv]
        split <;> simp +contextual
      have hServe : s.serving n = true → (Rtc.tick c s).serving n = true := by
        simp only [State.serving, tick_handler, tick_ev, Bool.or_eq_true, Bool.and_eq_true]
        tauto
      rw [hStart]
      refine (hP.clear n hn).imp_right fun h => ?_
      simp only [State.spared, tick_crit, Bool.or_eq_true, Bool.and_eq_true] at h ⊢
      exact h.imp_right (And.imp hLatched hServe)
  next := hP.next
  write := fun n ts t h => Nat.le_succ_of_le (hP.write n ts t h)
  sound := hP.sound

/-- While `on_interrupt` is not at the alarms, none is spared. -/
theorem clear_of_not_serving (hP : PeriodInv c s) (hC : s.crit = .free)
    (hTaken : ∀ n, s.handler.taken n = false) (hTo : ∀ n, s.handler.comingTo n = false) :
    ∀ n < alarmCount, s.periodStart c ≤ s.timestamp n := by
  intro n hn
  rcases hP.clear n hn with h | h
  · exact h
  · simp [State.spared, State.serving, hC, Crit.deciding, Crit.triggering, hTaken, hTo] at h

/-- `on_interrupt` calls `next_period`: all alarms are in the running period or
later ones, and the new period is not later than the running one. -/
theorem nextPeriod (hP : PeriodInv c s) (hI : ClockInv c s) (hC : s.crit = .free)
    (hTaken : ∀ n, s.handler.taken n = false) (hTo : ∀ n, s.handler.comingTo n = false)
    (hU : 1 ≤ s.unserviced) {b : Boundary} (hTau : s'.tau = s.tau)
    (hTs : s'.timestamp = s.timestamp) (hPeriod : s'.period = s.period)
    (hOver : s'.overflow = s.overflow) (hC' : s'.crit = .fetchAdd b) : PeriodInv c s' := by
  have hClear := hP.clear_of_not_serving hC hTaken hTo
  refine hP.frame hTau hTs (fun n hn _ => .inr (hClear n hn)) ?_ (by simp [hC'])
    (by rw [hOver]; exact hP.sound)
  intro t ht n hn
  simp only [State.newStart, hC', hPeriod, Option.some.injEq] at ht
  rw [← ht]
  refine le_trans (Nat.mul_le_mul_right _ ?_) (hClear n hn)
  have := hI.count
  omega

/-- `next_period` begins the period. -/
theorem fetchAdd (hP : PeriodInv c s) (hI : ClockInv c s) {b : Boundary}
    (hC : s.crit = .fetchAdd b) : PeriodInv c (fetchAddPeriod s) := by
  have hLt := hI.succ_period_lt hC
  refine hP.frame rfl rfl ?_ ?_ (by simp) ?_
  · intro n hn h
    exact .inl (by simpa [State.spared, State.latched, State.serving, hC, Crit.deciding,
      Crit.triggering] using h)
  · intro t ht
    refine hP.next t ?_
    simpa [State.newStart, hC, Nat.mod_eq_of_lt hLt] using ht
  · simp [hP.sound, Nat.not_le.mpr hLt]

/-- A statement that writes the timestamp of an alarm in hand. -/
theorem stamp (hP : PeriodInv c s) {m : Nat} (hTau : s'.tau = s.tau)
    (hTs : ∀ n, n ≠ m → s'.timestamp n = s.timestamp n) (hOwn : s'.spared c m = true)
    (hKeep : ∀ n, n ≠ m → s.spared c n = true → s'.spared c n = true)
    (hNext : s'.newStart c = none) (hWrite : ∀ n ts t, s'.crit ≠ .writeCc n ts t)
    (hSound : s'.overflow = false) : PeriodInv c s' where
  clear := by
    intro n hn
    have hStart : s'.periodStart c = s.periodStart c := by simp [State.periodStart, hTau]
    by_cases hm : n = m
    · exact .inr (hm ▸ hOwn)
    · rw [hStart, hTs n hm]
      exact (hP.clear n hn).imp_right (hKeep n hm)
  next := by simp [hNext]
  write := fun n ts t h => absurd h (hWrite n ts t)
  sound := hSound

/-- `next_period` looks at one alarm after the other. -/
theorem arm (hP : PeriodInv c s) {p m : Nat} (hC : s.crit = .arm p m) (hm : m < alarmCount)
    (hTau : s'.tau = s.tau) (hTs : s'.timestamp = s.timestamp) (hEv : s'.ev = s.ev)
    (hH : s'.handler = s.handler) (hOvf : s'.ovf = s.ovf) (hMid : s'.mid = s.mid)
    (hOver : s'.overflow = (s.overflow || decide (s.timestamp m < p <<< c.periodBits)))
    (hC' : s'.crit = .armEnable p m ∨ s'.crit = .arm p (m + 1)) : PeriodInv c s' := by
  have hStart : s.newStart c = some (p * c.half) := by simp [State.newStart, hC]
  have hNew : s'.newStart c = some (p * c.half) := by
    rcases hC' with h | h <;> simp [State.newStart, h]
  refine hP.frame hTau hTs ?_ ?_ ?_ ?_
  · intro n hn h
    left
    rcases hC' with hC' | hC' <;>
      simpa [State.spared, State.latched, State.serving, hC, hC', Crit.deciding,
        Crit.triggering, hTau, hEv, hH, hOvf, hMid] using h
  · intro t ht
    rw [hNew, ← hStart] at ht
    exact hP.next t ht
  · rcases hC' with hC' | hC' <;> simp [hC']
  · have := hP.next _ hStart m hm
    rw [hOver, c.shiftLeft_periodBits]
    simp [hP.sound, this]

theorem step {a : Action} (hP : PeriodInv c s) (hI : ClockInv c s) (hN : NowInv c s)
    (hD : DataInv s) (hOk : PeriodOk c s a) (h : Rtc.step c s a = some s') :
    PeriodInv c s' := by
  have hSound := hP.sound
  -- `set_alarm` reads the time with at most one boundary unserviced, in a critical section by the
  -- hypothesis
  have hU : ∀ m ts call, m < alarmCount → s.crit = .nowCounter m ts call →
      a = .crit → s.now c < ts → s.unserviced ≤ 1 := by
    intro m ts call hm hC hA hlt
    subst hA
    cases hIrq : c.ovfIrq with
    | true => exact hI.unserviced_le_one hIrq
    | false => exact hOk.2.2 hIrq m hm ts call hC hlt
  cases step_stmt h with
  | tick => exact hP.tick hOk.2.1
  -- the handler before `next_period`: no alarm is being served, so all are clear
  | enter hC hH | checkOvf_hit hC hH | checkOvf_miss hC hH | clearOvf hC hH
  | checkMid_hit hC hH | checkMid_miss hC hH | clearMid hC hH =>
    have hClear := hP.clear_of_not_serving hC (by simp [hH, Handler.taken])
      (by simp [hH, Handler.comingTo])
    refine hP.frame rfl rfl (fun n hn _ => .inr (hClear n hn)) ?_ ?_ hSound <;>
      simp [State.newStart, hC]
  -- the two calls of `next_period` move the start of the period
  | periodOvf hC hH | periodMid hC hH =>
    refine hP.nextPeriod hI hC ?_ ?_ ?_ rfl rfl rfl rfl rfl <;>
      simp [hH, Handler.taken, Handler.comingTo, State.unserviced, State.ovfPending,
        State.midPending]
  -- the alarm loop: an alarm leaves the latched ones only to be served
  | check_hit hC hH hm hE | check_miss hC hH hm hE | check_done hC hH hm | clear hC hH
  | trigger hC hH =>
    refine hP.frame rfl rfl ?_ (by simp [State.newStart, hC]) (by simp [hC]) hSound
    intro n hn h
    simp only [State.spared, State.latched, State.serving, hC, hH, Crit.deciding,
      Crit.triggering, Handler.taken, Handler.comingTo, Function.update_apply] at h ⊢
    grind
  | fetchAdd hC => exact hP.fetchAdd hI hC
  | arm_write hC hm hDiff => exact hP.arm hC hm rfl rfl rfl rfl rfl rfl rfl (.inl rfl)
  | arm_skip hC hm hDiff => exact hP.arm hC hm rfl rfl rfl rfl rfl rfl rfl (.inr rfl)
  | @armEnable p m hC =>
    refine hP.frame rfl rfl ?_ ?_ (by simp) hSound
    · intro n hn h
      exact .inl (by simpa [State.spared, State.latched, State.serving, hC, Crit.deciding,
        Crit.triggering] using h)
    · intro t ht
      exact hP.next t (by simpa [State.newStart, hC] using ht)
  -- steps that change neither a timestamp nor which alarms are spared
  | arm_done hC | enable hC | disable hC | nowPeriod hC | nowCounter_due hC | trigDisable hC
  | setCallback hC | nowLoad hC | nowRead hC =>
    refine hP.frame rfl rfl ?_ (by simp [State.newStart, hC]) (by simp [hC]) hSound
    intro n hn h
    exact .inl (by simpa [State.spared, State.latched, State.serving, hC, Crit.deciding,
      Crit.triggering] using h)
  | @nowCounter_near m ts call hC hT | @nowCounter_far m ts call hC hT =>
    have hNow : (readCounter c s call).value = s.now c := by
      simp [readCounter, State.now, (hN.inSection _ _ _ hC).2]
    rw [hNow] at hT
    refine hP.frame rfl rfl ?_ (by simp [State.newStart]) ?_ hSound
    · intro n hn h
      by_cases hm : m = n
      · -- the time `set_alarm` has read is the true one, and the timestamp later
        subst hm
        right
        have hExact := hI.now_eq (hU m ts call hn hC rfl hT)
        have := s.periodStart_le c
        rw [← (hD.target m ts (by simp [hC, Crit.target])).1]
        omega
      · left
        simpa [State.spared, State.latched, State.serving, hC, Crit.deciding, Crit.triggering,
          hm] using h
    · intro n' ts' t ht
      cases ht <;> exact hNow ▸ hI.now_le
  | @writeCc m ts t hC =>
    refine hP.frame rfl rfl ?_ (by simp [State.newStart]) (by simp) ?_
    · intro n hn h
      exact .inl (by simpa [State.spared, State.latched, State.serving, hC, Crit.deciding,
        Crit.triggering] using h)
    · -- the sum of the margin and the counter stays within 32 bits
      have hle := hP.write m ts t hC
      have hR := hI.range
      simp only [writeCompare_overflow, hSound, Bool.false_or, decide_eq_false_iff_not]
      cases c <;> simp only [Chip.half, u32Size, u64Size] at * <;> omega
  | @trigClear m hC =>
    refine hP.stamp (m := m) rfl ?_ ?_ ?_ (by simp [State.newStart]) (by simp) hSound
    · intro n hn
      simp [hn]
    · simp [State.spared, Crit.triggering]
    · intro n _ h
      simpa [State.spared, State.latched, State.serving, hC, Crit.deciding, Crit.triggering]
        using h
  -- a called alarm has the largest timestamp there is, so it is far ahead
  | @trigCall m hC =>
    refine hP.frame rfl rfl ?_ (by simp [State.newStart]) (by simp) hSound
    intro n hn h
    by_cases hm : m = n
    · right
      have := s.periodStart_le c
      have hR := hI.range
      rw [hD.called n (hm ▸ hC)]
      cases c <;> simp only [Chip.half, u32Size, u64Max] at * <;> omega
    · left
      simpa [State.spared, State.latched, State.serving, hC, Crit.deciding, Crit.triggering, hm]
        using h
  | @setAlarm m ts hC =>
    refine hP.stamp (m := m) rfl ?_ ?_ ?_ (by simp [State.newStart]) (by simp) hSound
    · intro n hn
      simp [hn]
    · simp [State.spared, Crit.deciding]
    · intro n hn h
      simpa [State.spared, State.latched, State.serving, hC, Crit.deciding, Crit.triggering,
        Ne.symm hn] using h

end PeriodInv

/--
**The arithmetic of the drivers does not overflow.** In every run in which no
period begins with an alarm left over from the one before (`BoundaryClear`)
and, on the STM32, no `set_alarm` goes by a clock with two boundaries
outstanding, no addition or subtraction overflows, and every alarm that
`next_period` comes to has a timestamp at or after the start of the new period.
-/
theorem next_period_no_underflow {c : Chip} {s : State}
    (hRun : Run (step c) (PeriodOk c) init s) :
    s.overflow = false ∧
      ∀ p n, s.crit = .arm p n → n < alarmCount → p <<< c.periodBits ≤ s.timestamp n := by
  obtain ⟨-, -, -, hP⟩ : ClockInv c s ∧ NowInv c s ∧ DataInv s ∧ PeriodInv c s :=
    hRun.invariant (I := fun s => ClockInv c s ∧ NowInv c s ∧ DataInv s ∧ PeriodInv c s)
      ⟨clockInv_init c, nowInv_init c, dataInv_init, periodInv_init c⟩
      fun _ _ _ ⟨hI, hN, hD, hP⟩ hOk hs =>
        ⟨hI.step hOk.1 hs, hN.step hI hs, hD.step hs, hP.step hI hN hD hOk hs⟩
  refine ⟨hP.sound, ?_⟩
  intro p n hC hn
  rw [c.shiftLeft_periodBits]
  exact hP.next _ (by simp [State.newStart, hC]) n hn

/-- Between boundaries a tick meets the conditions. -/
theorem periodOk_tick {c : Chip} {s : State} (hH : s.handler = .idle)
    (hDiv : (s.tau + 1) / c.half = s.tau / c.half) (hR : s.tau + 1 < u32Size * c.half) :
    PeriodOk c s .tick := by
  refine ⟨clockOk_tick hH hDiv hR, ?_, fun _ _ _ => trivial⟩
  intro hB
  exfalso
  cases c <;> simp only [Chip.half] at hB hDiv <;> omega

/-- The midway interrupt is taken, and `next_period` comes to alarm 0. -/
def enterNextPeriod : List Action := [.interrupt, .handler, .handler, .handler, .handler, .crit]

/-- `next_period` meets an alarm two ticks ahead. -/
theorem next_period_no_underflow_at_boundary : ∃ s, Run (step .nrf) (PeriodOk .nrf) init s ∧
    s.crit = .arm 1 0 ∧ s.timestamp 0 = 0x800002 ∧ s.overflow = false ∧
    ∀ p n, s.crit = .arm p n → n < alarmCount → p <<< Chip.nrf.periodBits ≤ s.timestamp n := by
  have h1 : Run (step .nrf) (PeriodOk .nrf) init _ :=
    Run.execOk_get _ (setAlarmNear 0 0x800002 ++ [.tick]) (by decide +kernel)
  have h2 := h1.trans (run_wait (y := 0x7fffff) (by decide +kernel) fun x _ hx hDiv =>
    periodOk_tick rfl hDiv (by simp only [State.atTick_tau, u32Size, Chip.half]; omega))
  have h3 := h2.trans (Run.execOk_get _ (.tick :: enterNextPeriod) (by decide +kernel))
  exact ⟨_, h3, by decide +kernel, by decide +kernel, next_period_no_underflow h3⟩

/-- Alarm 0 is set two ticks before the midway point, for the next tick. Its
compare value is moved past the midway point, whose interrupt is taken without
delay: `next_period` subtracts the new period's start from a timestamp before
it. -/
theorem next_period_underflow :
    (∃ s, Run (step .nrf) (HwOk .nrf) init s ∧ s.period = 1 ∧ s.timestamp 0 = 0x7fffff ∧
      s.overflow = true) ∧
    ∃ s, Run (step (.stm32 3)) (HwOk (.stm32 3)) init s ∧ s.period = 1 ∧
      s.timestamp 0 = 0x7fff ∧ s.overflow = true := by
  constructor
  · have h1 : Run (step .nrf) (HwOk .nrf) init _ := Run.execOk_get _ [.tick] (by decide +kernel)
    have h2 := h1.trans (run_wait (y := 0x7ffffe) (by decide +kernel) fun x _ hx hDiv =>
      hwOk_tick rfl rfl hDiv (by simp only [State.atTick_tau, u32Size, Chip.half]; omega))
    have h3 := h2.trans (Run.execOk_get _ (setAlarmNear 0 0x7fffff ++ [.tick, .tick] ++
      enterNextPeriod ++ [.crit]) (by decide +kernel))
    exact ⟨_, h3, by decide +kernel, by decide +kernel, by decide +kernel⟩
  · have h1 : Run (step (.stm32 3)) (HwOk (.stm32 3)) init _ :=
      Run.execOk_get _ [.tick] (by decide +kernel)
    have h2 := h1.trans (run_wait (y := 0x7ffe) (by decide +kernel) fun x _ hx hDiv =>
      hwOk_tick rfl rfl hDiv (by simp only [State.atTick_tau, u32Size, Chip.half]; omega))
    have h3 := h2.trans (Run.execOk_get _ (setAlarmNear 0 0x7fff ++ [.tick, .tick] ++
      enterNextPeriod ++ [.crit]) (by decide +kernel))
    exact ⟨_, h3, by decide +kernel, by decide +kernel, by decide +kernel⟩

end Embassy.Rtc
