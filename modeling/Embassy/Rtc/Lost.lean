import Mathlib.Algebra.Order.Ring.Nat
import Mathlib.Data.Nat.SuccPred
import Embassy.Rtc.Early

/-!
# RTC alarms are never lost

An alarm that is set and not yet triggered is looked after in one of these
ways (`LostInv`):

* a critical section or `on_interrupt` is at it;
* its channel is enabled and its event is latched, or will be: the compare
  register holds a tick `a` ahead, written early enough for the timer to match;
* it is *parked*: too far ahead for its channel, which `next_period` sets up
  when its timestamp comes into the window after a period start.

`set_alarm` never writes a compare value less than three ticks ahead.
`next_period` has no such margin: it writes the raw timestamp, also over a
compare value that is already set up. If that timestamp is the present tick or
the next one (nRF), or already past, the timer misses it and the alarm is late
by a cycle. `ArmInTime n` says of a step that it is not such a write.

On the STM32 there is a second way to miss an alarm. The overflow requests no
interrupt, so `next_period` may come half a cycle late: too late for an alarm
parked in that half cycle (`Awake`), and `set_alarm` may meet a clock that is
a cycle slow (`SetInTime`).

Main results:

* `nrf_alarm_never_lost` / `stm32_alarm_never_lost`;
* `nrf_alarm_lost` / `stm32_alarm_lost` — runs in which an alarm is lost.
-/

namespace Embassy.Rtc

open Embassy.Lib

-- ---------------------------------------------------------------------------
-- Conditions on the steps
-- ---------------------------------------------------------------------------

/-- When `next_period` sets up alarm `n`, its event is latched already or the
timestamp is still far enough ahead for the timer to match it. -/
def ArmInTime (c : Chip) (n : Nat) (s : State) : Action → Prop
  | .crit => ∀ p, s.crit = .arm p n →
    (s.timestamp n + u64Size - p <<< c.periodBits) % u64Size < c.window →
    s.ev n = true ∨ s.tau + c.settle ≤ s.timestamp n
  | _ => True

/-- When `set_alarm(n)` finds its timestamp ahead of `now()`, at most one
boundary is outstanding. -/
def SetInTime (c : Chip) (n : Nat) (s : State) : Action → Prop
  | .crit => ∀ ts call, s.crit = .nowCounter n ts call → s.now c < ts → s.unserviced ≤ 1
  | _ => True

/-- Where the overflow requests no interrupt: while it is unserviced the time
does not come to the timestamp of alarm `n` if that is parked. -/
def Awake (c : Chip) (n : Nat) (s : State) : Action → Prop
  | .tick => c.ovfIrq = false → s.ovfPending = true ∨ (s.tau + 1) % c.cycle = 0 →
    s.midPending = false → s.inten n = false → s.crit.alarm ≠ some n →
    s.handler.taken n = false → s.tau + 1 < s.timestamp n
  | _ => True

/-- The assumptions under which an alarm is not forgotten. -/
def LostOk (c : Chip) (n : Nat) (s : State) (a : Action) : Prop :=
  HwOk c s a ∧ ArmInTime c n s a ∧ SetInTime c n s a ∧ Awake c n s a

instance (c : Chip) (n : Nat) (s : State) : (a : Action) → Decidable (ArmInTime c n s a)
  | .crit =>
    match h : s.crit with
    | .arm p m => decidable_of_iff
        (m = n → (s.timestamp n + u64Size - p <<< c.periodBits) % u64Size < c.window →
          s.ev n = true ∨ s.tau + c.settle ≤ s.timestamp n) (by simp [ArmInTime, h])
    | .free | .fetchAdd _ | .armEnable _ _ | .nowPeriod _ _ | .nowCounter _ _ _ | .writeCc _ _ _
    | .enable _ | .disable _ | .trigDisable _ | .trigClear _ | .trigCall _ =>
      isTrue (by simp [ArmInTime, h])
  | .tick | .interrupt | .handler | .setAlarm _ _ | .setCallback _ _ | .nowLoad | .nowRead _ =>
    isTrue trivial

instance (c : Chip) (n : Nat) (s : State) : (a : Action) → Decidable (SetInTime c n s a)
  | .crit =>
    match h : s.crit with
    | .nowCounter m ts _ => decidable_of_iff
        (m = n → s.now c < ts → s.unserviced ≤ 1) (by simp [SetInTime, h])
    | .free | .fetchAdd _ | .arm _ _ | .armEnable _ _ | .nowPeriod _ _ | .writeCc _ _ _
    | .enable _ | .disable _ | .trigDisable _ | .trigClear _ | .trigCall _ =>
      isTrue (by simp [SetInTime, h])
  | .tick | .interrupt | .handler | .setAlarm _ _ | .setCallback _ _ | .nowLoad | .nowRead _ =>
    isTrue trivial

instance (c : Chip) (n : Nat) (s : State) : (a : Action) → Decidable (Awake c n s a)
  | .tick => inferInstanceAs (Decidable (_ → _))
  | .interrupt | .handler | .crit | .setAlarm _ _ | .setCallback _ _ | .nowLoad | .nowRead _ =>
    isTrue trivial

instance (c : Chip) (n : Nat) (s : State) (a : Action) : Decidable (LostOk c n s a) :=
  inferInstanceAs (Decidable (_ ∧ _ ∧ _ ∧ _))

-- ---------------------------------------------------------------------------
-- The invariant
-- ---------------------------------------------------------------------------

/-- The event of alarm `n` is latched, or the timer will latch it at a tick
`a`: at the timestamp, or within four ticks of the `set_alarm`. -/
def State.Armed (c : Chip) (n : Nat) (s : State) : Prop :=
  s.ev n = true ∨ ∃ a, s.cc n = a % c.cycle ∧ s.tau < a ∧ a < s.tau + c.cycle ∧
    s.ccAt n + c.settle ≤ a ∧ ∀ ts t0, s.last n = some (ts, t0) → a ≤ max ts (t0 + 4)

/-- The last period for which `next_period` has looked at alarm `n`. -/
def State.armBase (s : State) (n : Nat) : Nat :=
  match s.crit with
  | .arm p m => if m ≤ n then p - 1 else p
  | .armEnable p m => if m < n then p - 1 else p
  | _ => s.period

/-- Alarm `n` is beyond the window of the last period it was looked at for, and
ahead of an unserviced overflow. -/
structure State.Parked (c : Chip) (n : Nat) (s : State) : Prop where
  off : s.inten n = false
  notEnabling : s.crit.enabling n = false
  beyond : s.armBase n * c.half + c.window ≤ s.timestamp n
  ahead : c.ovfIrq = false → s.ovfPending = true → s.midPending = false → s.tau < s.timestamp n

/-- `set_alarm(n)` or `trigger_alarm(n)` runs, or `on_interrupt` is about to
trigger it. -/
def State.busy (s : State) (n : Nat) : Bool :=
  s.crit.setting n || s.crit.triggering n || s.handler.taken n

/-- Alarm `n` is looked after. While `set_alarm(n)` runs, the time it goes by is
the present one, up to the one tick a critical section can see. -/
structure LostInv (c : Chip) (n : Nat) (s : State) : Prop where
  kept : s.timestamp n ≠ u64Max → s.busy n = true ∨
    ((s.inten n = true ∨ s.crit.enabling n = true) ∧ s.Armed c n) ∨ s.Parked c n
  inSection : ∀ ts t0, s.crit.setting n = true → s.last n = some (ts, t0) →
    s.tau ≤ t0 + s.ticked.toNat
  write : ∀ ts t, s.crit = .writeCc n ts t →
    t ≤ s.tau ∧ s.tau ≤ t + s.ticked.toNat ∧ t < ts ∧ ts - t < c.window
  far : s.crit = .disable n → s.period * c.half + c.window ≤ s.timestamp n ∧
    s.tau + c.window ≤ s.timestamp n + s.ticked.toNat

/-- No alarm is set. -/
theorem lostInv_init (c : Chip) (n : Nat) : LostInv c n init := by
  constructor <;> simp [init, Crit.setting]

/-- Only a tick and `fetch_add` change which boundaries are pending. -/
theorem ClockInv.pending_handler {c : Chip} {s s' : State} (hI : ClockInv c s)
    (h : Stmt c s .handler s') :
    s'.ovfPending = s.ovfPending ∧ s'.midPending = s.midPending := by
  have hTo := hI.takenOvf
  have hTm := hI.takenMid
  cases h <;> simp_all [State.ovfPending, State.midPending]

/-- A section that does nothing for the alarm is at another one. -/
theorem Crit.alarm_ne {k : Crit} {n : Nat} (hS : k.setting n = false)
    (hE : k.enabling n = false) (hT : k.triggering n = false) : k.alarm ≠ some n := by
  cases k <;> simp_all [alarm, setting, enabling, triggering]

namespace LostInv

variable {c : Chip} {n : Nat} {s s' : State}

/-- A statement about something else than alarm `n`. -/
theorem frame (hL : LostInv c n s) (hTau : s'.tau = s.tau)
    (hTs : s'.timestamp n = s.timestamp n) (hLast : s'.last n = s.last n)
    (hInten : s'.inten n = s.inten n) (hCc : s'.cc n = s.cc n) (hCcAt : s'.ccAt n = s.ccAt n)
    (hEv : s'.ev n = s.ev n) (hTaken : s'.handler.taken n = s.handler.taken n)
    (hC : s.crit.alarm ≠ some n) (hC' : s'.crit.alarm ≠ some n)
    (hBase : s'.armBase n = s.armBase n) (hOvf : s'.ovfPending = s.ovfPending)
    (hMid : s'.midPending = s.midPending) : LostInv c n s' where
  kept := by
    intro hMax
    -- being served, armed or parked: each reads only what is kept
    rcases hL.kept (hTs ▸ hMax) with hBusy | ⟨hOn, hA⟩ | hP
    · refine .inl ?_
      simpa [State.busy, Crit.setting_of_alarm_ne, Crit.triggering_of_alarm_ne, hC, hC', hTaken]
        using hBusy
    · refine .inr (.inl ⟨?_, ?_⟩)
      · simpa [Crit.enabling_of_alarm_ne, hC, hC', hInten] using hOn
      · simpa only [State.Armed, hTau, hLast, hCc, hCcAt, hEv] using hA
    · exact .inr (.inr
        { off := by rw [hInten]; exact hP.off
          notEnabling := Crit.enabling_of_alarm_ne hC'
          beyond := by rw [hBase, hTs]; exact hP.beyond
          ahead := by rw [hOvf, hMid, hTau, hTs]; exact hP.ahead })
  inSection := by simp [Crit.setting_of_alarm_ne hC']
  write := by
    intro ts t hW
    simp [hW, Crit.alarm] at hC'
  far := by
    intro hF
    simp [hF, Crit.alarm] at hC'

/-- While `set_alarm(n)` does not run, that the alarm is looked after is all
there is to show. -/
theorem of_kept (hSet : s'.crit.setting n = false)
    (hKept : s'.timestamp n ≠ u64Max → s'.busy n = true ∨
      ((s'.inten n = true ∨ s'.crit.enabling n = true) ∧ s'.Armed c n) ∨ s'.Parked c n) :
    LostInv c n s' where
  kept := hKept
  inSection := by simp [hSet]
  write := by
    intro ts t hW
    simp [hW, Crit.setting] at hSet
  far := by
    intro hF
    simp [hF, Crit.setting] at hSet

/-- An alarm that was armed stays so when its interrupt is enabled. -/
theorem of_enabling (hL : LostInv c n s) (hEn : s.crit.enabling n = true)
    (hSet : s'.crit.setting n = false) (hTs : s'.timestamp = s.timestamp)
    (hInten : s'.inten n = true) (hArmed : s.Armed c n → s'.Armed c n)
    (hBusy : s.busy n = true → s'.busy n = true) : LostInv c n s' := by
  refine of_kept hSet fun hMax => ?_
  rcases hL.kept (hTs ▸ hMax) with hWas | ⟨-, hA⟩ | hP
  · exact .inl (hBusy hWas)
  · exact .inr (.inl ⟨.inl hInten, hArmed hA⟩)
  · exact absurd hP.notEnabling (by simp [hEn])

/-- A tick that meets the timestamp latches its event. -/
theorem tick (hL : LostInv c n s) (hReal : n < c.realAlarmCount)
    (hOk : LostOk c n s .tick) : LostInv c n (Rtc.tick c s) := by
  obtain ⟨⟨-, hShort⟩, -, -, hAwake⟩ := hOk
  -- an alarm armed for the tick that comes latches its event, any other stays armed
  have hArmed : s.Armed c n → (Rtc.tick c s).Armed c n := by
    rintro (hEv | ⟨a, hCc, hlt, hHi, hSet, hLate⟩)
    · exact .inl (by simp [hEv])
    · by_cases ha : a = s.tau + 1
      · -- this is the tick the register was waiting for
        subst ha
        exact .inl (by simp [compares, hReal, hCc, hSet])
      · exact .inr ⟨a, hCc, by simp only [tick_tau]; omega, by simp only [tick_tau]; omega,
          hSet, hLate⟩
  -- inside a critical section the clock ticks once at most
  have hTicked : s.crit.setting n = true → s.ticked = false := by
    intro hSet
    exact hShort (by rintro hFree; simp [hFree, Crit.setting] at hSet)
  exact
    { kept := by
        intro hMax
        by_cases hBusy : s.busy n = true
        · exact .inl hBusy
        rcases hL.kept hMax with hBusy' | ⟨hOn, hA⟩ | hP
        · exact absurd hBusy' hBusy
        · exact .inr (.inl ⟨hOn, hArmed hA⟩)
        · refine .inr (.inr ⟨hP.off, hP.notEnabling, hP.beyond, ?_⟩)
          intro hIrq hOvf hMid
          simp only [State.busy, Bool.or_eq_true, not_or, Bool.not_eq_true] at hBusy
          obtain ⟨⟨hS, hT⟩, hTaken⟩ := hBusy
          -- a parked alarm is not overtaken: the assumption on the boundary
          refine hAwake hIrq ?_ ?_ hP.off (Crit.alarm_ne hS hP.notEnabling hT) hTaken
          · by_cases hB : (s.tau + 1) % c.cycle = 0
            · exact .inr hB
            · exact .inl (by simpa [State.ovfPending, hB] using hOvf)
          · simp only [State.midPending, tick_mid, tick_handler, tick_crit,
              Bool.or_eq_false_iff] at hMid ⊢
            exact ⟨⟨hMid.1.1.1, hMid.1.2⟩, hMid.2⟩
      inSection := by
        intro ts t0 hSet hLast
        have := hL.inSection ts t0 hSet hLast
        simp only [tick_tau, tick_ticked, hTicked hSet, Bool.toNat_false, Bool.toNat_true] at this ⊢
        omega
      write := by
        intro ts t hW
        obtain ⟨h1, h2, h3⟩ := hL.write ts t hW
        have hT := hTicked (by rw [tick_crit] at hW; simp [hW, Crit.setting])
        simp only [tick_tau, tick_ticked, hT, Bool.toNat_false, Bool.toNat_true] at h2 ⊢
        exact ⟨by omega, by omega, h3⟩
      far := by
        intro hF
        obtain ⟨h1, h2⟩ := hL.far hF
        have hT := hTicked (by rw [tick_crit] at hF; simp [hF, Crit.setting])
        simp only [tick_tau, tick_ticked, tick_timestamp, tick_period, hT, Bool.toNat_false,
          Bool.toNat_true] at h1 h2 ⊢
        exact ⟨h1, by omega⟩ }

/-- `fetch_add` begins a period; `next_period` has yet to look at alarm `n` for
it. -/
theorem fetchAdd (hL : LostInv c n s) (hI : ClockInv c s) {b : Boundary}
    (hC : s.crit = .fetchAdd b) : LostInv c n (fetchAddPeriod s) := by
  have hLt := hI.succ_period_lt hC
  refine of_kept rfl ?_
  intro hMax
  rcases hL.kept hMax with hBusy | ⟨hOn, hA⟩ | hP
  · exact .inl (by simpa [State.busy, hC, Crit.setting, Crit.triggering] using hBusy)
  · exact .inr (.inl ⟨by simpa [hC, Crit.enabling] using hOn, hA⟩)
  · refine .inr (.inr ⟨hP.off, rfl, ?_, ?_⟩)
    · simpa [State.armBase, hC, Nat.mod_eq_of_lt hLt] using hP.beyond
    · simp [hI.ovfPending_fetchAdd hC]

/-- `next_period` sets up the compare register of alarm `n`. -/
theorem arm_write (hI : ClockInv c s) (hD : DataInv s) {p : Nat} (hC : s.crit = .arm p n)
    (hDiff : (s.timestamp n + u64Size - p <<< c.periodBits) % u64Size < c.window)
    (hOk : ArmInTime c n s .crit) (hTau : s'.tau = s.tau)
    (hTs : s'.timestamp = s.timestamp) (hLast : s'.last = s.last) (hEv : s'.ev = s.ev)
    (hCc : s'.cc n = c.truncate (s.timestamp n)) (hCcAt : s'.ccAt n = s.tau)
    (hC' : s'.crit = .armEnable p n) : LostInv c n s' := by
  obtain ⟨-, hHi, hle⟩ := hI.window_of_diff hD hC hDiff
  refine of_kept (by simp [hC', Crit.setting]) fun hMax => .inr (.inl ⟨?_, ?_⟩)
  · exact .inr (by simp [hC', Crit.enabling])
  · -- the write leaves time for the compare, or the event is latched already
    rcases hOk p hC hDiff with hLatched | hSettle
    · exact .inl (by rw [hEv]; exact hLatched)
    · obtain ⟨t0, hStored⟩ := hD.stored n (by rw [← hTs]; exact hMax)
      refine .inr ⟨s.timestamp n, by rw [hCc, c.truncate_eq], ?_, ?_,
        by rw [hCcAt]; exact hSettle, ?_⟩
      · rw [hTau]
        cases c <;> simp only [Chip.settle] at hSettle <;> omega
      · rw [hTau]
        -- within one cycle the low bits name the timestamp
        cases c <;> simp only [Chip.window, Chip.cycle, Chip.half] at * <;> omega
      · intro ts t0' hSet
        rw [hLast, hStored] at hSet
        cases hSet
        exact Nat.le_max_left _ _

/-- `next_period` passes over alarm `n`: it is parked for the new period, too,
or set up already. -/
theorem arm_skip (hL : LostInv c n s) (hI : ClockInv c s) (hD : DataInv s) {p : Nat}
    (hC : s.crit = .arm p n)
    (hDiff : ¬ (s.timestamp n + u64Size - p <<< c.periodBits) % u64Size < c.window)
    (hTau : s'.tau = s.tau) (hTs : s'.timestamp = s.timestamp) (hLast : s'.last = s.last)
    (hEv : s'.ev = s.ev) (hCc : s'.cc = s.cc) (hCcAt : s'.ccAt = s.ccAt)
    (hInten : s'.inten = s.inten) (hH : s'.handler = s.handler)
    (hOvf : s'.ovf = s.ovf) (hMid : s'.mid = s.mid) (hC' : s'.crit = .arm p (n + 1)) :
    LostInv c n s' := by
  refine of_kept (by simp [hC', Crit.setting]) fun hMax => ?_
  -- the loop goes past this alarm: it was served, armed, or is parked further on
  rcases hL.kept (hTs ▸ hMax) with hBusy | ⟨hOn, hA⟩ | hP
  · exact .inl (by simpa [State.busy, hC, hC', Crit.setting, Crit.triggering, hH] using hBusy)
  · refine .inr (.inl ⟨by simpa [hC, hC', Crit.enabling, hInten] using hOn, ?_⟩)
    simpa only [State.Armed, hTau, hLast, hCc, hCcAt, hEv] using hA
  · refine .inr (.inr ⟨by rw [hInten]; exact hP.off, by simp [hC', Crit.enabling], ?_, ?_⟩)
    · -- the window is longer than a period, so the subtraction does not wrap
      have hOld := hP.beyond
      have hB := hD.bound n
      have hHalf : (p - 1) * c.half + c.half = p * c.half ∨ p = 0 := by
        rcases Nat.eq_zero_or_pos p with h | h
        · exact .inr h
        · left
          rw [← Nat.succ_mul, Nat.succ_eq_add_one, Nat.sub_add_cancel h]
      simp only [State.armBase, hC, le_refl, if_true] at hOld
      simp only [State.armBase, hC', Nat.not_succ_le_self, if_false, hTs]
      rw [c.shiftLeft_periodBits] at hDiff
      rcases hHalf with hHalf | rfl
      · generalize p * c.half = t at *
        generalize (p - 1) * c.half = t' at *
        cases c <;> simp only [Chip.window, Chip.half, u64Size] at * <;> omega
      · simp only [Nat.zero_mul, Nat.zero_sub] at *
        exact hOld
    · have hO : s'.ovfPending = s.ovfPending := by simp [State.ovfPending, hOvf, hH, hC, hC']
      have hM : s'.midPending = s.midPending := by simp [State.midPending, hMid, hH, hC, hC']
      rw [hO, hM, hTau, hTs]
      exact hP.ahead

/-- `set_alarm` sets up the compare register of alarm `n`, at least three ticks
ahead of the time it has read. -/
theorem writeCc (hL : LostInv c n s) (hI : ClockInv c s) (hD : DataInv s) {ts t : Nat}
    (hC : s.crit = .writeCc n ts t) : LostInv c n (writeCompare c s n ts t) := by
  obtain ⟨hle, hTicked, hlt, hW⟩ := hL.write ts t hC
  obtain ⟨-, t0, hSet⟩ := hD.target n ts (by simp [hC, Crit.target])
  have hIn := hL.inSection ts t0 (by simp [hC, Crit.setting]) hSet
  -- the margin of three ticks does not wrap
  have hNoWrap : (t + 3) % u64Size = t + 3 := by
    have := hI.range
    cases c <;> simp only [Chip.half, u32Size, u64Size] at * <;> omega
  have hOne := s.ticked.toNat_le
  refine of_kept rfl fun _ => .inr (.inl ⟨.inr (by simp [Crit.enabling]), .inr ?_⟩)
  -- the register gets the timestamp, or the earliest tick that is safe
  refine ⟨max ts (t + 3), ?_, ?_, ?_, ?_, ?_⟩
  · simp [hNoWrap, c.truncate_eq]
  · simp only [writeCompare_tau]
    omega
  · simp only [writeCompare_tau]
    cases c <;> simp only [Chip.window, Chip.cycle] at * <;> omega
  · simp only [writeCompare_ccAt, Function.update_self]
    cases c <;> simp only [Chip.settle] <;> omega
  · intro ts' t0' hSet'
    rw [writeCompare_last, hSet] at hSet'
    cases hSet'
    omega

/-- `set_alarm` has read a time before the timestamp. -/
theorem nowCounter (hL : LostInv c n s) (hI : ClockInv c s) (hD : DataInv s) {ts : Nat}
    {call : NowCall} (hC : s.crit = .nowCounter n ts call) (hOk : SetInTime c n s .crit)
    (hlt : s.now c < ts) (hTau : s'.tau = s.tau) (hTs : s'.timestamp = s.timestamp)
    (hLast : s'.last = s.last) (hTicked : s'.ticked = s.ticked) (hPeriod : s'.period = s.period)
    (hC' : (ts - s.now c < c.window ∧ s'.crit = .writeCc n ts (s.now c)) ∨
      (c.window ≤ ts - s.now c ∧ s'.crit = .disable n)) : LostInv c n s' := by
  -- `now` is exact here, so the branch taken is the right one
  have hNow := hI.now_eq (hOk ts call hC hlt)
  obtain ⟨hEq, -⟩ := hD.target n ts (by simp [hC, Crit.target])
  have hSet' : s'.crit.setting n = true := by
    rcases hC' with ⟨-, h⟩ | ⟨-, h⟩ <;> simp [h, Crit.setting]
  exact
    { kept := fun _ => .inl (by simp [State.busy, hSet'])
      inSection := by
        intro ts' t0 _ hLast'
        rw [hTau, hTicked]
        exact hL.inSection ts' t0 (by simp [hC, Crit.setting]) (by rw [← hLast]; exact hLast')
      write := by
        intro ts' t hW
        rcases hC' with ⟨hNear, h⟩ | ⟨-, h⟩
        · rw [h] at hW
          cases hW
          rw [hTau, hTicked]
          exact ⟨by omega, by omega, hlt, hNear⟩
        · rw [h] at hW
          cases hW
      -- not within the window: it lies beyond what the next period arms
      far := by
        intro hF
        rcases hC' with ⟨-, h⟩ | ⟨hFar, h⟩
        · rw [h] at hF
          cases hF
        · have hCount := hI.count
          have hle : s.period * c.half ≤ s.tau :=
            (Nat.mul_le_mul_right _ (by omega)).trans (Nat.div_mul_le_self s.tau c.half)
          rw [hPeriod, hTau, hTicked, hTs, ← hEq]
          exact ⟨by omega, by omega⟩ }

/-- Every step that keeps to the assumptions keeps the alarm from being lost. -/
theorem step {a : Action} (hL : LostInv c n s) (hn : n < alarmCount)
    (hReal : n < c.realAlarmCount) (hI : ClockInv c s) (hN : NowInv c s)
    (hD : DataInv s) (hOk : LostOk c n s a) (h : step c s a = some s') : LostInv c n s' := by
  have hNow : ∀ m ts call, s.crit = .nowCounter m ts call →
      (readCounter c s call).value = s.now c := by
    intro m ts call hC
    simp [readCounter, State.now, (hN.inSection m ts call hC).2]
  have hStmt := step_stmt h
  cases hStmt with
  | tick => exact hL.tick hReal hOk
  | enter hC hH hR =>
    refine hL.frame rfl rfl rfl rfl rfl rfl rfl ?_ ?_ ?_ rfl ?_ ?_ <;>
      simp [hC, hH, Crit.alarm, Handler.taken, State.ovfPending, State.midPending]
  | checkOvf_hit hC hH | checkOvf_miss hC hH | clearOvf hC hH | periodOvf hC hH
  | checkMid_hit hC hH | checkMid_miss hC hH | clearMid hC hH | periodMid hC hH
  | check_miss hC hH | check_done hC hH =>
    obtain ⟨hO, hM⟩ := hI.pending_handler (step_stmt h)
    refine hL.frame rfl rfl rfl rfl rfl rfl rfl ?_ ?_ ?_ ?_ hO hM <;>
      simp [hC, hH, Crit.alarm, Handler.taken, State.armBase]
  | @check_hit m hC hH hm hE =>
    obtain ⟨hO, hM⟩ := hI.pending_handler (step_stmt h)
    by_cases hmn : m = n
    · exact of_kept (by simp [hC, Crit.setting]) fun _ =>
        .inl (by simp [State.busy, Handler.taken, hmn])
    · refine hL.frame rfl rfl rfl rfl rfl rfl rfl ?_ ?_ ?_ ?_ hO hM <;>
        simp [hC, hH, Crit.alarm, Handler.taken, State.armBase, hmn]
  | @clear m hC hH =>
    obtain ⟨hO, hM⟩ := hI.pending_handler (step_stmt h)
    by_cases hmn : m = n
    · exact of_kept (by simp [hC, Crit.setting]) fun _ =>
        .inl (by simp [State.busy, Handler.taken, hmn])
    · refine hL.frame rfl rfl rfl rfl rfl rfl ?_ ?_ ?_ ?_ ?_ hO hM <;>
        simp [hC, hH, Crit.alarm, Handler.taken, State.armBase, Ne.symm hmn]
  | @trigger m hC hH =>
    obtain ⟨hO, hM⟩ := hI.pending_handler (step_stmt h)
    by_cases hmn : m = n
    · exact of_kept rfl fun _ => .inl (by simp [State.busy, Crit.triggering, hmn])
    · refine hL.frame rfl rfl rfl rfl rfl rfl rfl ?_ ?_ ?_ ?_ hO hM <;>
        simp [hC, hH, Crit.alarm, Handler.taken, State.armBase, hmn]
  | fetchAdd hC => exact hL.fetchAdd hI hC
  | @arm_write p m hC hm hDiff =>
    by_cases hmn : m = n
    · subst hmn
      exact arm_write hI hD hC hDiff hOk.2.1 rfl rfl rfl rfl (by simp) (by simp) rfl
    · refine hL.frame rfl rfl rfl rfl ?_ ?_ rfl rfl ?_ ?_ ?_ ?_ ?_ <;>
        simp [hC, Crit.alarm, State.armBase, State.ovfPending, State.midPending, hmn,
          Ne.symm hmn, Nat.lt_iff_le_and_ne]
  | @arm_skip p m hC hm hDiff =>
    by_cases hmn : m = n
    · subst hmn
      exact hL.arm_skip hI hD hC hDiff rfl rfl rfl rfl rfl rfl rfl rfl rfl rfl rfl
    · refine hL.frame rfl rfl rfl rfl rfl rfl rfl rfl ?_ ?_ ?_ ?_ ?_ <;>
        simp [hC, Crit.alarm, State.armBase, State.ovfPending, State.midPending, hmn,
          Nat.lt_iff_le_and_ne]
  | @arm_done p m hC hm =>
    -- the loop is past alarm `n`
    have hPeriod := hD.armPeriod p m (.inl hC)
    have hPast : ¬ m ≤ n := by omega
    refine hL.frame rfl rfl rfl rfl rfl rfl rfl rfl ?_ ?_ ?_ ?_ ?_ <;>
      simp [hC, Crit.alarm, State.armBase, State.ovfPending, State.midPending, hPast, hPeriod]
  | @armEnable p m hC =>
    by_cases hmn : m = n
    · subst hmn
      exact hL.of_enabling (by simp [hC, Crit.enabling]) rfl rfl (by simp) id
        (by simp [State.busy, hC, Crit.setting, Crit.triggering])
    · refine hL.frame rfl rfl rfl ?_ rfl rfl rfl rfl ?_ ?_ ?_ ?_ ?_ <;>
        simp [hC, Crit.alarm, State.armBase, State.ovfPending, State.midPending, hmn,
          Ne.symm hmn]
  | @nowPeriod m ts hC =>
    by_cases hmn : m = n
    · subst hmn
      exact
        { kept := fun _ => .inl (by simp [State.busy, Crit.setting])
          inSection := fun ts' t0 _ => hL.inSection ts' t0 (by simp [hC, Crit.setting])
          write := by simp
          far := by simp }
    · refine hL.frame rfl rfl rfl rfl rfl rfl rfl rfl ?_ ?_ ?_ ?_ ?_ <;>
        simp [hC, Crit.alarm, State.armBase, State.ovfPending, State.midPending, hmn]
  | @nowCounter_due m ts call hC hT =>
    by_cases hmn : m = n
    · exact of_kept rfl fun _ => .inl (by simp [State.busy, Crit.triggering, hmn])
    · refine hL.frame rfl rfl rfl rfl rfl rfl rfl rfl ?_ ?_ ?_ ?_ ?_ <;>
        simp [hC, Crit.alarm, State.armBase, State.ovfPending, State.midPending, hmn]
  | @nowCounter_near m ts call hC hT hW =>
    by_cases hmn : m = n
    · subst hmn
      rw [hNow _ _ _ hC] at hT hW
      exact hL.nowCounter hI hD hC hOk.2.2.1 hT rfl rfl rfl rfl rfl
        (.inl ⟨hW, by simp [hNow _ _ _ hC]⟩)
    · refine hL.frame rfl rfl rfl rfl rfl rfl rfl rfl ?_ ?_ ?_ ?_ ?_ <;>
        simp [hC, Crit.alarm, State.armBase, State.ovfPending, State.midPending, hmn]
  | @nowCounter_far m ts call hC hT hW =>
    by_cases hmn : m = n
    · subst hmn
      rw [hNow _ _ _ hC] at hT hW
      exact hL.nowCounter hI hD hC hOk.2.2.1 hT rfl rfl rfl rfl rfl (.inr ⟨hW, rfl⟩)
    · refine hL.frame rfl rfl rfl rfl rfl rfl rfl rfl ?_ ?_ ?_ ?_ ?_ <;>
        simp [hC, Crit.alarm, State.armBase, State.ovfPending, State.midPending, hmn]
  | @writeCc m ts t hC =>
    by_cases hmn : m = n
    · subst hmn
      exact hL.writeCc hI hD hC
    · refine hL.frame rfl rfl rfl rfl ?_ ?_ rfl rfl ?_ ?_ ?_ ?_ ?_ <;>
        simp [hC, Crit.alarm, State.armBase, State.ovfPending, State.midPending, hmn,
          Ne.symm hmn]
  | @enable m hC =>
    by_cases hmn : m = n
    · subst hmn
      exact hL.of_enabling (by simp [hC, Crit.enabling]) rfl rfl (by simp) id
        (by simp [State.busy, hC, Crit.setting, Crit.triggering])
    · refine hL.frame rfl rfl rfl ?_ rfl rfl rfl rfl ?_ ?_ ?_ ?_ ?_ <;>
        simp [hC, Crit.alarm, State.armBase, State.ovfPending, State.midPending, hmn,
          Ne.symm hmn]
  | @disable m hC =>
    by_cases hmn : m = n
    · subst hmn
      obtain ⟨hBeyond, hAhead⟩ := hL.far hC
      have hOne := s.ticked.toNat_le
      refine of_kept rfl fun _ => .inr (.inr ⟨by simp, rfl, hBeyond, fun _ _ _ => ?_⟩)
      show s.tau < s.timestamp m
      cases c <;> simp only [Chip.window] at hAhead <;> omega
    · refine hL.frame rfl rfl rfl ?_ rfl rfl rfl rfl ?_ ?_ ?_ ?_ ?_ <;>
        simp [hC, Crit.alarm, State.armBase, State.ovfPending, State.midPending, hmn,
          Ne.symm hmn]
  | @trigDisable m hC =>
    by_cases hmn : m = n
    · exact of_kept rfl fun _ => .inl (by simp [State.busy, Crit.triggering, hmn])
    · refine hL.frame rfl rfl rfl ?_ rfl rfl rfl rfl ?_ ?_ ?_ ?_ ?_ <;>
        simp [hC, Crit.alarm, State.armBase, State.ovfPending, State.midPending, hmn,
          Ne.symm hmn]
  | @trigClear m hC =>
    by_cases hmn : m = n
    · exact of_kept rfl fun _ => .inl (by simp [State.busy, Crit.triggering, hmn])
    · refine hL.frame rfl ?_ rfl rfl rfl rfl rfl rfl ?_ ?_ ?_ ?_ ?_ <;>
        simp [hC, Crit.alarm, State.armBase, State.ovfPending, State.midPending, hmn,
          Ne.symm hmn]
  | @trigCall m hC =>
    by_cases hmn : m = n
    · subst hmn
      exact of_kept rfl fun hMax => absurd (hD.called m hC) hMax
    · refine hL.frame rfl rfl rfl rfl rfl rfl rfl rfl ?_ ?_ ?_ ?_ ?_ <;>
        simp [hC, Crit.alarm, State.armBase, State.ovfPending, State.midPending, hmn]
  | @setAlarm m ts hC hm hReal hTs =>
    by_cases hmn : m = n
    · subst hmn
      exact
        { kept := fun _ => .inl (by simp [State.busy, Crit.setting])
          inSection := by simp
          write := by simp
          far := by simp }
    · refine hL.frame rfl ?_ ?_ rfl rfl rfl rfl rfl ?_ ?_ ?_ ?_ ?_ <;>
        simp [hC, Crit.alarm, State.armBase, State.ovfPending, State.midPending, hmn,
          Ne.symm hmn]
  | setCallback hC | nowLoad hC | nowRead hC =>
    refine hL.frame rfl rfl rfl rfl rfl rfl rfl rfl ?_ ?_ ?_ ?_ ?_ <;>
      simp [hC, Crit.alarm, State.armBase, State.ovfPending, State.midPending]

/-- In a quiet state past its time, alarm `n` is no longer set. -/
theorem not_stored (hL : LostInv c n s) (hI : ClockInv c s) (hn : n < alarmCount)
    (hQ : s.quiet c = true) {ts t0 : Nat} (hLast : s.last n = some (ts, t0))
    (hLate : max ts (t0 + 3) < s.tau) : s.timestamp n ≠ ts := by
  intro hEq
  obtain ⟨⟨hRaised, hH⟩, hC⟩ : (s.raised c = false ∧ s.handler = .idle) ∧ s.crit = .free := by
    simpa [State.quiet] using hQ
  have hRange := hI.range
  have hMax : s.timestamp n ≠ u64Max := by
    rw [hEq]
    cases c <;> simp only [Chip.half, u32Size, u64Max] at * <;> omega
  obtain ⟨⟨hOvf, hMid⟩, hEvs⟩ : ((s.ovf && c.ovfIrq) = false ∧ s.mid = false) ∧
      ∀ m < alarmCount, s.ev m = true → s.inten m = false := by
    simpa [State.raised] using hRaised
  -- busy: no, all is quiet; latched: it would be raised; armed: it is not late; so parked
  rcases hL.kept hMax with hBusy | ⟨hOn, hEv | ⟨a, -, hlt, -, -, hDue⟩⟩ | hP
  · simp [State.busy, hC, hH, Crit.setting, Crit.triggering, Handler.taken] at hBusy
  · have hOn : s.inten n = true := by simpa [hC, Crit.enabling] using hOn
    exact absurd hOn (by simp [hEvs n hn hEv])
  · have := hDue ts t0 hLast
    omega
  · -- parked, in a period that is counted: the timestamp is beyond its end
    have hMidP : s.midPending = false := by simp [State.midPending, hMid, hH, hC]
    have hBeyond := hP.beyond
    have hAhead := hP.ahead
    simp only [State.armBase, hC, hEq] at hBeyond hAhead
    have hNoOvf : s.ovfPending = false := by
      by_contra hOvfP
      have hOvfP := Bool.not_eq_false _ ▸ hOvfP
      have hLatched : s.ovf = true := by simpa [State.ovfPending, hH, hC] using hOvfP
      have := hAhead (by simpa [hLatched] using hOvf) hOvfP hMidP
      omega
    have hCount := hI.count
    simp only [State.unserviced, hNoOvf, hMidP, Bool.toNat_false] at hCount
    have hEnd : s.tau < s.period * c.half + c.half := by
      rw [← Nat.succ_mul]
      exact (Nat.div_lt_iff_lt_mul c.half_pos).mp (by omega)
    cases c <;> simp only [Chip.window, Chip.half] at * <;> omega

end LostInv

/-- All of the invariants together hold in every such run. -/
theorem lostInv_of_run {c : Chip} {n : Nat} {ok : State → Action → Prop} {s : State}
    (hn : n < alarmCount) (hReal : n < c.realAlarmCount)
    (hOk : ∀ s a, ClockInv c s → ok s a → LostOk c n s a) (hRun : Run (step c) ok init s) :
    ClockInv c s ∧ NowInv c s ∧ DataInv s ∧ LostInv c n s :=
  hRun.invariant (I := fun s => ClockInv c s ∧ NowInv c s ∧ DataInv s ∧ LostInv c n s)
    ⟨clockInv_init c, nowInv_init c, dataInv_init, lostInv_init c n⟩
    fun u a _ ⟨hI, hN, hD, hL⟩ hA hs =>
      have hA := hOk u a hI hA
      ⟨hI.step hA.1.1 hs, hN.step hI hs, hD.step hs, hL.step hn hReal hI hN hD hA hs⟩

-- ---------------------------------------------------------------------------
-- nRF
-- ---------------------------------------------------------------------------

/-- Both boundaries request an interrupt: `set_alarm` always reads the true
time, and no alarm stays parked. -/
theorem nrf_lostOk {n : Nat} {s : State} {a : Action} (hI : ClockInv .nrf s)
    (hOk : HwOk .nrf s a ∧ ArmInTime .nrf n s a) : LostOk .nrf n s a := by
  refine ⟨hOk.1, hOk.2, ?_, ?_⟩
  · cases a <;> try trivial
    exact fun _ _ _ _ => hI.unserviced_le_one rfl
  · cases a <;> try trivial
    exact fun h => absurd h (by simp [Chip.ovfIrq])

/--
**On the nRF no alarm is lost.** Alarm `n` was last set to `ts` at tick `t0`.
In every run in which `next_period` never sets it up too late (`ArmInTime`), in
no quiet state after `ts` and `t0 + 3` is that timestamp still stored.
-/
theorem nrf_alarm_never_lost {n ts t0 : Nat} {s : State} (hn : n < alarmCount)
    (hRun : Run (step .nrf) (fun s a => HwOk .nrf s a ∧ ArmInTime .nrf n s a) init s)
    (hLast : s.last n = some (ts, t0)) (hQ : s.quiet .nrf = true)
    (hLate : max ts (t0 + 3) < s.tau) : s.timestamp n ≠ ts := by
  obtain ⟨hI, -, -, hL⟩ := lostInv_of_run (c := .nrf) hn hn (fun _ _ => nrf_lostOk) hRun
  exact hL.not_stored hI hn hQ hLast hLate

/-- The rest of `trigger_alarm` from the callback on, and of `on_interrupt`. -/
def leaveAlarms : List Action := [.crit, .handler, .handler, .handler]

/-- Alarm 0 is set to 10 and is gone at tick 11. -/
theorem nrf_alarm_not_lost_at_ten : ∃ s,
    Run (step .nrf) (fun s a => HwOk .nrf s a ∧ ArmInTime .nrf 0 s a) init s ∧
    s.last 0 = some (10, 0) ∧ s.quiet .nrf = true ∧ s.tau = 11 ∧ s.timestamp 0 ≠ 10 := by
  obtain ⟨s, hRun, hLast, hQ, hTau⟩ :
      ∃ s, Run (step .nrf) (fun s a => HwOk .nrf s a ∧ ArmInTime .nrf 0 s a) init s ∧
        s.last 0 = some (10, 0) ∧ s.quiet .nrf = true ∧ s.tau = 11 := by
    have hRun : Run (step .nrf) (fun s a => HwOk .nrf s a ∧ ArmInTime .nrf 0 s a) init _ :=
      Run.execOk_get _ (.setCallback 0 (1, 1) :: setAlarmNear 0 10 ++ List.replicate 10 .tick ++
        enterAlarms ++ triggerFound ++ leaveAlarms ++ [.tick]) (by decide +kernel)
    exact ⟨_, hRun, by decide +kernel, by decide +kernel, by decide +kernel⟩
  exact ⟨s, hRun, hLast, hQ, hTau,
    nrf_alarm_never_lost (by decide) hRun hLast hQ (by rw [hTau]; decide)⟩

/-- Between boundaries, outside a critical section and with the handler idle, the
hardware guarantees hold of a tick. -/
theorem hwOk_tick {c : Chip} {s : State} (hH : s.handler = .idle) (hC : s.crit = .free)
    (hDiv : (s.tau + 1) / c.half = s.tau / c.half) (hR : s.tau + 1 < u32Size * c.half) :
    HwOk c s .tick :=
  ⟨clockOk_tick hH hDiv hR, fun h => absurd hC h⟩

/-- The midway interrupt is taken and serviced; `next_period` sets up alarm 0. -/
def serviceMidArm : List Action :=
  [.interrupt, .handler, .handler, .handler, .handler, .crit, .crit, .crit, .crit, .crit, .crit,
    .handler, .handler, .handler, .handler]

/-- Alarm 0 is set to 0x800001 at tick 0 and set up at once. The interrupt of the
midway point, tick 0x800000, is serviced without delay: `next_period` writes
the compare register again, one tick ahead, and the event is missed. -/
theorem nrf_alarm_lost : ∃ s, Run (step .nrf) (HwOk .nrf) init s ∧
    s.last 0 = some (0x800001, 0) ∧ s.quiet .nrf = true ∧ s.tau = 0x800002 ∧
    s.timestamp 0 = 0x800001 := by
  have h1 : Run (step .nrf) (HwOk .nrf) init _ :=
    Run.execOk_get _ (setAlarmNear 0 0x800001 ++ [.tick]) (by decide +kernel)
  have h2 := h1.trans (run_wait (y := 0x7fffff) (by decide +kernel) fun x _ hx hDiv =>
    hwOk_tick rfl rfl hDiv (by simp only [State.atTick_tau, u32Size, Chip.half]; omega))
  have h3 := h2.trans (Run.execOk_get _ (.tick :: serviceMidArm ++ [.tick, .tick])
    (by decide +kernel))
  exact ⟨_, h3, by decide +kernel, by decide +kernel, by decide +kernel, by decide +kernel⟩

-- ---------------------------------------------------------------------------
-- STM32
-- ---------------------------------------------------------------------------

/-- Alarm `n` is set only when it has a callback. -/
def Registered (n : Nat) (s : State) : Action → Prop
  | .setAlarm m _ => m = n → (s.callback n).isSome = true
  | _ => True

instance (n : Nat) (s : State) : (a : Action) → Decidable (Registered n s a)
  | .setAlarm _ _ => inferInstanceAs (Decidable (_ → _))
  | .tick | .interrupt | .handler | .crit | .setCallback _ _ | .nowLoad | .nowRead _ =>
    isTrue trivial

/-- The timestamp of alarm `n` is unset only by its callback, which comes no
earlier than that. -/
structure FiredInv (n : Nat) (s : State) : Prop where
  fired : s.timestamp n = u64Max → ∀ ts t0, s.last n = some (ts, t0) → ts ≠ u64Max →
    s.crit = .trigCall n ∨ ∃ x ∈ s.fires n, ts ≤ x
  registered : s.last n ≠ none → (s.callback n).isSome = true

theorem firedInv_init (n : Nat) : FiredInv n init := by
  constructor <;> simp [init]

namespace FiredInv

variable {c : Chip} {n : Nat} {s s' : State}

theorem frame (hF : FiredInv n s) (hTs : s'.timestamp n = s.timestamp n)
    (hLast : s'.last n = s.last n) (hFires : s'.fires n = s.fires n)
    (hCall : (s.callback n).isSome = true → (s'.callback n).isSome = true)
    (hC : s.crit = .trigCall n → s'.crit = .trigCall n) : FiredInv n s' where
  fired := by
    intro hMax ts t0 hSet hNe
    rw [hFires]
    exact (hF.fired (hTs ▸ hMax) ts t0 (hLast ▸ hSet) hNe).imp_left hC
  registered := fun h => hCall (hF.registered (hLast ▸ h))

/-- Only the callback takes the timestamp away, at its time or later. -/
theorem step {a : Action} (hF : FiredInv n s) (hE : EarlyInv c n s) (hOk : Registered n s a)
    (h : Rtc.step c s a = some s') : FiredInv n s' := by
  cases step_stmt h with
  | tick => exact hF.frame rfl rfl rfl id id
  | @setCallback m f hC hm =>
    refine hF.frame rfl rfl rfl ?_ id
    by_cases hmn : n = m <;> simp [hmn]
  -- set anew: nothing of it has fired yet, and a callback is there
  | @setAlarm m ts hC hm hReal hTs =>
    by_cases hmn : m = n
    · subst hmn
      refine ⟨?_, fun _ => hOk rfl⟩
      intro hMax ts' t0 hSet hNe
      simp only [setAlarm_timestamp, setAlarm_last, Function.update_self, Option.some.injEq,
        Prod.mk.injEq] at hMax hSet
      exact absurd (hSet.1 ▸ hMax) hNe
    · refine hF.frame ?_ ?_ ?_ id (by simp [hC]) <;> simp [Ne.symm hmn]
  | @trigClear m hC =>
    by_cases hmn : m = n
    · exact ⟨fun _ _ _ _ _ => .inl (by rw [hmn]), hF.registered⟩
    · refine hF.frame ?_ rfl rfl id (by simp [hC])
      simp [Ne.symm hmn]
  -- the callback runs, at or after the timestamp
  | @trigCall m hC =>
    by_cases hmn : m = n
    · subst hmn
      refine ⟨?_, hF.registered⟩
      intro _ ts t0 hSet _
      have hSet : s.last m = some (ts, t0) := hSet
      obtain ⟨ts', t0', hSet', hDue⟩ := hE.trigger (by simp [hC, Crit.triggering])
      rw [hSet] at hSet'
      cases hSet'
      exact .inr ⟨s.tau, by simp [hF.registered (by simp [hSet])], hDue⟩
    · refine hF.frame rfl rfl ?_ id (by simp [hC, hmn])
      dsimp only
      split
      · simp [Ne.symm hmn]
      · rfl
  | _ => exact hF.frame rfl rfl rfl id (by simp_all)

end FiredInv

/--
**On the STM32 no alarm is lost.** Alarm `n`, which has a callback, was last set
to `ts` at tick `t0`. In every run in which it gets no stale event (`Fresh`),
`next_period` never sets it up too late (`ArmInTime`), `set_alarm(n)` never
reads a clock with two boundaries outstanding (`SetInTime`), and its time does
not come while it is parked and an overflow unserviced (`Awake`), in every
quiet state after `ts` and `t0 + 3` its callback has been invoked at `ts` or
later.
-/
theorem stm32_alarm_never_lost {k n ts t0 : Nat} {s : State} (hn : n < alarmCount) (hReal : n < k)
    (hRun : Run (step (.stm32 k))
      (fun s a => LostOk (.stm32 k) n s a ∧ Fresh (.stm32 k) n s a ∧ Registered n s a) init s)
    (hLast : s.last n = some (ts, t0)) (hQ : s.quiet (.stm32 k) = true)
    (hLate : max ts (t0 + 3) < s.tau) : ∃ x ∈ s.fires n, ts ≤ x := by
  obtain ⟨hI, hN, hD, hL⟩ := lostInv_of_run (c := .stm32 k) hn hReal (fun _ _ _ h => h.1) hRun
  have hAll : (ClockInv (.stm32 k) s ∧ NowInv (.stm32 k) s ∧ DataInv s) ∧
      EarlyInv (.stm32 k) n s ∧ FiredInv n s :=
    hRun.invariant (I := fun s => (ClockInv (.stm32 k) s ∧ NowInv (.stm32 k) s ∧ DataInv s) ∧
        EarlyInv (.stm32 k) n s ∧ FiredInv n s)
      ⟨⟨clockInv_init _, nowInv_init _, dataInv_init⟩, earlyInv_init _ n, firedInv_init n⟩
      fun _ _ _ ⟨⟨hI, hN, hD⟩, hE, hF⟩ hOk hs =>
        ⟨⟨hI.step hOk.1.1.1 hs, hN.step hI hs, hD.step hs⟩,
          hE.step hI hN hD hOk.2.1 hs, hF.step hE hOk.2.2 hs⟩
  -- the alarm is no longer set, so it has fired, and not early
  have hGone := hL.not_stored hI hn hQ hLast hLate
  have hFree : s.crit = .free := by
    simp only [State.quiet, Bool.and_eq_true, decide_eq_true_eq] at hQ
    exact hQ.2
  have hMax : ts ≠ u64Max := by
    have := hI.range
    simp only [Chip.half, u32Size, u64Max] at *
    omega
  have hUnset : s.timestamp n = u64Max := by
    by_contra hNe
    obtain ⟨t0', hStored⟩ := hD.stored n hNe
    rw [hLast] at hStored
    cases hStored
    exact hGone rfl
  rcases hAll.2.2.fired hUnset ts t0 hLast hMax with hC | hFired
  · simp [hFree] at hC
  · exact hFired

/-- Alarm 0 is set to 10 and has fired by tick 11. -/
theorem stm32_alarm_not_lost_at_ten : ∃ s,
    Run (step (.stm32 3)) (fun s a => LostOk (.stm32 3) 0 s a ∧ Fresh (.stm32 3) 0 s a ∧
      Registered 0 s a) init s ∧
    s.last 0 = some (10, 0) ∧ s.quiet (.stm32 3) = true ∧ s.tau = 11 ∧
    ∃ x ∈ s.fires 0, 10 ≤ x := by
  obtain ⟨s, hRun, hLast, hQ, hTau⟩ :
      ∃ s, Run (step (.stm32 3)) (fun s a => LostOk (.stm32 3) 0 s a ∧ Fresh (.stm32 3) 0 s a ∧
        Registered 0 s a) init s ∧
        s.last 0 = some (10, 0) ∧ s.quiet (.stm32 3) = true ∧ s.tau = 11 := by
    have hRun : Run (step (.stm32 3)) (fun s a => LostOk (.stm32 3) 0 s a ∧
        Fresh (.stm32 3) 0 s a ∧ Registered 0 s a) init _ :=
      Run.execOk_get _ (.setCallback 0 (1, 1) :: setAlarmNear 0 10 ++ List.replicate 10 .tick ++
        enterAlarms ++ triggerFound ++ leaveAlarms ++ [.tick]) (by decide +kernel)
    exact ⟨_, hRun, by decide +kernel, by decide +kernel, by decide +kernel⟩
  exact ⟨s, hRun, hLast, hQ, hTau,
    stm32_alarm_never_lost (by decide) (by decide) hRun hLast hQ (by rw [hTau]; decide)⟩

/-- Alarm 0 is set to 0x14000 at tick 0 and parked; at the midway point 0x8000 it
is still as far as the window is long. The overflow at 0x10000 requests no
interrupt, so nothing sets the alarm up before its time has passed. -/
theorem stm32_alarm_lost : ∃ s, Run (step (.stm32 3)) (HwOk (.stm32 3)) init s ∧
    s.last 0 = some (0x14000, 0) ∧ (s.callback 0).isSome = true ∧
    s.quiet (.stm32 3) = true ∧ s.tau = 0x14001 ∧ s.fires 0 = [] := by
  have hWait : ∀ (s : State) (y : Nat), Undisturbed (.stm32 3) s y → s.handler = .idle →
      s.crit = .free → y < 0x20000 → Run (step (.stm32 3)) (HwOk (.stm32 3)) s (s.atTick y) :=
    fun s y h hH hC hy => run_wait h fun x _ hx hDiv =>
      hwOk_tick hH hC hDiv (by simp only [State.atTick_tau, u32Size, Chip.half]; omega)
  have h1 : Run (step (.stm32 3)) (HwOk (.stm32 3)) init _ :=
    Run.execOk_get _ (.setCallback 0 (1, 1) :: setAlarmFar 0 0x14000 ++ [.tick])
      (by decide +kernel)
  have h2 := h1.trans (hWait _ 0x7fff (by decide +kernel) (by decide +kernel) (by decide +kernel)
    (by omega))
  have h3 := h2.trans (Run.execOk_get _ (.tick :: serviceMid ++ [.tick]) (by decide +kernel))
  have h4 := h3.trans (hWait _ 0xffff (by decide +kernel) (by decide +kernel) (by decide +kernel)
    (by omega))
  have h5 := h4.trans (Run.execOk_get _ [.tick] (by decide +kernel))
  have h6 := h5.trans (hWait _ 0x14001 (by decide +kernel) (by decide +kernel) (by decide +kernel)
    (by omega))
  exact ⟨_, h6, by decide +kernel, by decide +kernel, by decide +kernel, by decide +kernel,
    by decide +kernel⟩

end Embassy.Rtc
