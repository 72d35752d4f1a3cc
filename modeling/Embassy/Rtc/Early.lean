import Embassy.Rtc.Clock

/-!
# RTC alarms are never early

The contract of `Alarm::set`: when the callback is called, `now()` is at or
past the timestamp. `on_interrupt` calls `trigger_alarm(n)` whenever the
compare event of alarm `n` is latched, so the contract depends on what an event
means. An event is *live* if the compare register that latched it was set up
for the alarm's present timestamp; nothing in the code tells a live event from
a stale one, and nothing but `on_interrupt` clears one. Two kinds of stale
events are possible:

* `set_alarm(n)` finds an event of the earlier alarm latched, or already taken
  by `on_interrupt`, and replaces the timestamp under it;
* the counter comes to the compare register's old value while the channel is
  disabled (the alarm is cleared, far ahead or done), or is being set.

`Fresh n` says of a step that it makes no stale event of alarm `n`.

Main results:

* `nrf_alarm_never_early` / `stm32_alarm_never_early` — in every run of such
  steps the contract holds at every callback.
* `nrf_alarm_early`, `nrf_alarm_after_clear`, `stm32_alarm_early` — runs with a
  stale event in which it fails.
-/

namespace Embassy.Rtc

open Embassy.Lib

-- ---------------------------------------------------------------------------
-- Live and stale compare events
-- ---------------------------------------------------------------------------

namespace Crit

/-- The alarm a critical section is at. -/
def alarm : Crit → Option Nat
  | nowPeriod n _ | nowCounter n _ _ | writeCc n _ _ | enable n | disable n
  | armEnable _ n | trigDisable n | trigClear n | trigCall n => some n
  | free | fetchAdd _ | arm _ _ => none

/-- `set_alarm(n)` runs and has not yet set up or disabled the channel. -/
def setting (n : Nat) : Crit → Bool
  | nowPeriod m _ | nowCounter m _ _ | writeCc m _ _ | disable m => m == n
  | _ => false

/-- Compare register `n` is set up and its interrupt is about to be enabled. -/
def enabling (n : Nat) : Crit → Bool
  | enable m | armEnable _ m => m == n
  | _ => false

/-- `trigger_alarm(n)` runs. -/
def triggering (n : Nat) : Crit → Bool
  | trigDisable m | trigClear m | trigCall m => m == n
  | _ => false

/-- The timestamp that a running `set_alarm(n)` has to compare with the time. -/
def target (n : Nat) : Crit → Option Nat
  | nowPeriod m ts | nowCounter m ts _ | writeCc m ts _ => if m = n then some ts else none
  | _ => none

section Foreign

variable {k : Crit} {n : Nat}

/-- A section that is at another alarm does not set this one. -/
theorem setting_of_alarm_ne (h : k.alarm ≠ some n) : k.setting n = false := by
  cases k <;> simp_all [alarm, setting]

theorem enabling_of_alarm_ne (h : k.alarm ≠ some n) : k.enabling n = false := by
  cases k <;> simp_all [alarm, enabling]

theorem triggering_of_alarm_ne (h : k.alarm ≠ some n) : k.triggering n = false := by
  cases k <;> simp_all [alarm, triggering]

end Foreign

end Crit

/-- `on_interrupt` has read the event of alarm `n` and not yet triggered it. -/
def Handler.taken (n : Nat) : Handler → Bool
  | .clear m | .trigger m => m == n
  | _ => false

/-- Compare register `n` is set up for the alarm's present timestamp. -/
def State.live (s : State) (n : Nat) : Bool :=
  s.crit.enabling n || (s.inten n && !s.crit.setting n)

/-- The last timestamp set for alarm `n` is at most `x`. -/
def State.DueBy (s : State) (n x : Nat) : Prop := ∃ ts t0, s.last n = some (ts, t0) ∧ ts ≤ x

instance (s : State) (n x : Nat) : Decidable (s.DueBy n x) :=
  match h : s.last n with
  | some (ts, t0) => decidable_of_iff (ts ≤ x) (by simp [State.DueBy, h])
  | none => isFalse (by simp [State.DueBy, h])

/-- A step makes no stale event of alarm `n`: `set_alarm(n)` for a time ahead
meets no event of the earlier alarm, and before the alarm's time the counter
meets compare register `n` only while that is set up for it. -/
def Fresh (c : Chip) (n : Nat) (s : State) : Action → Prop
  | .setAlarm m ts => m = n → s.ev n = true ∨ s.handler.taken n = true → ts ≤ s.tau
  | .tick => compares c s n = true → s.live n = true ∨ s.DueBy n (s.tau + 1)
  | _ => True

/-- The clock does not go back under a running `trigger_alarm(n)`: the midway
point does not come then with the overflow unserviced. -/
def NoBackstep (c : Chip) (n : Nat) (s : State) : Action → Prop
  | .tick => (s.tau + 1) % c.cycle = c.half → s.ovfPending = true → s.crit.triggering n = false
  | _ => True

instance (c : Chip) (n : Nat) (s : State) : (a : Action) → Decidable (Fresh c n s a)
  | .setAlarm _ _ => inferInstanceAs (Decidable (_ → _))
  | .tick => inferInstanceAs (Decidable (_ → _))
  | .interrupt | .handler | .crit | .setCallback _ _ | .nowLoad | .nowRead _ => isTrue trivial

instance (c : Chip) (n : Nat) (s : State) : (a : Action) → Decidable (NoBackstep c n s a)
  | .tick => inferInstanceAs (Decidable (_ → _))
  | .interrupt | .handler | .crit | .setAlarm _ _ | .setCallback _ _ | .nowLoad | .nowRead _ =>
    isTrue trivial

-- ---------------------------------------------------------------------------
-- Driver data
-- ---------------------------------------------------------------------------

/-- What holds of the driver's variables in every run. `next_period` goes
through the alarms of the period it has just begun; a timestamp that is stored
is the one last set. -/
structure DataInv (s : State) : Prop where
  armPeriod : ∀ p n, s.crit = .arm p n ∨ s.crit = .armEnable p n → p = s.period
  bound : ∀ n, s.timestamp n < u64Size
  stored : ∀ n, s.timestamp n ≠ u64Max → ∃ t0, s.last n = some (s.timestamp n, t0)
  target : ∀ n ts, s.crit.target n = some ts →
    ts = s.timestamp n ∧ ∃ t0, s.last n = some (ts, t0)
  called : ∀ n, s.crit = .trigCall n → s.timestamp n = u64Max

theorem dataInv_init : DataInv init := by
  constructor <;> simp [init, u64Max, u64Size, Crit.target]

namespace DataInv

variable {s s' : State}

/-- No statement but the first of `set_alarm` and that of `trigger_alarm` writes
a timestamp. -/
theorem frame (hD : DataInv s) (hTs : s'.timestamp = s.timestamp) (hLast : s'.last = s.last)
    (hArm : ∀ p n, s'.crit = .arm p n ∨ s'.crit = .armEnable p n → p = s'.period)
    (hTarget : ∀ n ts, s'.crit.target n = some ts → s.crit.target n = some ts)
    (hCall : ∀ n, s'.crit = .trigCall n → s.crit = .trigCall n) : DataInv s' where
  armPeriod := hArm
  bound := by simpa [hTs] using hD.bound
  stored := by simpa [hTs, hLast] using hD.stored
  target := by
    intro n ts h
    rw [hTs, hLast]
    exact hD.target n ts (hTarget n ts h)
  called := by
    intro n h
    rw [hTs]
    exact hD.called n (hCall n h)

/-- The first statement of `set_alarm` stores the timestamp. -/
theorem setAlarm (hD : DataInv s) {n ts : Nat} (hTs : ts < u64Size) :
    DataInv (setAlarm s n ts) where
  armPeriod := by simp
  bound := by
    intro m
    by_cases hm : m = n
    · simpa [hm] using hTs
    · simpa [hm] using hD.bound m
  stored := by
    intro m
    by_cases hm : m = n
    · simp [hm]
    · simpa [hm] using hD.stored m
  target := by
    intro m ts' h
    simp only [setAlarm_crit, Crit.target, Option.ite_none_right_eq_some, Option.some.injEq] at h
    obtain ⟨rfl, rfl⟩ := h
    simp
  called := by simp

/-- `trigger_alarm` takes the timestamp away before it calls. -/
theorem trigClear (hD : DataInv s) {n : Nat}
    (hTs : s'.timestamp = Function.update s.timestamp n u64Max) (hLast : s'.last = s.last)
    (hC' : s'.crit = .trigCall n) : DataInv s' where
  armPeriod := by simp [hC']
  bound := by
    intro m
    by_cases hm : m = n
    · simp [hTs, hm, u64Max, u64Size]
    · simpa [hTs, hm] using hD.bound m
  stored := by
    intro m
    by_cases hm : m = n
    · simp [hTs, hm]
    · simpa [hTs, hLast, hm] using hD.stored m
  target := by simp [hC', Crit.target]
  called := by
    intro m h
    rw [hC'] at h
    cases h
    simp [hTs]

/-- Every statement keeps what holds of the driver's variables. -/
theorem step {c : Chip} {a : Action} (hD : DataInv s) (h : step c s a = some s') :
    DataInv s' := by
  have hArm := hD.armPeriod
  cases step_stmt h with
  | tick => exact hD.frame rfl rfl hArm (fun _ _ => id) (fun _ => id)
  | setAlarm hC hn hReal hTs => exact hD.setAlarm hTs
  | trigClear hC => exact hD.trigClear rfl rfl rfl
  | _ => refine hD.frame rfl rfl ?_ ?_ ?_ <;> simp_all [Crit.target]

end DataInv

/-- `next_period` writes the compare register of an alarm in the window after
the period start. The subtraction that decides this wraps; a timestamp before
the period start is then far outside the window. -/
theorem ClockInv.window_of_diff {c : Chip} {s : State} (hI : ClockInv c s) (hD : DataInv s)
    {p n : Nat} (hC : s.crit = .arm p n)
    (hDiff : (s.timestamp n + u64Size - p <<< c.periodBits) % u64Size < c.window) :
    p * c.half ≤ s.timestamp n ∧ s.timestamp n < p * c.half + c.window ∧ p * c.half ≤ s.tau := by
  have hp : p ≤ s.tau / c.half := by
    have := hD.armPeriod p n (.inl hC)
    have := hI.count
    omega
  have hle : p * c.half ≤ s.tau :=
    (Nat.mul_le_mul_right _ hp).trans (Nat.div_mul_le_self _ _)
  have hR := hI.range
  have hB := hD.bound n
  rw [c.shiftLeft_periodBits] at hDiff
  generalize p * c.half = t at *
  cases c <;> simp only [Chip.window, Chip.half, u32Size, u64Size] at * <;> omega

-- ---------------------------------------------------------------------------
-- The invariant
-- ---------------------------------------------------------------------------

/-- Every event of alarm `n` is due, and every event its live compare register
will latch is. -/
structure EarlyInv (c : Chip) (n : Nat) (s : State) : Prop where
  write : ∀ ts t, s.crit = .writeCc n ts t → t ≤ s.tau ∧ t < ts ∧ ts - t < c.window
  due : s.ev n = true ∨ s.handler.taken n = true → s.DueBy n s.tau
  trigger : s.crit.triggering n = true → s.DueBy n s.tau
  aimed : s.live n = true → ∀ x, s.tau < x → x % c.cycle = s.cc n → s.DueBy n x

/-- The assumptions under which an alarm is never early. -/
def EarlyOk (c : Chip) (n : Nat) (s : State) (a : Action) : Prop :=
  ClockOk c s a ∧ Fresh c n s a ∧ NoBackstep c n s a

instance (c : Chip) (n : Nat) (s : State) (a : Action) : Decidable (EarlyOk c n s a) :=
  inferInstanceAs (Decidable (_ ∧ _ ∧ _))

theorem State.DueBy.mono {s : State} {n x y : Nat} (h : s.DueBy n x) (hle : x ≤ y) :
    s.DueBy n y := by
  obtain ⟨ts, t0, hLast, hTs⟩ := h
  exact ⟨ts, t0, hLast, hTs.trans hle⟩

/-- Whether an alarm is due is about the timestamp last set. -/
theorem State.DueBy.congr {s s' : State} {n x : Nat} (h : s.DueBy n x)
    (hLast : s'.last n = s.last n) : s'.DueBy n x := by
  simpa [State.DueBy, hLast] using h

theorem earlyInv_init (c : Chip) (n : Nat) : EarlyInv c n init := by
  constructor <;>
    simp [init, Crit.triggering, Handler.taken, State.live, Crit.enabling]

namespace ClockInv

variable {c : Chip} {s : State}

/-- `now()` never runs ahead. -/
theorem now_le (hI : ClockInv c s) : s.now c ≤ s.tau :=
  calcNow_le c (by have := hI.count; omega)

/-- With at most one boundary outstanding `now()` is exact. -/
theorem now_eq (hI : ClockInv c s) (hU : s.unserviced ≤ 1) : s.now c = s.tau :=
  (calcNow_eq_iff c hI.count.symm).mpr hU

/-- Once `on_interrupt` is past the boundaries, at most one is outstanding:
it does not run long enough to meet two. -/
theorem unserviced_of_past (hI : ClockInv c s) (hPast : s.handler.pastOvf = true)
    (hH : s.handler ≠ .periodOvf) (hC : s.crit = .free) : s.unserviced ≤ 1 := by
  simp only [State.unserviced]
  cases hM : s.midPending with
  | false => cases s.ovfPending <;> simp
  | true =>
    have hOvf : s.ovfPending = false := by
      refine State.ovfPending_eq_false.mpr ⟨?_, hH, by simp [hC]⟩
      by_contra hOvf
      have := hI.even_of_missed hPast (Bool.not_eq_false _ ▸ hOvf)
      have := hI.midOdd hM
      omega
    simp [hOvf]

/-- `now()` goes back only when the midway point comes with the overflow still
unserviced. -/
theorem now_le_tick (hI : ClockInv c s) (hT : Timely c s .tick) (hR : InRange c s .tick)
    (hBack : (s.tau + 1) % c.cycle = c.half → s.ovfPending = false) :
    s.now c ≤ (Rtc.tick c s).now c := by
  have hI' := hI.tick hT hR
  have hle := hI.now_le
  have hExact : s.unserviced = 0 → (s.tau + 1) / c.half = s.tau / c.half + 1 →
      s.now c ≤ (Rtc.tick c s).now c := by
    intro hU hDiv
    have hCount := hI.count
    have hCount' := hI'.count
    rw [tick_period, tick_tau] at hCount'
    rw [hI'.now_eq (by omega), tick_tau]
    omega
  rcases c.tick_cases s.tau with ⟨hB, hDiv, hPar, -⟩ | ⟨hB, hDiv, hPar, -⟩ | ⟨-, -, hDiv⟩
  · have hMid := hT.1 hB
    have hOvf := hI.not_ovfPending_of_odd hMid hPar
    exact hExact (by simp [State.unserviced, hMid, hOvf]) hDiv
  · have hMid : s.midPending = false := by
      by_contra hMid
      have := hI.midOdd (Bool.not_eq_false _ ▸ hMid)
      omega
    exact hExact (by simp [State.unserviced, hMid, hBack hB]) hDiv
  · have hNow := calcNow_eq c hI.count.symm
    have hNow' := calcNow_eq c (p := s.period) (k := s.unserviced) (hDiv.trans hI.count.symm)
    simp only [State.now, State.counter, tick_period, tick_tau, hNow, hNow']
    have := Nat.div_add_mod s.tau c.half
    have := Nat.div_add_mod (s.tau + 1) c.half
    rw [hDiv] at this
    omega

end ClockInv

namespace EarlyInv

variable {c : Chip} {n : Nat} {s s' : State}

/-- A statement about something else than alarm `n`. -/
theorem frame (hE : EarlyInv c n s) (hTau : s'.tau = s.tau) (hLast : s'.last n = s.last n)
    (hInten : s'.inten n = s.inten n) (hCc : s'.cc n = s.cc n)
    (hEv : s'.ev n = true ∨ s'.handler.taken n = true → s.ev n = true ∨ s.handler.taken n = true)
    (hC : s.crit.alarm ≠ some n) (hC' : s'.crit.alarm ≠ some n) : EarlyInv c n s' where
  write := by
    intro ts t hW
    simp [hW, Crit.alarm] at hC'
  due := by
    intro h
    rw [hTau]
    exact (hE.due (hEv h)).congr hLast
  trigger := by simp [Crit.triggering_of_alarm_ne hC']
  aimed := by
    intro hLive x hx hMod
    have hLive' : s.live n = true := by
      simpa [State.live, Crit.setting_of_alarm_ne, Crit.enabling_of_alarm_ne, hC, hC', hInten]
        using hLive
    exact (hE.aimed hLive' x (hTau ▸ hx) (hCc ▸ hMod)).congr hLast

/-- A tick latches the event of a live register only when it is due. -/
theorem tick (hE : EarlyInv c n s) (hFresh : Fresh c n s .tick) :
    EarlyInv c n (Rtc.tick c s) where
  write := fun ts t hW =>
    ⟨Nat.le_succ_of_le (hE.write ts t hW).1, (hE.write ts t hW).2⟩
  due := by
    intro h
    by_cases hOld : s.ev n = true ∨ s.handler.taken n = true
    · exact (hE.due hOld).mono (Nat.le_succ _)
    · -- latched by this tick: a live register is aimed at no earlier one
      have hCmp : compares c s n = true := by simp_all
      have hMod : (s.tau + 1) % c.cycle = s.cc n := by
        simp only [compares, Bool.and_eq_true, decide_eq_true_eq] at hCmp
        exact hCmp.1.2
      rcases hFresh hCmp with hLive | hDue
      · exact hE.aimed hLive (s.tau + 1) (Nat.lt_succ_self _) hMod
      · exact hDue
  trigger := fun hTrig => (hE.trigger hTrig).mono (Nat.le_succ _)
  aimed := fun hLive x hx hMod => hE.aimed hLive x (Nat.lt_of_succ_lt hx) hMod

/-- A compare value less than a cycle ahead is met no earlier than meant. -/
theorem aimed_of_truncate {a ts t0 : Nat} (hLast : s'.last n = some (ts, t0)) (hTs : ts ≤ a)
    (ha : a ≤ s'.tau + c.cycle) (hCc : s'.cc n = c.truncate a) :
    ∀ x, s'.tau < x → x % c.cycle = s'.cc n → s'.DueBy n x := by
  intro x hx hMod
  rw [hCc, c.truncate_eq] at hMod
  exact ⟨ts, t0, hLast, hTs.trans (le_of_mod_eq hx ha hMod)⟩

/-- `next_period` sets up the compare register of alarm `n`. -/
theorem arm_write (hE : EarlyInv c n s) (hI : ClockInv c s) (hD : DataInv s) {p : Nat}
    (hC : s.crit = .arm p n)
    (hDiff : (s.timestamp n + u64Size - p <<< c.periodBits) % u64Size < c.window)
    (hLast : s'.last = s.last) (hEv : s'.ev = s.ev)
    (hH : s'.handler = s.handler) (hTau : s'.tau = s.tau)
    (hCc : s'.cc n = c.truncate (s.timestamp n)) (hC' : s'.crit = .armEnable p n) :
    EarlyInv c n s' := by
  obtain ⟨-, hHi, hle⟩ := hI.window_of_diff hD hC hDiff
  -- A timestamp in the window is one that was set.
  have hMax : s.timestamp n ≠ u64Max := by
    have := hI.range
    cases c <;> simp only [Chip.window, Chip.half, u32Size, u64Max] at * <;> omega
  obtain ⟨t0, hSet⟩ := hD.stored n hMax
  exact
    { write := by simp [hC']
      due := by
        intro h
        rw [hTau]
        exact (hE.due (by simpa [hEv, hH] using h)).congr (by rw [hLast])
      trigger := by simp [hC', Crit.triggering]
      aimed := fun _ => aimed_of_truncate (by rw [hLast]; exact hSet) (Nat.le_refl _)
        (by rw [hTau]; cases c <;> simp only [Chip.window, Chip.cycle] at * <;> omega) hCc }

/-- `set_alarm` sets up the compare register of alarm `n`. -/
theorem writeCc (hE : EarlyInv c n s) (hD : DataInv s) {ts t : Nat}
    (hC : s.crit = .writeCc n ts t) : EarlyInv c n (writeCompare c s n ts t) := by
  obtain ⟨hle, hlt, hW⟩ := hE.write ts t hC
  obtain ⟨-, t0, hSet⟩ := hD.target n ts (by simp [hC, Crit.target])
  -- The margin of three ticks does not move the value out of the cycle ahead.
  have hMax : max ts ((t + 3) % u64Size) ≤ s.tau + c.cycle := by
    have := Nat.mod_le (t + 3) u64Size
    cases c <;> simp only [Chip.window, Chip.cycle] at * <;> omega
  exact
    { write := by simp
      due := hE.due
      trigger := by simp [Crit.triggering]
      aimed := fun _ => aimed_of_truncate hSet (Nat.le_max_left _ _) hMax (by simp) }

/-- The comparison with `now()` in `set_alarm`. -/
theorem nowCounter (hE : EarlyInv c n s) (hI : ClockInv c s) (hD : DataInv s) {ts : Nat}
    {call : NowCall} (hC : s.crit = .nowCounter n ts call)
    (hLast : s'.last = s.last) (hEv : s'.ev = s.ev) (hH : s'.handler = s.handler)
    (hTau : s'.tau = s.tau)
    (hC' : (ts ≤ s.now c ∧ s'.crit = .trigDisable n) ∨
      (s.now c < ts ∧ ts - s.now c < c.window ∧ s'.crit = .writeCc n ts (s.now c)) ∨
      s'.crit = .disable n) : EarlyInv c n s' := by
  obtain ⟨-, t0, hSet⟩ := hD.target n ts (by simp [hC, Crit.target])
  have hDue : s'.ev n = true ∨ s'.handler.taken n = true → s'.DueBy n s'.tau := by
    intro h
    rw [hTau]
    exact (hE.due (by simpa [hEv, hH] using h)).congr (by rw [hLast])
  rcases hC' with ⟨hle, hC'⟩ | ⟨hlt, hW, hC'⟩ | hC'
  · have hTrig : s'.DueBy n s'.tau :=
      ⟨ts, t0, by rw [hLast]; exact hSet, by rw [hTau]; exact hle.trans hI.now_le⟩
    exact
      { write := by simp [hC']
        due := hDue
        trigger := fun _ => hTrig
        aimed := by
          -- an old compare value may still be enabled; the alarm is due already
          intro _ x hx _
          exact hTrig.mono (Nat.le_of_lt hx) }
  · exact
      { write := by
          intro ts' t h
          rw [hC'] at h
          cases h
          exact ⟨by rw [hTau]; exact hI.now_le, hlt, hW⟩
        due := hDue
        trigger := by simp [hC', Crit.triggering]
        aimed := by simp [State.live, hC', Crit.enabling, Crit.setting] }
  · exact
      { write := by simp [hC']
        due := hDue
        trigger := by simp [hC', Crit.triggering]
        aimed := by simp [State.live, hC', Crit.enabling, Crit.setting] }

/-- `trigger_alarm(n)`, or the end of setting up the channel: what is left to
show is about the events and, if the channel stays live, its register. -/
theorem settle (hE : EarlyInv c n s) (hC : s.crit.setting n = true → s'.inten n = false)
    (hTau : s'.tau = s.tau) (hLast : s'.last n = s.last n) (hCc : s'.cc n = s.cc n)
    (hEv : s'.ev n = s.ev n) (hH : s'.handler = s.handler)
    (hWrite : ∀ ts t, s'.crit ≠ .writeCc n ts t)
    (hTrig : s'.crit.triggering n = true → s.crit.triggering n = true)
    (hEn : s'.crit.enabling n = false)
    (hInten : s'.inten n = true → s.inten n = true ∨ s.crit.enabling n = true) :
    EarlyInv c n s' where
  write := fun ts t hW => absurd hW (hWrite ts t)
  due := by
    intro h
    rw [hTau]
    exact (hE.due (by simpa [hEv, hH] using h)).congr hLast
  trigger := by
    intro h
    rw [hTau]
    exact (hE.trigger (hTrig h)).congr hLast
  aimed := by
    intro hLive x hx hMod
    have hOn : s'.inten n = true := by
      simp only [State.live, hEn, Bool.false_or, Bool.and_eq_true] at hLive
      exact hLive.1
    have hLive' : s.live n = true := by
      rcases hInten hOn with h | h
      · have : s.crit.setting n = false := by
          by_contra hS
          exact absurd hOn (by simp [hC (Bool.not_eq_false _ ▸ hS)])
        simp [State.live, h, this]
      · simp [State.live, h]
    exact (hE.aimed hLive' x (hTau ▸ hx) (hCc ▸ hMod)).congr hLast

/-- Every step that makes no stale event keeps the invariant. -/
theorem step {a : Action} (hE : EarlyInv c n s) (hI : ClockInv c s) (hN : NowInv c s)
    (hD : DataInv s) (hFresh : Fresh c n s a) (h : step c s a = some s') : EarlyInv c n s' := by
  cases step_stmt h with
  | tick => exact hE.tick hFresh
  -- the parts of the handler before its alarm loop touch neither the alarm nor its event
  | enter hC hH hR | checkOvf_hit hC hH | checkOvf_miss hC hH | clearOvf hC hH | periodOvf hC hH
  | checkMid_hit hC hH | checkMid_miss hC hH | clearMid hC hH | periodMid hC hH
  | check_miss hC hH | check_done hC hH =>
    refine hE.frame rfl rfl rfl rfl ?_ ?_ ?_ <;>
      simp +contextual [hC, Crit.alarm, Handler.taken]
  -- an event that is about to be cleared was latched when it was read
  | @check_hit m hC hH hn hEv =>
    refine hE.frame rfl rfl rfl rfl ?_ (by simp [hC, Crit.alarm]) (by simp [hC, Crit.alarm])
    rintro (h | h)
    · exact .inl h
    · simp only [Handler.taken, beq_iff_eq] at h
      exact .inl (h ▸ hEv)
  -- clearing the event moves the firing from the event to the handler
  | @clear m hC hH =>
    refine hE.frame rfl rfl rfl rfl ?_ (by simp [hC, Crit.alarm]) (by simp [hC, Crit.alarm])
    rintro (h | h)
    · by_cases hm : n = m
      · simp [hm] at h
      · exact .inl (by simpa [hm] using h)
    · exact .inr (by simpa [hH, Handler.taken] using h)
  | @trigger m hC hH =>
    by_cases hm : m = n
    · subst hm
      -- what the event meant is what the trigger now relies on
      have hDue := hE.due (.inr (by simp [hH, Handler.taken]))
      exact
        { write := by simp
          due := fun _ => hDue
          trigger := fun _ => hDue
          aimed := by
            intro hLive
            exact hE.aimed (by simpa [State.live, hC, Crit.enabling, Crit.setting] using hLive) }
    · refine hE.frame rfl rfl rfl rfl ?_ (by simp [hC, Crit.alarm]) (by simp [Crit.alarm, hm])
      simp +contextual [Handler.taken]
  | fetchAdd hC | arm_skip hC | arm_done hC =>
    refine hE.frame rfl rfl rfl rfl ?_ ?_ ?_ <;> simp [hC, Crit.alarm]
  | @arm_write p m hC hn hDiff =>
    by_cases hm : m = n
    · subst hm
      -- `next_period` writes the true low bits of a timestamp of this period
      exact hE.arm_write hI hD hC hDiff rfl rfl rfl rfl (by simp) rfl
    · refine hE.frame rfl rfl rfl ?_ id (by simp [hC, Crit.alarm]) (by simp [Crit.alarm, hm])
      simp [Ne.symm hm]
  | @armEnable p m hC =>
    by_cases hm : m = n
    · subst hm
      refine hE.settle ?_ rfl rfl rfl rfl rfl ?_ ?_ rfl ?_ <;>
        simp [hC, Crit.setting, Crit.triggering, Crit.enabling]
    · refine hE.frame rfl rfl ?_ rfl id (by simp [hC, Crit.alarm, hm]) (by simp [Crit.alarm])
      simp [Ne.symm hm]
  -- the two reads of `now` inside `set_alarm`: nothing is armed before its branch is chosen
  | @nowPeriod m ts hC =>
    by_cases hm : m = n
    · subst hm
      exact
        { write := by simp
          due := hE.due
          trigger := by simp [Crit.triggering]
          aimed := by simp [State.live, Crit.enabling, Crit.setting] }
    · exact hE.frame rfl rfl rfl rfl id (by simp [hC, Crit.alarm, hm])
        (by simp [Crit.alarm, hm])
  | @nowCounter_due m ts call hC hT =>
    have hNow : (readCounter c s call).value = s.now c := by
      simp [readCounter, State.now, (hN.inSection _ _ _ hC).2]
    by_cases hm : m = n
    · subst hm
      -- already due: the trigger is called on the spot
      exact hE.nowCounter hI hD hC rfl rfl rfl rfl (.inl ⟨hNow ▸ hT, rfl⟩)
    · exact hE.frame rfl rfl rfl rfl id (by simp [hC, Crit.alarm, hm])
        (by simp [Crit.alarm, hm])
  | @nowCounter_near m ts call hC hT hW =>
    have hNow : (readCounter c s call).value = s.now c := by
      simp [readCounter, State.now, (hN.inSection _ _ _ hC).2]
    by_cases hm : m = n
    · subst hm
      exact hE.nowCounter hI hD hC rfl rfl rfl rfl
        -- within the period: the compare register gets the timestamp
        (.inr (.inl ⟨hNow ▸ hT, hNow ▸ hW, by simp [hNow]⟩))
    · exact hE.frame rfl rfl rfl rfl id (by simp [hC, Crit.alarm, hm])
        (by simp [Crit.alarm, hm])
  | @nowCounter_far m ts call hC hT hW =>
    by_cases hm : m = n
    · subst hm
      exact hE.nowCounter hI hD hC rfl rfl rfl rfl (.inr (.inr rfl))
    · exact hE.frame rfl rfl rfl rfl id (by simp [hC, Crit.alarm, hm])
        (by simp [Crit.alarm, hm])
  | @writeCc m ts t hC =>
    by_cases hm : m = n
    · subst hm
      exact hE.writeCc hD hC
    · refine hE.frame rfl rfl rfl ?_ id (by simp [hC, Crit.alarm, hm])
        (by simp [Crit.alarm, hm])
      simp [Ne.symm hm]
  -- from here on: the steps that settle the alarm, each for `n` itself and for another alarm
  | @enable m hC =>
    by_cases hm : m = n
    · subst hm
      refine hE.settle ?_ rfl rfl rfl rfl rfl ?_ ?_ rfl ?_ <;>
        simp [hC, Crit.setting, Crit.triggering, Crit.enabling]
    · refine hE.frame rfl rfl ?_ rfl id (by simp [hC, Crit.alarm, hm]) (by simp [Crit.alarm])
      simp [Ne.symm hm]
  | @disable m hC =>
    by_cases hm : m = n
    · subst hm
      refine hE.settle ?_ rfl rfl rfl rfl rfl ?_ ?_ rfl ?_ <;>
        simp [Crit.triggering]
    · refine hE.frame rfl rfl ?_ rfl id (by simp [hC, Crit.alarm, hm]) (by simp [Crit.alarm])
      simp [Ne.symm hm]
  | @trigDisable m hC =>
    by_cases hm : m = n
    · subst hm
      refine hE.settle ?_ rfl rfl rfl rfl rfl ?_ ?_ rfl ?_ <;>
        simp [hC, Crit.triggering]
    · refine hE.frame rfl rfl ?_ rfl id (by simp [hC, Crit.alarm, hm])
        (by simp [Crit.alarm, hm])
      simp [Ne.symm hm]
  | @trigClear m hC =>
    by_cases hm : m = n
    · subst hm
      refine hE.settle ?_ rfl rfl rfl rfl rfl ?_ ?_ rfl ?_ <;>
        simp +contextual [hC, Crit.triggering, Crit.setting]
    · exact hE.frame rfl rfl rfl rfl id (by simp [hC, Crit.alarm, hm])
        (by simp [Crit.alarm, hm])
  | @trigCall m hC =>
    by_cases hm : m = n
    · subst hm
      refine hE.settle ?_ rfl rfl rfl rfl rfl ?_ ?_ rfl ?_ <;>
        simp +contextual [hC, Crit.triggering, Crit.setting]
    · exact hE.frame rfl rfl rfl rfl id (by simp [hC, Crit.alarm, hm]) (by simp [Crit.alarm])
  | @setAlarm m ts hC hn hReal hTs =>
    by_cases hm : m = n
    · subst hm
      exact
        { write := by simp
          -- the freshness hypothesis: no stale event is pending when the alarm is set anew
          due := fun hEv => ⟨ts, s.tau, by simp, hFresh rfl hEv⟩
          trigger := by simp [Crit.triggering]
          aimed := by simp [State.live, Crit.enabling, Crit.setting] }
    · refine hE.frame rfl ?_ rfl rfl id (by simp [hC, Crit.alarm]) (by simp [Crit.alarm, hm])
      simp [Ne.symm hm]
  | setCallback hC | nowLoad hC | nowRead hC =>
    exact hE.frame rfl rfl rfl rfl id (by simp [hC, Crit.alarm]) (by simp [hC, Crit.alarm])

end EarlyInv

-- ---------------------------------------------------------------------------
-- The two drivers
-- ---------------------------------------------------------------------------

/-- A running `trigger_alarm(n)` is not before the timestamp, by the clock the
program reads. -/
def State.OnTime (c : Chip) (n : Nat) (s : State) : Prop :=
  s.crit.triggering n = true → s.DueBy n (s.now c)

/-- A trigger begins when the alarm is due by the clock the program reads, and that clock does not
step back before the callback. -/
theorem State.OnTime.step {c : Chip} {n : Nat} {s s' : State} {a : Action} (hO : s.OnTime c n)
    (hI : ClockInv c s) (hN : NowInv c s) (hD : DataInv s) (hE : EarlyInv c n s)
    (hOk : ClockOk c s a) (hBack : NoBackstep c n s a) (h : Rtc.step c s a = some s') :
    s'.OnTime c n := by
  intro hTrig'
  cases step_stmt h with
  | tick =>
    refine (hO hTrig').mono (hI.now_le_tick hOk.1 hOk.2 ?_)
    -- The clock steps back only over a boundary with the overflow unserviced.
    intro hB
    by_contra hOvf
    exact absurd hTrig' (by simp [hBack hB (Bool.not_eq_false _ ▸ hOvf)])
  | @trigger m hC hH =>
    have hm : m = n := by simpa [Crit.triggering] using hTrig'
    -- The handler has serviced the boundaries before it looks at the alarms.
    have hU := hI.unserviced_of_past (by simp [hH, Handler.pastOvf]) (by simp [hH]) hC
    have hDue := hE.due (.inr (by simp [hH, Handler.taken, hm]))
    rw [← hI.now_eq hU] at hDue
    exact hDue
  | @nowCounter_due m ts call hC hT =>
    have hm : m = n := by simpa [Crit.triggering] using hTrig'
    obtain ⟨-, t0, hSet⟩ := hD.target n ts (by simp [hC, Crit.target, hm])
    refine ⟨ts, t0, hSet, ?_⟩
    simpa [readCounter, State.now, State.counter, (hN.inSection _ _ _ hC).2] using hT
  | trigDisable hC | trigClear hC =>
    exact hO (by simpa [hC, Crit.triggering] using hTrig')
  | enter hC | checkOvf_hit hC | checkOvf_miss hC | clearOvf hC | checkMid_hit hC
  | checkMid_miss hC | clearMid hC | check_hit hC | check_miss hC | check_done hC | clear hC
  | setCallback hC | nowLoad hC | nowRead hC => simp [hC, Crit.triggering] at hTrig'
  | _ => simp [Crit.triggering] at hTrig'

/-- All of the invariants together hold in every such run. -/
theorem earlyInv_of_run {c : Chip} {n : Nat} {s : State}
    (hRun : Run (step c) (EarlyOk c n) init s) :
    ClockInv c s ∧ NowInv c s ∧ DataInv s ∧ EarlyInv c n s ∧ s.OnTime c n :=
  hRun.invariant
    (I := fun s => ClockInv c s ∧ NowInv c s ∧ DataInv s ∧ EarlyInv c n s ∧ s.OnTime c n)
    ⟨clockInv_init c, nowInv_init c, dataInv_init, earlyInv_init c n,
      by simp [State.OnTime, init, Crit.triggering]⟩
    fun _ _ _ ⟨hI, hN, hD, hE, hO⟩ hOk hs =>
      ⟨hI.step hOk.1 hs, hN.step hI hs, hD.step hs, hE.step hI hN hD hOk.2.1 hs,
        hO.step hI hN hD hE hOk.1 hOk.2.2 hs⟩

/-- The callback of alarm `n` is about to be invoked. -/
def State.invokes (s : State) (n : Nat) : Bool :=
  decide (s.crit = .trigCall n) && (s.callback n).isSome

/-- The `Alarm` contract at a callback: a timestamp is set, not cleared since,
and `now()` is at or past it. -/
def CallbackDue (c : Chip) (s : State) (n : Nat) : Prop :=
  ∃ ts t0, s.last n = some (ts, t0) ∧ ts ≠ u64Max ∧ ts ≤ s.now c

instance (c : Chip) (s : State) (n : Nat) : Decidable (CallbackDue c s n) :=
  match h : s.last n with
  | some (ts, t0) => decidable_of_iff (ts ≠ u64Max ∧ ts ≤ s.now c) (by simp [CallbackDue, h])
  | none => isFalse (by simp [CallbackDue, h])

/-- The contract of both chips, from what holds at the callback. -/
theorem alarm_never_early {c : Chip} {n : Nat} {s : State}
    (hRun : Run (step c) (EarlyOk c n) init s) (hCall : s.invokes n = true) :
    CallbackDue c s n := by
  obtain ⟨hI, -, -, -, hO⟩ := earlyInv_of_run hRun
  have hC : s.crit = .trigCall n := by
    simp only [State.invokes, Bool.and_eq_true, decide_eq_true_eq] at hCall
    exact hCall.1
  obtain ⟨ts, t0, hLast, hTs⟩ := hO (by simp [hC, Crit.triggering])
  refine ⟨ts, t0, hLast, ?_, hTs⟩
  -- A timestamp that is due was not cleared: `now()` never gets to the largest one.
  have hle := hI.now_le
  have hR := hI.range
  cases c <;> simp only [Chip.half, u32Size, u64Max] at * <;> omega

/--
**On the nRF no alarm is early.** In every run that makes no stale event of
alarm `n` (`Fresh`), whenever its callback is invoked the timestamp last set
for it is not cleared and not after `now()`.
-/
theorem nrf_alarm_never_early {n : Nat} {s : State}
    (hRun : Run (step .nrf) (fun s a => ClockOk .nrf s a ∧ Fresh .nrf n s a) init s)
    (hCall : s.invokes n = true) : CallbackDue .nrf s n := by
  refine alarm_never_early (hRun.mono ?_) hCall
  intro u a hOk
  refine ⟨hOk.1, hOk.2, ?_⟩
  -- both boundaries request an interrupt, so the overflow is serviced by midway
  cases a <;> try trivial
  intro hB hOvf
  exact absurd hOvf (by simp [hOk.1.1.2.1 hB rfl])

/--
**On the STM32 no alarm is early.** In every run that makes no stale event of
alarm `n` (`Fresh`), and in which the midway point does not come during its
`trigger_alarm` with the overflow unserviced (`NoBackstep`), whenever its
callback is invoked the timestamp last set for it is not cleared and not after
`now()`.
-/
theorem stm32_alarm_never_early {k n : Nat} {s : State}
    (hRun : Run (step (.stm32 k)) (EarlyOk (.stm32 k) n) init s)
    (hCall : s.invokes n = true) : CallbackDue (.stm32 k) s n :=
  alarm_never_early hRun hCall

/-- What the hardware guarantees: the clock runs, and critical sections are
shorter than a tick. -/
def HwOk (c : Chip) (s : State) (a : Action) : Prop := ClockOk c s a ∧ ShortCrit s a

instance (c : Chip) (s : State) (a : Action) : Decidable (HwOk c s a) :=
  inferInstanceAs (Decidable (_ ∧ _))

/-- The actions of `set_alarm` for a timestamp it does not trigger at once. -/
def setAlarmNear (n ts : Nat) : List Action := [.setAlarm n ts, .crit, .crit, .crit, .crit]

/-- The same for one outside the window, or `clear`. -/
def setAlarmFar (n ts : Nat) : List Action := [.setAlarm n ts, .crit, .crit, .crit]

/-- The interrupt is taken and `on_interrupt` gets to the check of alarm 0. -/
def enterAlarms : List Action := [.interrupt, .handler, .handler]

/-- Alarm 0 is found latched; its trigger runs up to the callback. -/
def triggerFound : List Action := [.handler, .handler, .handler, .crit, .crit]

/-- Alarm 0 is set to 10 and found latched at tick 10. -/
theorem nrf_alarm_at_ten : ∃ s,
    Run (step .nrf) (fun s a => ClockOk .nrf s a ∧ Fresh .nrf 0 s a) init s ∧
    s.invokes 0 = true ∧ s.last 0 = some (10, 0) ∧ CallbackDue .nrf s 0 := by
  have hRun : Run (step .nrf) (fun s a => ClockOk .nrf s a ∧ Fresh .nrf 0 s a) init _ :=
    Run.execOk_get _ (.setCallback 0 (1, 1) :: setAlarmNear 0 10 ++ List.replicate 10 .tick ++
      enterAlarms ++ triggerFound) (by decide +kernel)
  exact ⟨_, hRun, by decide +kernel, by decide +kernel,
    nrf_alarm_never_early hRun (by decide +kernel)⟩

/-- A stale event: alarm 0 is set to 1000 at tick 10, when the event of its
earlier timestamp 10 is latched. Its callback comes at tick 10. -/
theorem nrf_alarm_early : ∃ s, Run (step .nrf) (HwOk .nrf) init s ∧
    s.invokes 0 = true ∧ s.last 0 = some (1000, 10) ∧ s.now .nrf = 10 ∧
    ¬ CallbackDue .nrf s 0 := by
  have hRun : Run (step .nrf) (HwOk .nrf) init _ :=
    Run.execOk_get _ (.setCallback 0 (1, 1) :: setAlarmNear 0 10 ++ List.replicate 10 .tick ++
      setAlarmNear 0 1000 ++ enterAlarms ++ triggerFound) (by decide +kernel)
  exact ⟨_, hRun, by decide +kernel, by decide +kernel, by decide +kernel, by decide +kernel⟩

/-- A stale register: alarm 0 is cleared, but its compare register still holds
5. The event latched at tick 5 is found when alarm 1 interrupts at tick 8. -/
theorem nrf_alarm_after_clear : ∃ s, Run (step .nrf) (HwOk .nrf) init s ∧
    s.invokes 0 = true ∧ s.last 0 = some (u64Max, 0) ∧ ¬ CallbackDue .nrf s 0 := by
  have hRun : Run (step .nrf) (HwOk .nrf) init _ :=
    Run.execOk_get _ (.setCallback 0 (1, 1) :: setAlarmNear 0 5 ++ setAlarmFar 0 u64Max ++
      setAlarmNear 1 8 ++ List.replicate 8 .tick ++ enterAlarms ++ triggerFound)
      (by decide +kernel)
  exact ⟨_, hRun, by decide +kernel, by decide +kernel, by decide +kernel⟩

/-- The same on the STM32. -/
theorem stm32_alarm_at_ten : ∃ s,
    Run (step (.stm32 3)) (EarlyOk (.stm32 3) 0) init s ∧
    s.invokes 0 = true ∧ s.last 0 = some (10, 0) ∧ CallbackDue (.stm32 3) s 0 := by
  have hRun : Run (step (.stm32 3)) (EarlyOk (.stm32 3) 0) init _ :=
    Run.execOk_get _ (.setCallback 0 (1, 1) :: setAlarmNear 0 10 ++ List.replicate 10 .tick ++
      enterAlarms ++ triggerFound) (by decide +kernel)
  exact ⟨_, hRun, by decide +kernel, by decide +kernel,
    stm32_alarm_never_early hRun (by decide +kernel)⟩

/-- A stale register: alarm 0 is moved from 5 to 0xd000, too far ahead to be
set up, and its channel disabled. The flag set at tick 5 is found when alarm 1
interrupts at tick 8, and the callback comes at tick 8. -/
theorem stm32_alarm_early : ∃ s, Run (step (.stm32 3)) (HwOk (.stm32 3)) init s ∧
    s.invokes 0 = true ∧ s.last 0 = some (0xd000, 0) ∧ s.now (.stm32 3) = 8 ∧
    ¬ CallbackDue (.stm32 3) s 0 := by
  have hRun : Run (step (.stm32 3)) (HwOk (.stm32 3)) init _ :=
    Run.execOk_get _ (.setCallback 0 (1, 1) :: setAlarmNear 0 5 ++ setAlarmFar 0 0xd000 ++
      setAlarmNear 1 8 ++ List.replicate 8 .tick ++ enterAlarms ++ triggerFound)
      (by decide +kernel)
  exact ⟨_, hRun, by decide +kernel, by decide +kernel, by decide +kernel, by decide +kernel⟩

end Embassy.Rtc
