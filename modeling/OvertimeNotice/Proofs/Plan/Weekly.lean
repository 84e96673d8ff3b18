import Mathlib.Data.Fin.Basic
import OvertimeNotice.Proofs.Plan.Validated

/-!
# Once a week

Days that follow each other are numbered on without a gap, over the ends of months and years, leap
days, and year zero. So each day of the week comes once in seven days, and with it the window.

* `Date.Next`: the day after a day; `Date.dayNumber_next`: its number.
* `Date.existsUnique_weekday`: seven days in a row.
* `inWindow_weekly`: when the window is open in a week.
-/

namespace OvertimeNotice

open Calendar

namespace Date

variable {d e : Date}

/-! ## The day after -/

/-- The day after a day: the next one of its month, or the first one of the next month or year. -/
def Next (d e : Date) : Prop :=
  (e.year, e.month, e.day) =
    if d.day < daysIn d.year d.month then (d.year, d.month, d.day + 1)
    else if d.month < 12 then (d.year, d.month + 1, 1)
    else (d.year + 1, 1, 1)

instance (d e : Date) : Decidable (d.Next e) := instDecidableEqProd _ _

theorem daysBefore_succ (year : Int) {month : Nat} (h : 1 ≤ month) :
    daysBefore year (month + 1) = daysBefore year month + daysIn year month := by
  obtain ⟨m, rfl⟩ := Nat.exists_eq_add_of_le' h
  simp only [daysBefore, Nat.add_sub_cancel, List.range_succ, List.map_append, List.sum_append,
    List.map_singleton, List.sum_singleton]

/-- The days of a year before its last month. -/
theorem daysBefore_last (year : Int) :
    daysBefore year 12 = if isLeap year = true then 335 else 334 := by
  cases h : isLeap year <;> simp [daysBefore, daysIn, h, List.range_succ]

theorem isLeap_iff (year : Int) :
    isLeap year = true ↔ year % 4 = 0 ∧ (year % 100 ≠ 0 ∨ year % 400 = 0) := by
  simp [isLeap]

/-- Each leap year counts as one day more. -/
theorem leaps_succ (year : Int) : year / 4 - year / 100 + year / 400 =
    (year - 1) / 4 - (year - 1) / 100 + (year - 1) / 400 + if isLeap year = true then 1 else 0 := by
  have hleap := isLeap_iff year
  split
  · rename_i hyes
    have hyear := hleap.mp hyes
    omega
  · rename_i hno
    have hyear := mt hleap.mpr hno
    omega

theorem dayNumber_next (h : d.Next e) : e.dayNumber = d.dayNumber + 1 := by
  obtain ⟨hmonth, hmonth'⟩ := d.month_range
  obtain ⟨hday, hday'⟩ := d.day_range
  unfold Next at h
  split at h
  · obtain ⟨hy, hm, hd⟩ : e.year = d.year ∧ e.month = d.month ∧ e.day = d.day + 1 := by
      simpa using h
    rw [dayNumber, dayNumber, hy, hm, hd]
    omega
  · have hlast : d.day = daysIn d.year d.month := by omega
    split at h
    · obtain ⟨hy, hm, hd⟩ : e.year = d.year ∧ e.month = d.month + 1 ∧ e.day = 1 := by
        simpa using h
      rw [dayNumber, dayNumber, hy, hm, hd, daysBefore_succ _ hmonth, hlast]
      omega
    · obtain ⟨hy, hm, hd⟩ : e.year = d.year + 1 ∧ e.month = 1 ∧ e.day = 1 := by
        simpa using h
      have hdecember : d.month = 12 := by omega
      have hfirst : daysBefore (d.year + 1) 1 = 0 := rfl
      have hdays : daysIn d.year 12 = 31 := rfl
      rw [dayNumber, dayNumber, hy, hm, hd, hlast, hdecember, hfirst, hdays, daysBefore_last]
      have hleaps := leaps_succ d.year
      split_ifs at hleaps ⊢ <;> omega

/-! ## Days in a row -/

variable {n : Nat} {days : Fin (n + 1) → Date}

theorem dayNumber_of_next (h : ∀ i : Fin n, (days i.castSucc).Next (days i.succ))
    (i : Fin (n + 1)) : (days i).dayNumber = (days 0).dayNumber + i := by
  induction i using Fin.induction with
  | zero => simp
  | succ i ih =>
    rw [dayNumber_next (h i), ih, Fin.val_castSucc, Fin.val_succ]
    omega

/-- Seven days in a row fall on each day of the week once. -/
theorem existsUnique_weekday {days : Fin 7 → Date}
    (h : ∀ i : Fin 6, (days i.castSucc).Next (days i.succ)) {k : Nat} (hk : k ≤ 6) :
    ∃! i, (days i).weekday = k := by
  have hweekday : ∀ i, (days i).weekday = (((days 0).dayNumber + (i : Nat) - 1) % 7).toNat :=
    fun i => by rw [weekday, dayNumber_of_next h i]
  simp only [hweekday]
  refine ⟨⟨((k - ((days 0).dayNumber - 1)) % 7).toNat, by omega⟩, ?_, fun i hi => ?_⟩
  · simp only
    omega
  · have hlt := i.isLt
    simp only at hi
    apply Fin.ext
    simp only
    omega

end Date

/-! ## The window -/

variable {c : Config} {w : ForceWindow}

theorem Moment.minuteOfDay_le (now : Moment) : now.minuteOfDay ≤ 1439 := by
  have hhour := now.hour_le
  have hminute := now.minute_le
  rw [minuteOfDay]
  omega

/-- Every day has the minute in the middle of a window. -/
theorem ForceWindow.exists_middle (h : w.validate = .ok ()) (d : Date) :
    ∃ now : Moment, now.date = d ∧ now.minuteOfDay = w.middle := by
  obtain ⟨-, hhour, hminute⟩ := validate_eq_ok_iff.mp h
  exact ⟨⟨d, w.hour.toNat, w.minute.toNat, 0, hhour, hminute, Nat.zero_le _⟩, rfl, rfl⟩

/-- **The window opens on one day of a week**, whichever seven days in a row are taken. On that day
it is open for the minutes of the day that are no further from its middle than the tolerance,
whatever the second; nothing on the way leaves the range of 32 bits. -/
theorem inWindow_weekly (h : c.validate = .ok ()) (hw : c.window = some w) {days : Fin 7 → Date}
    (hdays : ∀ i : Fin 6, (days i.castSucc).Next (days i.succ)) :
    ∃ i, (∀ j, (∃ now : Moment, now.date = days j ∧ inWindow now w = .ok true) ↔ j = i) ∧
      (∀ now : Moment, now.date = days i → inWindow now w = .ok (decide (
        max 0 ((60 * w.hour.toNat + w.minute.toNat : Int) - w.tolerance.toNat) ≤
            now.minuteOfDay ∧
          now.minuteOfDay ≤
            min 1439 ((60 * w.hour.toNat + w.minute.toNat : Int) + w.tolerance.toNat)))) ∧
      ∀ now : Moment, ∀ j, now.date = days j → j ≠ i → inWindow now w = .ok false := by
  have hv := Config.validate_window h hw
  obtain ⟨hweekday, hhour, hminute⟩ := ForceWindow.validate_eq_ok_iff.mp hv
  obtain ⟨i, hi, hunique⟩ := Date.existsUnique_weekday hdays hweekday
  simp only [inWindow_of_valid hv, Except.ok.injEq, decide_eq_true_eq, decide_eq_false_iff_not,
    decide_eq_decide]
  refine ⟨i, fun j => ⟨?_, ?_⟩, fun now hnow => ?_, fun now j hnow hj hcovers => hj ?_⟩
  · rintro ⟨now, hnow, hday, -⟩
    rw [hnow] at hday
    exact hunique j hday
  · rintro rfl
    obtain ⟨now, hnow, hmiddle⟩ := ForceWindow.exists_middle hv (days j)
    refine ⟨now, hnow, hnow ▸ hi, ?_⟩
    simp [hmiddle]
  · have hlate := now.minuteOfDay_le
    have hon : now.date.weekday = w.weekday.toNat := hnow ▸ hi
    simp only [ForceWindow.Covers, ForceWindow.middle, hon, true_and]
    omega
  · obtain ⟨hday, -⟩ := hcovers
    rw [hnow] at hday
    exact hunique j hday

/-- The week from the 26th of February to the 3rd of March in year zero. -/
private def leapWeek (i : Fin 7) : Date :=
  if h : i.val < 4 then
    ⟨0, 2, 26 + i.val, by decide, by decide, by omega, show 26 + i.val ≤ 29 by omega⟩
  else ⟨0, 3, i.val - 3, by decide, by decide, by omega, show i.val - 3 ≤ 31 by omega⟩

/-- A window on Tuesdays with the largest tolerance. -/
private def wideConfig : Config :=
  { Config.sample with
    window := some { weekday := 1, hour := 9, minute := 0, tolerance := 4294967295 } }

/-- The 29th of February is the Tuesday in that week, and the window is open all day. -/
theorem inWindow_weekly_leap :
    wideConfig.validate = .ok () ∧
      (∀ i : Fin 6, (leapWeek i.castSucc).Next (leapWeek i.succ)) ∧
      (leapWeek 3).text = "0000-02-29" ∧
      ∃ w, wideConfig.window = some w ∧
        (∀ j, (∃ now : Moment, now.date = leapWeek j ∧ inWindow now w = .ok true) ↔ j = 3) ∧
        ∀ now : Moment, now.date = leapWeek 3 → inWindow now w = .ok true := by
  have hvalid : wideConfig.validate = .ok () := by decide +kernel
  have hweek : ∀ i : Fin 6, (leapWeek i.castSucc).Next (leapWeek i.succ) := by decide
  obtain ⟨i, hone, hopen, -⟩ := inWindow_weekly hvalid rfl hweek
  have hnoon : 3 = i := (hone 3).mp
    ⟨{ date := leapWeek 3, hour := 12, minute := 0, second := 0, hour_le := by decide
       minute_le := by decide, second_le := by decide }, rfl, by decide⟩
  subst hnoon
  refine ⟨hvalid, hweek, by decide, _, rfl, hone, fun now hnow => ?_⟩
  have hlate := now.minuteOfDay_le
  have hfigures : (9 : UInt32).toNat = 9 ∧ (0 : UInt32).toNat = 0 ∧
      (4294967295 : UInt32).toNat = 4294967295 := ⟨rfl, rfl, rfl⟩
  rw [hopen now hnow, decide_eq_true]
  simp only [hfigures]
  omega

end OvertimeNotice
