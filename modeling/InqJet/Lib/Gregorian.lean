import Mathlib.Tactic

/-! The proleptic Gregorian calendar: dates, and the number of days from 1970-01-01 to a date,
counted year by year and month by month. -/

namespace Gregorian

open Finset

def IsLeap (y : ℤ) : Prop := y % 4 = 0 ∧ (y % 100 ≠ 0 ∨ y % 400 = 0)

instance : DecidablePred IsLeap := fun y => inferInstanceAs (Decidable (y % 4 = 0 ∧ (y % 100 ≠ 0 ∨ y % 400 = 0)))

def yearLength (y : ℤ) : ℕ := if IsLeap y then 366 else 365

def monthLength (y : ℤ) : ℕ → ℕ
  | 2 => if IsLeap y then 29 else 28
  | 4 => 30
  | 6 => 30
  | 9 => 30
  | 11 => 30
  | _ => 31

structure Date where
  year : ℤ
  month : ℕ
  day : ℕ
  month_pos : 1 ≤ month
  month_le : month ≤ 12
  day_pos : 1 ≤ day
  day_le : day ≤ monthLength year month

/-- From the first day of 1970 to the first day of `y`; one of the two sums is empty. -/
def daysBeforeYear (y : ℤ) : ℤ :=
  ∑ i ∈ range (y - 1970).toNat, (yearLength (1970 + i) : ℤ) -
    ∑ i ∈ range (1970 - y).toNat, (yearLength (1969 - i) : ℤ)

def daysBeforeMonth (y : ℤ) (m : ℕ) : ℕ := ∑ i ∈ range (m - 1), monthLength y (i + 1)

def Date.dayNumber (t : Date) : ℤ := daysBeforeYear t.year + daysBeforeMonth t.year t.month + (t.day - 1)

def Date.Before (s t : Date) : Prop :=
  s.year < t.year ∨ s.year = t.year ∧ (s.month < t.month ∨ s.month = t.month ∧ s.day < t.day)

def leaps (y : ℤ) : ℤ := y / 4 - y / 100 + y / 400

lemma yearLength_eq (y : ℤ) : (yearLength y : ℤ) = 365 + (leaps y - leaps (y - 1)) := by
  simp only [leaps]
  by_cases h : IsLeap y
  · rw [yearLength, if_pos h]
    simp only [IsLeap] at h
    omega
  · rw [yearLength, if_neg h]
    simp only [IsLeap] at h
    omega

lemma leaps_add_era (y n : ℤ) : leaps (y + n * 400) = leaps y + 97 * n := by
  have h4 : (y + n * 400) / 4 = y / 4 + 100 * n := by omega
  have h100 : (y + n * 400) / 100 = y / 100 + 4 * n := by omega
  have h400 : (y + n * 400) / 400 = y / 400 + n := by omega
  rw [leaps, leaps, h4, h100, h400]
  ring

lemma sum_forward (n : ℕ) :
    ∑ i ∈ range n, (yearLength (1970 + i) : ℤ) = 365 * n + (leaps (1969 + n) - leaps 1969) := by
  induction n with
  | zero => simp
  | succ n ih =>
    rw [sum_range_succ, ih, yearLength_eq, show (1970 : ℤ) + n - 1 = 1969 + n by ring,
      show (1969 : ℤ) + (n + 1 : ℕ) = 1970 + n by push_cast; ring]
    push_cast
    ring

lemma sum_backward (n : ℕ) :
    ∑ i ∈ range n, (yearLength (1969 - i) : ℤ) = 365 * n + (leaps 1969 - leaps (1969 - n)) := by
  induction n with
  | zero => simp
  | succ n ih =>
    rw [sum_range_succ, ih, yearLength_eq, show (1969 : ℤ) - (n + 1 : ℕ) = 1969 - n - 1 by push_cast; ring]
    push_cast
    ring

theorem daysBeforeYear_eq (y : ℤ) : daysBeforeYear y = 365 * (y - 1970) + leaps (y - 1) - 477 := by
  have h1969 : leaps 1969 = 477 := by decide
  rw [daysBeforeYear, sum_forward, sum_backward, h1969]
  rcases le_total 1970 y with h | h
  · have hn : ((y - 1970).toNat : ℤ) = y - 1970 := Int.toNat_of_nonneg (by omega)
    have hz : (1970 - y).toNat = 0 := Int.toNat_eq_zero.mpr (by omega)
    rw [hn, hz, show 1969 + (y - 1970) = y - 1 by ring]
    simp [h1969]
    ring
  · have hn : ((1970 - y).toNat : ℤ) = 1970 - y := Int.toNat_of_nonneg (by omega)
    have hz : (y - 1970).toNat = 0 := Int.toNat_eq_zero.mpr (by omega)
    rw [hn, hz, show 1969 - (1970 - y) = y - 1 by ring]
    simp [h1969]
    ring

lemma daysBeforeYear_succ (y : ℤ) : daysBeforeYear (y + 1) = daysBeforeYear y + yearLength y := by
  rw [daysBeforeYear_eq, daysBeforeYear_eq, yearLength_eq, show y + 1 - 1 = y by ring]
  ring

lemma daysBeforeYear_mono {y z : ℤ} (h : y ≤ z) : daysBeforeYear y ≤ daysBeforeYear z := by
  rw [daysBeforeYear_eq, daysBeforeYear_eq]
  simp only [leaps]
  omega

lemma daysBeforeMonth_succ (y : ℤ) {m : ℕ} (h : 1 ≤ m) :
    daysBeforeMonth y (m + 1) = daysBeforeMonth y m + monthLength y m := by
  obtain ⟨m, rfl⟩ := Nat.exists_eq_add_of_le' h
  exact sum_range_succ _ m

lemma daysBeforeMonth_mono (y : ℤ) {m n : ℕ} (h : m ≤ n) : daysBeforeMonth y m ≤ daysBeforeMonth y n := by
  apply sum_le_sum_of_subset
  simpa using Nat.sub_le_sub_right h 1

lemma daysBeforeMonth_from_march (y : ℤ) {m : ℕ} (h3 : 3 ≤ m) (h13 : m ≤ 13) :
    daysBeforeMonth y m + 306 = yearLength y + (153 * (m - 3) + 2) / 5 := by
  by_cases hl : IsLeap y
  · rw [yearLength, if_pos hl]
    interval_cases m <;> simp [daysBeforeMonth, sum_range_succ, monthLength, hl]
  · rw [yearLength, if_neg hl]
    interval_cases m <;> simp [daysBeforeMonth, sum_range_succ, monthLength, hl]

lemma Date.within_year (t : Date) : daysBeforeMonth t.year t.month + t.day ≤ yearLength t.year := by
  have hday := t.day_le
  have hnext := daysBeforeMonth_succ t.year t.month_pos
  have hle : daysBeforeMonth t.year (t.month + 1) ≤ daysBeforeMonth t.year 13 :=
    daysBeforeMonth_mono _ (Nat.succ_le_succ t.month_le)
  have hend := daysBeforeMonth_from_march t.year (show 3 ≤ 13 by omega) (le_refl 13)
  omega

theorem dayNumber_lt {s t : Date} (h : s.Before t) : s.dayNumber < t.dayNumber := by
  have hs := s.within_year
  have ht := t.day_pos
  simp only [Date.dayNumber]
  rcases h with hy | ⟨hy, hm | ⟨hm, hd⟩⟩
  · have hle : daysBeforeYear (s.year + 1) ≤ daysBeforeYear t.year := daysBeforeYear_mono hy
    rw [daysBeforeYear_succ] at hle
    omega
  · have hle : daysBeforeMonth s.year (s.month + 1) ≤ daysBeforeMonth s.year t.month :=
      daysBeforeMonth_mono _ hm
    rw [daysBeforeMonth_succ _ s.month_pos] at hle
    have hday := s.day_le
    rw [← hy]
    omega
  · rw [← hy, ← hm]
    omega

lemma Date.before_or (s t : Date) : s.Before t ∨ s = t ∨ t.Before s := by
  rcases lt_trichotomy s.year t.year with hy | hy | hy
  · exact .inl (.inl hy)
  · rcases lt_trichotomy s.month t.month with hm | hm | hm
    · exact .inl (.inr ⟨hy, .inl hm⟩)
    · rcases lt_trichotomy s.day t.day with hd | hd | hd
      · exact .inl (.inr ⟨hy, .inr ⟨hm, hd⟩⟩)
      · refine .inr (.inl ?_)
        cases s
        cases t
        simp_all
      · exact .inr (.inr (.inr ⟨hy.symm, .inr ⟨hm.symm, hd⟩⟩))
    · exact .inr (.inr (.inr ⟨hy.symm, .inl hm⟩))
  · exact .inr (.inr (.inl hy))

theorem dayNumber_lt_iff {s t : Date} : s.dayNumber < t.dayNumber ↔ s.Before t := by
  refine ⟨fun h => ?_, dayNumber_lt⟩
  rcases s.before_or t with hb | rfl | hb
  · exact hb
  · exact (lt_irrefl _ h).elim
  · exact (lt_asymm h (dayNumber_lt hb)).elim

theorem dayNumber_injective {s t : Date} (h : s.dayNumber = t.dayNumber) : s = t := by
  rcases s.before_or t with hb | he | hb
  · exact ((dayNumber_lt hb).ne h).elim
  · exact he
  · exact ((dayNumber_lt hb).ne h.symm).elim

end Gregorian
