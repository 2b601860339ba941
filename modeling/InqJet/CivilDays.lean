import InqJet.Format
import InqJet.Lib.Gregorian

namespace InqJet

open Gregorian

def InI32 (n : ℤ) : Prop := -2147483648 ≤ n ∧ n ≤ 2147483647

instance : DecidablePred InI32 := fun n => inferInstanceAs (Decidable (-2147483648 ≤ n ∧ n ≤ 2147483647))

def checkedI32 (n : ℤ) : Option ℤ := if InI32 n then some n else none

def checkedAdd (a b : ℕ) : Option ℕ := if a + b ≤ 4294967295 then some (a + b) else none
def checkedSub (a b : ℕ) : Option ℕ := if b ≤ a then some (a - b) else none
def checkedMul (a b : ℕ) : Option ℕ := if a * b ≤ 4294967295 then some (a * b) else none

/-- `civil_from_days` with every operation of `i32` and `u32` checked; `none` where one overflows. -/
def civilFromDaysChecked (days : ℤ) : Option (ℤ × ℕ × ℕ) := do
  let z ← checkedI32 (days + 719468)
  let shifted ← (if z ≥ 0 then some z else checkedI32 (z - 146096))
  let era := shifted.tdiv 146097
  let eraDays ← checkedI32 (era * 146097)
  let rest ← checkedI32 (z - eraDays)
  let doe := asU32 rest
  let a ← checkedSub doe (doe / 1460)
  let b ← checkedAdd a (doe / 36524)
  let c ← checkedSub b (doe / 146096)
  let yoe := c / 365
  let eraYears ← checkedI32 (era * 400)
  let y ← checkedI32 (asI32 yoe + eraYears)
  let a ← checkedMul 365 yoe
  let b ← checkedAdd a (yoe / 4)
  let c ← checkedSub b (yoe / 100)
  let doy ← checkedSub doe c
  let a ← checkedMul 5 doy
  let b ← checkedAdd a 2
  let mp := b / 153
  let a ← checkedMul 153 mp
  let b ← checkedAdd a 2
  let c ← checkedSub doy (b / 5)
  let d ← checkedAdd c 1
  let m ← (if mp < 10 then checkedAdd mp 3 else checkedSub mp 9)
  let y ← (if m ≤ 2 then checkedI32 (y + 1) else some y)
  some (y, m, d)

lemma era_eq (z : ℤ) : (if z ≥ 0 then z else z - 146096).tdiv 146097 = z / 146097 := by
  split_ifs with h
  · exact Int.tdiv_eq_ediv_of_nonneg h
  · rw [show z - 146096 = -(146096 - z) by ring, Int.neg_tdiv, Int.tdiv_eq_ediv_of_nonneg (by omega)]
    omega

lemma century_eq {doe : ℕ} (h : doe ≤ 146095) :
    (doe - doe / 1460 + doe / 36524) / 365 / 100 = doe / 36524 := by
  obtain ⟨c, hc⟩ : ∃ c, doe / 36524 = c := ⟨_, rfl⟩
  have hlow : 25 * c ≤ doe / 1460 := by omega
  have hhigh : doe / 1460 ≤ 25 * c + 25 := by omega
  omega

lemma year_start {doe yoe k c : ℕ} (h : doe ≤ 146095) (hk : k = doe / 1460) (hc : c = doe / 36524)
    (hy : yoe = (doe - k + c) / 365) :
    365 * yoe + yoe / 4 - yoe / 100 ≤ doe ∧ doe < 365 * (yoe + 1) + (yoe + 1) / 4 - yoe / 100 := by
  have hcent : yoe / 100 = c := by
    rw [hy, hk, hc]
    exact century_eq h
  have hj : 4 * k ≤ yoe + 1 := by omega
  obtain ⟨j, hj⟩ := Nat.exists_eq_add_of_le hj
  have hj5 : j ≤ 5 := by omega
  interval_cases j <;> constructor <;> omega

lemma yearOfEra {doe : ℕ} (h : doe ≤ 146096) :
    ∃ yoe doy, (doe - doe / 1460 + doe / 36524 - doe / 146096) / 365 = yoe ∧ yoe ≤ 399 ∧
      doe = 365 * yoe + yoe / 4 - yoe / 100 + doy ∧ doy ≤ 365 ∧
      (doy = 365 → (yoe + 1) % 4 = 0 ∧ ((yoe + 1) % 100 ≠ 0 ∨ (yoe + 1) % 400 = 0)) := by
  rcases Nat.lt_or_eq_of_le h with hlt | rfl
  · obtain ⟨yoe, hy⟩ : ∃ yoe, (doe - doe / 1460 + doe / 36524 - doe / 146096) / 365 = yoe := ⟨_, rfl⟩
    have hlast : doe / 146096 = 0 := by omega
    rw [hlast, Nat.sub_zero] at hy
    obtain ⟨hlow, hhigh⟩ := year_start (by omega) rfl rfl hy.symm
    have hcent := century_eq (show doe ≤ 146095 by omega)
    rw [hy] at hcent
    refine ⟨yoe, doe - (365 * yoe + yoe / 4 - yoe / 100), by rw [hlast, Nat.sub_zero, hy], ?_, ?_, ?_, ?_⟩
    · omega
    · omega
    · omega
    · intro hd
      omega
  · exact ⟨399, 365, by decide⟩

lemma date_from_march (y : ℤ) {doy mp : ℕ} (hmp : mp = (5 * doy + 2) / 153) (h10 : mp < 10) :
    ∃ t : Date, t.year = y ∧ t.month = mp + 3 ∧ t.day = doy - (153 * mp + 2) / 5 + 1 ∧
      t.dayNumber = daysBeforeYear (y + 1) - 306 + doy := by
  have hstart := daysBeforeMonth_from_march y (show 3 ≤ mp + 3 by omega) (by omega)
  have hnext := daysBeforeMonth_from_march y (show 3 ≤ mp + 4 by omega) (by omega)
  rw [daysBeforeMonth_succ y (show 1 ≤ mp + 3 by omega)] at hnext
  rw [show mp + 3 - 3 = mp by omega] at hstart
  rw [show mp + 4 - 3 = mp + 1 by omega] at hnext
  refine ⟨⟨y, mp + 3, doy - (153 * mp + 2) / 5 + 1, by omega, by omega, by omega, by omega⟩, rfl, rfl, rfl, ?_⟩
  simp only [Date.dayNumber, daysBeforeYear_succ]
  omega

lemma date_from_january (y : ℤ) {doy mp : ℕ} (hmp : mp = (5 * doy + 2) / 153) (h10 : 10 ≤ mp) (h : doy ≤ 365)
    (hleap : doy = 365 → IsLeap (y + 1)) :
    ∃ t : Date, t.year = y + 1 ∧ t.month = mp - 9 ∧ t.day = doy - (153 * mp + 2) / 5 + 1 ∧
      t.dayNumber = daysBeforeYear (y + 1) - 306 + doy := by
  rcases (show mp = 10 ∨ mp = 11 by omega) with rfl | rfl
  · have hle : doy - 306 + 1 ≤ monthLength (y + 1) 1 := show doy - 306 + 1 ≤ 31 by omega
    refine ⟨⟨y + 1, 1, doy - 306 + 1, by omega, by omega, by omega, hle⟩, rfl, rfl, rfl, ?_⟩
    simp only [Date.dayNumber, show daysBeforeMonth (y + 1) 1 = 0 from rfl]
    omega
  · have hle : doy - 337 + 1 ≤ monthLength (y + 1) 2 := by
      simp only [monthLength]
      split_ifs with hl
      · omega
      · have hne : doy ≠ 365 := fun hd => hl (hleap hd)
        omega
    refine ⟨⟨y + 1, 2, doy - 337 + 1, by omega, by omega, by omega, hle⟩, rfl, rfl, rfl, ?_⟩
    simp only [Date.dayNumber, show daysBeforeMonth (y + 1) 2 = 31 from rfl]
    omega

lemma asU32_eq {n : ℤ} (h0 : 0 ≤ n) (h : n ≤ 4294967295) : (asU32 n : ℤ) = n := by
  rw [asU32, Int.toNat_of_nonneg (Int.emod_nonneg _ (by norm_num)), Int.emod_eq_of_lt h0 (by omega)]

lemma civil_stages (days : ℤ) :
    ∃ era : ℤ, ∃ doe yoe doy : ℕ, (days + 719468) / 146097 = era ∧
      asU32 (days + 719468 - era * 146097) = doe ∧ doe ≤ 146096 ∧
      (doe - doe / 1460 + doe / 36524 - doe / 146096) / 365 = yoe ∧ yoe ≤ 399 ∧
      365 * yoe + yoe / 4 - yoe / 100 ≤ doe ∧ doe - (365 * yoe + yoe / 4 - yoe / 100) = doy ∧ doy ≤ 365 ∧
      ∃ t : Date, t.month = (if (5 * doy + 2) / 153 < 10 then (5 * doy + 2) / 153 + 3
          else (5 * doy + 2) / 153 - 9) ∧
        t.year = (if t.month ≤ 2 then (yoe : ℤ) + era * 400 + 1 else yoe + era * 400) ∧
        t.day = doy - (153 * ((5 * doy + 2) / 153) + 2) / 5 + 1 ∧ t.dayNumber = days := by
  obtain ⟨era, hera⟩ : ∃ era, (days + 719468) / 146097 = era := ⟨_, rfl⟩
  obtain ⟨doe, hdoe⟩ : ∃ doe, asU32 (days + 719468 - era * 146097) = doe := ⟨_, rfl⟩
  have hval : (doe : ℤ) = days + 719468 - era * 146097 := by
    rw [← hdoe]
    apply asU32_eq <;> omega
  have hle : doe ≤ 146096 := by omega
  obtain ⟨yoe, doy, hyoe, hy399, hsum, hdoy, hlast⟩ := yearOfEra hle
  have hleap : doy = 365 → IsLeap ((yoe : ℤ) + era * 400 + 1) := by
    intro hd
    have hl := hlast hd
    simp only [IsLeap]
    omega
  -- the days before March of year `yoe` of the era
  have hbefore : daysBeforeYear ((yoe : ℤ) + era * 400 + 1) - 306 + doy = days := by
    rw [daysBeforeYear_eq, show (yoe : ℤ) + era * 400 + 1 - 1 = yoe + era * 400 by ring, leaps_add_era]
    simp only [leaps]
    omega
  refine ⟨era, doe, yoe, doy, hera, hdoe, hle, hyoe, hy399, by omega, by omega, hdoy, ?_⟩
  by_cases h10 : (5 * doy + 2) / 153 < 10
  · obtain ⟨t, hty, htm, htd, htn⟩ := date_from_march ((yoe : ℤ) + era * 400) rfl h10
    refine ⟨t, by rw [if_pos h10, htm], ?_, htd, htn.trans hbefore⟩
    rw [if_neg (by omega), hty]
  · obtain ⟨t, hty, htm, htd, htn⟩ :=
      date_from_january ((yoe : ℤ) + era * 400) rfl (Nat.le_of_not_lt h10) hdoy hleap
    refine ⟨t, by rw [if_neg h10, htm], ?_, htd, htn.trans hbefore⟩
    rw [if_pos (by omega), hty]

lemma civilFromDays_eq (days : ℤ) :
    ∃ t : Date, civilFromDays days = (t.year, t.month, t.day) ∧ t.dayNumber = days := by
  obtain ⟨era, doe, yoe, doy, hera, hdoe, -, hyoe, -, -, hdoy, -, t, hm, hy, hday, hn⟩ := civil_stages days
  refine ⟨t, ?_, hn⟩
  simp only [civilFromDays, era_eq, hera, hdoe, hyoe, hdoy, ← hm, ← hy, ← hday]

lemma bind_of_some {α β : Type} {x : Option α} {a : α} {f : α → Option β} (h : x = some a) :
    (x >>= f) = f a := by
  rw [h]
  rfl

lemma checkedI32_eq {n : ℤ} (h : InI32 n) : checkedI32 n = some n := if_pos h

lemma checkedAdd_eq {a b : ℕ} (h : a + b ≤ 4294967295) : checkedAdd a b = some (a + b) := if_pos h

lemma checkedSub_eq {a b : ℕ} (h : b ≤ a) : checkedSub a b = some (a - b) := if_pos h

lemma checkedMul_eq {a b : ℕ} (h : a * b ≤ 4294967295) : checkedMul a b = some (a * b) := if_pos h

lemma asI32_eq {n : ℤ} (h : InI32 n) : asI32 n = n := by
  obtain ⟨h0, h1⟩ := h
  apply Int.bmod_eq_of_le <;> norm_num <;> omega

lemma checked_era {days era : ℤ} (hd : InI32 days) (hz : InI32 (days + 719468))
    (hera : (days + 719468) / 146097 = era) :
    (if days + 719468 ≥ 0 then some (days + 719468) else checkedI32 (days + 719468 - 146096)) =
        some (if days + 719468 ≥ 0 then days + 719468 else days + 719468 - 146096) ∧
      checkedI32 (era * 146097) = some (era * 146097) ∧
      checkedI32 (days + 719468 - era * 146097) = some (days + 719468 - era * 146097) ∧
      -14695 ≤ era ∧ era ≤ 14699 := by
  obtain ⟨hd0, -⟩ := hd
  obtain ⟨-, hz1⟩ := hz
  obtain ⟨z, hz⟩ : ∃ z, days + 719468 = z := ⟨_, rfl⟩
  rw [hz] at hera hz1 ⊢
  have hlow : -14695 ≤ era := by omega
  have hhigh : era ≤ 14699 := by omega
  have hpart : 0 ≤ z - era * 146097 ∧ z - era * 146097 ≤ 146096 := by omega
  refine ⟨?_, checkedI32_eq ⟨by omega, by omega⟩, checkedI32_eq ⟨by omega, by omega⟩, hlow, hhigh⟩
  split_ifs with h
  · rfl
  · exact checkedI32_eq ⟨by omega, by omega⟩

lemma checked_year {doe yoe : ℕ} (h : doe ≤ 146096)
    (hy : (doe - doe / 1460 + doe / 36524 - doe / 146096) / 365 = yoe) (hy399 : yoe ≤ 399)
    (hs : 365 * yoe + yoe / 4 - yoe / 100 ≤ doe) :
    checkedSub doe (doe / 1460) = some (doe - doe / 1460) ∧
      checkedAdd (doe - doe / 1460) (doe / 36524) = some (doe - doe / 1460 + doe / 36524) ∧
      checkedSub (doe - doe / 1460 + doe / 36524) (doe / 146096) =
        some (doe - doe / 1460 + doe / 36524 - doe / 146096) ∧
      checkedMul 365 yoe = some (365 * yoe) ∧ checkedAdd (365 * yoe) (yoe / 4) = some (365 * yoe + yoe / 4) ∧
      checkedSub (365 * yoe + yoe / 4) (yoe / 100) = some (365 * yoe + yoe / 4 - yoe / 100) ∧
      checkedSub doe (365 * yoe + yoe / 4 - yoe / 100) = some (doe - (365 * yoe + yoe / 4 - yoe / 100)) := by
  refine ⟨checkedSub_eq ?_, checkedAdd_eq ?_, checkedSub_eq ?_, checkedMul_eq ?_, checkedAdd_eq ?_,
    checkedSub_eq ?_, checkedSub_eq hs⟩ <;> omega

lemma checked_day {doy mp : ℕ} (h : doy ≤ 365) (hmp : (5 * doy + 2) / 153 = mp) :
    checkedMul 5 doy = some (5 * doy) ∧ checkedAdd (5 * doy) 2 = some (5 * doy + 2) ∧
      checkedMul 153 mp = some (153 * mp) ∧ checkedAdd (153 * mp) 2 = some (153 * mp + 2) ∧
      checkedSub doy ((153 * mp + 2) / 5) = some (doy - (153 * mp + 2) / 5) ∧
      checkedAdd (doy - (153 * mp + 2) / 5) 1 = some (doy - (153 * mp + 2) / 5 + 1) ∧
      (if mp < 10 then checkedAdd mp 3 else checkedSub mp 9) = some (if mp < 10 then mp + 3 else mp - 9) := by
  have hmonth : (if mp < 10 then checkedAdd mp 3 else checkedSub mp 9) =
      some (if mp < 10 then mp + 3 else mp - 9) := by
    split_ifs with h10
    · exact checkedAdd_eq (by omega)
    · exact checkedSub_eq (by omega)
  refine ⟨checkedMul_eq ?_, checkedAdd_eq ?_, checkedMul_eq ?_, checkedAdd_eq ?_, checkedSub_eq ?_,
    checkedAdd_eq ?_, hmonth⟩ <;> omega

lemma years_inI32 {era : ℤ} {yoe : ℕ} (hlow : -14695 ≤ era) (hhigh : era ≤ 14699) (h : yoe ≤ 399) :
    InI32 (era * 400) ∧ InI32 (yoe : ℤ) ∧ InI32 ((yoe : ℤ) + era * 400) ∧ InI32 ((yoe : ℤ) + era * 400 + 1) := by
  refine ⟨⟨?_, ?_⟩, ⟨?_, ?_⟩, ⟨?_, ?_⟩, ?_, ?_⟩ <;> omega

theorem civil_from_days_inverse (days : ℤ) (hd : InI32 days) (hz : InI32 (days + 719468)) :
    ∃ t : Date, civilFromDaysChecked days = some (t.year, t.month, t.day) ∧
      civilFromDays days = (t.year, t.month, t.day) ∧ ∀ s : Date, s.dayNumber = days ↔ s = t := by
  obtain ⟨era, doe, yoe, doy, hera, hdoe, hdoe', hyoe, hyoe', hstart, hdoy, hdoy', t, hm, hy, hday, hn⟩ :=
    civil_stages days
  obtain ⟨hshift, hdays, hrest, hlow, hhigh⟩ := checked_era hd hz hera
  obtain ⟨hyears, hyoe32, hyear, hyear'⟩ := years_inI32 hlow hhigh hyoe'
  obtain ⟨y₁, y₂, y₃, y₄, y₅, y₆, y₇⟩ := checked_year hdoe' hyoe hyoe' hstart
  obtain ⟨d₁, d₂, d₃, d₄, d₅, d₆, hmonth⟩ := checked_day hdoy' rfl
  have hnext : (if t.month ≤ 2 then checkedI32 ((yoe : ℤ) + era * 400 + 1)
      else some ((yoe : ℤ) + era * 400)) = some t.year := by
    rw [hy]
    split_ifs with h
    · exact checkedI32_eq hyear'
    · rfl
  refine ⟨t, ?_, ?_, fun s => ⟨fun hs => dayNumber_injective (hs.trans hn.symm), fun hs => hs ▸ hn⟩⟩
  · rw [hdoy] at y₇
    rw [← hm] at hmonth
    rw [← hday] at d₆
    simp only [civilFromDaysChecked]
    rw [bind_of_some (checkedI32_eq hz), bind_of_some hshift, era_eq, hera, bind_of_some hdays, bind_of_some hrest,
      hdoe, bind_of_some y₁, bind_of_some y₂, bind_of_some y₃, hyoe, bind_of_some (checkedI32_eq hyears),
      asI32_eq hyoe32, bind_of_some (checkedI32_eq hyear), bind_of_some y₄, bind_of_some y₅, bind_of_some y₆,
      bind_of_some y₇, bind_of_some d₁, bind_of_some d₂, bind_of_some d₃, bind_of_some d₄, bind_of_some d₅,
      bind_of_some d₆, bind_of_some hmonth, bind_of_some hnext]
  · simp only [civilFromDays, era_eq, hera, hdoe, hyoe, hdoy, ← hm, ← hy, ← hday]

theorem civil_from_days_inverse_leap_day :
    ∃ t : Date, civilFromDaysChecked 19782 = some (t.year, t.month, t.day) ∧
      civilFromDays 19782 = (t.year, t.month, t.day) ∧ ∀ s : Date, s.dayNumber = 19782 ↔ s = t :=
  civil_from_days_inverse 19782 (by decide) (by decide)

example : [-719469, -1, 0, 19782].map civilFromDays = [(0, 2, 29), (1969, 12, 31), (1970, 1, 1), (2024, 2, 29)] := by
  decide

end InqJet
