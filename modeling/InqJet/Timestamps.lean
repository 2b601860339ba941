import InqJet.CivilDays
import InqJet.Lib.FixedWidth

namespace InqJet

open ByteCodec FixedWidth Gregorian

lemma digitChar_byte {n : ℕ} (h : n < 10) : UInt8.ofNat n.digitChar.toNat = UInt8.ofNat (48 + n % 10) := by
  interval_cases n <;> rfl

lemma decimal_of_lt {n : ℕ} (h : n < 10) : decimal n = [UInt8.ofNat (48 + n % 10)] := by
  rw [decimal, Nat.toDigits_of_lt_base h, List.map_singleton, digitChar_byte h]

lemma decimal_of_le {n : ℕ} (h : 10 ≤ n) : decimal n = decimal (n / 10) ++ [UInt8.ofNat (48 + n % 10)] := by
  have hd := digitChar_byte (Nat.mod_lt n (show 0 < 10 by omega))
  rw [Nat.mod_mod] at hd
  rw [decimal, Nat.toDigits_of_base_le (by omega) h, List.map_append, List.map_singleton, hd, decimal]

lemma zeroPad_eq {w n : ℕ} (h : n < 10 ^ (w + 1)) : zeroPad (w + 1) n = digits (w + 1) n := by
  induction w generalizing n with
  | zero => simp [zeroPad, decimal_of_lt (show n < 10 by simpa using h), digits]
  | succ w ih =>
    have hrec := ih (show n / 10 < 10 ^ (w + 1) by rw [pow_succ] at h; omega)
    rw [digits, ← hrec]
    rcases Nat.lt_or_ge n 10 with h10 | h10
    · have h0 : n / 10 = 0 := by omega
      simp [zeroPad, decimal_of_lt h10, h0, decimal_of_lt (show 0 < 10 by omega), List.replicate_succ']
    · simp [zeroPad, decimal_of_le h10]

def timestampLayout : List (ℕ × Bytes) :=
  [(4, utf8 "-"), (2, utf8 "-"), (2, utf8 "T"), (2, utf8 ":"), (2, utf8 ":"), (2, utf8 "."), (9, utf8 "Z")]

def timestampFields (t : Date) (secs nanos : ℕ) : List ℕ :=
  [t.year.toNat, t.month, t.day, secs / 3600, secs % 3600 / 60, secs % 60, nanos]

structure Instant (t : Date) (secs nanos : ℕ) : Prop where
  year_nonneg : 0 ≤ t.year
  year_lt : t.year < 10000
  secs_lt : secs < 86400
  nanos_lt : nanos < 1000000000

lemma monthLength_le (y : ℤ) (m : ℕ) : monthLength y m ≤ 31 := by
  unfold monthLength
  split <;> first | omega | split_ifs <;> omega

lemma Instant.fits {t : Date} {secs nanos : ℕ} (h : Instant t secs nanos) :
    Fits timestampLayout (timestampFields t secs nanos) := by
  have hm := t.month_le
  have hd := t.day_le.trans (monthLength_le _ _)
  have hs := h.secs_lt
  have hy := h.year_lt
  refine ⟨?_, ?_, ?_, ?_, ?_, ?_, h.nanos_lt, trivial⟩ <;> omega

lemma format_eq_render {t : Date} {secs nanos : ℕ} (h : Instant t secs nanos) :
    zeroPadInt 4 t.year ++ utf8 "-" ++ zeroPad 2 t.month ++ utf8 "-" ++ zeroPad 2 t.day ++ utf8 "T" ++
      zeroPad 2 (secs / 3600) ++ utf8 ":" ++ zeroPad 2 (secs % 3600 / 60) ++ utf8 ":" ++
      zeroPad 2 (secs % 60) ++ utf8 "." ++ zeroPad 9 nanos ++ utf8 "Z" =
      render timestampLayout (timestampFields t secs nanos) := by
  obtain ⟨hy, hm, hd, hh, hmin, hs, hn, -⟩ := h.fits
  have hyear : zeroPadInt 4 t.year = zeroPad 4 t.year.toNat := by
    have h0 := h.year_nonneg
    rw [zeroPadInt, if_neg (by omega), show t.year.natAbs = t.year.toNat by omega]
  rw [hyear, zeroPad_eq hy, zeroPad_eq hm, zeroPad_eq hd, zeroPad_eq hh, zeroPad_eq hmin, zeroPad_eq hs,
    zeroPad_eq hn]
  simp only [render, timestampLayout, timestampFields, List.append_assoc, List.append_nil]

lemma year_bounds {t : Date} (h0 : 0 ≤ t.dayNumber) (h : t.dayNumber ≤ 213503) : 0 ≤ t.year ∧ t.year < 10000 := by
  have hyear := t.within_year
  have hday := t.day_pos
  have h1970 : daysBeforeYear 1970 = 0 := by rw [daysBeforeYear_eq]; decide
  have h10000 : daysBeforeYear 10000 = 2932897 := by rw [daysBeforeYear_eq]; decide
  simp only [Date.dayNumber] at h0 h
  constructor
  · by_contra hneg
    have hle : daysBeforeYear (t.year + 1) ≤ daysBeforeYear 1970 := daysBeforeYear_mono (by omega)
    rw [daysBeforeYear_succ, h1970] at hle
    omega
  · by_contra hlarge
    have hle : daysBeforeYear 10000 ≤ daysBeforeYear t.year := daysBeforeYear_mono (by omega)
    rw [h10000] at hle
    omega

lemma formatTimestamp_eq (nanos : UInt64) :
    ∃ t : Date, t.dayNumber = (nanos.toNat / 1000000000 / 86400 : ℕ) ∧
      Instant t (nanos.toNat / 1000000000 % 86400) (nanos.toNat % 1000000000) ∧
      formatTimestamp nanos = render timestampLayout
        (timestampFields t (nanos.toNat / 1000000000 % 86400) (nanos.toNat % 1000000000)) := by
  obtain ⟨total, htotal⟩ : ∃ total, nanos.toNat / 1000000000 = total := ⟨_, rfl⟩
  have hmax : total ≤ 18446744073 := by
    have hn := nanos.toNat_lt
    omega
  have hdays : asI32 ((total : ℤ) / 86400) = (total / 86400 : ℕ) := by
    rw [asI32_eq ⟨by omega, by omega⟩]
    omega
  have hsecs : asU32 ((total : ℤ) % 86400) = total % 86400 := by
    have hs := @asU32_eq ((total : ℤ) % 86400) (by omega) (by omega)
    omega
  obtain ⟨t, hcivil, hday⟩ := civilFromDays_eq (total / 86400 : ℕ)
  obtain ⟨hy0, hy⟩ := year_bounds (t := t) (by omega) (by omega)
  rw [htotal]
  have hinst : Instant t (total % 86400) (nanos.toNat % 1000000000) := by
    constructor <;> omega
  refine ⟨t, hday, hinst, ?_⟩
  rw [← format_eq_render hinst]
  simp only [formatTimestamp, htotal, hdays, hsecs, hcivil]

lemma fields_lt {s t : Date} {secs secs' nanos nanos' : ℕ} (hy : 0 ≤ s.year)
    (h : s.Before t ∨ s = t ∧ (secs < secs' ∨ secs = secs' ∧ nanos < nanos')) :
    timestampFields s secs nanos < timestampFields t secs' nanos' := by
  simp only [timestampFields, List.cons_lt_cons_iff, List.lt_irrefl, and_false, or_false]
  rcases h with (hlt | ⟨hyear, hlt⟩) | ⟨rfl, h⟩
  · left
    omega
  · rw [hyear]
    tauto
  · omega

lemma formatTimestamp_lt {a b : UInt64} (h : a < b) : formatTimestamp a < formatTimestamp b := by
  obtain ⟨s, hs, hsi, hsf⟩ := formatTimestamp_eq a
  obtain ⟨t, ht, hti, htf⟩ := formatTimestamp_eq b
  have hab : a.toNat < b.toNat := UInt64.lt_iff_toNat_lt.mp h
  rw [hsf, htf]
  apply render_lt hsi.fits hti.fits
  apply fields_lt hsi.year_nonneg
  rcases Nat.lt_or_ge (a.toNat / 1000000000 / 86400) (b.toNat / 1000000000 / 86400) with hlt | hge
  · left
    apply dayNumber_lt_iff.mp
    omega
  · right
    refine ⟨dayNumber_injective ?_, ?_⟩ <;> omega

lemma formatTimestamp_length (nanos : UInt64) : (formatTimestamp nanos).length = 30 := by
  obtain ⟨t, -, hi, hf⟩ := formatTimestamp_eq nanos
  rw [hf, render_length hi.fits]
  decide

theorem timestamps_sort (a b : UInt64) :
    (formatTimestamp a).length = 30 ∧ (a < b ↔ formatTimestamp a < formatTimestamp b) ∧
      (formatTimestamp a = formatTimestamp b ↔ a = b) := by
  refine ⟨?_, ⟨formatTimestamp_lt, fun h => ?_⟩, fun h => ?_, fun h => h ▸ rfl⟩
  · obtain ⟨t, -, hi, hf⟩ := formatTimestamp_eq a
    rw [hf, render_length hi.fits]
    decide
  · have hle : a ≤ b := UInt64.not_lt.mp fun hba => List.lt_asymm h (formatTimestamp_lt hba)
    rcases UInt64.lt_or_eq_of_le hle with hab | rfl
    · exact hab
    · exact (List.lt_irrefl _ h).elim
  · by_contra hne
    rcases UInt64.lt_or_lt_of_ne hne with hab | hba
    · have hlt := formatTimestamp_lt hab
      rw [h] at hlt
      exact List.lt_irrefl _ hlt
    · have hlt := formatTimestamp_lt hba
      rw [h] at hlt
      exact List.lt_irrefl _ hlt

end InqJet
