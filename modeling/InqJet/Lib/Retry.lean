import Mathlib.Tactic

/-! Loops that try until an attempt succeeds or a check between two attempts fails. -/

namespace Retry

variable {α : Type*} (attempt : ℕ → Option α) (stay : ℕ → Bool)

/-- At most `fuel` attempts from number `i` on; `none` as long as it has not been left. -/
def retry : ℕ → ℕ → Option (Option α)
  | 0, _ => none
  | fuel + 1, i =>
    match attempt i with
    | some a => some (some a)
    | none => if stay i then retry fuel (i + 1) else some none

variable {attempt stay}

lemma retry_skip {n i fuel : ℕ} (h : ∀ j < n, attempt (i + j) = none ∧ stay (i + j) = true) :
    retry attempt stay (n + fuel) i = retry attempt stay fuel (i + n) := by
  induction n generalizing i with
  | zero => simp
  | succ n ih =>
    have h0 := h 0 (Nat.succ_pos n)
    have hnext := ih (i := i + 1) fun j hj => by
      have hh := h (j + 1) (by omega)
      rwa [Nat.add_comm j 1, ← Nat.add_assoc] at hh
    rw [Nat.add_zero] at h0
    rw [show n + 1 + fuel = n + fuel + 1 by omega, retry, h0.1, show i + (n + 1) = i + 1 + n by omega, ← hnext]
    simp [h0.2]

theorem retry_success_iff {i : ℕ} {a : α} : (∃ fuel, retry attempt stay fuel i = some (some a)) ↔
    ∃ n, attempt (i + n) = some a ∧ ∀ j < n, attempt (i + j) = none ∧ stay (i + j) = true := by
  constructor
  · rintro ⟨fuel, h⟩
    induction fuel generalizing i with
    | zero => cases h
    | succ fuel ih =>
      rw [retry] at h
      cases hi : attempt i with
      | some b =>
        simp only [hi, Option.some.injEq] at h
        exact ⟨0, by rw [Nat.add_zero, hi, h], by simp⟩
      | none =>
        simp only [hi] at h
        split_ifs at h with hs
        · obtain ⟨n, hn, hbefore⟩ := ih h
          refine ⟨n + 1, by rwa [Nat.add_comm n 1, ← Nat.add_assoc], fun j hj => ?_⟩
          cases j with
          | zero => exact ⟨hi, hs⟩
          | succ j =>
            have hh := hbefore j (by omega)
            rwa [Nat.add_comm j 1, ← Nat.add_assoc]
        · cases Option.some.inj h
  · rintro ⟨n, hn, hbefore⟩
    refine ⟨n + 1, ?_⟩
    rw [retry_skip hbefore, retry, hn]

theorem retry_first_iff (hs : ∀ i, stay i = true) {p : α → Prop} :
    (∃ fuel a, retry attempt stay fuel 0 = some (some a) ∧ p a) ↔
      ∃ n a, attempt n = some a ∧ (∀ j < n, attempt j = none) ∧ p a := by
  constructor
  · rintro ⟨fuel, a, h, hp⟩
    obtain ⟨n, hn, hbefore⟩ := retry_success_iff.mp ⟨fuel, h⟩
    simp only [Nat.zero_add] at hn hbefore
    exact ⟨n, a, hn, fun j hj => (hbefore j hj).1, hp⟩
  · rintro ⟨n, a, hn, hbefore, hp⟩
    obtain ⟨fuel, h⟩ := (@retry_success_iff _ attempt stay 0 a).mpr
      ⟨n, by rwa [Nat.zero_add], fun j hj => by rw [Nat.zero_add]; exact ⟨hbefore j hj, hs j⟩⟩
    exact ⟨fuel, a, h, hp⟩

lemma retry_never {fuel i : ℕ} (ha : ∀ j, attempt j = none) (hs : ∀ j, stay j = true) :
    retry attempt stay fuel i = none := by
  induction fuel generalizing i with
  | zero => rfl
  | succ fuel ih =>
    rw [retry, ha i]
    simp [hs i, ih]

end Retry
