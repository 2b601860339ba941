import Mathlib.Tactic

/-! Zero-padded decimal numbers of fixed widths, written one after the other: as byte strings they
are ordered as the numbers are. -/

namespace FixedWidth

def digits : ℕ → ℕ → List UInt8
  | 0, _ => []
  | w + 1, n => digits w (n / 10) ++ [UInt8.ofNat (48 + n % 10)]

def render : List (ℕ × List UInt8) → List ℕ → List UInt8
  | (w, sep) :: layout, n :: ns => digits w n ++ sep ++ render layout ns
  | _, _ => []

def Fits : List (ℕ × List UInt8) → List ℕ → Prop
  | [], [] => True
  | (w, _) :: layout, n :: ns => n < 10 ^ w ∧ Fits layout ns
  | _, _ => False

def width (layout : List (ℕ × List UInt8)) : ℕ := (layout.map fun p => p.1 + p.2.length).sum

@[simp] lemma digits_length (w n : ℕ) : (digits w n).length = w := by
  induction w generalizing n with
  | zero => rfl
  | succ w ih => simp [digits, ih]

lemma render_length {layout : List (ℕ × List UInt8)} {ns : List ℕ} (h : Fits layout ns) :
    (render layout ns).length = width layout := by
  induction layout generalizing ns with
  | nil => cases ns <;> rfl
  | cons p layout ih =>
    obtain ⟨w, sep⟩ := p
    cases ns with
    | nil => exact h.elim
    | cons n ns => simp [render, width, ih h.2, Nat.add_assoc]

lemma append_lt_append {α : Type*} [LT α] {a b : List α} (c d : List α) (hl : a.length = b.length) (h : a < b) :
    a ++ c < b ++ d := by
  induction a generalizing b with
  | nil =>
    obtain rfl := List.eq_nil_of_length_eq_zero hl.symm
    cases h
  | cons x a ih =>
    cases b with
    | nil => cases hl
    | cons y b =>
      rw [List.cons_append, List.cons_append, List.cons_lt_cons_iff]
      rcases List.cons_lt_cons_iff.mp h with hxy | ⟨hxy, hab⟩
      · exact .inl hxy
      · exact .inr ⟨hxy, ih (Nat.succ.inj hl) hab⟩

lemma digits_lt {w m n : ℕ} (h : m < n) (hn : n < 10 ^ w) : digits w m < digits w n := by
  induction w generalizing m n with
  | zero => simp at hn; omega
  | succ w ih =>
    rw [digits, digits]
    rcases Nat.lt_or_ge (m / 10) (n / 10) with hlt | hge
    · apply append_lt_append
      · rw [digits_length, digits_length]
      · apply ih hlt
        rw [pow_succ] at hn
        omega
    · rw [show m / 10 = n / 10 by omega]
      apply List.append_left_lt
      apply List.cons_lt_cons_iff.mpr
      left
      rw [UInt8.lt_iff_toNat_lt, UInt8.toNat_ofNat', UInt8.toNat_ofNat']
      omega

theorem render_lt {layout : List (ℕ × List UInt8)} {ms ns : List ℕ} (hm : Fits layout ms) (hn : Fits layout ns)
    (h : ms < ns) : render layout ms < render layout ns := by
  induction layout generalizing ms ns with
  | nil =>
    cases ms with
    | nil => cases ns with
      | nil => exact (lt_irrefl _ h).elim
      | cons => exact hn.elim
    | cons => exact hm.elim
  | cons p layout ih =>
    obtain ⟨w, sep⟩ := p
    cases ms with
    | nil => exact hm.elim
    | cons m ms =>
      cases ns with
      | nil => exact hn.elim
      | cons n ns =>
        simp only [render, List.append_assoc]
        rcases List.cons_lt_cons_iff.mp h with hlt | ⟨rfl, hlt⟩
        · apply append_lt_append _ _ _ (digits_lt hlt hn.1)
          rw [digits_length, digits_length]
        · apply List.append_left_lt
          apply List.append_left_lt
          exact ih hm.2 hn.2 hlt

end FixedWidth
