import InqJet.Lib.FormatSpec
import InqJet.Macros.FormatString

namespace InqJet

open FormatGrammar

variable {lex : Lexicon}

def specTrait : SpecType → FormatTrait
  | .display => .display
  | .debug | .debugLowerHex | .debugUpperHex => .debug
  | .lowerHex => .lowerHex
  | .upperHex => .upperHex
  | .octal => .octal
  | .binary => .binary
  | .lowerExp => .lowerExp
  | .upperExp => .upperExp
  | .pointer => .pointer

def typeChars : List Char := ['?', 'x', 'X', 'o', 'b', 'e', 'E', 'p']

lemma trait_other {cs : List Char} (h : ∀ c, cs.getLast? = some c → c ∉ typeChars) :
    formatTraitFromSpec cs = .display := by
  unfold formatTraitFromSpec
  split
  case h_9 => rfl
  all_goals
    have hlast := ‹cs.getLast? = some _›
    exact (h _ hlast (by decide)).elim

lemma closing_not_type {c : Char} (h : Closing c) : c ∉ typeChars := by
  intro hm
  have hall : (typeChars.all fun d => !(d.isDigit || (':' :: '$' :: marks).contains d)) = true := rfl
  have hc := List.all_eq_true.mp hall c hm
  rcases h with h | h
  · simp [h] at hc
  · simp [h] at hc

lemma white_not_type {c : Char} (hwhite : ∀ c, lex.white c = true → c.isAlpha = false)
    (h : lex.white c = true) : c ∉ typeChars := by
  intro hm
  have hall : (typeChars.all fun d => special.contains d || d.isAlpha) = true := rfl
  have hc := List.all_eq_true.mp hall c hm
  simp [(lex.white_plain c h).1, hwhite c h] at hc

lemma specTrait_display {t : SpecType} : specTrait t = .display ↔ t = .display := by
  cases t <;> decide

lemma specTrait_pointer {t : SpecType} : specTrait t = .pointer ↔ t = .pointer := by
  cases t <;> decide

lemma trait_pointer_iff {cs : List Char} : formatTraitFromSpec cs = .pointer ↔ cs.getLast? = some 'p' := by
  unfold formatTraitFromSpec
  split <;> simp_all

lemma typeChars_last {t : SpecType} (h : t ≠ .display) : ∃ c ∈ typeChars, t.source.getLast? = some c := by
  cases t with
  | display => exact absurd rfl h
  | _ =>
    refine ⟨_, ?_, rfl⟩
    decide

lemma trait_of_spec (s : Spec lex) : formatTraitFromSpec (':' :: s.source) = specTrait s.type := by
  cases ht : s.type with
  | display =>
    apply trait_other
    intro c hc
    rw [s.source_split, ht, SpecType.source, List.append_nil] at hc
    exact closing_not_type (s.endsClosing c hc)
  | debugLowerHex | debugUpperHex | debug | lowerHex | upperHex | octal | binary | lowerExp | upperExp
  | pointer =>
    rw [s.source_split, ht, formatTraitFromSpec, List.getLast?_append]
    rfl

lemma trait_before_white (hwhite : ∀ c, lex.white c = true → c.isAlpha = false) (cs : List Char)
    {ws : List Char} (hws : ∀ c ∈ ws, lex.white c = true) (hne : ws ≠ []) :
    formatTraitFromSpec (cs ++ ws) = .display := by
  apply trait_other
  intro c hc
  rw [List.getLast?_append, List.getLast?_eq_some_getLast hne, Option.some_or] at hc
  obtain rfl := Option.some.inj hc
  exact white_not_type hwhite (hws _ (List.getLast_mem hne))

/-- The last character decides, so white space behind the spec turns every trait into `Display`. -/
theorem spec_trait_iff (hwhite : ∀ c, lex.white c = true → c.isAlpha = false) (s : Spec lex)
    {ws : List Char} (hws : ∀ c ∈ ws, lex.white c = true) :
    formatTraitFromSpec (':' :: s.source ++ ws) = specTrait s.type ↔ s.type = .display ∨ ws = [] := by
  by_cases hne : ws = []
  · subst hne
    rw [List.append_nil]
    exact iff_of_true (trait_of_spec s) (.inr rfl)
  · rw [trait_before_white hwhite _ hws hne, or_iff_left hne, eq_comm]
    exact specTrait_display

lemma ascii_white_not_alpha {c : Char} (h : ascii.white c = true) : c.isAlpha = false := by
  have hw : c.isWhitespace = true := h
  simp only [Char.isWhitespace, Bool.or_eq_true, decide_eq_true_eq] at hw
  rcases hw with ((rfl | rfl) | rfl) | rfl <;> decide

def filledDebug : Spec ascii where
  align := some (some 'x', .left)
  sign := none
  alternate := true
  zero := false
  width := some (.integer ⟨['6'], List.cons_ne_nil _ _, List.forall_mem_singleton.mpr rfl⟩)
  precision := none
  type := .debugLowerHex

theorem spec_trait_iff_filled :
    formatTraitFromSpec (':' :: filledDebug.source ++ [' ']) = specTrait filledDebug.type ↔
      filledDebug.type = .display ∨ [' '] = [] :=
  spec_trait_iff (fun _ => ascii_white_not_alpha) filledDebug (List.forall_mem_singleton.mpr rfl)

def bareDebug : Spec ascii := ⟨none, none, false, false, none, none, .debug⟩

theorem blank_hides_debug :
    ':' :: bareDebug.source ++ [' '] = ":? ".toList ∧ (∀ c ∈ [' '], ascii.white c = true) ∧
      formatTraitFromSpec ":? ".toList = .display ∧ specTrait bareDebug.type = .debug :=
  ⟨by decide, List.forall_mem_singleton.mpr rfl, by decide, rfl⟩

end InqJet
