import InqJet.HotPath.Agreement
import InqJet.Macros.Segmentation
import InqJet.Macros.SpecTrait

/-! The texts of fallback arguments: the closure formats a reference to the argument, not the argument. -/

namespace InqJet

open FormatGrammar

variable {lex : Lexicon}

/-- An argument with the addresses that its references and raw pointers hold. A value behind them
has impls of its own. -/
inductive ArgValue (Val : Type)
  | value (v : Val)
  | rawPointer (address : ℕ)
  | ref (address : ℕ) (referent : ArgValue Val)

/-- What `std::fmt` writes under a placeholder's text, `none` where a type lacks the trait. `fmtRaw` is
for raw pointers under other types than `p`. Padding never makes all addresses look the same. -/
structure StdFormat (lex : Lexicon) where
  Val : Type
  fmt : List Char → Val → Option String
  fmtRaw : List Char → ℕ → Option String
  fmtAddress : List Char → ℕ → String
  addresses_differ : ∀ p : Placeholder lex, fmtAddress p.inner 4096 ≠ fmtAddress p.inner 8192

/-- References are transparent for every trait but `Pointer`. -/
def StdFormat.text (S : StdFormat lex) (p : Placeholder lex) : ArgValue S.Val → Option String
  | .value v => S.fmt p.inner v
  | .rawPointer address =>
    if p.type = .pointer then some (S.fmtAddress p.inner address) else S.fmtRaw p.inner address
  | .ref address referent =>
    if p.type = .pointer then some (S.fmtAddress p.inner address) else S.text p referent

def formatAccepted {α : Type} (fmt : Placeholder lex → α → Option String) :
    List (Piece lex) → List α → Option String
  | [], [] => some ""
  | [], _ :: _ => none
  | .literal c :: ps, as => (formatAccepted fmt ps as).map fun s => String.singleton c ++ s
  | .arg p :: ps, a :: as => (fmt p a).bind fun t => (formatAccepted fmt ps as).map fun s => t ++ s
  | .arg _ :: _, [] => none

/-- `write!(__stash, closure_fmt, __vN)` with `__vN = &(arg)` and the argument stored at `place`. -/
def stashText (reader : Reader lex) (S : StdFormat lex) (place : ℕ) (arg : ArgValue S.Val)
    (info : PlaceholderInfo) : Option String :=
  (reader.read (closureFmt info)).bind fun pieces => formatAccepted S.text pieces [.ref place arg]

def plain : Placeholder lex where
  argument := none
  spec := some ⟨none, none, false, false, none, none, .display⟩
  white := []
  white_ok := white_nil lex

def written (p : Placeholder lex) : Placeholder lex := if p.fill = some '}' then plain else p

lemma info_of_parse {ps : List (Piece lex)} {infos : List PlaceholderInfo} {p : Placeholder lex}
    {info : PlaceholderInfo} (h : parseFormatPlaceholders (source ps) = .ok infos)
    (hp : (p, info) ∈ (placeholders ps).zip infos) :
    p.argument = none ∧ info.inner = cut p ∧ Positional (cut p) := by
  rw [parseFormatPlaceholders, scan_source] at h
  have hi : placeholderInfo (cut p) = .ok info := List.forall₂_zip (mapM_eq_ok.mp h) hp
  obtain ⟨he, hpos⟩ := placeholderInfo_ok hi
  have harg : p.argument = none := by
    apply Option.not_isSome_iff_eq_none.mp
    intro ha
    obtain ⟨e, herr⟩ := argument_rejected ha
    rw [herr] at hi
    cases hi
  exact ⟨harg, congrArg PlaceholderInfo.inner he, (inner_split p).1, hpos⟩

lemma written_inner {p : Placeholder lex} (h : p.argument = none) : (written p).inner = cut p := by
  rw [written, cut]
  split_ifs
  · simp [plain, Placeholder.inner, h, Spec.source, SpecType.source]
  · rfl

lemma positional_argument {p : Placeholder lex} (h : Positional p.inner) : p.argument = none := by
  cases ha : p.argument with
  | none => rfl
  | some a =>
    obtain ⟨c, cs, hs, hc⟩ := argument_head a
    have hne : c ≠ ':' := ne_of_plain hc (by decide)
    simp [Positional, Placeholder.inner, ha, hs, hne] at h

section White

variable (hwhite : ∀ c, lex.white c = true → c.isAlpha = false)

include hwhite in
lemma spec_ends_solid (s : Spec lex) : ∃ c, (':' :: s.source).getLast? = some c ∧ lex.white c = false := by
  rw [s.source_split]
  by_cases ht : s.type = .display
  · rw [ht, SpecType.source, List.append_nil]
    refine ⟨_, List.getLast?_eq_some_getLast (by simp), ?_⟩
    exact closing_not_white (s.endsClosing _ (List.getLast?_eq_some_getLast _))
  · obtain ⟨c, hc, hlast⟩ := typeChars_last ht
    refine ⟨c, by rw [List.getLast?_append, hlast, Option.some_or], ?_⟩
    rw [Bool.eq_false_iff]
    exact fun hw => white_not_type hwhite hw hc

include hwhite in
lemma type_pointer_iff {p : Placeholder lex} (h : p.argument = none) :
    p.type = .pointer ↔ lastSolid lex.white p.inner = some 'p' := by
  cases hs : p.spec with
  | none =>
    have hi : p.inner = [] ++ p.white := by simp [Placeholder.inner, h, hs]
    rw [hi, lastSolid_append p.white_ok]
    simp [Placeholder.type, hs, lastSolid]
  | some s =>
    have hi : p.inner = ':' :: s.source ++ p.white := by simp [Placeholder.inner, h, hs]
    obtain ⟨c, hc, hw⟩ := spec_ends_solid hwhite s
    have ht : p.type = s.type := by simp [Placeholder.type, hs]
    rw [hi, lastSolid_append p.white_ok, lastSolid_of_getLast hc hw, ht, ← specTrait_pointer, ← trait_of_spec,
      trait_pointer_iff, hc]

include hwhite in
lemma text_congr (S : StdFormat lex) {p q : Placeholder lex} (hp : p.argument = none) (hq : q.argument = none)
    (h : q.inner = p.inner) (arg : ArgValue S.Val) : S.text q arg = S.text p arg := by
  have ht : q.type = .pointer ↔ p.type = .pointer := by
    rw [type_pointer_iff hwhite hp, type_pointer_iff hwhite hq, h]
  induction arg with
  | value v => rw [StdFormat.text, StdFormat.text, h]
  | rawPointer address => simp only [StdFormat.text, h, ht]
  | ref address referent ih => simp only [StdFormat.text, h, ht, ih]

include hwhite in
lemma stashText_eq (reader : Reader lex) (S : StdFormat lex) (place : ℕ) (arg : ArgValue S.Val)
    {p : Placeholder lex} {info : PlaceholderInfo} (hp : p.argument = none) (hi : info.inner = cut p)
    (hpos : Positional (cut p)) : stashText reader S place arg info = S.text (written p) (.ref place arg) := by
  have hw := written_inner hp
  rw [← hw] at hpos
  have ho : (written p).inner.head? ≠ some '{' := by rcases hpos.2 with h | h <;> simp [h]
  obtain ⟨q, hq, hinner⟩ := reader.read_braced (written p) hpos.1 ho
  have htext := text_congr hwhite S (positional_argument hpos) (positional_argument (hinner ▸ hpos)) hinner
    (.ref place arg)
  rw [stashText, closureFmt, hi, ← hw, hq, Option.bind_some, formatAccepted, formatAccepted, htext]
  simp only [Option.map_some, String.append_empty]
  exact Option.bind_fun_some _

end White

lemma text_ref (S : StdFormat lex) {p : Placeholder lex} (h : p.type ≠ .pointer) (place : ℕ)
    (arg : ArgValue S.Val) : S.text p (.ref place arg) = S.text p arg := by
  rw [StdFormat.text, if_neg h]

/-- Whatever the address of the argument is, the closure stashes the argument's own text, and the
consumer prints it, unless the placeholder is a `{:p}` or is cut short. -/
theorem fallback_text_iff (hwhite : ∀ c, lex.white c = true → c.isAlpha = false) (reader : Reader lex)
    (S : StdFormat lex) (F : StrFormat lex) {ps : List (Piece lex)} {infos : List PlaceholderInfo}
    (hparse : parseFormatPlaceholders (source ps) = .ok infos) {p : Placeholder lex} {info : PlaceholderInfo}
    (hp : (p, info) ∈ (placeholders ps).zip infos) {arg : ArgValue S.Val} {text : String}
    (ht : S.text p arg = some text) :
    (∀ place, stashText reader S place arg info = some text ∧ (Value.preFormatted text).fmt F p.inner = text) ↔
      (p.fill = some '}' → S.text plain arg = some text) ∧ (p.fill ≠ some '}' → p.type ≠ .pointer) := by
  obtain ⟨harg, hinner, hpos⟩ := info_of_parse hparse hp
  simp only [stashText_eq hwhite reader S _ arg harg hinner hpos, Value.fmt, and_true]
  by_cases hf : p.fill = some '}'
  · have hw : written p = plain := if_pos hf
    have hplain : (plain : Placeholder lex).type ≠ .pointer := by simp [plain, Placeholder.type]
    simp [hw, hf, text_ref S hplain]
  · have hw : written p = p := if_neg hf
    rw [hw]
    by_cases hptr : p.type = .pointer
    · have hno : ¬ ∀ place, S.text p (.ref place arg) = some text := by
        intro h
        have h₁ := h 4096
        have h₂ := h 8192
        rw [StdFormat.text, if_pos hptr] at h₁ h₂
        exact S.addresses_differ p (Option.some.inj (h₁.trans h₂.symm))
      simp [hno, hf, hptr]
    · simp [text_ref S hptr, ht, hf, hptr]

def hexAddress (address : ℕ) : String := "0x" ++ String.ofList (Nat.toDigits 16 address)

def vecFormat : StdFormat ascii where
  Val := List ℕ
  fmt inner v := if inner.getLast? = some '?' then some (toString v) else none
  fmtRaw inner address := if inner.getLast? = some '?' then some (hexAddress address) else none
  fmtAddress _ := hexAddress
  addresses_differ _ := by decide

def bare (t : SpecType) : Placeholder ascii where
  argument := none
  spec := some ⟨none, none, false, false, none, none, t⟩
  white := []
  white_ok := white_nil ascii

theorem fallback_text_iff_vec :
    (∀ place, stashText (.preferring [.arg (bare .debug)]) vecFormat place (.ref 8192 (.value ([1, 2] : List ℕ)))
        ⟨.debug, [':', '?']⟩ = some "[1, 2]" ∧
      (Value.preFormatted "[1, 2]").fmt strFormat (bare .debug).inner = "[1, 2]") ↔
      ((bare .debug).fill = some '}' → vecFormat.text plain (.ref 8192 (.value ([1, 2] : List ℕ))) = some "[1, 2]") ∧
        ((bare .debug).fill ≠ some '}' → (bare .debug).type ≠ .pointer) :=
  fallback_text_iff (fun _ => ascii_white_not_alpha) _ vecFormat strFormat
    (show parseFormatPlaceholders (source [.arg (bare .debug)]) = .ok [⟨.debug, [':', '?']⟩] by decide)
    (List.mem_singleton.mpr rfl) (by decide)

/-- A reference to a vector at 8192, itself stored at 4096: `{:p}` should print what it holds. -/
theorem pointer_to_the_reference :
    parseFormatPlaceholders "{:p}".toList = .ok [⟨.pointer, [':', 'p']⟩] ∧
      vecFormat.text (bare .pointer) (.ref 8192 (.value ([1, 2] : List ℕ))) = some "0x2000" ∧
      stashText (.preferring [.arg (bare .pointer)]) vecFormat 4096 (.ref 8192 (.value ([1, 2] : List ℕ)))
        ⟨.pointer, [':', 'p']⟩ = some "0x1000" := by
  refine ⟨by decide, by decide, ?_⟩
  have hfmt : closureFmt ⟨.pointer, [':', 'p']⟩ = source [.arg (bare .pointer)] := rfl
  rw [stashText, hfmt, Reader.preferring_read]
  decide

end InqJet
