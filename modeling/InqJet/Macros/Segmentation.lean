import InqJet.Lib.FormatSpec
import InqJet.Macros.FormatString

namespace InqJet

open FormatGrammar

variable {lex : Lexicon}

def Segmented (ps : List (Piece lex)) (res : Except String (List PlaceholderInfo)) : Prop :=
  if ∃ p ∈ placeholders ps, p.argument.isSome = true then ∃ e, res = .error e
  else ∃ infos, res = .ok infos ∧ infos.map PlaceholderInfo.inner = (placeholders ps).map Placeholder.inner

/-- What the scanner collects of a placeholder: it stops at the first closing brace, also at a fill. -/
def cut (p : Placeholder lex) : List Char :=
  if p.fill = some '}' then p.argument.elim [] Argument.source ++ [':'] else p.inner

lemma scan_other {c : Char} (h : c ≠ '{' ∧ c ≠ '}') (cs : List Char) : scan none (c :: cs) = scan none cs := by
  simp [scan, h.1, h.2]

lemma scan_stray {cs : List Char} (h : cs.head? ≠ some '}') : scan none ('}' :: cs) = scan none cs := by
  cases cs with
  | nil => rfl
  | cons c cs =>
    have hc : c ≠ '}' := by simpa using h
    simp [scan, hc]

lemma scan_noBraces {cs : List Char} (h : NoBraces cs) (rest : List Char) :
    scan none (cs ++ rest) = scan none rest := by
  induction cs with
  | nil => rfl
  | cons c cs ih =>
    obtain ⟨hc, hcs⟩ := List.forall_mem_cons.mp h
    rw [List.cons_append, scan_other hc, ih hcs]

lemma source_cons (p : Piece lex) (ps : List (Piece lex)) : source (p :: ps) = p.source ++ source ps := rfl

lemma scan_leftover (ps : List (Piece lex)) : scan none ('}' :: source ps) = scan none (source ps) := by
  induction ps with
  | nil => rfl
  | cons p ps ih =>
    rw [source_cons]
    cases p with
    | arg p => exact scan_stray (by simp [Piece.source])
    | literal c =>
      by_cases hc : c = '}'
      · subst hc
        have hescape (cs : List Char) : scan none ('}' :: '}' :: cs) = scan none cs := by simp [scan]
        simp only [Piece.source, or_true, if_true, List.cons_append, List.nil_append]
        rw [hescape, hescape, ih]
      · apply scan_stray
        simp only [Piece.source]
        split_ifs <;> simp [hc]

lemma argument_head (a : Argument lex) : ∃ c cs, a.source = c :: cs ∧ c ∉ special := by
  cases a with
  | index n =>
    obtain ⟨c, cs, hn⟩ := List.exists_cons_of_ne_nil n.nonempty
    refine ⟨c, cs, hn, fun hc => ?_⟩
    have hd := n.digits c (by rw [hn]; exact List.mem_cons_self)
    have hall : (special.all fun d => !d.isDigit) = true := rfl
    have hf := List.all_eq_true.mp hall c hc
    rw [hd] at hf
    cases hf
  | name x => exact ⟨x.first, x.rest, rfl, lex.continue_plain _ (lex.start_continue _ x.start)⟩

lemma inner_head (p : Placeholder lex) : p.inner.head? ≠ some '{' := by
  have hne {c : Char} (hc : c ∉ special) : c ≠ '{' := ne_of_plain hc (by decide)
  cases ha : p.argument with
  | some a =>
    obtain ⟨c, cs, hs, hc⟩ := argument_head a
    simp [Placeholder.inner, ha, hs, hne hc]
  | none =>
    cases hs : p.spec with
    | some s => simp [Placeholder.inner, ha, hs]
    | none =>
      cases hw : p.white with
      | nil => simp [Placeholder.inner, ha, hs, hw]
      | cons c cs =>
        have hc := (lex.white_plain c (p.white_ok c (by simp [hw]))).1
        simp [Placeholder.inner, ha, hs, hw, hne hc]

lemma fill_eq {p : Placeholder lex} {c : Char} (h : p.fill = some c) :
    ∃ s, p.spec = some s ∧ s.source = c :: (s.flags ++ s.type.source) := by
  obtain ⟨s, hs, ha⟩ := Option.bind_eq_some_iff.mp h
  exact ⟨s, hs, by rw [s.source_eq, ha, Option.toList_some, List.singleton_append]⟩

lemma noBraces_inner {p : Placeholder lex} (h : p.fill ≠ some '}') : '}' ∉ p.inner := by
  have hnot {cs : List Char} (hc : NoBraces cs) : '}' ∉ cs := fun hm => (hc _ hm).2 rfl
  have harg : '}' ∉ p.argument.elim [] Argument.source := by
    cases p.argument with
    | none => simp
    | some a => exact hnot a.noBraces
  have hspec : '}' ∉ p.spec.elim [] fun s => ':' :: s.source := by
    cases hs : p.spec with
    | none => simp
    | some s =>
      have hfill : '}' ∉ (s.align.bind Prod.fst).toList := by simpa [Placeholder.fill, hs] using h
      simpa [s.source_eq, hfill] using hnot s.noBraces_behindFill
  simp [Placeholder.inner, harg, hspec, hnot (noBraces_white p.white_ok)]

lemma inner_split (p : Placeholder lex) : '}' ∉ cut p ∧
    (p.inner = cut p ∨ ∃ more, NoBraces more ∧ p.inner = cut p ++ '}' :: more) := by
  by_cases hf : p.fill = some '}'
  · obtain ⟨s, hs, hsrc⟩ := fill_eq hf
    have hcut : cut p = p.argument.elim [] Argument.source ++ [':'] := if_pos hf
    refine ⟨?_, .inr ⟨s.flags ++ s.type.source ++ p.white, ?_, ?_⟩⟩
    · rw [hcut]
      cases p.argument with
      | none => simp
      | some a => simpa using fun hm => (a.noBraces _ hm).2 rfl
    · exact s.noBraces_behindFill.append (noBraces_white p.white_ok)
    · simp [hcut, Placeholder.inner, hs, hsrc]
  · have hcut : cut p = p.inner := if_neg hf
    exact ⟨hcut ▸ noBraces_inner hf, .inl hcut.symm⟩

lemma scan_placeholder (p : Placeholder lex) (ps : List (Piece lex)) :
    scan none (source (.arg p :: ps)) =
      (placeholderInfo (cut p)).bind fun i => (scan none (source ps)).map fun is => i :: is := by
  have hopen : (p.inner ++ '}' :: source ps).head? ≠ some '{' := by
    have hh := inner_head p
    cases hi : p.inner with
    | nil => simp
    | cons c cs => simpa [hi] using hh
  have hsrc : source (.arg p :: ps) = '{' :: (p.inner ++ '}' :: source ps) := by
    simp [source_cons, Piece.source]
  rw [hsrc, scan_open hopen]
  obtain ⟨hcut, hi | ⟨more, hm, hi⟩⟩ := inner_split p
  · rw [hi, scan_collect hcut, List.nil_append]
  · rw [hi, List.append_assoc, List.cons_append, scan_collect hcut, List.nil_append,
      scan_noBraces hm, scan_leftover]

lemma scan_literal (c : Char) (ps : List (Piece lex)) :
    scan none (source (.literal c :: ps)) = scan none (source ps) := by
  rw [source_cons, Piece.source]
  split_ifs with h
  · rcases h with rfl | rfl <;> simp [scan]
  · exact scan_other (not_or.mp h) _

lemma scan_source (ps : List (Piece lex)) :
    scan none (source ps) = (placeholders ps).mapM fun p => placeholderInfo (cut p) := by
  induction ps with
  | nil => rfl
  | cons p ps ih =>
    cases p with
    | literal c => rw [scan_literal, ih, placeholders]
    | arg p =>
      rw [scan_placeholder, ih, placeholders, List.mapM_cons]
      cases placeholderInfo (cut p) with
      | error e => rfl
      | ok i => cases (placeholders ps).mapM fun p => placeholderInfo (cut p) <;> rfl

section Except

variable {ε α β γ : Type} {f : α → Except ε β}

lemma mapM_error {as : List α} (h : ∃ a ∈ as, ∃ e, f a = .error e) : ∃ e, as.mapM f = .error e := by
  induction as with
  | nil => simp at h
  | cons a as ih =>
    rw [List.mapM_cons]
    cases hf : f a with
    | error e => exact ⟨e, rfl⟩
    | ok b =>
      obtain ⟨e, he⟩ := ih (by simpa [hf] using h)
      exact ⟨e, by rw [he]; rfl⟩

lemma mapM_eq_ok {as : List α} {bs : List β} :
    as.mapM f = .ok bs ↔ List.Forall₂ (fun a b => f a = .ok b) as bs := by
  induction as generalizing bs with
  | nil =>
    rw [List.forall₂_nil_left_iff]
    exact ⟨fun h => (Except.ok.inj h).symm, fun h => h ▸ rfl⟩
  | cons a as ih =>
    rw [List.mapM_cons, List.forall₂_cons_left_iff]
    simp only [← ih]
    cases f a with
    | error e => simp [bind, Except.bind]
    | ok b =>
      cases as.mapM f with
      | error e => simp [bind, Except.bind]
      | ok cs => simp [bind, Except.bind, pure, Except.pure, eq_comm]

lemma mapM_ok_iff {as : List α} {g : β → γ} {g' : α → γ} :
    (∃ bs, as.mapM f = .ok bs ∧ bs.map g = as.map g') ↔ ∀ a ∈ as, ∃ b, f a = .ok b ∧ g b = g' a := by
  simp only [mapM_eq_ok]
  induction as with
  | nil => exact ⟨by simp, fun _ => ⟨[], .nil, rfl⟩⟩
  | cons a as ih =>
    rw [List.forall_mem_cons, ← ih]
    constructor
    · rintro ⟨_, h, hg⟩
      obtain ⟨b, bs, hb, hbs, rfl⟩ := List.forall₂_cons_left_iff.mp h
      obtain ⟨hg, hgs⟩ := List.cons.inj hg
      exact ⟨⟨b, hb, hg⟩, bs, hbs, hgs⟩
    · rintro ⟨⟨b, hb, hg⟩, bs, hbs, hgs⟩
      exact ⟨b :: bs, .cons hb hbs, by rw [List.map_cons, List.map_cons, hg, hgs]⟩

end Except

lemma placeholderInfo_positional {inner : List Char} (h : inner = [] ∨ inner.head? = some ':') :
    placeholderInfo inner = .ok ⟨formatTraitFromSpec inner, inner⟩ := by
  cases inner with
  | nil => rfl
  | cons c cs =>
    obtain rfl : c = ':' := by simpa using h
    simp [placeholderInfo]

lemma placeholderInfo_rejects {c : Char} (hc : c ≠ ':') (cs : List Char) :
    ∃ e, placeholderInfo (c :: cs) = .error e := by
  cases h : placeholderInfo (c :: cs) with
  | error e => exact ⟨e, rfl⟩
  | ok i => simpa [hc] using (placeholderInfo_ok h).2

lemma argument_rejected {p : Placeholder lex} (h : p.argument.isSome = true) :
    ∃ e, placeholderInfo (cut p) = .error e := by
  obtain ⟨a, ha⟩ := Option.isSome_iff_exists.mp h
  obtain ⟨c, cs, hs, hc⟩ := argument_head a
  have hne : c ≠ ':' := ne_of_plain hc (by decide)
  have hcut : ∃ more, cut p = c :: more := by
    rw [cut]
    split_ifs
    · exact ⟨cs ++ [':'], by simp [ha, hs]⟩
    · exact ⟨_, by simp [Placeholder.inner, ha, hs]; rfl⟩
  obtain ⟨more, hm⟩ := hcut
  rw [hm]
  exact placeholderInfo_rejects hne more

lemma positional_read_iff {p : Placeholder lex} (h : p.argument = none) :
    (∃ i, placeholderInfo (cut p) = .ok i ∧ i.inner = p.inner) ↔
      p.fill ≠ some '}' ∧ (p.spec = none → p.white = []) := by
  constructor
  · rintro ⟨i, hi, hinner⟩
    obtain ⟨rfl, hpos⟩ := placeholderInfo_ok hi
    have hcut : cut p = p.inner := hinner
    refine ⟨fun hf => ?_, fun hs => ?_⟩
    · obtain ⟨s, hs, hsrc⟩ := fill_eq hf
      simp [cut, hf, h, Placeholder.inner, hs, hsrc] at hcut
    · have hi : p.inner = p.white := by simp [Placeholder.inner, h, hs]
      rw [hcut, hi] at hpos
      rcases hpos with hw | hw
      · exact hw
      · have hmem := p.white_ok ':' (List.mem_of_mem_head? hw)
        exact absurd (by decide) (lex.white_plain _ hmem).1
  · rintro ⟨hf, hs⟩
    have hcut : cut p = p.inner := if_neg hf
    refine ⟨_, placeholderInfo_positional ?_, hcut⟩
    rw [hcut]
    cases hp : p.spec with
    | none => exact .inl (by simp [Placeholder.inner, h, hp, hs hp])
    | some s => exact .inr (by simp [Placeholder.inner, h, hp])

theorem segmentation_agrees_iff (ps : List (Piece lex)) :
    Segmented ps (parseFormatPlaceholders (source ps)) ↔
      (∃ p ∈ placeholders ps, p.argument.isSome = true) ∨
        ∀ p ∈ placeholders ps, p.fill ≠ some '}' ∧ (p.spec = none → p.white = []) := by
  rw [Segmented, parseFormatPlaceholders, scan_source]
  by_cases harg : ∃ p ∈ placeholders ps, p.argument.isSome = true
  · have herr : ∃ p ∈ placeholders ps, ∃ e, placeholderInfo (cut p) = .error e := by
      obtain ⟨p, hp, ha⟩ := harg
      exact ⟨p, hp, argument_rejected ha⟩
    rw [if_pos harg]
    exact iff_of_true (mapM_error herr) (.inl harg)
  · have hnone : ∀ p ∈ placeholders ps, p.argument = none := by
      intro p hp
      exact Option.not_isSome_iff_eq_none.mp fun ha => harg ⟨p, hp, ha⟩
    rw [if_neg harg, mapM_ok_iff, or_iff_right harg]
    exact forall₂_congr fun p hp => positional_read_iff (hnone p hp)

def braceFilled : Placeholder ascii where
  argument := none
  spec := some ⟨some (some '}', .right), none, false, false,
    some (.integer ⟨['5'], List.cons_ne_nil _ _, List.forall_mem_singleton.mpr rfl⟩), none, .display⟩
  white := []
  white_ok := white_nil ascii

def blank : Placeholder ascii where
  argument := none
  spec := none
  white := [' ']
  white_ok := List.forall_mem_singleton.mpr rfl

/-- `{:}>5}` right-aligns with closing braces, but the macro takes `{:}` and the text `>5}`; `{ }` is
an empty placeholder, but the macro takes the blank for a name. -/
theorem segments_go_wrong :
    (source [.arg braceFilled] = ['{', ':', '}', '>', '5', '}'] ∧
      ¬ Segmented [.arg braceFilled] (parseFormatPlaceholders ['{', ':', '}', '>', '5', '}'])) ∧
    source [.arg blank] = "{ }".toList ∧
      ¬ Segmented [.arg blank] (parseFormatPlaceholders "{ }".toList) := by
  refine ⟨⟨rfl, ?_⟩, rfl, ?_⟩
  · have hparse : parseFormatPlaceholders ['{', ':', '}', '>', '5', '}'] = .ok [⟨.display, [':']⟩] := by decide
    rw [hparse]
    simp [Segmented, placeholders, Placeholder.inner, braceFilled, Spec.source, Align.source]
  · have hparse : (parseFormatPlaceholders "{ }".toList).toOption = none := by decide
    rw [Segmented, if_neg (by simp [placeholders, blank])]
    rintro ⟨infos, hok, -⟩
    rw [hok] at hparse
    cases hparse

end InqJet
