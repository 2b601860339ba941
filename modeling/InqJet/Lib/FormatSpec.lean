import InqJet.Lib.FormatGrammar

namespace FormatGrammar

variable {lex : Lexicon}

def Placeholder.fill (p : Placeholder lex) : Option Char :=
  p.spec.bind fun s => s.align.bind Prod.fst

def Spec.flags (s : Spec lex) : List Char :=
  (s.align.map fun a => a.2.source).toList ++ (s.sign.map Sign.source).toList ++
    (if s.alternate then ['#'] else []) ++ (if s.zero then ['0'] else []) ++
    (s.width.elim [] Count.source) ++ (s.precision.elim [] fun p => '.' :: p.source)

lemma Spec.source_eq (s : Spec lex) :
    s.source = (s.align.bind Prod.fst).toList ++ (s.flags ++ s.type.source) := by
  cases h : s.align with
  | none => simp [Spec.source, Spec.flags, h]
  | some a => simp [Spec.source, Spec.flags, h]

lemma Spec.source_split (s : Spec lex) :
    ':' :: s.source = (':' :: (s.align.bind Prod.fst).toList ++ s.flags) ++ s.type.source := by
  simp [s.source_eq]

def marks : List Char := ['<', '^', '>', '+', '-', '#', '0', '.', '*']

section Flags

variable {Q : List Char → Prop} (hnil : Q []) (happend : ∀ xs ys, Q xs → Q ys → Q (xs ++ ys))
  (hmark : ∀ c ∈ marks, Q [c]) (hcount : ∀ n : Count lex, Q n.source)

include hnil happend hmark hcount in
lemma Spec.flags_of_parts (s : Spec lex) : Q s.flags := by
  have halign : Q (s.align.map fun a => a.2.source).toList := by
    cases s.align with
    | none => exact hnil
    | some a =>
      have hm : a.2.source ∈ marks := by cases a.2 <;> decide
      exact hmark _ hm
  have hsign : Q (s.sign.map Sign.source).toList := by
    cases s.sign with
    | none => exact hnil
    | some sign => cases sign <;> exact hmark _ (by decide)
  have halt : Q (if s.alternate then ['#'] else []) := by
    split_ifs
    · exact hmark _ (by decide)
    · exact hnil
  have hzero : Q (if s.zero then ['0'] else []) := by
    split_ifs
    · exact hmark _ (by decide)
    · exact hnil
  have hwidth : Q (s.width.elim [] Count.source) := by
    cases s.width with
    | none => exact hnil
    | some n => exact hcount n
  have hprecision : Q (s.precision.elim [] fun p => '.' :: p.source) := by
    cases s.precision with
    | none => exact hnil
    | some p =>
      apply happend ['.'] p.source (hmark _ (by decide))
      cases p with
      | count n => exact hcount n
      | star => exact hmark _ (by decide)
  have h₁ := happend _ _ (happend _ _ halign hsign) halt
  exact happend _ _ (happend _ _ (happend _ _ h₁ hzero) hwidth) hprecision

end Flags

def NoBraces (cs : List Char) : Prop := ∀ c ∈ cs, c ≠ '{' ∧ c ≠ '}'

lemma NoBraces.append {cs ds : List Char} (hc : NoBraces cs) (hd : NoBraces ds) : NoBraces (cs ++ ds) :=
  List.forall_mem_append.mpr ⟨hc, hd⟩

lemma ne_of_plain {c d : Char} (h : c ∉ special) (hd : d ∈ special) : c ≠ d := by
  rintro rfl
  exact h hd

lemma not_brace_of_plain {c : Char} (h : c ∉ special) : c ≠ '{' ∧ c ≠ '}' :=
  ⟨ne_of_plain h (by decide), ne_of_plain h (by decide)⟩

lemma Digits.noBraces (n : Digits) : NoBraces n.chars := by
  intro c hc
  have hd := n.digits c hc
  constructor
  · rintro rfl
    exact absurd hd (by decide)
  · rintro rfl
    exact absurd hd (by decide)

lemma Argument.noBraces (a : Argument lex) : NoBraces a.source := by
  cases a with
  | index n => exact n.noBraces
  | name x =>
    intro c hc
    apply not_brace_of_plain
    rcases List.mem_cons.mp hc with rfl | hc
    · exact lex.continue_plain _ (lex.start_continue _ x.start)
    · exact lex.continue_plain _ (x.continues c hc)

lemma Count.noBraces (n : Count lex) : NoBraces n.source := by
  cases n with
  | integer n => exact n.noBraces
  | parameter a => exact a.noBraces.append (by simp [NoBraces])

lemma Spec.noBraces_behindFill (s : Spec lex) : NoBraces (s.flags ++ s.type.source) := by
  apply NoBraces.append
  · apply Spec.flags_of_parts
    · simp [NoBraces]
    · exact fun _ _ => NoBraces.append
    · simp [marks, NoBraces]
    · exact Count.noBraces
  · cases s.type <;> simp [NoBraces, SpecType.source]

lemma noBraces_white {ws : List Char} (h : ∀ c ∈ ws, lex.white c = true) : NoBraces ws :=
  fun c hc => not_brace_of_plain (lex.white_plain c (h c hc)).1

lemma white_nil (lex : Lexicon) : ∀ c ∈ ([] : List Char), lex.white c = true := List.forall_mem_nil _

def Closing (c : Char) : Prop := c ∈ ':' :: '$' :: marks ∨ c.isDigit = true

lemma closing_not_white {c : Char} (h : Closing c) : lex.white c = false := by
  rw [Bool.eq_false_iff]
  intro hw
  obtain ⟨hs, -, hd⟩ := lex.white_plain c hw
  have hall : ((':' :: '$' :: marks).all fun d => special.contains d || d.isDigit) = true := rfl
  rcases h with h | h
  · have hc := List.all_eq_true.mp hall c h
    simp [hs, hd] at hc
  · rw [hd] at h
    cases h

def EndsClosing (cs : List Char) : Prop := ∀ c, cs.getLast? = some c → Closing c

lemma EndsClosing.append {cs ds : List Char} (hc : EndsClosing cs) (hd : EndsClosing ds) :
    EndsClosing (cs ++ ds) := by
  intro c h
  rw [List.getLast?_append] at h
  cases hl : ds.getLast? with
  | none =>
    rw [hl, Option.none_or] at h
    exact hc c h
  | some d =>
    rw [hl, Option.some_or] at h
    obtain rfl := Option.some.inj h
    exact hd d hl

lemma endsClosing_singleton {c : Char} (h : Closing c) : EndsClosing [c] := by
  intro d hd
  obtain rfl : c = d := by simpa using hd
  exact h

lemma Count.endsClosing (n : Count lex) : EndsClosing n.source := by
  cases n with
  | integer n => exact fun c hc => .inr (n.digits c (List.mem_of_getLast? hc))
  | parameter a =>
    intro c hc
    obtain rfl : '$' = c := by simpa [Count.source] using hc
    exact .inl (by decide)

lemma Spec.endsClosing (s : Spec lex) : EndsClosing (':' :: (s.align.bind Prod.fst).toList ++ s.flags) := by
  intro c h
  rw [List.getLast?_append] at h
  cases hl : s.flags.getLast? with
  | some d =>
    rw [hl, Option.some_or] at h
    obtain rfl := Option.some.inj h
    apply Spec.flags_of_parts (Q := EndsClosing) (by simp [EndsClosing]) (fun _ _ => EndsClosing.append) _
      Count.endsClosing s d hl
    exact fun c hc => endsClosing_singleton (.inl (List.mem_cons_of_mem _ (List.mem_cons_of_mem _ hc)))
  | none =>
    have hflags : s.flags = [] := List.getLast?_eq_none_iff.mp hl
    have halign : s.align = none := by
      cases ha : s.align with
      | none => rfl
      | some a => simp [Spec.flags, ha] at hflags
    obtain rfl : ':' = c := by simpa [hl, halign] using h
    exact .inl (by decide)

def lastSolid (white : Char → Bool) (cs : List Char) : Option Char := cs.reverse.find? fun c => !white c

lemma lastSolid_append {white : Char → Bool} {cs ws : List Char} (h : ∀ c ∈ ws, white c = true) :
    lastSolid white (cs ++ ws) = lastSolid white cs := by
  have hws : ws.reverse.find? (fun c => !white c) = none := by
    apply List.find?_eq_none.mpr
    intro c hc
    simp [h c (List.mem_reverse.mp hc)]
  rw [lastSolid, List.reverse_append, List.find?_append, hws, Option.none_or, lastSolid]

lemma lastSolid_of_getLast {white : Char → Bool} {cs : List Char} {c : Char} (h : cs.getLast? = some c)
    (hc : white c = false) : lastSolid white cs = some c := by
  rw [List.getLast?_eq_head?_reverse] at h
  cases hr : cs.reverse with
  | nil => simp [hr] at h
  | cons d ds =>
    obtain rfl : d = c := by simpa [hr] using h
    rw [lastSolid, hr, List.find?_cons_of_pos (by simp [hc])]

end FormatGrammar
