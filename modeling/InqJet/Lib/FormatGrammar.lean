import Mathlib.Tactic

/-! The grammar of format strings: literal text, doubled braces and placeholders
`'{' [argument] [':' spec] ws* '}'`. A string is accepted when it is the source of
some list of pieces. -/

namespace FormatGrammar

def special : List Char := ['{', '}', ':', '$', '.', '*', '+', '-', '#', '<', '^', '>', '?']

structure Lexicon where
  identStart : Char → Bool
  identContinue : Char → Bool
  white : Char → Bool
  start_continue : ∀ c, identStart c = true → identContinue c = true
  start_not_digit : ∀ c, identStart c = true → c.isDigit = false
  continue_plain : ∀ c, identContinue c = true → c ∉ special
  white_plain : ∀ c, white c = true → c ∉ special ∧ identContinue c = false ∧ c.isDigit = false

lemma not_isDigit_of_isAlpha {c : Char} (h : c.isAlpha = true) : c.isDigit = false := by
  rw [Bool.eq_false_iff]
  intro hd
  have h9 : c.val ≤ 57 := of_decide_eq_true ((Bool.and_eq_true _ _).mp hd).2
  have hA : 65 ≤ c.val := by
    rcases (Bool.or_eq_true _ _).mp h with hc | hc
    · have hu : 65 ≤ c.val ∧ c.val ≤ 90 := of_decide_eq_true hc
      exact hu.1
    · have hl : 97 ≤ c.val := of_decide_eq_true ((Bool.and_eq_true _ _).mp hc).1
      exact UInt32.le_trans (show (65 : UInt32) ≤ 97 by decide) hl
  have h659 : (65 : UInt32) ≤ 57 := UInt32.le_trans hA h9
  exact absurd h659 (by decide)

lemma ascii_start_not_digit {c : Char} (h : (c.isAlpha || c == '_') = true) : c.isDigit = false := by
  simp only [Bool.or_eq_true, beq_iff_eq] at h
  rcases h with h | rfl
  · exact not_isDigit_of_isAlpha h
  · decide

lemma ascii_start_continue {c : Char} (h : (c.isAlpha || c == '_') = true) : (c.isAlphanum || c == '_') = true := by
  rcases (Bool.or_eq_true _ _).mp h with h | h
  · exact (Bool.or_eq_true _ _).mpr (.inl ((Bool.or_eq_true _ _).mpr (.inl h)))
  · exact (Bool.or_eq_true _ _).mpr (.inr h)

lemma ascii_continue_plain {c : Char} (h : (c.isAlphanum || c == '_') = true) : c ∉ special := by
  intro hm
  have hall : (special.all fun d => !(d.isAlphanum || d == '_')) = true := rfl
  have hc := List.all_eq_true.mp hall c hm
  rw [h] at hc
  cases hc

lemma ascii_white_plain {c : Char} (h : c.isWhitespace = true) :
    c ∉ special ∧ (c.isAlphanum || c == '_') = false ∧ c.isDigit = false := by
  simp only [Char.isWhitespace, Bool.or_eq_true, decide_eq_true_eq] at h
  rcases h with ((rfl | rfl) | rfl) | rfl <;> decide

def ascii : Lexicon where
  identStart c := c.isAlpha || c == '_'
  identContinue c := c.isAlphanum || c == '_'
  white c := c.isWhitespace
  start_continue _ := ascii_start_continue
  start_not_digit _ := ascii_start_not_digit
  continue_plain _ := ascii_continue_plain
  white_plain _ := ascii_white_plain

structure Digits where
  chars : List Char
  nonempty : chars ≠ []
  digits : ∀ c ∈ chars, c.isDigit = true

structure Ident (lex : Lexicon) where
  first : Char
  rest : List Char
  start : lex.identStart first = true
  continues : ∀ c ∈ rest, lex.identContinue c = true

variable (lex : Lexicon)

inductive Argument
  | index (n : Digits)
  | name (x : Ident lex)

inductive Count
  | integer (n : Digits)
  | parameter (a : Argument lex)

inductive Precision
  | count (c : Count lex)
  | star

inductive Align
  | left
  | center
  | right

inductive Sign
  | plus
  | minus

inductive SpecType
  | display
  | debug
  | debugLowerHex
  | debugUpperHex
  | lowerHex
  | upperHex
  | octal
  | binary
  | lowerExp
  | upperExp
  | pointer
  deriving DecidableEq

/-- `[[fill]align][sign]['#']['0'][width]['.' precision]type`; a fill stands only before an align. -/
structure Spec where
  align : Option (Option Char × Align)
  sign : Option Sign
  alternate : Bool
  zero : Bool
  width : Option (Count lex)
  precision : Option (Precision lex)
  type : SpecType

structure Placeholder where
  argument : Option (Argument lex)
  spec : Option (Spec lex)
  white : List Char
  white_ok : ∀ c ∈ white, lex.white c = true

inductive Piece
  | literal (c : Char)
  | arg (p : Placeholder lex)

variable {lex}

def Argument.source : Argument lex → List Char
  | .index n => n.chars
  | .name x => x.first :: x.rest

def Count.source : Count lex → List Char
  | .integer n => n.chars
  | .parameter a => a.source ++ ['$']

def Precision.source : Precision lex → List Char
  | .count c => c.source
  | .star => ['*']

def Align.source : Align → Char
  | .left => '<'
  | .center => '^'
  | .right => '>'

def Sign.source : Sign → Char
  | .plus => '+'
  | .minus => '-'

def SpecType.source : SpecType → List Char
  | .display => []
  | .debug => ['?']
  | .debugLowerHex => ['x', '?']
  | .debugUpperHex => ['X', '?']
  | .lowerHex => ['x']
  | .upperHex => ['X']
  | .octal => ['o']
  | .binary => ['b']
  | .lowerExp => ['e']
  | .upperExp => ['E']
  | .pointer => ['p']

def Spec.source (s : Spec lex) : List Char :=
  (s.align.elim [] fun a => a.1.toList ++ [a.2.source]) ++ (s.sign.map Sign.source).toList ++
    (if s.alternate then ['#'] else []) ++ (if s.zero then ['0'] else []) ++
    (s.width.elim [] Count.source) ++ (s.precision.elim [] fun p => '.' :: p.source) ++ s.type.source

def Placeholder.inner (p : Placeholder lex) : List Char :=
  (p.argument.elim [] Argument.source) ++ (p.spec.elim [] fun s => ':' :: s.source) ++ p.white

def Placeholder.type (p : Placeholder lex) : SpecType := p.spec.elim .display Spec.type

def Piece.source : Piece lex → List Char
  | .literal c => if c = '{' ∨ c = '}' then [c, c] else [c]
  | .arg p => '{' :: p.inner ++ ['}']

def source (ps : List (Piece lex)) : List Char := ps.flatMap Piece.source

def placeholders : List (Piece lex) → List (Placeholder lex)
  | [] => []
  | .literal _ :: ps => placeholders ps
  | .arg p :: ps => p :: placeholders ps

/-- A reader of format strings: it accepts what the grammar accepts, as some pieces it is the source of. -/
structure Reader (lex : Lexicon) where
  read : List Char → Option (List (Piece lex))
  sound : ∀ s ps, read s = some ps → source ps = s
  complete : ∀ ps : List (Piece lex), (read (source ps)).isSome = true

def formatArgs {α : Type*} (fmt : List Char → α → String) : List (Piece lex) → List α → Option String
  | [], [] => some ""
  | [], _ :: _ => none
  | .literal c :: ps, as => (formatArgs fmt ps as).map fun s => String.singleton c ++ s
  | .arg p :: ps, a :: as => (formatArgs fmt ps as).map fun s => fmt p.inner a ++ s
  | .arg _ :: _, [] => none

lemma formatArgs_some {α : Type*} (fmt : List Char → α → String) {ps : List (Piece lex)} {as : List α}
    (h : as.length = (placeholders ps).length) : ∃ s, formatArgs fmt ps as = some s := by
  induction ps generalizing as with
  | nil =>
    obtain rfl := List.eq_nil_of_length_eq_zero h
    exact ⟨_, rfl⟩
  | cons p ps ih =>
    cases p with
    | literal c =>
      obtain ⟨s, hs⟩ := ih h
      exact ⟨_, by rw [formatArgs, hs, Option.map_some]⟩
    | arg p =>
      cases as with
      | nil => simp [placeholders] at h
      | cons a as =>
        have hl : as.length = (placeholders ps).length := by simpa [placeholders] using h
        obtain ⟨s, hs⟩ := ih hl
        exact ⟨_, by rw [formatArgs, hs, Option.map_some]⟩

lemma formatArgs_congr {α β : Type*} {fmt : List Char → α → String} {fmt' : List Char → β → String}
    (conv : Placeholder lex → α → β) {ps : List (Piece lex)} {as : List α}
    (h : as.length = (placeholders ps).length)
    (hfmt : ∀ p ∈ placeholders ps, ∀ a, fmt' p.inner (conv p a) = fmt p.inner a) :
    formatArgs fmt' ps (((placeholders ps).zip as).map fun pa => conv pa.1 pa.2) = formatArgs fmt ps as := by
  induction ps generalizing as with
  | nil =>
    obtain rfl := List.eq_nil_of_length_eq_zero h
    rfl
  | cons p ps ih =>
    cases p with
    | literal c => rw [formatArgs, formatArgs, ← ih h hfmt, placeholders]
    | arg p =>
      simp only [placeholders, List.forall_mem_cons] at hfmt
      cases as with
      | nil => simp [placeholders] at h
      | cons a as =>
        have hl : as.length = (placeholders ps).length := by simpa [placeholders] using h
        have hh := ih hl hfmt.2
        rw [placeholders, List.zip_cons_cons, List.map_cons, formatArgs, hh, hfmt.1, formatArgs]

noncomputable def Reader.preferring (ps : List (Piece lex)) : Reader lex where
  read s :=
    open scoped Classical in
    if source ps = s then some ps
    else if h : ∃ qs : List (Piece lex), source qs = s then some h.choose else none
  sound := by
    intro s qs h
    split_ifs at h with hs he
    · exact Option.some.inj h ▸ hs
    · exact Option.some.inj h ▸ he.choose_spec
  complete := by
    intro qs
    split_ifs with hs he
    · rfl
    · rfl
    · exact (he ⟨qs, rfl⟩).elim

lemma Reader.preferring_read (ps : List (Piece lex)) :
    (Reader.preferring ps).read (source ps) = some ps := by
  simp [preferring]

lemma Piece.source_ne_nil (p : Piece lex) : p.source ≠ [] := by
  cases p with
  | literal c => simp only [Piece.source]; split <;> simp
  | arg p => simp [Piece.source]

lemma inner_eq {inner rest : List Char} (hb : '}' ∉ inner) (p : Placeholder lex)
    (h : p.inner ++ '}' :: rest = inner ++ ['}']) : p.inner = inner ∧ rest = [] := by
  have hlen := congrArg List.length h
  simp only [List.length_append, List.length_cons, List.length_nil] at hlen
  rcases Nat.lt_or_ge p.inner.length inner.length with hlt | hge
  · have hg := congrArg (fun l => l[p.inner.length]?) h
    simp only [List.getElem?_append_right (le_refl p.inner.length), Nat.sub_self,
      List.getElem?_cons_zero, List.getElem?_append_left hlt] at hg
    exact (hb (List.mem_of_getElem? hg.symm)).elim
  · obtain ⟨h₁, h₂⟩ := List.append_inj h (by omega)
    exact ⟨h₁, by simpa using h₂⟩

theorem source_singleton {inner : List Char} (hb : '}' ∉ inner) (ho : inner.head? ≠ some '{')
    {ps : List (Piece lex)} (h : source ps = '{' :: inner ++ ['}']) :
    ∃ p : Placeholder lex, ps = [.arg p] ∧ p.inner = inner := by
  cases ps with
  | nil => simp [source] at h
  | cons p ps =>
    rw [source, List.flatMap_cons] at h
    cases p with
    | literal c =>
      simp only [Piece.source] at h
      split_ifs at h with hc
      · simp only [List.cons_append, List.cons.injEq, List.nil_append] at h
        obtain ⟨rfl, h⟩ := h
        cases inner with
        | nil => simp at h
        | cons d ds =>
          simp only [List.cons_append, List.cons.injEq] at h
          simp [← h.1] at ho
      · simp only [List.cons_append, List.cons.injEq] at h
        exact (hc (.inl h.1)).elim
    | arg p =>
      simp only [Piece.source, List.cons_append, List.cons.injEq, true_and, List.append_assoc,
        List.nil_append] at h
      obtain ⟨hp, hr⟩ := inner_eq hb p h
      refine ⟨p, ?_, hp⟩
      cases ps with
      | nil => rfl
      | cons q qs => simp [q.source_ne_nil] at hr

theorem Reader.read_braced (reader : Reader lex) (p : Placeholder lex) (hb : '}' ∉ p.inner)
    (ho : p.inner.head? ≠ some '{') :
    ∃ q : Placeholder lex, reader.read ('{' :: p.inner ++ ['}']) = some [.arg q] ∧ q.inner = p.inner := by
  have hsrc : source [Piece.arg p] = '{' :: p.inner ++ ['}'] := by simp [source, Piece.source]
  obtain ⟨ps, hps⟩ := Option.isSome_iff_exists.mp (reader.complete [.arg p])
  rw [hsrc] at hps
  obtain ⟨q, rfl, hq⟩ := source_singleton hb ho (reader.sound _ _ hps)
  exact ⟨q, hps, hq⟩

end FormatGrammar
