import Mathlib.Tactic

/-! Escape sequences of the form `ESC [ digits m` in byte strings, and text with all of them deleted. -/

namespace Ansi

def esc : UInt8 := 27
def bracket : UInt8 := 91
def final : UInt8 := 109

def isDigit (b : UInt8) : Bool := 48 ≤ b && b ≤ 57

def sequenceLength (bs : List UInt8) : ℕ :=
  let body := bs.drop 2
  let digits := body.takeWhile isDigit
  if bs.take 2 = [esc, bracket] ∧ digits ≠ [] ∧ (body.drop digits.length).head? = some final then
    digits.length + 3
  else 0

/-- The counter says how many bytes of the sequence just found are still to be left out. -/
def stripFrom : ℕ → List UInt8 → List UInt8
  | _, [] => []
  | n + 1, _ :: bs => stripFrom n bs
  | 0, b :: bs =>
    if sequenceLength (b :: bs) = 0 then b :: stripFrom 0 bs
    else stripFrom (sequenceLength (b :: bs) - 1) bs

def stripEscapes (bs : List UInt8) : List UInt8 := stripFrom 0 bs

def IsSequence (bs : List UInt8) : Prop :=
  ∃ digits, digits ≠ [] ∧ (∀ d ∈ digits, isDigit d = true) ∧ bs = esc :: bracket :: (digits ++ [final])

inductive Piece
  | text (bs : List UInt8) (noEsc : esc ∉ bs)
  | escape (bs : List UInt8) (isSequence : IsSequence bs)

def Piece.render : Piece → List UInt8
  | .text bs _ => bs
  | .escape bs _ => bs

def Piece.visible : Piece → List UInt8
  | .text bs _ => bs
  | .escape _ _ => []

def render (ps : List Piece) : List UInt8 := ps.flatMap Piece.render

def visible (ps : List Piece) : List UInt8 := ps.flatMap Piece.visible

section Pieces

variable {bs : List UInt8} {ps : List Piece}

@[simp] lemma render_nil : render [] = [] := rfl
@[simp] lemma render_text (h : esc ∉ bs) : render (.text bs h :: ps) = bs ++ render ps := List.flatMap_cons
@[simp] lemma render_escape (h : IsSequence bs) : render (.escape bs h :: ps) = bs ++ render ps := List.flatMap_cons
@[simp] lemma visible_nil : visible [] = [] := rfl
@[simp] lemma visible_text (h : esc ∉ bs) : visible (.text bs h :: ps) = bs ++ visible ps := List.flatMap_cons
@[simp] lemma visible_escape (h : IsSequence bs) : visible (.escape bs h :: ps) = visible ps := List.flatMap_cons

@[simp] lemma render_append (ps qs : List Piece) : render (ps ++ qs) = render ps ++ render qs := List.flatMap_append
@[simp] lemma visible_append (ps qs : List Piece) : visible (ps ++ qs) = visible ps ++ visible qs :=
  List.flatMap_append

lemma visible_noEsc (ps : List Piece) : esc ∉ visible ps := by
  intro h
  obtain ⟨p, -, hp⟩ := List.mem_flatMap.mp h
  cases p with
  | text bs hbs => exact hbs hp
  | escape => cases hp

end Pieces

lemma isSequence_of (digits : List UInt8) (hne : digits ≠ []) (h : digits.all isDigit = true) :
    IsSequence (esc :: bracket :: (digits ++ [final])) :=
  ⟨digits, hne, List.all_eq_true.mp h, rfl⟩

lemma sequenceLength_text {b : UInt8} (h : b ≠ esc) (bs : List UInt8) : sequenceLength (b :: bs) = 0 := by
  simp [sequenceLength, h]

lemma stripEscapes_text {bs : List UInt8} (h : esc ∉ bs) (rest : List UInt8) :
    stripEscapes (bs ++ rest) = bs ++ stripEscapes rest := by
  induction bs with
  | nil => rfl
  | cons b bs ih =>
    simp only [List.mem_cons, not_or] at h
    have hlen := sequenceLength_text (Ne.symm h.1) (bs ++ rest)
    rw [stripEscapes, List.cons_append, stripFrom, if_pos hlen, List.cons_append]
    exact congrArg _ (ih h.2)

lemma sequenceLength_escape {bs : List UInt8} (h : IsSequence bs) (rest : List UInt8) :
    sequenceLength (bs ++ rest) = bs.length := by
  obtain ⟨digits, hne, hdigits, rfl⟩ := h
  have hfinal : isDigit final = false := rfl
  have htake : (digits ++ final :: rest).takeWhile isDigit = digits := by
    rw [List.takeWhile_append_of_pos hdigits, List.takeWhile_cons, hfinal]
    simp
  simp [sequenceLength, htake, hne]

lemma stripFrom_skip (skipped rest : List UInt8) :
    stripFrom skipped.length (skipped ++ rest) = stripEscapes rest := by
  induction skipped with
  | nil => rfl
  | cons b skipped ih => exact ih

lemma stripEscapes_escape {bs : List UInt8} (h : IsSequence bs) (rest : List UInt8) :
    stripEscapes (bs ++ rest) = stripEscapes rest := by
  have hlen := sequenceLength_escape h rest
  obtain ⟨digits, -, -, rfl⟩ := h
  rw [List.cons_append, List.length_cons] at hlen
  rw [List.cons_append, stripEscapes, stripFrom, hlen, if_neg (Nat.succ_ne_zero _), Nat.add_sub_cancel]
  exact stripFrom_skip _ rest

theorem stripEscapes_render (ps : List Piece) : stripEscapes (render ps) = visible ps := by
  induction ps with
  | nil => rfl
  | cons p ps ih =>
    cases p with
    | text bs h => rw [render_text, visible_text, stripEscapes_text h, ih]
    | escape bs h => rw [render_escape, visible_escape, stripEscapes_escape h, ih]

lemma stripEscapes_render_append (ps : List Piece) (rest : List UInt8) :
    stripEscapes (render ps ++ rest) = visible ps ++ stripEscapes rest := by
  induction ps with
  | nil => rfl
  | cons p ps ih =>
    cases p with
    | text bs h => rw [render_text, visible_text, List.append_assoc, stripEscapes_text h, ih, List.append_assoc]
    | escape bs h => rw [render_escape, visible_escape, List.append_assoc, stripEscapes_escape h, ih]

example : stripEscapes [esc, bracket, 51, 49, final, 91, 49, 109, esc, bracket, final] =
    [91, 49, 109, esc, bracket, final] := by decide

end Ansi
