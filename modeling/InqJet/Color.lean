import InqJet.Format
import InqJet.Lib.Ansi

namespace InqJet

open ByteCodec Ansi

lemma reset_isSequence : IsSequence reset := isSequence_of [48] (List.cons_ne_nil _ _) rfl

lemma gray_isSequence : IsSequence gray := isSequence_of [57, 48] (List.cons_ne_nil _ _) rfl

lemma levelColor_isSequence (level : UInt8) : IsSequence (levelColor level) := by
  unfold levelColor
  split
  · exact isSequence_of [51, 49] (List.cons_ne_nil _ _) rfl
  · exact isSequence_of [51, 51] (List.cons_ne_nil _ _) rfl
  · exact isSequence_of [51, 50] (List.cons_ne_nil _ _) rfl
  · exact isSequence_of [51, 54] (List.cons_ne_nil _ _) rfl
  · exact gray_isSequence

def Printable (bs : Bytes) : Prop := ∀ b ∈ bs, 32 ≤ b

lemma Printable.not_mem {bs : Bytes} (h : Printable bs) {b : UInt8} (hb : b < 32) : b ∉ bs := fun hm =>
  absurd (h b hm) (UInt8.not_le.mpr hb)

lemma printable_append {as bs : Bytes} : Printable (as ++ bs) ↔ Printable as ∧ Printable bs :=
  List.forall_mem_append

lemma printable_of {bs : Bytes} (h : (bs.all fun b => 32 ≤ b) = true) : Printable bs := fun b hb =>
  of_decide_eq_true (List.all_eq_true.mp h b hb)

lemma decimal_ge (n : ℕ) : ∀ b ∈ decimal n, 48 ≤ b := by
  intro b hb
  obtain ⟨c, hc, rfl⟩ := List.mem_map.mp hb
  have hdigit := Nat.isDigit_of_mem_toDigits (by omega) (by omega) hc
  have hge : 48 ≤ c.toNat ∧ c.toNat ≤ 57 := by
    simpa [Char.isDigit, UInt32.le_iff_toNat_le] using hdigit
  rw [UInt8.le_iff_toNat_le, UInt8.toNat_ofNat']
  change 48 ≤ c.toNat % 256
  omega

lemma decimal_printable (n : ℕ) : Printable (decimal n) := fun b hb =>
  UInt8.le_trans (by decide) (decimal_ge n b hb)

lemma zeroPad_printable (w n : ℕ) : Printable (zeroPad w n) := by
  refine printable_append.mpr ⟨fun b hb => ?_, decimal_printable n⟩
  rw [List.eq_of_mem_replicate hb]
  decide

lemma zeroPadInt_printable (w : ℕ) (n : ℤ) : Printable (zeroPadInt w n) := by
  rw [zeroPadInt]
  split_ifs
  · exact List.forall_mem_cons.mpr ⟨by decide, zeroPad_printable _ _⟩
  · exact zeroPad_printable _ _

lemma formatTimestamp_printable (nanos : UInt64) : Printable (formatTimestamp nanos) := by
  have hdash : Printable (utf8 "-") := printable_of (by decide)
  have ht : Printable (utf8 "T") := printable_of (by decide)
  have hcolon : Printable (utf8 ":") := printable_of (by decide)
  have hdot : Printable (utf8 ".") := printable_of (by decide)
  have hz : Printable (utf8 "Z") := printable_of (by decide)
  simp only [formatTimestamp, printable_append]
  simp [zeroPad_printable, zeroPadInt_printable, *]

lemma formatTimestamp_noEsc (nanos : UInt64) : esc ∉ formatTimestamp nanos :=
  (formatTimestamp_printable nanos).not_mem (by decide)

lemma blank_noEsc : esc ∉ utf8 " " := by decide

def levelTag (level : UInt8) : Bytes := utf8 "[" ++ levelStr level ++ utf8 "]"

lemma levelTag_printable (level : UInt8) : Printable (levelTag level) := by
  unfold levelTag levelStr
  split <;> exact printable_of (by decide)

lemma levelTag_noEsc (level : UInt8) : esc ∉ levelTag level := (levelTag_printable level).not_mem (by decide)

def place (target : String) (line : UInt32) : Bytes :=
  if line > 0 then utf8 target ++ utf8 ":" ++ decimal line.toNat else utf8 target

lemma place_noEsc {target : String} (h : esc ∉ utf8 target) (line : UInt32) : esc ∉ place target line := by
  rw [place]
  split_ifs
  · simp only [List.mem_append, not_or]
    exact ⟨⟨h, by decide⟩, (decimal_printable _).not_mem (by decide)⟩
  · exact h

def prefixPieces (timestampNs : UInt64) (level : UInt8) (line : UInt32) {target : String}
    (h : esc ∉ utf8 target) : List Piece :=
  [.escape gray gray_isSequence, .text (formatTimestamp timestampNs) (formatTimestamp_noEsc timestampNs),
    .escape reset reset_isSequence, .text (utf8 " ") blank_noEsc,
    .escape (levelColor level) (levelColor_isSequence level), .text (levelTag level) (levelTag_noEsc level),
    .escape reset reset_isSequence, .text (utf8 " ") blank_noEsc,
    .escape gray gray_isSequence, .text (place target line) (place_noEsc h line),
    .escape reset reset_isSequence, .text (utf8 " ") blank_noEsc]

lemma colored_eq (timestampNs : UInt64) (level : UInt8) (line : UInt32) {target : String}
    (h : esc ∉ utf8 target) :
    writePrefixInner timestampNs level target line true = render (prefixPieces timestampNs level line h) := by
  simp [writePrefixInner, prefixPieces, levelTag, place]

lemma uncolored_tail_eq (level : UInt8) (target : String) (line : UInt32) :
    (if line > 0 then
      utf8 " [" ++ levelStr level ++ utf8 "] " ++ utf8 target ++ utf8 ":" ++ decimal line.toNat ++ utf8 " "
    else utf8 " [" ++ levelStr level ++ utf8 "] " ++ utf8 target ++ utf8 " ") =
      utf8 " " ++ levelTag level ++ utf8 " " ++ place target line ++ utf8 " " := by
  have hopen : utf8 " [" = utf8 " " ++ utf8 "[" := by decide
  have hclose : utf8 "] " = utf8 "]" ++ utf8 " " := by decide
  rw [levelTag, place, hopen, hclose]
  split_ifs <;> simp only [List.append_assoc]

lemma uncolored_eq (timestampNs : UInt64) (level : UInt8) (line : UInt32) {target : String}
    (h : esc ∉ utf8 target) :
    writePrefixInner timestampNs level target line false = visible (prefixPieces timestampNs level line h) := by
  rw [writePrefixInner, if_neg Bool.false_ne_true, uncolored_tail_eq]
  simp only [prefixPieces, visible_text, visible_escape, visible_nil, List.append_assoc, List.append_nil]

theorem color_adds_escapes_only (timestampNs : UInt64) (level : UInt8) (target : String) (line : UInt32)
    (h : esc ∉ utf8 target) :
    stripEscapes (writePrefixInner timestampNs level target line true) =
      writePrefixInner timestampNs level target line false := by
  rw [colored_eq timestampNs level line h, uncolored_eq timestampNs level line h]
  exact stripEscapes_render _

theorem color_adds_escapes_only_bracketed :
    esc ∉ utf8 "app[31m" ∧
      stripEscapes (writePrefixInner 1705329045123456789 3 "app[31m" 10 true) =
        writePrefixInner 1705329045123456789 3 "app[31m" 10 false := by
  have h : esc ∉ utf8 "app[31m" := by decide
  exact ⟨h, color_adds_escapes_only 1705329045123456789 3 "app[31m" 10 h⟩

end InqJet
