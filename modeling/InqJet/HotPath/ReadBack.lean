import InqJet.HotPath.Stream
import InqJet.Timestamps

namespace InqJet

open Ansi ByteCodec FormatGrammar Runs Segments

variable {lex : Lexicon}

def space : UInt8 := 32
def closeBracket : UInt8 := 93

def readStamped (l : Bytes) : Bytes × Bytes × Bytes :=
  let (label, rest) := upTo closeBracket (l.drop 32)
  (l.take 30, label, rest.drop 1)

structure Shown where
  timestamp : Bytes
  level : Bytes
  place : Bytes
  message : Bytes

def readLine (l : Bytes) : Shown :=
  let (timestamp, level, rest) := readStamped l
  let (place, message) := upTo space rest
  ⟨timestamp, level, place, message⟩

def readLog (text : Bytes) : List Shown := readLines newline readLine (stripEscapes text)

def readArchive (text : Bytes) : List (Bytes × Bytes × Bytes) := readLines newline readStamped text

def Logged.shown (said : Logged) : Shown :=
  ⟨formatTimestamp said.timestampNs, levelStr said.level, place said.target said.line, utf8 said.message⟩

structure Logged.Legible (said : Logged) : Prop where
  noEsc : said.Lacks esc
  oneLine : said.Lacks newline
  oneWord : space ∉ utf8 said.target

def Noted.text (noted : Noted) : Bytes :=
  formatTimestamp noted.timestampNs ++ utf8 " [" ++ noted.label ++ utf8 "] " ++ noted.payload

structure Noted.Legible (noted : Noted) : Prop where
  label : newline ∉ noted.label ∧ closeBracket ∉ noted.label
  payload : newline ∉ noted.payload

lemma readStamped_eq (timestampNs : UInt64) {label : Bytes} (h : closeBracket ∉ label) (rest : Bytes) :
    readStamped (formatTimestamp timestampNs ++ utf8 " [" ++ label ++ utf8 "] " ++ rest) =
      (formatTimestamp timestampNs, label, rest) := by
  have hts := formatTimestamp_length timestampNs
  have hopen : (utf8 " [").length = 2 := by decide
  have hclose : utf8 "] " = [closeBracket, space] := by decide
  have htake : (formatTimestamp timestampNs ++ utf8 " [" ++ label ++ utf8 "] " ++ rest).take 30 =
      formatTimestamp timestampNs := by
    simp only [List.append_assoc]
    exact List.take_left' hts
  have hdrop : (formatTimestamp timestampNs ++ utf8 " [" ++ label ++ utf8 "] " ++ rest).drop 32 =
      label ++ closeBracket :: (space :: rest) := by
    rw [List.append_assoc, List.append_assoc, List.drop_left' (by rw [List.length_append, hts, hopen]), hclose]
    rfl
  simp only [readStamped, htake, hdrop, upTo_append h]
  rfl

lemma levelStr_noBracket (level : UInt8) : closeBracket ∉ levelStr level := by
  unfold levelStr
  split <;> decide

lemma place_noSpace {target : String} (h : space ∉ utf8 target) (line : UInt32) : space ∉ place target line := by
  have hdigits : space ∉ decimal line.toNat := fun hm => absurd (decimal_ge _ _ hm) (by decide)
  have hcolon : space ∉ utf8 ":" := by decide
  rw [place]
  split_ifs
  · simp only [List.mem_append, not_or]
    exact ⟨⟨h, hcolon⟩, hdigits⟩
  · exact h

lemma Logged.text_eq (said : Logged) : said.text false = formatTimestamp said.timestampNs ++ utf8 " [" ++
    levelStr said.level ++ utf8 "] " ++ (place said.target said.line ++ space :: utf8 said.message) := by
  have hblank : utf8 " " = [space] := by decide
  have hopen : utf8 " [" = utf8 " " ++ utf8 "[" := by decide
  have hclose : utf8 "] " = utf8 "]" ++ utf8 " " := by decide
  rw [Logged.text, writeLogPrefix, writePrefixInner, if_neg Bool.false_ne_true, uncolored_tail_eq, levelTag, hopen,
    hclose, hblank]
  simp only [List.append_assoc, List.cons_append, List.nil_append]

lemma Logged.Legible.readLine {said : Logged} (h : said.Legible) : readLine (said.text false) = said.shown := by
  simp only [InqJet.readLine, said.text_eq, readStamped_eq _ (levelStr_noBracket _),
    upTo_append (place_noSpace h.oneWord said.line)]
  rfl

/-- When the calls on the log stream are the program's, and legible, a reader of its text finds timestamp, level,
place and message of each accepted call, one after the other, whether the text is coloured or not. -/
theorem log_reads_back (P : Program lex) (backpressure : BackpressureMode) (hasTimeout : Bool) (archives : ℕ)
    (t : State) (tr : List (State × Action)) (h : Run (step (P.config backpressure hasTimeout archives)) {} tr t)
    (hasked : ∀ e ∈ events asked tr, e.stream = 0 → ∃ said, P.Logs e.record said ∧ said.Legible) :
    ∃ saids, List.Forall₂ P.Logs ((onStream 0 ((events (settled (P.config backpressure hasTimeout archives))
        tr).filterMap accepted)).take (t.rings 0).head) saids ∧
      readLog (t.writes 0).flatten = saids.map Logged.shown := by
  obtain ⟨saids, hlogs, hlegible, hwrites⟩ := P.log_stream h hasked
  refine ⟨saids, hlogs, ?_⟩
  have hplain : stripEscapes (t.writes 0).flatten =
      (saids.map fun said => said.text false ++ [newline]).flatten := by
    rw [hwrites, strip_rendered fun said hs => (hlegible said hs).noEsc]
    simp only [Logged.render_eq]
  rw [readLog, hplain]
  exact readLines_terminated fun said hs =>
    ⟨(said.text_newline false).mpr (hlegible said hs).oneLine, (hlegible said hs).readLine⟩

theorem log_reads_back_bracketed : ∃ t tr, Run (step (mixedProgram.config .drop true 0)) {} tr t ∧
    (t.writes 0).length = 1 ∧
    ∃ saids, List.Forall₂ mixedProgram.Logs ((onStream 0 ((events (settled (mixedProgram.config .drop true 0))
        tr).filterMap accepted)).take (t.rings 0).head) saids ∧
      readLog (t.writes 0).flatten = saids.map Logged.shown := by
  obtain ⟨record, hlog⟩ := bracketed_logs
  obtain ⟨t, tr, ht, hw, hask⟩ :=
    one_record_run (mixedProgram.config .drop true 0) (Nat.zero_le _) hlog.formatted
  refine ⟨t, tr, ht, by rw [hw]; rfl, log_reads_back mixedProgram .drop true 0 t tr ht fun e he _ => ?_⟩
  rw [hask, List.mem_singleton] at he
  subst he
  exact ⟨_, hlog, ⟨by decide, by decide⟩, ⟨by decide, by decide⟩, by decide⟩

lemma Noted.render_eq (noted : Noted) : noted.render = noted.text ++ [newline] := by
  have hn : utf8 "\n" = [newline] := by decide
  rw [Noted.render, Noted.text, hn]

lemma Noted.Legible.oneLine {noted : Noted} (h : noted.Legible) : newline ∉ noted.text := by
  have hts := (formatTimestamp_printable noted.timestampNs).not_mem (show newline < 32 by decide)
  have hopen : newline ∉ utf8 " [" := by decide
  have hclose : newline ∉ utf8 "] " := by decide
  simp only [Noted.text, List.mem_append, not_or]
  exact ⟨⟨⟨⟨hts, hopen⟩, h.label.1⟩, hclose⟩, h.payload⟩

theorem archive_reads_back (P : Program lex) (backpressure : BackpressureMode) (hasTimeout : Bool) (archives : ℕ)
    (t : State) (tr : List (State × Action)) (h : Run (step (P.config backpressure hasTimeout archives)) {} tr t)
    (k : ℕ) (hasked : ∀ e ∈ events asked tr, e.stream = k → ∃ noted, P.Notes k e.record noted ∧ noted.Legible) :
    ∃ notes, List.Forall₂ (P.Notes k) ((onStream k ((events (settled (P.config backpressure hasTimeout archives))
        tr).filterMap accepted)).take (t.rings k).head) notes ∧
      readArchive (t.writes k).flatten =
        notes.map fun noted => (formatTimestamp noted.timestampNs, noted.label, noted.payload) := by
  obtain ⟨notes, hnotes, hlegible, hwrites⟩ :=
    lines_said h (fun _ _ hn => hn.formatted backpressure hasTimeout archives) hasked
  refine ⟨notes, hnotes, ?_⟩
  have hlines : t.writes k = notes.map fun noted => noted.text ++ [newline] := by
    rw [hwrites]
    exact List.map_congr_left fun noted _ => noted.render_eq
  rw [readArchive, hlines]
  exact readLines_terminated fun noted hn =>
    ⟨(hlegible noted hn).oneLine, readStamped_eq _ (hlegible noted hn).label.2 _⟩

lemma outbound_notes : ∃ record, mixedProgram.Notes 1 record ⟨7, utf8 "OUTBOUND", utf8 "ping [1] pong"⟩ := by
  let m : Bytes := [1, 170]
  let claim : Bytes := List.replicate (archiveRecordSize m.length (utf8 "ping [1] pong").length) 0
  have hm : (mixedProgram.tags 1).Memory true m := ⟨170, rfl⟩
  have hp : (utf8 "ping [1] pong").length < 2 ^ 32 := by decide
  have hc : claim.length = archiveRecordSize m.length (utf8 "ping [1] pong").length := List.length_replicate
  exact ⟨_, .write one_ne_zero hm hp hc (archiveWrite_eq 7 hc) rfl⟩

theorem archive_reads_back_outbound : ∃ t tr, Run (step (mixedProgram.config .drop true 1)) {} tr t ∧
    (t.writes 1).length = 1 ∧
    ∃ notes, List.Forall₂ (mixedProgram.Notes 1) ((onStream 1 ((events (settled (mixedProgram.config .drop true 1))
        tr).filterMap accepted)).take (t.rings 1).head) notes ∧
      readArchive (t.writes 1).flatten =
        notes.map fun noted => (formatTimestamp noted.timestampNs, noted.label, noted.payload) := by
  obtain ⟨record, hnote⟩ := outbound_notes
  obtain ⟨t, tr, ht, hw, hask⟩ :=
    one_record_run (mixedProgram.config .drop true 1) (le_refl 1) (hnote.formatted .drop true 1)
  refine ⟨t, tr, ht, by rw [hw]; rfl, archive_reads_back mixedProgram .drop true 1 t tr ht 1 fun e he _ => ?_⟩
  rw [hask, List.mem_singleton] at he
  subst he
  exact ⟨_, hnote, ⟨by decide, by decide⟩, by decide⟩

end InqJet
