import InqJet.Color
import InqJet.HotPath.Pipeline

namespace InqJet

open Ansi ByteCodec ClaimQueue FormatGrammar Runs Segments

variable {lex : Lexicon}

def newline : UInt8 := 10

def Logged.text (said : Logged) (colored : Bool) : Bytes :=
  writeLogPrefix colored said.timestampNs said.level said.target said.line ++ utf8 said.message

lemma Logged.render_eq (said : Logged) (colored : Bool) : said.render colored = said.text colored ++ [newline] := by
  have hn : utf8 "\n" = [newline] := by decide
  rw [Logged.render, Logged.text, hn, List.append_assoc]

def Logged.Lacks (said : Logged) (b : UInt8) : Prop := b ∉ utf8 said.target ∧ b ∉ utf8 said.message

lemma escape_noNewline {bs : Bytes} (h : IsSequence bs) : newline ∉ bs := by
  obtain ⟨digits, -, hdigits, rfl⟩ := h
  have hfixed : newline ≠ esc ∧ newline ≠ bracket ∧ newline ≠ final := by decide
  simp only [List.mem_cons, List.mem_append, List.not_mem_nil, or_false, not_or]
  refine ⟨hfixed.1, hfixed.2.1, fun hd => ?_, hfixed.2.2⟩
  exact absurd (hdigits newline hd) (by decide)

lemma place_newline (target : String) (line : UInt32) : newline ∈ place target line ↔ newline ∈ utf8 target := by
  have hcolon : newline ∉ utf8 ":" := by decide
  rw [place]
  split_ifs
  · simp [hcolon, (decimal_printable line.toNat).not_mem (show newline < 32 by decide)]
  · rfl

lemma prefix_newline (colored : Bool) (timestampNs : UInt64) (level : UInt8) (target : String) (line : UInt32) :
    newline ∈ writeLogPrefix colored timestampNs level target line ↔ newline ∈ utf8 target := by
  have hts := (formatTimestamp_printable timestampNs).not_mem (show newline < 32 by decide)
  have htag := (levelTag_printable level).not_mem (show newline < 32 by decide)
  have hblank : newline ∉ utf8 " " := by decide
  rw [← place_newline target line, writeLogPrefix]
  cases colored with
  | true =>
    rw [writePrefixInner, if_pos rfl, ← levelTag, ← place]
    simp [hts, htag, hblank, escape_noNewline gray_isSequence, escape_noNewline reset_isSequence,
      escape_noNewline (levelColor_isSequence level)]
  | false =>
    rw [writePrefixInner, if_neg Bool.false_ne_true, uncolored_tail_eq]
    simp [hts, htag, hblank]

lemma Logged.text_newline (said : Logged) (colored : Bool) : newline ∉ said.text colored ↔ said.Lacks newline := by
  rw [Logged.text, Logged.Lacks, List.mem_append, prefix_newline, not_or]

lemma newline_noEsc : esc ∉ utf8 "\n" := by decide

def Logged.pieces (said : Logged) (h : said.Lacks esc) : List Piece :=
  prefixPieces said.timestampNs said.level said.line h.1 ++
    [.text (utf8 said.message) h.2, .text (utf8 "\n") newline_noEsc]

lemma Logged.strip {said : Logged} (h : said.Lacks esc) (colored : Bool) (rest : Bytes) :
    stripEscapes (said.render colored ++ rest) = said.render false ++ stripEscapes rest := by
  have hplain : said.render false = visible (said.pieces h) := by
    simp [Logged.render, Logged.pieces, writeLogPrefix, uncolored_eq said.timestampNs said.level said.line h.1]
  cases colored with
  | true =>
    have hcolored : said.render true = Ansi.render (said.pieces h) := by
      simp [Logged.render, Logged.pieces, writeLogPrefix, colored_eq said.timestampNs said.level said.line h.1]
    rw [hcolored, hplain, stripEscapes_render_append]
  | false =>
    rw [hplain]
    exact stripEscapes_text (visible_noEsc _) rest

lemma Program.log_stream (P : Program lex) {backpressure : BackpressureMode} {hasTimeout : Bool} {archives : ℕ}
    {t : State} {tr : List (State × Action)} (h : Run (step (P.config backpressure hasTimeout archives)) {} tr t)
    {Q : Logged → Prop} (hasked : ∀ e ∈ events asked tr, e.stream = 0 → ∃ said, P.Logs e.record said ∧ Q said) :
    ∃ saids, List.Forall₂ P.Logs ((onStream 0 ((events (settled (P.config backpressure hasTimeout archives))
        tr).filterMap accepted)).take (t.rings 0).head) saids ∧
      (∀ said ∈ saids, Q said) ∧ t.writes 0 = saids.map fun said => said.render P.colored :=
  lines_said h (fun _ _ hl => by rw [Config.format, if_pos rfl]; exact hl.formatted) hasked

theorem log_stream_splits_iff (P : Program lex) (backpressure : BackpressureMode) (hasTimeout : Bool) (archives : ℕ)
    (t : State) (tr : List (State × Action)) (h : Run (step (P.config backpressure hasTimeout archives)) {} tr t)
    (hasked : ∀ e ∈ events asked tr, e.stream = 0 → ∃ said, P.Logs e.record said) :
    ∃ saids, List.Forall₂ P.Logs ((onStream 0 ((events (settled (P.config backpressure hasTimeout archives))
        tr).filterMap accepted)).take (t.rings 0).head) saids ∧
      ((t.writes 0).flatten.splitOn newline = saids.map (fun said => said.text P.colored) ++ [[]] ↔
        ∀ said ∈ saids, said.Lacks newline) := by
  obtain ⟨saids, hlogs, -, hwrites⟩ := P.log_stream h (Q := fun _ => True) fun e he hk =>
    (hasked e he hk).imp fun _ hl => ⟨hl, trivial⟩
  refine ⟨saids, hlogs, ?_⟩
  have hlines : t.writes 0 = (saids.map fun said => said.text P.colored).map fun l => l ++ [newline] := by
    rw [hwrites, List.map_map]
    exact List.map_congr_left fun said _ => said.render_eq P.colored
  rw [hlines, splitOn_terminated_iff, List.forall_mem_map]
  exact forall₂_congr fun said _ => said.text_newline P.colored

lemma bracketed_logs : ∃ record, mixedProgram.Logs record ⟨0, 3, "a::b[0m", 7, "hi"⟩ := by
  let claim : Bytes := List.replicate (standardRecordSize (utf8 "a::b[0m").length (utf8 "hi").length) 0
  have ht : (utf8 "a::b[0m").length ≤ 65535 := by decide
  have hc : claim.length = standardRecordSize (utf8 "a::b[0m").length (utf8 "hi").length := List.length_replicate
  have hr : logImplRecord ⟨0, 1, 3⟩ 7 "a::b[0m" "hi" claim = some _ := logImplRecord_eq ht hc
  exact ⟨_, .bridge rfl hc hr⟩

theorem log_stream_splits_iff_bracketed : ∃ t tr, Run (step (mixedProgram.config .drop true 0)) {} tr t ∧
    (t.writes 0).length = 1 ∧
    ∃ saids, List.Forall₂ mixedProgram.Logs ((onStream 0 ((events (settled (mixedProgram.config .drop true 0))
        tr).filterMap accepted)).take (t.rings 0).head) saids ∧
      ((t.writes 0).flatten.splitOn newline = saids.map (fun said => said.text mixedProgram.colored) ++ [[]] ↔
        ∀ said ∈ saids, said.Lacks newline) := by
  obtain ⟨record, hlog⟩ := bracketed_logs
  obtain ⟨t, tr, ht, hw, hask⟩ := one_record_run (mixedProgram.config .drop true 0) (Nat.zero_le _) hlog.formatted
  refine ⟨t, tr, ht, by rw [hw]; rfl, log_stream_splits_iff mixedProgram .drop true 0 t tr ht fun e he _ => ?_⟩
  rw [hask, List.mem_singleton] at he
  subst he
  exact ⟨_, hlog⟩

lemma strip_rendered {saids : List Logged} (h : ∀ said ∈ saids, said.Lacks esc) (colored : Bool) :
    stripEscapes (saids.map fun said => said.render colored).flatten =
      (saids.map fun said => said.render false).flatten := by
  induction saids with
  | nil => rfl
  | cons said saids ih =>
    rw [List.forall_mem_cons] at h
    rw [List.map_cons, List.flatten_cons, Logged.strip h.1, ih h.2, List.map_cons, List.flatten_cons]

theorem log_stream_strips (P : Program lex) (backpressure : BackpressureMode) (hasTimeout : Bool) (archives : ℕ)
    (t : State) (tr : List (State × Action)) (h : Run (step (P.config backpressure hasTimeout archives)) {} tr t)
    (hasked : ∀ e ∈ events asked tr, e.stream = 0 → ∃ said, P.Logs e.record said ∧ said.Lacks esc) :
    ∃ saids, List.Forall₂ P.Logs ((onStream 0 ((events (settled (P.config backpressure hasTimeout archives))
        tr).filterMap accepted)).take (t.rings 0).head) saids ∧
      stripEscapes (t.writes 0).flatten = (saids.map fun said => said.render false).flatten := by
  obtain ⟨saids, hlogs, hclean, hwrites⟩ := P.log_stream h hasked
  exact ⟨saids, hlogs, by rw [hwrites, strip_rendered hclean]⟩

theorem log_stream_strips_bracketed : ∃ t tr, Run (step (mixedProgram.config .drop true 0)) {} tr t ∧
    (t.writes 0).length = 1 ∧
    ∃ saids, List.Forall₂ mixedProgram.Logs ((onStream 0 ((events (settled (mixedProgram.config .drop true 0))
        tr).filterMap accepted)).take (t.rings 0).head) saids ∧
      stripEscapes (t.writes 0).flatten = (saids.map fun said => said.render false).flatten := by
  obtain ⟨record, hlog⟩ := bracketed_logs
  obtain ⟨t, tr, ht, hw, hask⟩ := one_record_run (mixedProgram.config .drop true 0) (Nat.zero_le _) hlog.formatted
  refine ⟨t, tr, ht, by rw [hw]; rfl, log_stream_strips mixedProgram .drop true 0 t tr ht fun e he _ => ?_⟩
  rw [hask, List.mem_singleton] at he
  subst he
  exact ⟨_, hlog, by decide, by decide⟩

end InqJet
