import InqJet.Consumer.Busy
import InqJet.HotPath.Agreement
import InqJet.Logger.Records

namespace InqJet

open ByteCodec ClaimQueue FormatGrammar Runs

variable {lex : Lexicon}

/-- What the linker and the builder fix: the address of the standard format function and of those of the call
sites (each with its format string and argument types), the colour flag and the tag types of the archives. -/
structure Program (lex : Lexicon) where
  reader : Reader lex
  strings : StrFormat lex
  colored : Bool
  standardFn : UInt64
  sites : UInt64 → Option (List Char × List DecodedType)
  tags : ℕ → TagType

def Program.code (P : Program lex) (address : UInt64) : FormatFn :=
  if address = P.standardFn then standardFormatFn P.colored
  else
    match P.sites address with
    | some (fmtStr, types) => generatedFmt P.reader P.strings P.colored fmtStr types
    | none => fun _ => none

def Program.config (P : Program lex) (backpressure : BackpressureMode) (hasTimeout : Bool) (archives : ℕ) :
    Config :=
  ⟨backpressure, hasTimeout, archives, P.code, fun k => archiveFormatFn (P.tags k).archiveTag⟩

/-- A macro call up to the commit. `claim n` is what the ring hands out for `n` bytes. -/
def LogCall.hotRecord (c : LogCall lex) (reader : Reader lex) (formatter : UInt64) (claim : ℕ → Bytes)
    (st : Stash) : Option Bytes := do
  let expansion ← (generate c.fmtStr c.args.length).toOption
  let args ← hotArgs reader expansion.closureFmts c.args
  let (sizes, st) ← sizeArgs args st
  (hotSubmitRecord ⟨c.timestampNs, formatter, c.level⟩ c.line c.target (args.zip sizes) st
    (claim (headerSize + totalSize c.target sizes))).2

/-- The macro accepts the format string, the placeholders it sees are those of the grammar, none is `{:p}`,
and no text is longer than its length field can say. -/
structure LogCall.Sound (c : LogCall lex) (reader : Reader lex) (pieces : List (Piece lex)) : Prop where
  target : (utf8 c.target).length ≤ 65535
  read : reader.read c.fmtStr = some pieces
  parsed : ∃ infos, parseFormatPlaceholders c.fmtStr = .ok infos ∧
    infos.map PlaceholderInfo.inner = (placeholders pieces).map Placeholder.inner
  args : c.args.length = (placeholders pieces).length
  noPointer : ∀ p ∈ placeholders pieces, p.type ≠ .pointer
  short : ∀ pa ∈ (placeholders pieces).zip c.args, pa.2.Short pa.1.inner

structure Logged where
  timestampNs : UInt64
  level : UInt8
  target : String
  line : UInt32
  message : String

def Logged.render (said : Logged) (colored : Bool) : Bytes :=
  writeLogPrefix colored said.timestampNs said.level said.target said.line ++ (utf8 said.message ++ utf8 "\n")

inductive Program.Logs (P : Program lex) : Bytes → Logged → Prop
  | bridge {header line target message claim record} : header.formatter = P.standardFn →
      claim.length = standardRecordSize (utf8 target).length (utf8 message).length →
      logImplRecord header line target message claim = some record →
      P.Logs record ⟨header.timestampNs, header.level, target, line, message⟩
  | hot {c : LogCall lex} {formatter pieces message claim st record} : formatter ≠ P.standardFn →
      P.sites formatter = some (c.fmtStr, c.args.map Arg.decodedType) → c.Sound P.reader pieces →
      formatArgs (Arg.fmt P.strings) pieces c.args = some message → (∀ n, (claim n).length = n) → st.Cleared →
      c.hotRecord P.reader formatter claim st = some record →
      P.Logs record ⟨c.timestampNs, c.level, c.target, c.line, message⟩

structure Noted where
  timestampNs : UInt64
  label : Bytes
  payload : Bytes

def Noted.render (noted : Noted) : Bytes :=
  formatTimestamp noted.timestampNs ++ utf8 " [" ++ noted.label ++ utf8 "] " ++ noted.payload ++ utf8 "\n"

inductive Program.Notes (P : Program lex) : ℕ → Bytes → Noted → Prop
  | write {k ts tag m payload claim record label} : k ≠ 0 → (P.tags k).Memory tag m →
      payload.length < 2 ^ 32 → claim.length = archiveRecordSize m.length payload.length →
      archiveWrite ts m payload claim = some record → (P.tags k).writeLabel tag = some label →
      P.Notes k record ⟨ts, label, payload⟩

inductive Program.Prints (P : Program lex) : ℕ → Bytes → Bytes → Prop
  | log {record said} : P.Logs record said → P.Prints 0 record (said.render P.colored)
  | archive {k record noted} : P.Notes k record noted → P.Prints k record noted.render

lemma logImplRecord_eq {header : RecordHeader} {line : UInt32} {target message : String} {claim : Bytes}
    (ht : (utf8 target).length ≤ 65535)
    (hc : claim.length = standardRecordSize (utf8 target).length (utf8 message).length) :
    logImplRecord header line target message claim =
      some (header.bytes ++ (payloadPrefix line target ++ utf8 message)) := by
  simp only [standardRecordSize] at hc
  have hs := slice_from (b := claim.drop headerSize) header.bytes_length
  have hrest : (claim.drop headerSize).length = 6 + (utf8 target).length + (utf8 message).length := by
    rw [List.length_drop]
    omega
  have hp := writeStandardPayload_eq line ht hrest.ge
  have hend : (claim.drop headerSize).drop (6 + (utf8 target).length + (utf8 message).length) = [] :=
    List.drop_eq_nil_of_le hrest.le
  rw [hend, List.append_nil] at hp
  simp only [logImplRecord, writeHeader_eq header (show headerSize ≤ claim.length by omega), hs, hp,
    Option.bind_eq_bind, Option.bind_some, List.take_left' header.bytes_length]

lemma logImplRecord_target {header : RecordHeader} {line : UInt32} {target message : String} {claim record : Bytes}
    (h : logImplRecord header line target message claim = some record) : (utf8 target).length ≤ 65535 := by
  obtain ⟨region, payload, n, hp, -⟩ := logImplRecord_eq_some h
  exact writeStandardPayload_target hp

lemma LogCall.Sound.encodes {c : LogCall lex} {reader : Reader lex} {pieces : List (Piece lex)}
    (h : c.Sound reader pieces) (S : StrFormat lex) :
    ∃ expansion hots vs, (generate c.fmtStr c.args.length).toOption = some expansion ∧
      hotArgs reader expansion.closureFmts c.args = some hots ∧ (∀ a ∈ hots, a.Fits) ∧
      (c.args.map Arg.decodedType).map DecodedType.witness = hots.map HotArg.hotWitness ∧
      values (c.args.map Arg.decodedType) (hots.map HotArg.decoded) = some vs ∧
      formatArgs (Value.fmt S) pieces vs = formatArgs (Arg.fmt S) pieces c.args := by
  obtain ⟨infos, hparse, hinner⟩ := h.parsed
  obtain ⟨pas, hpas⟩ : ∃ pas, (placeholders pieces).zip c.args = pas := ⟨_, rfl⟩
  have hfst : pas.map Prod.fst = placeholders pieces := hpas ▸ List.map_fst_zip h.args.ge
  have hsnd : pas.map Prod.snd = c.args := hpas ▸ List.map_snd_zip h.args.le
  have hmem : ∀ pa ∈ pas, pa.1 ∈ placeholders pieces := fun pa hpa => hfst ▸ List.mem_map_of_mem hpa
  have hfmts : infos.map closureFmt = pas.map fun pa => '{' :: pa.1.inner ++ ['}'] := by
    calc infos.map closureFmt
      _ = (infos.map PlaceholderInfo.inner).map fun inner => '{' :: inner ++ ['}'] := by
        rw [List.map_map]; rfl
      _ = pas.map fun pa => '{' :: pa.1.inner ++ ['}'] := by
        rw [hinner, ← hfst, List.map_map, List.map_map]; rfl
  have hpos : ∀ pa ∈ pas, Positional pa.1.inner := by
    intro pa hpa
    have hi : pa.1.inner ∈ infos.map PlaceholderInfo.inner := hinner ▸ List.mem_map_of_mem (hmem pa hpa)
    obtain ⟨info, hinfo, he⟩ := List.mem_map.mp hi
    exact he ▸ parse_positional hparse info hinfo
  have hlen : infos.length = c.args.length := by
    rw [h.args]
    simpa only [List.length_map] using congrArg List.length hinner
  obtain ⟨bounds, hgen⟩ := generate_ok hparse hlen
  refine ⟨_, pas.map fun pa => pa.2.encodedAs pa.1.inner, pas.map fun pa => pa.2.value pa.1.inner, hgen, ?_, ?_, ?_,
    ?_, ?_⟩
  · simp only [hfmts, ← hsnd]
    exact hotArgs_eq reader hpos fun pa hpa => h.noPointer _ (hmem pa hpa)
  · exact List.forall_mem_map.mpr fun pa hpa => fits_encodedAs (h.short pa (hpas ▸ hpa))
  · simp only [← hsnd, List.map_map]
    exact List.map_congr_left fun pa _ => (witness_encodedAs pa.1.inner pa.2).symm
  · have hv := values_eq pas
    simpa only [← hsnd, List.map_map, Function.comp_def] using hv
  · rw [← hpas]
    exact formatArgs_congr (fun p a => a.value p.inner) h.args fun p hp a => value_fmt S (h.noPointer p hp) a

lemma hotRecord_eq {c : LogCall lex} {reader : Reader lex} {claim : ℕ → Bytes} {st : Stash}
    {expansion : Expansion} {hots : List HotArg} (hclaim : ∀ n, (claim n).length = n) (hst : st.Cleared)
    (hgen : (generate c.fmtStr c.args.length).toOption = some expansion)
    (hhots : hotArgs reader expansion.closureFmts c.args = some hots) (formatter : UInt64) :
    c.hotRecord reader formatter claim st = some (RecordHeader.bytes ⟨c.timestampNs, formatter, c.level⟩ ++
      hotPayload c.line c.target hots) := by
  obtain ⟨st₁, q, hs, hr, hq⟩ := sizeArgs_cleared hst hots
  obtain ⟨st₂, he, -⟩ := hotSubmitRecord_eq hr hq ⟨c.timestampNs, formatter, c.level⟩ c.line c.target (hclaim _)
  simp only [LogCall.hotRecord, hgen, hhots, hs, Option.bind_eq_bind, Option.bind_some, zip_sizes, he]

lemma Program.Logs.formatted {P : Program lex} {record : Bytes} {said : Logged} (h : P.Logs record said) :
    formatLogRecord P.code record = some (said.render P.colored) := by
  cases h with
  | @bridge header line target message claim _ hf hc hr =>
    have ht := logImplRecord_target hr
    rw [logImplRecord_eq ht hc] at hr
    obtain rfl := Option.some.inj hr
    rw [formatLogRecord_bytes]
    simp only [Program.code, hf, if_true, standardFormatFn_eq P.colored _ _ line message ht, Logged.render]
  | @hot c formatter pieces message claim st _ hne hsite hsound hmsg hclaim hst hr =>
    obtain ⟨expansion, hots, vs, hgen, hhots, hfit, hwit, hvals, hfmt⟩ := hsound.encodes P.strings
    rw [hotRecord_eq hclaim hst hgen hhots] at hr
    obtain rfl := Option.some.inj hr
    rw [formatLogRecord_bytes]
    have hd := decodePayload_eq c.line hsound.target hfit
    simp only [Program.code, if_neg hne, hsite, generatedFmt, hwit, hd, hsound.read, hvals, hfmt, hmsg,
      Option.bind_eq_bind, Option.bind_some, Logged.render]

lemma Program.Notes.formatted {P : Program lex} {k : ℕ} {record : Bytes} {noted : Noted}
    (h : P.Notes k record noted) (backpressure : BackpressureMode) (hasTimeout : Bool) (archives : ℕ) :
    (P.config backpressure hasTimeout archives).format k record = some noted.render := by
  cases h with
  | @write ts tag m payload claim _ label hk hm hp hc hr hl =>
    rw [archiveWrite_eq ts hc] at hr
    obtain rfl := Option.some.inj hr
    rw [Config.format, if_neg hk]
    simp only [Program.config, archiveFormatFn_eq (P.tags k).archiveTag ts ((P.tags k).memory_length tag m hm) hp]
    simp only [TagType.archiveTag, (P.tags k).read_memory tag m hm, hl, Option.map_some, Noted.render]

lemma Program.Prints.formatted {P : Program lex} {k : ℕ} {record line : Bytes} (h : P.Prints k record line)
    (backpressure : BackpressureMode) (hasTimeout : Bool) (archives : ℕ) :
    (P.config backpressure hasTimeout archives).format k record = some line := by
  cases h with
  | log hlog =>
    rw [Config.format, if_pos rfl]
    exact hlog.formatted
  | archive hnote => exact hnote.formatted backpressure hasTimeout archives

lemma unwinding_step {cfg : Config} {s t : State} {a : Action} (h : step cfg s a = some t)
    (hs : s.archiver ≠ .unwound) (ht : t.archiver = .unwound) : Unwinds cfg s a := by
  cases a with
  | archiver io =>
    rcases turn_phase (archiver_turn h) with ⟨hpanic, -⟩ | ⟨-, -, hne⟩
    · exact hpanic
    · exact (hne ht).elim
  | _ =>
    rcases (other_step h (by rintro _ ⟨⟩)).1 with hpc | hpc
    · exact (hs (hpc ▸ ht)).elim
    · rw [hpc] at ht
      cases ht

lemma Program.unwound_by_writer (P : Program lex) {backpressure : BackpressureMode} {hasTimeout : Bool}
    {archives : ℕ} {t : State} {tr : List (State × Action)} {a : Action}
    (h : Run (step (P.config backpressure hasTimeout archives)) {} tr t)
    (hasked : ∀ e ∈ events asked tr, ∃ line, P.Prints e.stream e.record line)
    (hu : Unwinds (P.config backpressure hasTimeout archives) t a) : a = .archiver .panic := by
  have hw : WriteInv _ t := (h.invariant (fun _ _ _ hs ha => hs.step ha) (writeInv_initial _)).1
  cases a with
  | archiver io =>
    simp only [Unwinds] at hu
    split at hu
    case h_1 ph k record hpc =>
      have hin := hw.inWork
      rw [hpc] at hin
      have hmem : record ∈ (t.rings k).records := by
        rw [Queue.records, List.mem_map]
        exact ⟨_, List.mem_of_getElem? (peek_eq_some.mp hin.1), rfl⟩
      obtain ⟨e, he, rfl, rfl⟩ := onStream_asked h hmem
      obtain ⟨line, hl⟩ := hasked e he
      rw [hl.formatted] at hu
      cases hu
    case h_2 => rw [hu]
    case h_3 => rw [hu]
    case h_4 => exact hu.elim
  | _ => exact hu.elim

/-- When every call in a run is one of the program's, each writer has got exactly the lines that the accepted calls
on its stream stand for, in the order of their acceptance, up to the ring's head; and only a panic of a writer can
have unwound the archiver. -/
theorem lines_end_to_end (P : Program lex) (backpressure : BackpressureMode) (hasTimeout : Bool) (archives : ℕ)
    (t : State) (tr : List (State × Action))
    (h : Run (step (P.config backpressure hasTimeout archives)) {} tr t)
    (hasked : ∀ e ∈ events asked tr, ∃ line, P.Prints e.stream e.record line) :
    (∀ k, List.Forall₂ (P.Prints k) ((onStream k ((events (settled (P.config backpressure hasTimeout archives))
      tr).filterMap accepted)).take (t.rings k).head) (t.writes k)) ∧
    (t.archiver = .unwound → ∃ p ∈ tr, p.2 = .archiver .panic) := by
  refine ⟨fun k => ?_, fun hu => ?_⟩
  · obtain ⟨lines, hlines, -, hw⟩ := lines_said h (R := P.Prints k) (f := id) (Q := fun _ => True)
      (fun _ _ hp => hp.formatted backpressure hasTimeout archives)
      fun e he hk => (hk ▸ hasked e he).imp fun _ hp => ⟨hp, trivial⟩
    rwa [hw, List.map_id]
  · induction h with
    | nil => cases hu
    | @snoc tr t a u hr ha ih =>
      have hprev : ∀ e ∈ events asked tr, ∃ line, P.Prints e.stream e.record line := fun e he =>
        hasked e (by rw [events_snoc]; exact List.mem_append_left _ he)
      by_cases hun : t.archiver = .unwound
      · obtain ⟨p, hp, hpanic⟩ := ih hprev hun
        exact ⟨p, List.mem_append_left _ hp, hpanic⟩
      · exact ⟨(t, a), by simp, P.unwound_by_writer hr hprev (unwinding_step ha hun hu)⟩

lemma live_reaches (cfg : Config) {s : State} (hpc : s.archiver = .poll .live 0) {k : ℕ} (hk : k ≤ cfg.archives)
    (hempty : ∀ j < k, (s.rings j).peek = none) :
    ∃ tr, Run (step cfg) s tr { s with archiver := .poll .live k } ∧
      tr.map Prod.snd = List.replicate k (.archiver .ok) := by
  induction k with
  | zero => exact ⟨[], by rw [← hpc]; exact .nil, rfl⟩
  | succ k ih =>
    obtain ⟨tr, hr, hacts⟩ := ih (by omega) fun j hj => hempty j (by omega)
    have hpoll : step cfg { s with archiver := .poll .live k } (.archiver .ok) =
        some { s with archiver := .poll .live (k + 1) } := by
      simp [step, archiverStep, hempty k k.lt_succ_self, afterPoll, Nat.lt_of_succ_le hk]
    exact ⟨_, hr.snoc hpoll, by rw [List.map_append, hacts, List.replicate_succ']; rfl⟩

lemma one_record_run (cfg : Config) {k : ℕ} (hk : k ≤ cfg.archives) {record bytes : Bytes}
    (hf : cfg.format k record = some bytes) :
    ∃ t tr, Run (step cfg) {} tr t ∧ t.writes k = [bytes] ∧ events asked tr = [⟨0, k, record⟩] := by
  obtain ⟨s, tr, hs, hacts, ⟨⟨hpc, hsame⟩, -⟩, -, hring⟩ :=
    write_record cfg (s := {}) (p := 0) record rfl hk fun _ => rfl
  let u : State := { s with archiver := .poll .live 0, hadWork := false }
  have hu : step cfg s (.archiver .ok) = some u := by
    simp [step, archiverStep, hpc, hsame.running, u]
  have hempty : ∀ j < k, (u.rings j).peek = none := by
    intro j hj
    have hj : u.rings j = {} := hsame.rings j (Nat.ne_of_lt hj)
    rw [hj]
    rfl
  obtain ⟨tr₁, hr₁, hacts₁⟩ := live_reaches cfg (s := u) rfl hk hempty
  have hone : u.rings k = ((({} : State).rings k).claim record).commit 0 := hring
  have hpeek : (u.rings k).peek = some record := by
    rw [hone]
    exact peek_claim_commit record rfl
  obtain ⟨t, tr₂, ht, hacts₂, -, -, -, hring₂⟩ :=
    read_record (s := { u with archiver := .poll .live k }) rfl hpeek hf
  have hall := ((hs.snoc hu).trans hr₁).trans ht
  refine ⟨t, _, hall, ?_, ?_⟩
  · have hw : WriteInv cfg t := (hall.invariant (fun _ _ _ hs ha => hs.step ha) (writeInv_initial cfg)).1
    have hcons : (t.rings k).consumed = [record] := by
      rw [hring₂, consumed_advance hpeek, hone]
      rfl
    rw [hw.writes, hcons, List.filterMap_cons_some hf]
    rfl
  · have hsilent (n : ℕ) : (List.replicate n (Action.archiver .ok)).filterMap (asked {}) = [] := by
      rw [List.filterMap_replicate_of_none rfl]
    simp only [events_asked, List.map_append, List.filterMap_append, hacts, hacts₁, hacts₂, hsilent]
    rfl

noncomputable def mixedProgram : Program ascii where
  reader := .preferring mixedPieces
  strings := strFormat
  colored := true
  standardFn := 1
  sites address := if address = 2 then some (mixedCall.fmtStr, mixedCall.args.map Arg.decodedType) else none
  tags _ := direction

lemma mixedCall_sound : mixedCall.Sound (.preferring mixedPieces) mixedPieces where
  target := by decide
  read := Reader.preferring_read mixedPieces
  parsed := ⟨[⟨.display, []⟩, ⟨.display, []⟩, ⟨.debug, [':', '?']⟩], rfl, rfl⟩
  args := rfl
  noPointer := by simp [mixedPieces, placeholders, Placeholder.type]
  short := by simp [mixedPieces, placeholders, mixedCall, Arg.Short]; decide

theorem lines_end_to_end_mixed : ∃ t tr, Run (step (mixedProgram.config .backoff true 0)) {} tr t ∧
    (t.writes 0).length = 1 ∧
    (∀ k, List.Forall₂ (mixedProgram.Prints k) ((onStream k ((events (settled (mixedProgram.config .backoff true 0))
      tr).filterMap accepted)).take (t.rings k).head) (t.writes k)) ∧
    (t.archiver = .unwound → ∃ p ∈ tr, p.2 = .archiver .panic) := by
  have hsound := mixedCall_sound
  obtain ⟨message, hm⟩ := formatArgs_some (Arg.fmt strFormat) hsound.args
  obtain ⟨expansion, hots, vs, hgen, hhots, -⟩ := hsound.encodes strFormat
  have hclaim : ∀ n, ((List.replicate · 0 : ℕ → Bytes) n).length = n := fun _ => List.length_replicate
  have hr := hotRecord_eq hclaim cleared_initial hgen hhots 2
  have hprint : mixedProgram.Prints 0 _ _ :=
    .log (.hot (by decide) rfl hsound hm hclaim cleared_initial hr)
  obtain ⟨t, tr, ht, hw, hask⟩ :=
    one_record_run (mixedProgram.config .backoff true 0) (Nat.zero_le _) (hprint.formatted _ _ _)
  refine ⟨t, tr, ht, by rw [hw]; rfl, lines_end_to_end mixedProgram .backoff true 0 t tr ht fun e he => ?_⟩
  rw [hask, List.mem_singleton] at he
  subst he
  exact ⟨_, hprint⟩

end InqJet
