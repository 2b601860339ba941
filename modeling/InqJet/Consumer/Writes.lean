import InqJet.Consumer.System

namespace InqJet

open ByteCodec ClaimQueue Function Runs

variable {cfg : Config}

def InWork (cfg : Config) (rings : ℕ → Queue Bytes) (buf : Bytes) : ArchiverPc → Prop
  | .claimed _ k record => (rings k).peek = some record
  | .cleared _ k record => (rings k).peek = some record ∧ buf = []
  | .formatted _ k => ∃ record, (rings k).peek = some record ∧ cfg.format k record = some buf
  | _ => True

structure WriteInv (cfg : Config) (s : State) : Prop where
  bounds : ∀ k, (s.rings k).InBounds
  inWork : InWork cfg s.rings s.buf s.archiver
  writes : ∀ k, s.writes k = (s.rings k).consumed.filterMap (cfg.format k)
  formatted : s.archiver ≠ .unwound → ∀ k, ∀ record ∈ (s.rings k).consumed, (cfg.format k record).isSome = true

lemma writes_issue (s : State) (k j : ℕ) (c : WriterCall) :
    (s.issue k c).writes j = s.writes j ++ if j = k then c.bytes.toList else [] := by
  by_cases hj : j = k
  · subst hj
    cases c <;> simp [State.writes, State.issue, WriterCall.bytes]
  · simp [State.writes, State.issue, hj]

lemma writeInv_initial (cfg : Config) : WriteInv cfg {} :=
  ⟨fun _ => le_refl 0, trivial, fun _ => rfl, fun _ _ => nofun⟩

lemma WriteInv.rely {s t : State} (hs : WriteInv cfg s) (h : Rely s t) : WriteInv cfg t := by
  have hc (k) : (t.rings k).consumed = (s.rings k).consumed := (h.rings k).consumed (hs.bounds k)
  refine ⟨fun k => (h.rings k).inBounds (hs.bounds k), ?_, fun k => ?_, fun hu k => ?_⟩
  · have hw := hs.inWork
    rw [h.archiver, h.buf]
    cases hpc : s.archiver with
    | claimed ph k record =>
      rw [hpc] at hw
      exact (h.rings k).peek hw
    | cleared ph k record =>
      rw [hpc] at hw
      exact ⟨(h.rings k).peek hw.1, hw.2⟩
    | formatted ph k =>
      rw [hpc] at hw
      obtain ⟨record, hp, hf⟩ := hw
      exact ⟨record, (h.rings k).peek hp, hf⟩
    | _ => trivial
  · rw [hc, ← hs.writes k, State.writes, State.writes, h.calls]
  · rw [hc]
    exact hs.formatted (h.archiver ▸ hu) k

lemma WriteInv.move {s t : State} (hs : WriteInv cfg s) (hu : t.archiver ≠ .unwound → s.archiver ≠ .unwound)
    (hr : t.rings = s.rings) (hc : ∀ k, t.writes k = s.writes k) (hw : InWork cfg t.rings t.buf t.archiver) :
    WriteInv cfg t := by
  refine ⟨by rw [hr]; exact hs.bounds, hw, fun k => ?_, fun ht => ?_⟩
  · rw [hr, hc, hs.writes k]
  · rw [hr]
    exact hs.formatted (hu ht)

lemma WriteInv.consume {s t : State} (hs : WriteInv cfg s) {k : ℕ} {record : Bytes}
    (hp : (s.rings k).peek = some record) (hr : t.rings = update s.rings k (s.rings k).advance)
    (hc : ∀ j, t.writes j = s.writes j ++ if j = k then (cfg.format k record).toList else [])
    (hu : s.archiver ≠ .unwound) (hf : t.archiver ≠ .unwound → (cfg.format k record).isSome = true)
    (hw : InWork cfg t.rings t.buf t.archiver) : WriteInv cfg t := by
  refine ⟨fun j => ?_, hw, fun j => ?_, fun ht j => ?_⟩
  · by_cases hj : j = k
    · subst hj
      rw [hr, update_self]
      exact inBounds_advance hp
    · rw [hr, update_of_ne hj]
      exact hs.bounds j
  · by_cases hj : j = k
    · subst hj
      rw [hc, hr, update_self, consumed_advance hp, hs.writes, if_pos rfl, List.filterMap_append]
      cases hf : cfg.format j record <;> simp [hf]
    · rw [hc, hr, update_of_ne hj, hs.writes, if_neg hj, List.append_nil]
  · by_cases hj : j = k
    · subst hj
      rw [hr, update_self, consumed_advance hp]
      simpa [or_imp, forall_and, hf ht] using hs.formatted hu j
    · rw [hr, update_of_ne hj]
      exact hs.formatted hu j

lemma inWork_afterPoll (rings : ℕ → Queue Bytes) (buf : Bytes) (hadWork : Bool) (ph : Phase) (k : ℕ) :
    InWork cfg rings buf (afterPoll cfg hadWork ph k) := by
  cases ph with
  | live => simp only [afterPoll]; split_ifs <;> trivial
  | drain => trivial

lemma inWork_afterFlush (rings : ℕ → Queue Bytes) (buf : Bytes) (ph : Phase) (k : ℕ) :
    InWork cfg rings buf (afterFlush cfg ph k) := by
  cases ph <;> simp only [afterFlush] <;> split_ifs <;> trivial

lemma WriteInv.turn {s t : State} {io : IoResult} (hs : WriteInv cfg s) (h : Turn cfg s io t) :
    WriteInv cfg t := by
  have hw := hs.inWork
  have hu : s.archiver ≠ .unwound := by cases h <;> simp [*]
  have hwrite {k : ℕ} {record : Bytes} (hf : cfg.format k record = some s.buf) (j : ℕ) :
      (s.issue k (.writeAll s.buf)).writes j = s.writes j ++ if j = k then (cfg.format k record).toList else [] := by
    rw [hf]
    exact writes_issue s k j _
  have hflush (k j : ℕ) : (s.issue k .flush).writes j = s.writes j := by
    simp [writes_issue, WriterCall.bytes]
  cases h with
  | start => exact hs.move (fun _ => hu) rfl (fun _ => rfl) trivial
  | stop => exact hs.move (fun _ => hu) rfl (fun _ => rfl) trivial
  | take hpc hp => exact hs.move (fun _ => hu) rfl (fun _ => rfl) hp
  | empty => exact hs.move (fun _ => hu) rfl (fun _ => rfl) (inWork_afterPoll _ _ _ _ _)
  | clear hpc =>
    rw [hpc] at hw
    exact hs.move (fun _ => hu) rfl (fun _ => rfl) ⟨hw, rfl⟩
  | @format _ ph k record bytes hpc hf =>
    rw [hpc] at hw
    exact hs.move (fun _ => hu) rfl (fun _ => rfl) ⟨record, hw.1, by simp [hf, hw.2]⟩
  | formatPanic hpc hf =>
    rw [hpc] at hw
    exact hs.consume hw.1 rfl (fun j => by simp [hf, State.writes, State.setRing]) hu (fun ht => (ht rfl).elim)
      trivial
  | write hpc =>
    rw [hpc] at hw
    obtain ⟨record, hp, hf⟩ := hw
    exact hs.consume hp rfl (hwrite hf) hu (fun _ => by simp [hf]) trivial
  | writePanic hpc =>
    rw [hpc] at hw
    obtain ⟨record, hp, hf⟩ := hw
    exact hs.consume hp rfl (hwrite hf) hu (fun ht => (ht rfl).elim) trivial
  | flush => exact hs.move (fun _ => hu) rfl (hflush _) (inWork_afterFlush _ _ _ _)
  | flushPanic => exact hs.move (fun _ => hu) rfl (hflush _) trivial
  | rest =>
    refine hs.move (fun _ => hu) rfl (fun _ => rfl) ?_
    split_ifs <;> trivial
  | wake => exact hs.move (fun _ => hu) rfl (fun _ => rfl) trivial

theorem WriteInv.step {s t : State} {a : Action} (hs : WriteInv cfg s) (h : step cfg s a = some t) :
    WriteInv cfg t := by
  cases a with
  | archiver io => exact hs.turn (archiver_turn h)
  | timedOut =>
    obtain ⟨hpc, rfl⟩ := timedOut_turn h
    exact hs.move (fun _ => by simp [hpc]) rfl (fun _ => rfl) trivial
  | guard => cases guard_turn h <;> exact hs.move id rfl (fun _ => rfl) hs.inWork
  | _ => exact hs.rely (producer_rely h trivial)

lemma formatLogRecord_bytes (code : UInt64 → FormatFn) (header : RecordHeader) (payload : Bytes) :
    formatLogRecord code (header.bytes ++ payload) =
      code header.formatter ⟨header.timestampNs, header.level, payload⟩ := by
  have hs := slice_from (b := payload) header.bytes_length
  simp only [formatLogRecord, readHeader_bytes, hs, Option.bind_eq_bind, Option.bind_some]

lemma map_some_filterMap {α β : Type*} {f : α → Option β} {xs : List α} (h : ∀ x ∈ xs, (f x).isSome = true) :
    (xs.filterMap f).map some = xs.map f := by
  induction xs with
  | nil => rfl
  | cons x xs ih =>
    simp only [List.forall_mem_cons] at h
    obtain ⟨y, hy⟩ := Option.isSome_iff_exists.mp h.1
    rw [List.filterMap_cons_some hy, List.map_cons, List.map_cons, ih h.2, hy]

/-- In every reachable state, whatever the writers returned: one call for every consumed record whose
format function returns, and so one for every consumed record as long as no panic has ended the archiver,
or no record's format function has panicked. The format function of a log record is the one its header
names, on the header's fields and the payload. -/
theorem writes_each_record_once (cfg : Config) (s : State) (h : Reachable (step cfg) {} s) (k : ℕ) :
    s.writes k = (s.rings k).consumed.filterMap (cfg.format k) ∧
      (s.archiver ≠ .unwound ∨ (∀ record ∈ (s.rings k).consumed, (cfg.format k record).isSome = true) →
        (s.writes k).map some = (s.rings k).consumed.map (cfg.format k)) ∧
      ∀ header payload, cfg.format 0 (RecordHeader.bytes header ++ payload) =
        cfg.code header.formatter ⟨header.timestampNs, header.level, payload⟩ := by
  have hi := h.invariant (fun _ _ _ hs ha => hs.step ha) (writeInv_initial cfg)
  refine ⟨hi.writes k, fun hu => ?_, fun header payload => formatLogRecord_bytes cfg.code header payload⟩
  rw [hi.writes k]
  apply map_some_filterMap
  rcases hu with hu | hf
  · exact hi.formatted hu k
  · exact hf

def lineConfig : Config := ⟨.backoff, true, 1, fun _ _ => none, fun _ record => some (record ++ [10])⟩

def oneLine : List Action :=
  [.call 0 1 [7], .tryClaim 0 true, .commit 0, .archiver .err, .archiver .err, .archiver .err, .archiver .err,
    .archiver .err, .archiver .err]

theorem writes_each_record_once_line : ∃ s, Reachable (step lineConfig) {} s ∧ s.writes 1 = [[7, 10]] ∧
    (s.writes 1 = (s.rings 1).consumed.filterMap (lineConfig.format 1) ∧
      (s.archiver ≠ .unwound ∨ (∀ record ∈ (s.rings 1).consumed, (lineConfig.format 1 record).isSome = true) →
        (s.writes 1).map some = (s.rings 1).consumed.map (lineConfig.format 1)) ∧
      ∀ header payload, lineConfig.format 0 (RecordHeader.bytes header ++ payload) =
        lineConfig.code header.formatter ⟨header.timestampNs, header.level, payload⟩) := by
  have hrun : (exec (step lineConfig) {} oneLine).map (fun s => s.writes 1) = some [[7, 10]] := by decide
  obtain ⟨s, hs, hw⟩ := reachable_of_exec_map hrun
  exact ⟨s, hs, hw, writes_each_record_once lineConfig s hs 1⟩

end InqJet
