import InqJet.Consumer.Progress

/-! A thread that writes as fast as the archiver reads keeps the archiver at its stream: the other streams
wait, and so does a dropped guard. -/

namespace InqJet

open ByteCodec ClaimQueue Function Runs

variable {cfg : Config}

/-- In the loop that reads stream `k`. -/
def ArchiverPc.Reading (ph : Phase) (k : ℕ) : ArchiverPc → Prop
  | .poll ph' j => ph' = ph ∧ j = k
  | .claimed ph' j _ => ph' = ph ∧ j = k
  | .cleared ph' j _ => ph' = ph ∧ j = k
  | .formatted ph' j => ph' = ph ∧ j = k
  | _ => False

structure Polled (ph : Phase) (k p : ℕ) (s : State) : Prop where
  archiver : s.archiver = .poll ph k
  idle : s.producers p = .idle
  empty : (s.rings k).head = (s.rings k).slots.length
  gate : k = 0 → s.running = true

structure SameElsewhere (k : ℕ) (s t : State) : Prop where
  rings : ∀ j, j ≠ k → t.rings j = s.rings j
  guard : t.guard = s.guard
  running : t.running = s.running

lemma SameElsewhere.refl (k : ℕ) (s : State) : SameElsewhere k s s := ⟨fun _ _ => rfl, rfl, rfl⟩

lemma SameElsewhere.trans {k : ℕ} {s t u : State} (h : SameElsewhere k s t) (h' : SameElsewhere k t u) :
    SameElsewhere k s u :=
  ⟨fun j hj => (h'.rings j hj).trans (h.rings j hj), h'.guard.trans h.guard, h'.running.trans h.running⟩

structure BusyWith (ph : Phase) (k : ℕ) (s u : State) : Prop where
  reading : u.archiver.Reading ph k
  same : SameElsewhere k s u

lemma BusyWith.from {ph : Phase} {k : ℕ} {s t u : State} (h : SameElsewhere k s t) (hu : BusyWith ph k t u) :
    BusyWith ph k s u :=
  ⟨hu.reading, h.trans hu.same⟩

lemma total_moves (tr : List (State × Action)) : total moves tr = ((tr.map Prod.snd).map (moves {})).sum := by
  rw [total, List.map_map]
  rfl

lemma peek_claim_commit {q : Queue Bytes} (record : Bytes) (h : q.head = q.slots.length) :
    ((q.claim record).commit q.slots.length).peek = some record := by
  rw [peek_eq_some]
  simp [Queue.Committed, Queue.commit, Queue.claim, h]

lemma write_record (cfg : Config) {s : State} {k p : ℕ} (record : Bytes) (hidle : s.producers p = .idle)
    (hk : k ≤ cfg.archives) (hgate : k = 0 → s.running = true) :
    ∃ t tr, Run (step cfg) s tr t ∧ tr.map Prod.snd = [.call p k record, .tryClaim p true, .commit p] ∧
      Throughout (fun u => u.archiver = s.archiver ∧ SameElsewhere k s u) tr t ∧ t.producers p = .idle ∧
      t.rings k = ((s.rings k).claim record).commit (s.rings k).slots.length := by
  let u := s.setProducer p (.trying k record)
  let v := (u.setRing k ((u.rings k).claim record)).setProducer p (.claimed k (u.rings k).slots.length)
  let w := (v.setRing k ((v.rings k).commit (s.rings k).slots.length)).setProducer p .idle
  have hcall : step cfg s (.call p k record) = some u := by
    by_cases h0 : k = 0
    · subst h0
      simp [step, callStep, hidle, hgate rfl, u]
    · simp [step, callStep, hidle, h0, hk, u]
  have hclaim : step cfg u (.tryClaim p true) = some v := by
    simp [step, tryClaimStep, u, v]
  have hcommit : step cfg v (.commit p) = some w := by
    simp [step, commitStep, v, u, w, State.setProducer]
  have hu : u.archiver = s.archiver ∧ SameElsewhere k s u := ⟨rfl, fun _ _ => rfl, rfl, rfl⟩
  have hv : v.archiver = s.archiver ∧ SameElsewhere k s v := by
    refine ⟨rfl, fun j hj => ?_, rfl, rfl⟩
    simp [State.setProducer, State.setRing, hj, u, v]
  have hw : w.archiver = s.archiver ∧ SameElsewhere k s w := by
    refine ⟨rfl, fun j hj => ?_, rfl, rfl⟩
    simp [State.setProducer, State.setRing, hj, u, v, w]
  refine ⟨w, _, ((Run.nil.snoc hcall).snoc hclaim).snoc hcommit, rfl, ⟨hw, ?_⟩, producers_setProducer _ _ _, ?_⟩
  · simpa using ⟨SameElsewhere.refl k s, hu, hv⟩
  · simp [State.setProducer, State.setRing, u, v, w]

lemma read_record {s : State} {ph : Phase} {k : ℕ} {record bytes : Bytes} (hpc : s.archiver = .poll ph k)
    (hp : (s.rings k).peek = some record) (hf : cfg.format k record = some bytes) :
    ∃ t tr, Run (step cfg) s tr t ∧ tr.map Prod.snd = List.replicate 4 (.archiver .ok) ∧
      Throughout (BusyWith ph k s) tr t ∧ t.archiver = .poll ph k ∧ t.producers = s.producers ∧
      t.rings k = (s.rings k).advance := by
  let u : State := { s with archiver := .claimed ph k record }
  let v : State := { u with archiver := .cleared ph k record, buf := [] }
  let w : State := { v with archiver := .formatted ph k, buf := bytes }
  let x : State := { (w.issue k (.writeAll w.buf)).setRing k (w.rings k).advance with
    archiver := .poll ph k, hadWork := w.hadWork || ph == .live }
  have htake : step cfg s (.archiver .ok) = some u := by
    simp [step, archiverStep, hpc, hp, u]
  have hclear : step cfg u (.archiver .ok) = some v := by
    simp [step, archiverStep, u, v]
  have hformat : step cfg v (.archiver .ok) = some w := by
    simp [step, archiverStep, v, w, hf]
  have hwrite : step cfg w (.archiver .ok) = some x := by
    simp [step, archiverStep, w, x, State.setRing, State.issue]
  have hs : BusyWith ph k s s := ⟨by simp [ArchiverPc.Reading, hpc], .refl k s⟩
  have hu : BusyWith ph k s u := ⟨⟨rfl, rfl⟩, fun _ _ => rfl, rfl, rfl⟩
  have hv : BusyWith ph k s v := ⟨⟨rfl, rfl⟩, fun _ _ => rfl, rfl, rfl⟩
  have hw : BusyWith ph k s w := ⟨⟨rfl, rfl⟩, fun _ _ => rfl, rfl, rfl⟩
  have hx : BusyWith ph k s x := by
    refine ⟨⟨rfl, rfl⟩, fun j hj => ?_, rfl, rfl⟩
    simp [State.setRing, State.issue, hj, u, v, w, x]
  refine ⟨x, _, (((Run.nil.snoc htake).snoc hclear).snoc hformat).snoc hwrite, rfl, ⟨hx, ?_⟩, rfl, rfl, ?_⟩
  · simp [hs, hu, hv, hw]
  · simp [State.setRing, State.issue, u, v, w, x]

structure BusyRun (cfg : Config) (ph : Phase) (k p : ℕ) (record : Bytes) (s t : State)
    (tr : List (State × Action)) : Prop where
  run : Run (step cfg) s tr t
  calls : ∀ e ∈ events asked tr, e = ⟨p, k, record⟩
  busy : Throughout (BusyWith ph k s) tr t
  polled : Polled ph k p t

lemma BusyRun.trans {ph : Phase} {k p : ℕ} {record : Bytes} {s t u : State} {tr tr' : List (State × Action)}
    (h : BusyRun cfg ph k p record s t tr) (h' : BusyRun cfg ph k p record t u tr') :
    BusyRun cfg ph k p record s u (tr ++ tr') where
  run := h.run.trans h'.run
  calls := by
    rw [events, List.filterMap_append]
    exact List.forall_mem_append.mpr ⟨h.calls, h'.calls⟩
  busy := h.busy.append (h'.busy.imp fun _ => .from h.busy.1.same)
  polled := h'.polled

lemma busy_round {s : State} {ph : Phase} {k p : ℕ} {record bytes : Bytes} (hs : Polled ph k p s)
    (hk : k ≤ cfg.archives) (hf : cfg.format k record = some bytes) :
    ∃ t tr, BusyRun cfg ph k p record s t tr ∧ total moves tr = 4 := by
  obtain ⟨t, tr, ht, hacts, hwritten, hidle, hring⟩ := write_record cfg record hs.idle hk hs.gate
  have hpeek : (t.rings k).peek = some record := by
    rw [hring]
    exact peek_claim_commit record hs.empty
  obtain ⟨u, tr', hu, hacts', hread, hpc', hprod, hring'⟩ :=
    read_record (hwritten.1.1.trans hs.archiver) hpeek hf
  have hbusy : Throughout (BusyWith ph k s) (tr ++ tr') u := by
    apply (hwritten.imp _).append (hread.imp fun _ => .from hwritten.1.2)
    rintro v ⟨hpc, hsame⟩
    exact ⟨by simp [ArchiverPc.Reading, hpc, hs.archiver], hsame⟩
  refine ⟨u, tr ++ tr', ⟨ht.trans hu, ?_, hbusy, hpc', by rw [hprod]; exact hidle, ?_, fun h0 => ?_⟩, ?_⟩
  · rw [events_asked, List.map_append, hacts, hacts']
    simp [asked]
  · rw [hring', hring]
    simp [Queue.advance, Queue.commit, Queue.claim, hs.empty]
  · rw [hbusy.1.same.running]
    exact hs.gate h0
  · rw [total_moves, List.map_append, hacts, hacts']
    rfl

lemma busy_rounds {s : State} {ph : Phase} {k p : ℕ} {record bytes : Bytes} (hs : Polled ph k p s)
    (hk : k ≤ cfg.archives) (hf : cfg.format k record = some bytes) (n : ℕ) :
    ∃ t tr, BusyRun cfg ph k p record s t tr ∧ total moves tr = 4 * n := by
  induction n with
  | zero =>
    have hreading : s.archiver.Reading ph k := by simp [ArchiverPc.Reading, hs.archiver]
    exact ⟨s, [], ⟨.nil, by simp, ⟨⟨hreading, .refl k s⟩, by simp⟩, hs⟩, rfl⟩
  | succ n ih =>
    obtain ⟨t, tr, ht, hmoves⟩ := ih
    obtain ⟨u, tr', hu, hmoves'⟩ := busy_round ht.polled hk hf
    refine ⟨u, tr ++ tr', ht.trans hu, ?_⟩
    rw [total_append, hmoves, hmoves']
    omega

/-- For every number of moves there is a run in which the archiver makes them all in the loop of the log stream,
while a record that was committed on the first archive stream before them is not written. -/
theorem archive_starved (cfg : Config) (hn : 1 ≤ cfg.archives) (record bytes waiting : Bytes)
    (hf : cfg.format 0 record = some bytes) (n : ℕ) :
    ∃ s t tr, Reachable (step cfg) {} s ∧ (s.rings 1).Committed 0 waiting ∧ Run (step cfg) s tr t ∧
      Throughout (fun u => u.running = true ∧ u.archiver.Reading .live 0) tr t ∧ n ≤ total moves tr ∧
      t.running = true ∧ ¬ t.Left ∧ t.writes 1 = [] := by
  obtain ⟨r, tr₀, hr, -, ⟨⟨hpc, hsame⟩, -⟩, hidle, hring⟩ :=
    write_record cfg (s := {}) (p := 0) waiting rfl hn (by omega)
  have hstart : step cfg r (.archiver .ok) = some { r with archiver := .poll .live 0, hadWork := false } := by
    simp [step, archiverStep, hpc, hsame.running]
  let s : State := { r with archiver := .poll .live 0, hadWork := false }
  have hs : Reachable (step cfg) {} s := ⟨_, hr.snoc hstart⟩
  have hpolled : Polled .live 0 0 s := by
    refine ⟨rfl, hidle, ?_, fun _ => hsame.running⟩
    show (r.rings 0).head = (r.rings 0).slots.length
    rw [hsame.rings 0 (by omega)]
    rfl
  obtain ⟨t, tr, ht, hmoves⟩ := busy_rounds hpolled (Nat.zero_le _) hf n
  have hbusy : Throughout (fun u => u.running = true ∧ u.archiver.Reading .live 0) tr t :=
    ht.busy.imp fun u hu => ⟨hu.same.running.trans hsame.running, hu.reading⟩
  have hw : WriteInv cfg t :=
    (hs.trans ⟨tr, ht.run⟩).invariant (fun _ _ _ hs ha => hs.step ha) (writeInv_initial cfg)
  refine ⟨s, t, tr, hs, ?_, ht.run, hbusy, by omega, hbusy.1.1, ?_, ?_⟩
  · show (r.rings 1).Committed 0 waiting
    rw [hring]
    rfl
  · simp [State.Left, ht.polled.archiver]
  · have hhead : (t.rings 1).head = 0 := by
      rw [ht.busy.1.same.rings 1 (by omega)]
      show (r.rings 1).head = 0
      rw [hring]
      rfl
    rw [hw.writes, Queue.consumed, hhead]
    rfl

def bothConfig : Config :=
  ⟨.backoff, true, 1, fun _ ctx => some ctx.payload, fun _ record => some (record ++ [10])⟩

theorem archive_starved_both : (∃ bytes, bothConfig.format 0 plainRecord = some bytes) ∧
    ∃ s t tr, Reachable (step bothConfig) {} s ∧ (s.rings 1).Committed 0 [9] ∧ Run (step bothConfig) s tr t ∧
      Throughout (fun u => u.running = true ∧ u.archiver.Reading .live 0) tr t ∧ 1000 ≤ total moves tr ∧
      t.running = true ∧ ¬ t.Left ∧ t.writes 1 = [] := by
  have hf : bothConfig.format 0 plainRecord = some [7] := by decide
  exact ⟨⟨_, hf⟩, archive_starved bothConfig (le_refl _) plainRecord [7] [9] hf 1000⟩

lemma drain_reaches (cfg : Config) {j : ℕ} (hj : j ≤ cfg.archives) :
    ∃ s, Reachable (step cfg) {} s ∧ s.guard = .unparked ∧ s.archiver = .poll .drain j ∧
      (∀ p, s.producers p = .idle) ∧ ∀ k, s.rings k = {} := by
  induction j with
  | zero =>
    have hrun : exec (step cfg) {} [.guard, .guard, .archiver .ok] = some _ := rfl
    exact ⟨_, exec_reachable hrun, rfl, rfl, fun _ => rfl, fun _ => rfl⟩
  | succ j ih =>
    obtain ⟨s, hs, hg, hpc, hidle, hempty⟩ := ih (by omega)
    have hpeek : (s.rings j).peek = none := by
      rw [hempty]
      rfl
    have hpoll : step cfg s (.archiver .ok) = some { s with archiver := .flush .drain j } := by
      simp [step, archiverStep, hpc, hpeek, afterPoll]
    have hflush : step cfg { s with archiver := .flush .drain j } (.archiver .ok) =
        some { s.issue j .flush with archiver := .poll .drain (j + 1) } := by
      simp [step, archiverStep, State.issue, afterFlush, Nat.lt_of_succ_le hj]
    exact ⟨_, (hs.trans (.of_step hpoll)).trans (.of_step hflush), hg, rfl, hidle, hempty⟩

/-- For every number of moves there is a run in which the archiver makes them all after the guard has stored and
unparked. It starts with empty rings and no call under way: what keeps the archiver in its drain, and `drop`
waiting for it, are one thread's new archive writes. -/
theorem drop_kept_waiting (cfg : Config) (k : ℕ) (hk : 1 ≤ k) (hn : k ≤ cfg.archives) (record bytes : Bytes)
    (hf : cfg.format k record = some bytes) (n : ℕ) :
    ∃ s t tr, Reachable (step cfg) {} s ∧ s.guard = .unparked ∧ (∀ j, s.rings j = {}) ∧
      (∀ p, s.producers p = .idle) ∧ Run (step cfg) s tr t ∧ (∀ e ∈ events asked tr, e = ⟨0, k, record⟩) ∧
      Throughout (fun u => u.archiver.Reading .drain k) tr t ∧ n ≤ total moves tr ∧ ¬ t.Left ∧
      step cfg t .guard = none := by
  obtain ⟨s, hs, hg, hpc, hidle, hempty⟩ := drain_reaches cfg hn
  have hpolled : Polled .drain k 0 s := by
    refine ⟨hpc, hidle 0, ?_, by omega⟩
    rw [hempty]
    rfl
  obtain ⟨t, tr, ht, hmoves⟩ := busy_rounds hpolled hn hf n
  have hleft : ¬ t.Left := by simp [State.Left, ht.polled.archiver]
  refine ⟨s, t, tr, hs, hg, hempty, hidle, ht.run, ht.calls, ht.busy.imp fun _ hu => hu.reading, by omega, hleft, ?_⟩
  simp [step, guardStep, ht.busy.1.same.guard, hg, hleft]

theorem drop_kept_waiting_line : (∃ bytes, lineConfig.format 1 [7] = some bytes) ∧
    ∃ s t tr, Reachable (step lineConfig) {} s ∧ s.guard = .unparked ∧ (∀ j, s.rings j = {}) ∧
      (∀ p, s.producers p = .idle) ∧ Run (step lineConfig) s tr t ∧ (∀ e ∈ events asked tr, e = ⟨0, 1, [7]⟩) ∧
      Throughout (fun u => u.archiver.Reading .drain 1) tr t ∧ 1000 ≤ total moves tr ∧ ¬ t.Left ∧
      step lineConfig t .guard = none := by
  have hf : lineConfig.format 1 [7] = some [7, 10] := by decide
  exact ⟨⟨_, hf⟩, drop_kept_waiting lineConfig 1 (le_refl _) (le_refl _) [7] [7, 10] hf 1000⟩

end InqJet
