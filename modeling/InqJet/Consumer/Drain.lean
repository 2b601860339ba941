import InqJet.Consumer.Stranded

namespace InqJet

open ByteCodec ClaimQueue Function Runs

variable {cfg : Config}

/-- When `drop` has returned, every record committed before the store has been handed to its writer,
at its own place among the writer's records. -/
def Delivered (cfg : Config) (s : State) : Prop :=
  s.guard = .joined → ∀ rings, s.atStore = some rings → ∀ k ≤ cfg.archives, ∀ i record,
    (rings k).Committed i record →
      ∃ bytes, cfg.format k record = some bytes ∧ (s.writes k)[i]? = some bytes

def Overtaken (s : State) (k : ℕ) : Prop :=
  ∃ rings ∈ s.atStore, ∃ slot ∈ (rings k).slots.drop ((s.rings k).head + 1), slot.committed = true

instance (s : State) (k : ℕ) : Decidable (Overtaken s k) :=
  inferInstanceAs (Decidable (∃ rings ∈ s.atStore, _))

def ArchiverPc.draining : ArchiverPc → Option ℕ
  | .poll .drain k => some k
  | _ => none

def DrainBlocked (s : State) : Action → Prop
  | .archiver _ => ∃ k ∈ s.archiver.draining, (s.rings k).peek = none ∧ Overtaken s k
  | _ => False

instance (s : State) : DecidablePred (DrainBlocked s)
  | .archiver _ => inferInstanceAs (Decidable (∃ k ∈ s.archiver.draining, _))
  | .call .. | .tryClaim .. | .recheck _ | .unpark _ | .commit _ | .timedOut | .guard => instDecidableFalse

def ArchiverPc.Passed (cfg : Config) (k : ℕ) : ArchiverPc → Prop
  | .poll .drain j => k < j
  | .claimed .drain j _ => k < j
  | .cleared .drain j _ => k < j
  | .formatted .drain j => k < j
  | .flush .drain j => k ≤ j
  | .returned => k ≤ cfg.archives
  | _ => False

structure StoreInv (s : State) : Prop where
  phase : PhaseInv s
  held : s.guard = .held → s.running = true
  joined : s.guard = .joined → s.Left
  grown : ∀ rings, s.atStore = some rings → ∀ k, (rings k).Extends (s.rings k)

structure DrainInv (cfg : Config) (s : State) : Prop where
  write : WriteInv cfg s
  store : StoreInv s
  alive : s.archiver ≠ .unwound
  drained : ∀ rings, s.atStore = some rings → ∀ k, s.archiver.Passed cfg k →
    ∀ i record, (rings k).Committed i record → i < (s.rings k).head

lemma StoreInv.step {s t : State} {a : Action} (hs : StoreInv s) (h : step cfg s a = some t) : StoreInv t := by
  have hph := hs.phase.step h
  cases a with
  | archiver io =>
    obtain ⟨hg, hr, ha, hl, he⟩ := turn_frame (archiver_turn h)
    refine ⟨hph, fun hh => hr.trans (hs.held (hg ▸ hh)), fun hj => (hl (hs.joined (hg ▸ hj))).elim, ?_⟩
    intro rings hrings k
    exact (hs.grown rings (ha ▸ hrings) k).trans (he k)
  | timedOut =>
    obtain ⟨hpc, rfl⟩ := timedOut_turn h
    refine ⟨hph, hs.held, fun hj => ?_, hs.grown⟩
    have hl := hs.joined hj
    simp [State.Left, hpc] at hl
  | guard =>
    cases guard_turn h with
    | store =>
      refine ⟨hph, by rintro ⟨⟩, by rintro ⟨⟩, ?_⟩
      rintro rings ⟨⟩ k
      exact .refl _
    | unpark => exact ⟨hph, by rintro ⟨⟩, by rintro ⟨⟩, hs.grown⟩
    | join _ hl => exact ⟨hph, by rintro ⟨⟩, fun _ => hl, hs.grown⟩
  | _ =>
    have hr := producer_rely h trivial
    refine ⟨hph, fun hh => hr.running.trans (hs.held (hr.guard ▸ hh)), fun hj => ?_, ?_⟩
    · have hl := hs.joined (hr.guard ▸ hj)
      rwa [State.Left, ← hr.archiver] at hl
    · intro rings hrings k
      exact (hs.grown rings (hr.atStore ▸ hrings) k).trans (hr.rings k).extends

lemma passed_phase {pc : ArchiverPc} {k : ℕ} (h : pc.Passed cfg k) : pc.phase = some .drain := by
  cases pc with
  | poll ph => cases ph <;> first | rfl | exact h.elim
  | claimed ph => cases ph <;> first | rfl | exact h.elim
  | cleared ph => cases ph <;> first | rfl | exact h.elim
  | formatted ph => cases ph <;> first | rfl | exact h.elim
  | flush ph => cases ph <;> first | rfl | exact h.elim
  | returned => rfl
  | _ => exact h.elim

lemma turn_passed {s t : State} {io : IoResult} (h : Turn cfg s io t) {k : ℕ} (hp : t.archiver.Passed cfg k) :
    s.archiver.Passed cfg k ∨ s.archiver = .poll .drain k ∧ (s.rings k).peek = none := by
  cases h with
  | start => exact hp.elim
  | stop => exact (Nat.not_lt_zero k hp).elim
  | @take _ ph _ _ hpc =>
    rw [hpc]
    cases ph <;> exact .inl hp
  | @empty _ ph j hpc hpeek =>
    cases ph with
    | live =>
      have hph := passed_phase hp
      rw [afterPoll_phase] at hph
      cases hph
    | drain =>
      rcases Nat.lt_or_eq_of_le (show k ≤ j from hp) with hlt | rfl
      · rw [hpc]
        exact .inl hlt
      · exact .inr ⟨hpc, hpeek⟩
  | @clear _ ph _ _ hpc =>
    rw [hpc]
    cases ph <;> exact .inl hp
  | @format _ ph _ _ _ hpc =>
    rw [hpc]
    cases ph <;> exact .inl hp
  | formatPanic => exact hp.elim
  | @write _ ph _ hpc =>
    rw [hpc]
    cases ph <;> exact .inl hp
  | writePanic => exact hp.elim
  | @flush _ ph j hpc =>
    cases ph with
    | live =>
      have hph := passed_phase hp
      rw [afterFlush_phase] at hph
      cases hph
    | drain =>
      rw [hpc]
      refine .inl (show k ≤ j from ?_)
      simp only [afterFlush] at hp
      split_ifs at hp with hj
      · exact Nat.le_of_lt_succ hp
      · exact hp.trans (Nat.le_of_not_lt hj)
  | flushPanic => exact hp.elim
  | rest =>
    dsimp only at hp
    split_ifs at hp <;> exact hp.elim
  | wake => exact hp.elim

lemma lt_head_of_not_overtaken {s : State} (hs : StoreInv s) {rings : ℕ → Queue Bytes}
    (hr : s.atStore = some rings) {k : ℕ} (hp : (s.rings k).peek = none) (ho : ¬ Overtaken s k) {i : ℕ}
    {record : Bytes} (hc : (rings k).Committed i record) : i < (s.rings k).head := by
  have hnow := (hs.grown rings hr k).committed i record hc
  rcases Nat.lt_trichotomy i (s.rings k).head with hlt | rfl | hgt
  · exact hlt
  · rw [peek_eq_some.mpr hnow] at hp
    cases hp
  · have hslot : ⟨record, true⟩ ∈ (rings k).slots.drop ((s.rings k).head + 1) := by
      apply List.mem_of_getElem? (i := i - ((s.rings k).head + 1))
      rw [List.getElem?_drop, Nat.add_sub_cancel' hgt]
      exact hc
    exact (ho ⟨rings, hr, _, hslot, rfl⟩).elim

lemma DrainInv.step {s t : State} {a : Action} (hs : DrainInv cfg s)
    (hc : ¬ Unwinds cfg s a ∧ ¬ DrainBlocked s a) (h : step cfg s a = some t) : DrainInv cfg t := by
  have hw := hs.write.step h
  have hst := hs.store.step h
  cases a with
  | archiver io =>
    have ht := archiver_turn h
    obtain ⟨hg, hr, ha, hl, he⟩ := turn_frame ht
    refine ⟨hw, hst, ?_, fun rings hrings k hp i record hcom => ?_⟩
    · rcases turn_phase ht with ⟨hu, -⟩ | ⟨-, -, hu⟩
      · exact (hc.1 hu).elim
      · exact hu
    · rw [ha] at hrings
      rcases turn_passed ht hp with hp | ⟨hpc, hpeek⟩
      · exact (hs.drained rings hrings k hp i record hcom).trans_le (he k).head
      · have ho : ¬ Overtaken s k := fun ho => hc.2 ⟨k, by rw [hpc]; rfl, hpeek, ho⟩
        exact (lt_head_of_not_overtaken hs.store hrings hpeek ho hcom).trans_le (he k).head
  | timedOut =>
    obtain ⟨-, rfl⟩ := timedOut_turn h
    exact ⟨hw, hst, by rintro ⟨⟩, fun _ _ _ hp => hp.elim⟩
  | guard =>
    cases guard_turn h with
    | store hg =>
      refine ⟨hw, hst, hs.alive, fun rings hrings k hp => ?_⟩
      have hr := hs.store.phase (passed_phase hp)
      rw [hs.store.held hg] at hr
      cases hr
    | unpark => exact ⟨hw, hst, hs.alive, hs.drained⟩
    | join => exact ⟨hw, hst, hs.alive, hs.drained⟩
  | _ =>
    have hr := producer_rely h trivial
    refine ⟨hw, hst, hr.archiver ▸ hs.alive, fun rings hrings k hp i record hcom => ?_⟩
    rw [(hr.rings k).head_eq]
    exact hs.drained rings (hr.atStore ▸ hrings) k (hr.archiver ▸ hp) i record hcom

lemma DrainInv.delivered {s : State} (hs : DrainInv cfg s) : Delivered cfg s := by
  intro hj rings hr k hk i record hc
  have hret : s.archiver = .returned := (hs.store.joined hj).resolve_right hs.alive
  have hi := hs.drained rings hr k (by rw [hret]; exact hk) i record hc
  have hcons := consumed_of_committed ((hs.store.grown rings hr k).committed i record hc) hi
  have hsome := hs.write.formatted hs.alive k record (List.mem_of_getElem? hcons)
  obtain ⟨bytes, hb⟩ := Option.isSome_iff_exists.mp hsome
  refine ⟨bytes, hb, ?_⟩
  have hmap := map_some_filterMap (hs.write.formatted hs.alive k)
  rw [← hs.write.writes k] at hmap
  have hget := congrArg (fun l => l[i]?) hmap
  simp only [List.getElem?_map, hcons, Option.map_some, hb] at hget
  simpa using hget

lemma drainInv_initial (cfg : Config) : DrainInv cfg {} :=
  ⟨writeInv_initial cfg, ⟨nofun, fun _ => rfl, nofun, nofun⟩, nofun, nofun⟩

/-- In a run in which nothing unwinds the archiver and no drain is blocked, `drop` returns only when
every record committed before the store has been written. -/
theorem shutdown_delivers_committed (cfg : Config) (t : State) (tr : List (State × Action))
    (h : Run (step cfg) {} tr t) (hc : Along (fun s a => ¬ Unwinds cfg s a ∧ ¬ DrainBlocked s a) tr) :
    Throughout (Delivered cfg) tr t := by
  have hinv := h.guarded (fun _ _ _ hs hc ha => DrainInv.step hs hc ha) (drainInv_initial cfg) hc
  exact hinv.imp fun _ => DrainInv.delivered

def plainConfig : Config := ⟨.backoff, true, 0, fun _ ctx => some ctx.payload, fun _ _ => none⟩

def plainRecord : Bytes := RecordHeader.bytes ⟨0, 0, 3⟩ ++ [7]

def midClaimDrop : List Action :=
  [.call 0 0 plainRecord, .tryClaim 0 true, .call 1 0 plainRecord, .tryClaim 1 true, .commit 0, .guard, .guard,
    .archiver .ok, .archiver .ok, .archiver .ok, .archiver .ok, .archiver .ok, .archiver .ok, .archiver .ok, .guard]

theorem shutdown_delivers_committed_plain : ∃ t tr, Run (step plainConfig) {} tr t ∧
    (t.guard, t.writes 0) = (.joined, [[7]]) ∧ Throughout (Delivered plainConfig) tr t := by
  have hrun : (exec (onlyIf (step plainConfig) fun s a => ¬ Unwinds plainConfig s a ∧ ¬ DrainBlocked s a) {}
      midClaimDrop).map (fun s => (s.guard, s.writes 0)) = some (.joined, [[7]]) := by decide
  obtain ⟨t, tr, ht, hc, hv⟩ := run_of_exec_onlyIf hrun
  exact ⟨t, tr, ht, hv, shutdown_delivers_committed plainConfig t tr ht hc⟩

def overtakenDrop : List Action :=
  [.call 0 0 plainRecord, .tryClaim 0 true, .call 1 0 plainRecord, .tryClaim 1 true, .commit 1, .guard, .guard,
    .archiver .ok, .archiver .ok, .archiver .ok, .guard]

theorem committed_record_lost : ∃ s, Reachable (step plainConfig) {} s ∧ ¬ Delivered plainConfig s := by
  have hrun : (exec (step plainConfig) {} overtakenDrop).map (fun s => (s.guard, s.writes 0,
      s.atStore.bind fun rings => (rings 0).slots[1]?.map fun slot => (slot.record, slot.committed))) =
      some (.joined, [], some (plainRecord, true)) := by decide
  obtain ⟨s, hs, he⟩ := reachable_of_exec_map hrun
  simp only [Prod.mk.injEq, Option.bind_eq_some_iff, Option.map_eq_some_iff] at he
  obtain ⟨hg, hw, rings, hr, slot, hslot, hrec, hcom⟩ := he
  refine ⟨s, hs, fun hd => ?_⟩
  obtain ⟨bytes, -, hb⟩ := hd hg rings hr 0 (le_refl 0) 1 slot.record (by rw [Queue.Committed, hslot, ← hcom])
  simp [hw] at hb

end InqJet
