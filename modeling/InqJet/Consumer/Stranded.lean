import InqJet.Consumer.Writes

namespace InqJet

open ByteCodec ClaimQueue Function Runs

variable {cfg : Config}

def ArchiverPc.phase : ArchiverPc → Option Phase
  | .check => some .live
  | .poll ph _ => some ph
  | .claimed ph _ _ => some ph
  | .cleared ph _ _ => some ph
  | .formatted ph _ => some ph
  | .flush ph _ => some ph
  | .idle => some .live
  | .parked => some .live
  | .returned => some .drain
  | .unwound => none

def Unwinds (cfg : Config) (s : State) : Action → Prop
  | .archiver io =>
    match s.archiver with
    | .cleared _ k record => cfg.format k record = none
    | .formatted _ _ => io = .panic
    | .flush _ _ => io = .panic
    | _ => False
  | _ => False

instance (cfg : Config) (s : State) : DecidablePred (Unwinds cfg s) := fun a => by
  unfold Unwinds
  split
  · split <;> infer_instance
  · infer_instance

/-- Once the archiver has left, every producer that waits for room gives up at its next check. -/
def NotStranded (cfg : Config) (s : State) : Prop :=
  s.Left → s.running = false ∧
    ∀ p record, s.producers p = .backoff record →
      ∃ t, step cfg s (.recheck p) = some t ∧ t.producers p = .idle

lemma notStranded_iff (s : State) : NotStranded cfg s ↔ (s.Left → s.running = false) := by
  refine forall_congr' fun _ => ⟨And.left, fun hr => ⟨hr, fun p record hp => ?_⟩⟩
  exact ⟨s.setProducer p .idle, by simp [step, recheckStep, hp, hr], by simp [State.setProducer]⟩

lemma afterPoll_phase (cfg : Config) (hadWork : Bool) (ph : Phase) (k : ℕ) :
    (afterPoll cfg hadWork ph k).phase = some ph := by
  cases ph with
  | live => simp only [afterPoll]; split_ifs <;> rfl
  | drain => rfl

lemma afterFlush_phase (cfg : Config) (ph : Phase) (k : ℕ) : (afterFlush cfg ph k).phase = some ph := by
  cases ph <;> simp only [afterFlush] <;> split_ifs <;> rfl

def PhaseInv (s : State) : Prop := s.archiver.phase = some .drain → s.running = false

lemma turn_phase {s t : State} {io : IoResult} (h : Turn cfg s io t) :
    Unwinds cfg s (.archiver io) ∧ t.archiver = .unwound ∨
      ¬ Unwinds cfg s (.archiver io) ∧ (t.archiver.phase = s.archiver.phase ∨ s.running = false) ∧
        t.archiver ≠ .unwound := by
  have hcalm {pc : ArchiverPc} (hpc : s.archiver = pc) (hnot : ¬ Unwinds cfg s (.archiver io)) {ph : Phase}
      (hs : pc.phase = some ph) (ht : t.archiver.phase = some ph) :
      Unwinds cfg s (.archiver io) ∧ t.archiver = .unwound ∨
      ¬ Unwinds cfg s (.archiver io) ∧ (t.archiver.phase = s.archiver.phase ∨ s.running = false) ∧
        t.archiver ≠ .unwound := by
    refine .inr ⟨hnot, .inl (by rw [hpc, hs, ht]), fun hu => ?_⟩
    rw [hu] at ht
    cases ht
  cases h with
  | start hpc => exact hcalm hpc (by simp [Unwinds, hpc]) rfl rfl
  | stop hpc hr => exact .inr ⟨by simp [Unwinds, hpc], .inr hr, by rintro ⟨⟩⟩
  | take hpc => exact hcalm hpc (by simp [Unwinds, hpc]) rfl rfl
  | empty hpc => exact hcalm hpc (by simp [Unwinds, hpc]) rfl (afterPoll_phase _ _ _ _)
  | clear hpc => exact hcalm hpc (by simp [Unwinds, hpc]) rfl rfl
  | format hpc hf => exact hcalm hpc (by simp [Unwinds, hpc, hf]) rfl rfl
  | formatPanic hpc hf => exact .inl ⟨by simp [Unwinds, hpc, hf], rfl⟩
  | write hpc hio => exact hcalm hpc (by simp [Unwinds, hpc, hio]) rfl rfl
  | writePanic hpc => exact .inl ⟨by simp [Unwinds, hpc], rfl⟩
  | flush hpc hio => exact hcalm hpc (by simp [Unwinds, hpc, hio]) rfl (afterFlush_phase _ _ _)
  | flushPanic hpc => exact .inl ⟨by simp [Unwinds, hpc], rfl⟩
  | rest hpc =>
    refine hcalm hpc (by simp [Unwinds, hpc]) rfl ?_
    dsimp only
    split_ifs <;> rfl
  | wake hpc => exact hcalm hpc (by simp [Unwinds, hpc]) rfl rfl

lemma other_step {s t : State} {a : Action} (h : step cfg s a = some t) (ha : ∀ io, a ≠ .archiver io) :
    (t.archiver = s.archiver ∨ t.archiver = .check) ∧ (s.running = false → t.running = false) := by
  cases a with
  | archiver io => exact (ha io rfl).elim
  | timedOut =>
    obtain ⟨-, rfl⟩ := timedOut_turn h
    exact ⟨.inr rfl, id⟩
  | guard =>
    cases guard_turn h with
    | store => exact ⟨.inl rfl, fun _ => rfl⟩
    | unpark => exact ⟨.inl rfl, id⟩
    | join => exact ⟨.inl rfl, id⟩
  | _ =>
    have hr := producer_rely h trivial
    exact ⟨.inl hr.archiver, fun hf => hr.running.trans hf⟩

lemma PhaseInv.step {s t : State} {a : Action} (hs : PhaseInv s) (h : step cfg s a = some t) : PhaseInv t := by
  intro hd
  cases a with
  | archiver io =>
    rw [(turn_frame (archiver_turn h)).2.1]
    rcases turn_phase (archiver_turn h) with ⟨-, hu⟩ | ⟨-, hph | hr, -⟩
    · rw [hu] at hd
      cases hd
    · exact hs (hph ▸ hd)
    · exact hr
  | _ =>
    obtain ⟨hpc | hpc, hrun⟩ := other_step h (by rintro _ ⟨⟩)
    · exact hrun (hs (hpc ▸ hd))
    · rw [hpc] at hd
      cases hd

lemma step_notStranded_iff {s t : State} {a : Action} (hi : PhaseInv s) (hs : NotStranded cfg s)
    (h : step cfg s a = some t) : NotStranded cfg t ↔ (Unwinds cfg s a → s.running = false) := by
  rw [notStranded_iff] at hs ⊢
  cases a with
  | archiver io =>
    rw [(turn_frame (archiver_turn h)).2.1]
    rcases turn_phase (archiver_turn h) with ⟨hu, hpc⟩ | ⟨hu, hph, hpc⟩
    · exact ⟨fun hh _ => hh (.inr hpc), fun hh _ => hh hu⟩
    · refine ⟨fun _ hh => (hu hh).elim, fun _ hl => ?_⟩
      obtain hret := hl.resolve_right hpc
      rcases hph with hph | hr
      · exact hi (by rw [← hph, hret]; rfl)
      · exact hr
  | _ =>
    refine ⟨fun _ hu => hu.elim, fun _ hl => ?_⟩
    obtain ⟨hpc | hpc, hrun⟩ := other_step h (by rintro _ ⟨⟩)
    · exact hrun (hs (by rwa [State.Left, hpc] at hl))
    · rw [State.Left, hpc] at hl
      rcases hl with hl | hl <;> cases hl

theorem dead_archiver_strands_nobody_iff (cfg : Config) (t : State) (tr : List (State × Action))
    (h : Run (step cfg) {} tr t) :
    Throughout (NotStranded cfg) tr t ↔ Along (fun s a => Unwinds cfg s a → s.running = false) tr :=
  h.throughout_iff (fun _ _ _ hs ha => PhaseInv.step hs ha) (fun _ _ _ hi hs ha => step_notStranded_iff hi hs ha)
    nofun (by rintro (hl | hl) <;> cases hl)

def idleShutdown : List Action := .guard :: .replicate 5 (.archiver .ok)

theorem dead_archiver_strands_nobody_iff_idle : ∃ t tr, Run (step lineConfig) {} tr t ∧ t.archiver = .returned ∧
    (Throughout (NotStranded lineConfig) tr t ↔
      Along (fun s a => Unwinds lineConfig s a → s.running = false) tr) := by
  have hrun : (exec (step lineConfig) {} idleShutdown).map State.archiver = some .returned := by decide
  obtain ⟨t, ⟨tr, ht⟩, hpc⟩ := reachable_of_exec_map hrun
  exact ⟨t, tr, ht, hpc, dead_archiver_strands_nobody_iff lineConfig t tr ht⟩

def panicConfig : Config := ⟨.backoff, false, 0, fun _ _ => none, fun _ _ => none⟩

def panickingRun : List Action :=
  let record := RecordHeader.bytes ⟨0, 0, 3⟩
  [.call 0 0 record, .tryClaim 0 true, .commit 0, .call 1 0 record, .tryClaim 1 false,
    .archiver .ok, .archiver .ok, .archiver .ok, .archiver .ok]

theorem panicking_formatter_strands : ∃ s, Reachable (step panicConfig) {} s ∧
    s.producers 1 = .backoff (RecordHeader.bytes ⟨0, 0, 3⟩) ∧ ¬ NotStranded panicConfig s := by
  have hrun : (exec (step panicConfig) {} panickingRun).map (fun s => (s.producers 1, s.archiver, s.running)) =
      some (.backoff (RecordHeader.bytes ⟨0, 0, 3⟩), .unwound, true) := by decide
  obtain ⟨s, hs, he⟩ := reachable_of_exec_map hrun
  simp only [Prod.mk.injEq] at he
  refine ⟨s, hs, he.1, fun hn => ?_⟩
  have hr := (hn (.inr he.2.1)).1
  rw [he.2.2] at hr
  cases hr

end InqJet
