import InqJet.Consumer.Stranded

/-! The guard's wake-up: it stores `running` before it unparks, the archiver reads `running` before it
parks, and producers put their own unparks into the one token between the two. -/

namespace InqJet

open ByteCodec ClaimQueue Function Runs

variable {cfg : Config}

def State.Signalled (s : State) : Prop := s.guard = .unparked ∨ s.guard = .joined

structure WakeInv (s : State) : Prop where
  lowered : s.guard ≠ .held → s.running = false
  awake : s.Signalled → s.token = true ∨ s.archiver = .check ∨ s.archiver.phase ≠ some .live

lemma signalled_not_held {s : State} (h : s.Signalled) : s.guard ≠ .held := by
  rcases h with h | h <;> simp [h]

lemma WakeInv.sleepless {s : State} (hs : WakeInv s) (hg : s.Signalled) (hpc : s.archiver = .parked) :
    s.token = true := by
  rcases hs.awake hg with ht | hc | hl
  · exact ht
  · rw [hpc] at hc
    cases hc
  · rw [hpc] at hl
    exact (hl rfl).elim

lemma WakeInv.turn {s t : State} {io : IoResult} (hs : WakeInv s) (h : Turn cfg s io t) : WakeInv t := by
  obtain ⟨hg, hr, -, -, -⟩ := turn_frame h
  have hsig : t.Signalled → s.Signalled := by
    intro ht
    rwa [State.Signalled, hg] at ht
  refine ⟨fun hh => hr.trans (hs.lowered (hg ▸ hh)), fun ht => ?_⟩
  have hlow := hs.lowered (signalled_not_held (hsig ht))
  -- away from the two ends of the live loop, neither the token nor the phase changes
  have hkeep {pc : ArchiverPc} (hpc : s.archiver = pc) (hc : pc ≠ .check) (htok : t.token = s.token)
      (hph : t.archiver.phase = pc.phase) :
      t.token = true ∨ t.archiver = .check ∨ t.archiver.phase ≠ some .live := by
    rw [htok, hph, ← hpc]
    rcases hs.awake (hsig ht) with htok | hcheck | hlive
    · exact .inl htok
    · exact (hc (hpc ▸ hcheck)).elim
    · exact .inr (.inr hlive)
  cases h with
  | start hpc hrun =>
    rw [hlow] at hrun
    cases hrun
  | stop => exact .inr (.inr (by rintro ⟨⟩))
  | take hpc => exact hkeep hpc (by rintro ⟨⟩) rfl rfl
  | empty hpc => exact hkeep hpc (by rintro ⟨⟩) rfl (afterPoll_phase _ _ _ _)
  | clear hpc => exact hkeep hpc (by rintro ⟨⟩) rfl rfl
  | format hpc => exact hkeep hpc (by rintro ⟨⟩) rfl rfl
  | formatPanic => exact .inr (.inr (by rintro ⟨⟩))
  | write hpc => exact hkeep hpc (by rintro ⟨⟩) rfl rfl
  | writePanic => exact .inr (.inr (by rintro ⟨⟩))
  | flush hpc => exact hkeep hpc (by rintro ⟨⟩) rfl (afterFlush_phase _ _ _)
  | flushPanic => exact .inr (.inr (by rintro ⟨⟩))
  | rest hpc =>
    apply hkeep hpc (by rintro ⟨⟩) rfl
    dsimp only
    split_ifs <;> rfl
  | wake => exact .inr (.inl rfl)

lemma WakeInv.step {s t : State} {a : Action} (hs : WakeInv s) (h : step cfg s a = some t) : WakeInv t := by
  cases a with
  | archiver io => exact hs.turn (archiver_turn h)
  | timedOut =>
    obtain ⟨-, rfl⟩ := timedOut_turn h
    exact ⟨hs.lowered, fun _ => .inr (.inl rfl)⟩
  | guard =>
    cases guard_turn h with
    | store => exact ⟨fun _ => rfl, by rintro (hg | hg) <;> cases hg⟩
    | unpark hg => exact ⟨fun _ => hs.lowered (by simp [hg]), fun _ => .inl rfl⟩
    | join hg => exact ⟨fun _ => hs.lowered (by simp [hg]), fun _ => hs.awake (.inl hg)⟩
  | _ =>
    have hr := producer_rely h trivial
    have hf := producer_frame h trivial
    refine ⟨fun hg => hr.running.trans (hs.lowered (hr.guard ▸ hg)), fun hg => ?_⟩
    rw [State.Signalled, hr.guard] at hg
    rw [hr.archiver]
    exact (hs.awake hg).imp_left hf.2

/-- Once the guard has unparked, no archiver sleeps without a token: its next step takes it to the
check, which reads `running` as lowered. -/
theorem no_lost_wakeup (cfg : Config) (s : State) (h : Reachable (step cfg) {} s) (hg : s.Signalled) :
    ¬ (s.archiver = .parked ∧ s.token = false) ∧
      (s.archiver = .parked → ∀ io, ∃ t, step cfg s (.archiver io) = some t ∧
        t.archiver = .check ∧ t.running = false) := by
  have hi : WakeInv s := h.invariant (fun _ _ _ hs ha => hs.step ha)
    ⟨fun hh => (hh rfl).elim, by rintro (hh | hh) <;> cases hh⟩
  constructor
  · rintro ⟨hpc, ht⟩
    rw [hi.sleepless hg hpc] at ht
    cases ht
  · intro hpc io
    have ht := hi.sleepless hg hpc
    refine ⟨{ s with archiver := .check, token := false }, ?_, rfl, hi.lowered (signalled_not_held hg)⟩
    simp [step, archiverStep, hpc, ht]

def mergedUnparks : List Action :=
  [.call 0 0 [], .archiver .ok, .tryClaim 0 false, .recheck 0, .archiver .ok, .archiver .ok, .guard, .unpark 0,
    .guard, .archiver .ok]

theorem no_lost_wakeup_merged : ∃ s, Reachable (step lineConfig) {} s ∧ s.archiver = .parked ∧
    ¬ (s.archiver = .parked ∧ s.token = false) ∧
      (s.archiver = .parked → ∀ io, ∃ t, step lineConfig s (.archiver io) = some t ∧
        t.archiver = .check ∧ t.running = false) := by
  have hrun : (exec (step lineConfig) {} mergedUnparks).map (fun s => (s.archiver, s.guard)) =
      some (.parked, .unparked) := by decide
  obtain ⟨s, hs, he⟩ := reachable_of_exec_map hrun
  simp only [Prod.mk.injEq] at he
  exact ⟨s, hs, he.1, no_lost_wakeup lineConfig s hs (.inl he.2)⟩

end InqJet
