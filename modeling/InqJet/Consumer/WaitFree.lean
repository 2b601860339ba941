import InqJet.Consumer.Calls

namespace InqJet

open ByteCodec ClaimQueue Function Runs

variable {cfg : Config}

def ownSteps (p : ℕ) (_ : State) : Action → ℕ
  | .tryClaim q _ => if q = p then 1 else 0
  | .recheck q => if q = p then 1 else 0
  | .unpark q => if q = p then 1 else 0
  | .commit q => if q = p then 1 else 0
  | _ => 0

def callsBy (p : ℕ) (_ : State) : Action → ℕ
  | .call q _ _ => if q = p then 1 else 0
  | _ => 0

def ProducerPc.remaining : ProducerPc → ℕ
  | .idle => 0
  | .claimed _ _ => 1
  | .backoff _ => 1
  | .trying _ _ => 2
  | .waking _ => 3

def OutsideLoop (cfg : Config) (s : State) : Prop :=
  cfg.backpressure = .drop → ∀ p record, s.producers p ≠ .backoff record

structure NoWaiting (cfg : Config) (s : State) : Prop where
  free : cfg.backpressure = .drop ∨ s.running = false
  outside : OutsideLoop cfg s

lemma OutsideLoop.call {s t : State} {a : Action} (hs : OutsideLoop cfg s) (h : CallTurn cfg s a t) :
    OutsideLoop cfg t := by
  intro hd p record
  have hkeep {q : ℕ} {u : State} {pc : ProducerPc} (hu : u.producers = s.producers)
      (hpc : pc ≠ .backoff record) : (u.setProducer q pc).producers p ≠ .backoff record := by
    by_cases hp : p = q
    · subst hp
      rwa [producers_setProducer]
    · rw [producers_setProducer_of_ne _ _ hp, hu]
      exact hs hd p record
  cases h with
  | lowered => exact hs hd p record
  | wait _ hb =>
    rw [hd] at hb
    cases hb
  | _ => exact hkeep rfl (by rintro ⟨⟩)

lemma OutsideLoop.step {s t : State} {a : Action} (hs : OutsideLoop cfg s) (h : step cfg s a = some t) :
    OutsideLoop cfg t := by
  by_cases ha : a.IsProducer
  · exact hs.call (call_turn h ha)
  · rw [OutsideLoop, (other_producers h ha).1]
    exact hs

lemma NoWaiting.step {s t : State} {a : Action} (hs : NoWaiting cfg s) (h : step cfg s a = some t) :
    NoWaiting cfg t :=
  ⟨hs.free.imp_right (lowered_step h), OutsideLoop.step hs.outside h⟩

lemma ownSteps_of_ne {p : ℕ} (s : State) {a : Action} (hp : a.thread ≠ some p) : ownSteps p s a = 0 := by
  have hne {q : ℕ} (hq : a.thread = some q) : q ≠ p := by
    rintro rfl
    exact hp hq
  cases a with
  | tryClaim => exact if_neg (hne rfl)
  | recheck => exact if_neg (hne rfl)
  | unpark => exact if_neg (hne rfl)
  | commit => exact if_neg (hne rfl)
  | _ => rfl

lemma call_pays {s t : State} {a : Action} {p : ℕ} (hs : NoWaiting cfg s) (h : CallTurn cfg s a t) :
    (t.producers p).remaining + ownSteps p s a ≤ (s.producers p).remaining + 2 * callsBy p s a := by
  by_cases hp : a.thread = some p
  · cases h with
    | lowered => exact Nat.le_add_right _ _
    | log hq =>
      obtain rfl := Option.some.inj hp
      simp [hq, ownSteps, callsBy, ProducerPc.remaining]
    | archive hq =>
      obtain rfl := Option.some.inj hp
      simp [hq, ownSteps, callsBy, ProducerPc.remaining]
    | grant hq =>
      obtain rfl := Option.some.inj hp
      simp [hq, ownSteps, ProducerPc.remaining]
    | wait hq =>
      obtain rfl := Option.some.inj hp
      simp [hq, ownSteps, ProducerPc.remaining]
    | refuse hq =>
      obtain rfl := Option.some.inj hp
      simp only [producers_setProducer, hq, ownSteps, ProducerPc.remaining, if_true]
      omega
    | @goOn q record hq hr =>
      rcases hs.free with hd | hl
      · exact (hs.outside hd q record hq).elim
      · rw [hl] at hr
        cases hr
    | giveUp hq =>
      obtain rfl := Option.some.inj hp
      simp [hq, ownSteps, ProducerPc.remaining]
    | unpark hq =>
      obtain rfl := Option.some.inj hp
      simp [hq, ownSteps, ProducerPc.remaining]
    | commit hq =>
      obtain rfl := Option.some.inj hp
      simp [hq, ownSteps, ProducerPc.remaining]
  · rw [(h.others hp).1, ownSteps_of_ne s hp]
    exact Nat.le_add_right _ _

lemma own_step_enabled (cfg : Config) {s : State} {p : ℕ} (hp : s.producers p ≠ .idle) :
    ∃ a t, ownSteps p s a = 1 ∧ step cfg s a = some t := by
  cases hpc : s.producers p with
  | idle => exact (hp hpc).elim
  | trying k record => exact ⟨.tryClaim p true, _, by simp [ownSteps], by simp [step, tryClaimStep, hpc]; rfl⟩
  | backoff record => exact ⟨.recheck p, _, by simp [ownSteps], by simp [step, recheckStep, hpc]; rfl⟩
  | waking record => exact ⟨.unpark p, _, by simp [ownSteps], by simp [step, unparkStep, hpc]; rfl⟩
  | claimed k i => exact ⟨.commit p, _, by simp [ownSteps], by simp [step, commitStep, hpc]; rfl⟩

/-- With `drop`, and with any mode from the guard's store on, a call returns within two steps of its own
thread (three, if the store finds it about to unpark), however full the rings are and whatever the others do. -/
theorem calls_wait_free (cfg : Config) (s t : State) (tr : List (State × Action)) (hs : Reachable (step cfg) {} s)
    (hw : cfg.backpressure = .drop ∨ s.running = false) (h : Run (step cfg) s tr t) (p : ℕ) :
    (t.producers p).remaining + total (ownSteps p) tr ≤
        (s.producers p).remaining + 2 * total (callsBy p) tr ∧
      (s.producers p).remaining ≤ 3 ∧
      (t.producers p ≠ .idle → ∃ a u, ownSteps p t a = 1 ∧ step cfg t a = some u) := by
  have houtside : OutsideLoop cfg s := hs.invariant (fun _ _ _ hs ha => hs.step ha) (by rintro _ p record ⟨⟩)
  have hall := h.invariant (fun _ _ _ hs ha => NoWaiting.step hs ha) ⟨hw, houtside⟩
  have hpay := h.amortized (V := fun s => (s.producers p).remaining) (c := ownSteps p)
    (g := fun s a => 2 * callsBy p s a) (fun s a t hs _ ha => ?_) hall
  · have hgain : total (fun s a => 2 * callsBy p s a) tr = 2 * total (callsBy p) tr := by
      rw [total, total, List.sum_map_mul_left]
    refine ⟨by rw [← hgain]; exact hpay, ?_, own_step_enabled cfg⟩
    cases s.producers p <;> simp [ProducerPc.remaining]
  · by_cases hp : a.IsProducer
    · exact call_pays hs (call_turn ha hp)
    · have hthread : a.thread ≠ some p := by
        cases a <;> first | exact (hp trivial).elim | rintro ⟨⟩
      rw [(other_producers ha hp).1, ownSteps_of_ne s hthread]
      exact Nat.le_add_right _ _

def waitingDrop : List Action :=
  [.call 0 0 [7], .call 1 0 [8], .tryClaim 0 false, .tryClaim 1 false, .recheck 1, .guard]

def waitingStored : State := (exec (step lineConfig) {} waitingDrop).getD {}

theorem calls_wait_free_waiting : ∃ t tr, Run (step lineConfig) waitingStored tr t ∧
    (t.producers 0, t.producers 1) = (.idle, .idle) ∧
    (t.producers 1).remaining + total (ownSteps 1) tr ≤
        (waitingStored.producers 1).remaining + 2 * total (callsBy 1) tr ∧
      (waitingStored.producers 1).remaining ≤ 3 ∧
      (t.producers 1 ≠ .idle → ∃ a u, ownSteps 1 t a = 1 ∧ step lineConfig t a = some u) := by
  have hrun₀ : exec (step lineConfig) {} waitingDrop = some waitingStored := rfl
  have hrun : (exec (step lineConfig) waitingStored [.recheck 0, .unpark 1, .tryClaim 1 false, .recheck 1]).map
      (fun s => (s.producers 0, s.producers 1)) = some (.idle, .idle) := by decide
  obtain ⟨t, ⟨tr, ht⟩, hv⟩ := reachable_of_exec_map hrun
  exact ⟨t, tr, ht, hv, calls_wait_free lineConfig waitingStored t tr (exec_reachable hrun₀) (.inr rfl) ht 1⟩

end InqJet
