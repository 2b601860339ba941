import InqJet.Consumer.Writes

namespace InqJet

open ByteCodec ClaimQueue Function Runs

variable {cfg : Config}

def Flushed (calls : List WriterCall) : Prop :=
  ∀ before bytes after, calls = before ++ .writeAll bytes :: after → .flush ∈ after

def Phase.Pending (hadWork : Bool) (k j : ℕ) : Phase → Prop
  | .live => hadWork = true
  | .drain => k = j

def ArchiverPc.Pending (hadWork : Bool) (k : ℕ) : ArchiverPc → Prop
  | .poll ph j => ph.Pending hadWork k j
  | .claimed ph j _ => ph.Pending hadWork k j
  | .cleared ph j _ => ph.Pending hadWork k j
  | .formatted ph j => ph.Pending hadWork k j
  | .flush .live j => j ≤ k
  | .flush .drain j => k = j
  | .unwound => True
  | _ => False

def FlushInv (cfg : Config) (s : State) : Prop :=
  ∀ k ≤ cfg.archives, ¬ s.archiver.Pending s.hadWork k → Flushed (s.calls k)

lemma flushed_nil : Flushed [] := by
  intro before bytes after h
  simp at h

lemma flushed_flush (calls : List WriterCall) : Flushed (calls ++ [.flush]) := by
  intro before bytes after h
  have hlast := congrArg List.getLast? h
  rcases List.eq_nil_or_concat' after with rfl | ⟨after, c, rfl⟩
  · simp at hlast
  · rw [← List.cons_append, ← List.append_assoc] at hlast
    simp only [List.getLast?_append, List.getLast?_singleton, Option.some_or, Option.some.injEq] at hlast
    simp [hlast]

lemma pending_afterPoll (hadWork : Bool) (k j : ℕ) (ph : Phase) :
    (afterPoll cfg hadWork ph j).Pending hadWork k ↔ ph.Pending hadWork k j := by
  cases ph with
  | live =>
    simp only [afterPoll]
    split_ifs with hj hw
    · rfl
    · simp [ArchiverPc.Pending, Phase.Pending, hw]
    · simpa [ArchiverPc.Pending, Phase.Pending] using hw
  | drain => rfl

lemma pending_afterFlush {hadWork : Bool} {k j : ℕ} {ph : Phase} (hk : k ≤ cfg.archives)
    (h : ¬ (afterFlush cfg ph j).Pending hadWork k) :
    k = j ∨ ¬ (ArchiverPc.flush ph j).Pending hadWork k := by
  cases ph with
  | live =>
    simp only [afterFlush] at h
    simp only [ArchiverPc.Pending]
    split_ifs at h with hj
    · simp only [ArchiverPc.Pending] at h
      omega
    · omega
  | drain => exact em _

lemma calls_issue_self (s : State) (k : ℕ) (c : WriterCall) : (s.issue k c).calls k = s.calls k ++ [c] := by
  simp [State.issue]

lemma calls_issue_of_ne (s : State) {k j : ℕ} (c : WriterCall) (h : k ≠ j) :
    (s.issue j c).calls k = s.calls k := by
  simp [State.issue, h]

lemma FlushInv.move {s t : State} (hs : FlushInv cfg s) (hc : t.calls = s.calls)
    (hp : ∀ k, s.archiver.Pending s.hadWork k → t.archiver.Pending t.hadWork k) : FlushInv cfg t := by
  intro k hk hn
  rw [hc]
  apply hs k hk
  exact fun h => hn (hp k h)

lemma FlushInv.turn {s t : State} {io : IoResult} (hs : FlushInv cfg s) (h : Turn cfg s io t) :
    FlushInv cfg t := by
  cases h with
  | start hpc => exact hs.move rfl fun k hp => by simp [hpc, ArchiverPc.Pending] at hp
  | stop hpc => exact hs.move rfl fun k hp => by simp [hpc, ArchiverPc.Pending] at hp
  | take hpc => exact hs.move rfl fun k hp => by rwa [hpc] at hp
  | empty hpc =>
    refine hs.move rfl fun k hp => ?_
    rw [hpc] at hp
    exact (pending_afterPoll _ _ _ _).mpr hp
  | clear hpc => exact hs.move rfl fun k hp => by rwa [hpc] at hp
  | format hpc => exact hs.move rfl fun k hp => by rwa [hpc] at hp
  | formatPanic => exact fun k _ hn => (hn trivial).elim
  | @write _ ph j hpc =>
    intro k hk hn
    cases ph with
    | live => exact (hn (Bool.or_true _)).elim
    | drain =>
      have hkj : k ≠ j := hn
      have hold : Flushed (s.calls k) := hs k hk (by rw [hpc]; exact hkj)
      simpa [State.setRing, calls_issue_of_ne _ _ hkj] using hold
  | writePanic => exact fun k _ hn => (hn trivial).elim
  | @flush _ ph j hpc =>
    intro k hk hn
    rcases eq_or_ne k j with rfl | hkj
    · have hnew := flushed_flush (s.calls k)
      rwa [← calls_issue_self] at hnew
    · have hp := (pending_afterFlush hk hn).resolve_left hkj
      have hold : Flushed (s.calls k) := hs k hk (by rwa [hpc])
      rwa [← calls_issue_of_ne s .flush hkj] at hold
  | flushPanic => exact fun k _ hn => (hn trivial).elim
  | rest hpc => exact hs.move rfl fun k hp => by simp [hpc, ArchiverPc.Pending] at hp
  | wake hpc => exact hs.move rfl fun k hp => by simp [hpc, ArchiverPc.Pending] at hp

lemma FlushInv.step {s t : State} {a : Action} (hs : FlushInv cfg s) (h : step cfg s a = some t) :
    FlushInv cfg t := by
  cases a with
  | archiver io => exact hs.turn (archiver_turn h)
  | timedOut =>
    obtain ⟨hpc, rfl⟩ := timedOut_turn h
    exact hs.move rfl fun k hp => by simp [hpc, ArchiverPc.Pending] at hp
  | guard => cases guard_turn h <;> exact hs.move rfl fun _ hp => hp
  | _ =>
    have hr := producer_rely h trivial
    have hf := producer_frame h trivial
    refine hs.move hr.calls fun k hp => ?_
    rwa [hr.archiver, hf.1]

theorem flushed_at_rest (cfg : Config) (s : State) (h : Reachable (step cfg) {} s)
    (hpc : s.archiver = .idle ∨ s.archiver = .parked ∨ s.archiver = .returned) (k : ℕ) (hk : k ≤ cfg.archives) :
    Flushed (s.calls k) := by
  have hi : FlushInv cfg s := h.invariant (fun _ _ _ hs ha => hs.step ha) fun _ _ _ => flushed_nil
  apply hi k hk
  rcases hpc with hpc | hpc | hpc <;> simp [hpc, ArchiverPc.Pending]

def oneLineThenIdle : List Action := oneLine ++ .replicate 7 (.archiver .err)

theorem flushed_at_rest_line : ∃ s, Reachable (step lineConfig) {} s ∧
    s.archiver = .parked ∧ s.calls 1 = [.writeAll [7, 10], .flush] ∧ ∀ k ≤ 1, Flushed (s.calls k) := by
  have hrun : (exec (step lineConfig) {} oneLineThenIdle).map (fun s => (s.archiver, s.calls 1)) =
      some (.parked, [.writeAll [7, 10], .flush]) := by decide
  obtain ⟨s, hs, he⟩ := reachable_of_exec_map hrun
  simp only [Prod.mk.injEq] at he
  exact ⟨s, hs, he.1, he.2, fun k hk => flushed_at_rest lineConfig s hs (.inr (.inl he.1)) k hk⟩

end InqJet
