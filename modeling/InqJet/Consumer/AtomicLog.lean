import InqJet.Consumer.Calls
import InqJet.Lib.Simulation

/-! What the logger is for, without its threads: a list of accepted records for each stream, which
are delivered one after the other. The system of producers, archiver and guard refines it. -/

namespace InqJet

open ByteCodec ClaimQueue Function Runs

structure AtomicLog where
  accepted : ℕ → List Bytes := fun _ => []
  delivered : ℕ → ℕ := fun _ => 0
  lines : ℕ → List Bytes := fun _ => []

inductive AtomicLog.Event
  | accept (k : ℕ) (record : Bytes)
  | deliver (k : ℕ)

def AtomicLog.step (cfg : Config) (l : AtomicLog) : Event → Option AtomicLog
  | .accept k record => some { l with accepted := update l.accepted k (l.accepted k ++ [record]) }
  | .deliver k => (l.accepted k)[l.delivered k]?.map fun record =>
    { l with
      delivered := update l.delivered k (l.delivered k + 1)
      lines := update l.lines k (l.lines k ++ (cfg.format k record).toList) }

def AtomicLog.Faithful (cfg : Config) (l : AtomicLog) : Prop :=
  ∀ k, l.delivered k ≤ (l.accepted k).length ∧
    l.lines k = ((l.accepted k).take (l.delivered k)).filterMap (cfg.format k)

def State.log (s : State) : AtomicLog := ⟨fun k => (s.rings k).records, fun k => (s.rings k).head, s.writes⟩

/-- A record is accepted when its claim is granted, and delivered when its `ReadClaim` is dropped. -/
def takesEffect (cfg : Config) (s : State) : Action → Option AtomicLog.Event
  | .tryClaim p true =>
    match s.producers p with
    | .trying k record => some (.accept k record)
    | _ => none
  | .archiver _ =>
    match s.archiver with
    | .cleared _ k record => if cfg.format k record = none then some (.deliver k) else none
    | .formatted _ k => some (.deliver k)
    | _ => none
  | _ => none

variable {cfg : Config}

lemma AtomicLog.Faithful.step {l m : AtomicLog} {e : Event} (hl : l.Faithful cfg)
    (h : AtomicLog.step cfg l e = some m) : m.Faithful cfg := by
  intro j
  cases e with
  | accept k record =>
    obtain rfl := Option.some.inj h
    by_cases hj : j = k
    · subst hj
      obtain ⟨hle, hlines⟩ := hl j
      simp only [update_self, List.length_append, List.length_singleton]
      refine ⟨hle.trans (Nat.le_succ _), ?_⟩
      rw [hlines, List.take_append_of_le_length hle]
    · simpa [hj] using hl j
  | deliver k =>
    obtain ⟨record, hrec, rfl⟩ := Option.map_eq_some_iff.mp h
    by_cases hj : j = k
    · subst hj
      have hlt := (List.getElem?_eq_some_iff.mp hrec).1
      simp only [update_self]
      refine ⟨hlt, ?_⟩
      rw [(hl j).2, List.take_add_one, hrec, List.filterMap_append]
      cases hf : cfg.format j record <;> simp [hf]
    · simpa [hj] using hl j

lemma AtomicLog.deliver_eq {s t : State} {k : ℕ} {record : Bytes} (hp : (s.rings k).peek = some record)
    (hr : t.rings = update s.rings k (s.rings k).advance)
    (hw : ∀ j, t.writes j = s.writes j ++ if j = k then (cfg.format k record).toList else []) :
    AtomicLog.step cfg s.log (.deliver k) = some t.log := by
  have hrec : (s.rings k).records[(s.rings k).head]? = some record := by
    rw [Queue.records, List.getElem?_map, peek_eq_some.mp hp]
    rfl
  simp only [AtomicLog.step, State.log, hrec, Option.map_some, Option.some.injEq, AtomicLog.mk.injEq]
  refine ⟨funext fun j => ?_, funext fun j => ?_, funext fun j => ?_⟩
  · by_cases hj : j = k
    · subst hj
      rw [hr, update_self, Queue.records, Queue.records, Queue.advance]
    · rw [hr, update_of_ne hj]
  · by_cases hj : j = k
    · subst hj
      rw [hr, update_self, update_self]
      rfl
    · rw [hr, update_of_ne hj, update_of_ne hj]
  · by_cases hj : j = k
    · subst hj
      rw [update_self, hw, if_pos rfl]
    · rw [update_of_ne hj, hw, if_neg hj, List.append_nil]

lemma log_eq {s t : State} (hr : ∀ k, (t.rings k).records = (s.rings k).records)
    (hh : ∀ k, (t.rings k).head = (s.rings k).head) (hw : ∀ k, t.writes k = s.writes k) : t.log = s.log := by
  simp only [State.log, AtomicLog.mk.injEq]
  exact ⟨funext hr, funext hh, funext hw⟩

lemma log_turn {s t : State} {io : IoResult} (hs : WriteInv cfg s) (h : Turn cfg s io t) :
    (takesEffect cfg s (.archiver io) = none → t.log = s.log) ∧
      ∀ e, takesEffect cfg s (.archiver io) = some e → AtomicLog.step cfg s.log e = some t.log := by
  have hw := hs.inWork
  have hquiet (hn : takesEffect cfg s (.archiver io) = none) (ht : t.log = s.log) :
      (takesEffect cfg s (.archiver io) = none → t.log = s.log) ∧
      ∀ e, takesEffect cfg s (.archiver io) = some e → AtomicLog.step cfg s.log e = some t.log := by
    refine ⟨fun _ => ht, fun e he => ?_⟩
    rw [hn] at he
    cases he
  have hdeliver {k : ℕ} (hd : takesEffect cfg s (.archiver io) = some (.deliver k))
      (ht : AtomicLog.step cfg s.log (.deliver k) = some t.log) :
      (takesEffect cfg s (.archiver io) = none → t.log = s.log) ∧
      ∀ e, takesEffect cfg s (.archiver io) = some e → AtomicLog.step cfg s.log e = some t.log := by
    rw [hd]
    exact ⟨by rintro ⟨⟩, fun e he => Option.some.inj he ▸ ht⟩
  have hflush (k j : ℕ) : (s.issue k .flush).writes j = s.writes j := by
    simp [writes_issue, WriterCall.bytes]
  cases h with
  | start hpc => exact hquiet (by simp [takesEffect, hpc]) rfl
  | stop hpc => exact hquiet (by simp [takesEffect, hpc]) rfl
  | take hpc => exact hquiet (by simp [takesEffect, hpc]) rfl
  | empty hpc => exact hquiet (by simp [takesEffect, hpc]) rfl
  | clear hpc => exact hquiet (by simp [takesEffect, hpc]) rfl
  | format hpc hf => exact hquiet (by simp [takesEffect, hpc, hf]) rfl
  | formatPanic hpc hf =>
    rw [hpc] at hw
    exact hdeliver (by simp [takesEffect, hpc, hf])
      (AtomicLog.deliver_eq hw.1 rfl fun j => by simp [hf, State.writes, State.setRing])
  | write hpc =>
    rw [hpc] at hw
    obtain ⟨record, hp, hf⟩ := hw
    refine hdeliver (by simp [takesEffect, hpc]) (AtomicLog.deliver_eq hp rfl fun j => ?_)
    rw [hf]
    exact writes_issue s _ j _
  | writePanic hpc =>
    rw [hpc] at hw
    obtain ⟨record, hp, hf⟩ := hw
    refine hdeliver (by simp [takesEffect, hpc]) (AtomicLog.deliver_eq hp rfl fun j => ?_)
    rw [hf]
    exact writes_issue s _ j _
  | flush hpc => exact hquiet (by simp [takesEffect, hpc]) (log_eq (fun _ => rfl) (fun _ => rfl) (hflush _))
  | flushPanic hpc => exact hquiet (by simp [takesEffect, hpc]) (log_eq (fun _ => rfl) (fun _ => rfl) (hflush _))
  | rest hpc => exact hquiet (by simp [takesEffect, hpc]) rfl
  | wake hpc => exact hquiet (by simp [takesEffect, hpc]) rfl

lemma log_claim (s : State) (k p : ℕ) (record : Bytes) (pc : ProducerPc) :
    AtomicLog.step cfg s.log (.accept k record) =
      some ((s.setRing k ((s.rings k).claim record)).setProducer p pc).log := by
  simp only [AtomicLog.step, State.log, Option.some.injEq, AtomicLog.mk.injEq]
  refine ⟨funext fun j => ?_, funext fun j => ?_, rfl⟩
  · by_cases hj : j = k
    · subst hj
      simp [State.setProducer, State.setRing]
    · simp [State.setProducer, State.setRing, hj]
  · by_cases hj : j = k
    · subst hj
      simp [State.setProducer, State.setRing, Queue.claim]
    · simp [State.setProducer, State.setRing, hj]

lemma log_commit (s : State) (k i p : ℕ) (pc : ProducerPc) :
    ((s.setRing k ((s.rings k).commit i)).setProducer p pc).log = s.log := by
  have hsame (j : ℕ) : (update s.rings k ((s.rings k).commit i) j).records = (s.rings j).records ∧
      (update s.rings k ((s.rings k).commit i) j).head = (s.rings j).head := by
    by_cases hj : j = k
    · subst hj
      rw [update_self]
      exact ⟨records_commit _ _, rfl⟩
    · rw [update_of_ne hj]
      exact ⟨rfl, rfl⟩
  exact log_eq (fun j => (hsame j).1) (fun j => (hsame j).2) fun _ => rfl

lemma log_call {s t : State} {a : Action} (h : CallTurn cfg s a t) :
    (takesEffect cfg s a = none → t.log = s.log) ∧
      ∀ e, takesEffect cfg s a = some e → AtomicLog.step cfg s.log e = some t.log := by
  cases h with
  | @grant p k record hp =>
    simp only [takesEffect, hp]
    exact ⟨by rintro ⟨⟩, fun e he => Option.some.inj he ▸ log_claim s k p record _⟩
  | @commit p k i hp => exact ⟨fun _ => log_commit s k i p _, by rintro e ⟨⟩⟩
  | _ => exact ⟨fun _ => rfl, by rintro e ⟨⟩⟩

lemma log_step {s t : State} {a : Action} (hs : WriteInv cfg s) (h : step cfg s a = some t) :
    (takesEffect cfg s a = none → t.log = s.log) ∧
      ∀ e, takesEffect cfg s a = some e → AtomicLog.step cfg s.log e = some t.log := by
  cases a with
  | archiver io => exact log_turn hs (archiver_turn h)
  | timedOut =>
    obtain ⟨-, rfl⟩ := timedOut_turn h
    exact ⟨fun _ => rfl, by rintro e ⟨⟩⟩
  | guard => cases guard_turn h <;> exact ⟨fun _ => rfl, by rintro e ⟨⟩⟩
  | _ => exact log_call (call_turn h trivial)

def refinement (cfg : Config) : Simulation (step cfg) (AtomicLog.step cfg) where
  inv := WriteInv cfg
  abs := State.log
  seen := takesEffect cfg
  keeps _ _ _ hs h := hs.step h
  hidden _ _ _ hs h hn := (log_step hs h).1 hn
  shown _ _ _ e hs h he := (log_step hs h).2 e he

/-- Every run of producers, archiver and guard is a run of the atomic log: its steps take effect one at a time,
in the order in which they happen, and what the atomic log then shows is what is in the rings and what the
writers have got. -/
theorem system_refines_atomic_log (cfg : Config) (t : State) (tr : List (State × Action))
    (h : Run (step cfg) {} tr t) :
    exec (AtomicLog.step cfg) {} (events (takesEffect cfg) tr) = some t.log ∧ t.log.Faithful cfg := by
  have hinit : WriteInv cfg {} := writeInv_initial cfg
  refine ⟨(refinement cfg).replays h hinit, ?_⟩
  exact (refinement cfg).invariant (fun _ _ _ hl he => hl.step he) h hinit fun k => ⟨le_refl _, rfl⟩

theorem system_refines_atomic_log_line : ∃ t tr, Run (step lineConfig) {} tr t ∧ t.log.lines 1 = [[7, 10]] ∧
    exec (AtomicLog.step lineConfig) {} (events (takesEffect lineConfig) tr) = some t.log ∧
      t.log.Faithful lineConfig := by
  have hrun : (exec (step lineConfig) {} oneLine).map (fun s => s.writes 1) = some [[7, 10]] := by decide
  obtain ⟨t, ⟨tr, ht⟩, hw⟩ := reachable_of_exec_map hrun
  exact ⟨t, tr, ht, hw, system_refines_atomic_log lineConfig t tr ht⟩

end InqJet
