import InqJet.Consumer.Calls
import InqJet.Consumer.Drain
import InqJet.Consumer.Flushed

namespace InqJet

open ByteCodec ClaimQueue Function Runs

variable {cfg : Config}

def ProducerPc.stream : ProducerPc → ℕ
  | .trying k _ => k
  | .claimed k _ => k
  | _ => 0

structure SlotInv (cfg : Config) (s : State) : Prop where
  streams : ∀ p, (s.producers p).stream ≤ cfg.archives
  owned : ∀ p k i, s.producers p = .claimed k i → (s.rings k).Open i
  owner : ∀ k i, (s.rings k).Open i → ∃ p, s.producers p = .claimed k i
  alone : ∀ p q k i, s.producers p = .claimed k i → s.producers q = .claimed k i → p = q

def State.MidClaim (s : State) : Prop := ∃ p k i, s.producers p = .claimed k i

lemma SlotInv.initial (cfg : Config) : SlotInv cfg {} :=
  ⟨fun _ => Nat.zero_le _, by rintro p k i ⟨⟩, fun k i h => absurd h.lt_length (Nat.not_lt_zero i),
    by rintro p q k i ⟨⟩⟩

lemma SlotInv.own {s t : State} (hs : SlotInv cfg s) {p : ℕ} {pc : ProducerPc} (hr : t.rings = s.rings)
    (ht : t.producers = update s.producers p pc) (hk : pc.stream ≤ cfg.archives)
    (hold : ∀ k i, s.producers p ≠ .claimed k i) (hnew : ∀ k i, pc ≠ .claimed k i) : SlotInv cfg t := by
  have hiff (q k i : ℕ) : t.producers q = .claimed k i ↔ s.producers q = .claimed k i := by
    rw [ht]
    by_cases hq : q = p
    · subst hq
      rw [update_self]
      exact iff_of_false (hnew k i) (hold k i)
    · rw [update_of_ne hq]
  refine ⟨fun q => ?_, fun q k i h => ?_, fun k i h => ?_, fun q q' k i h h' => ?_⟩
  · rw [ht]
    by_cases hq : q = p
    · subst hq
      rwa [update_self]
    · rw [update_of_ne hq]
      exact hs.streams q
  · rw [hr]
    exact hs.owned q k i ((hiff q k i).mp h)
  · rw [hr] at h
    obtain ⟨q, hq⟩ := hs.owner k i h
    exact ⟨q, (hiff q k i).mpr hq⟩
  · exact hs.alone q q' k i ((hiff q k i).mp h) ((hiff q' k i).mp h')

lemma SlotInv.grant {s : State} (hs : SlotInv cfg s) {p k : ℕ} {record : Bytes}
    (hp : s.producers p = .trying k record) :
    SlotInv cfg ((s.setRing k ((s.rings k).claim record)).setProducer p (.claimed k (s.rings k).slots.length)) := by
  have hk : k ≤ cfg.archives := by
    have h := hs.streams p
    rwa [hp] at h
  have hnew : (s.setRing k ((s.rings k).claim record)).producers = s.producers := rfl
  have hopen (j i : ℕ) : ((update s.rings k ((s.rings k).claim record)) j).Open i ↔
      (s.rings j).Open i ∨ j = k ∧ i = (s.rings k).slots.length := by
    by_cases hj : j = k
    · subst hj
      simp [open_claim]
    · simp [hj]
  refine ⟨fun q => ?_, fun q j i h => ?_, fun j i h => ?_, fun q q' j i h h' => ?_⟩
  · by_cases hq : q = p
    · subst hq
      rw [producers_setProducer]
      exact hk
    · rw [producers_setProducer_of_ne _ _ hq]
      exact hs.streams q
  · apply (hopen j i).mpr
    by_cases hq : q = p
    · subst hq
      rw [producers_setProducer] at h
      cases h
      exact .inr ⟨rfl, rfl⟩
    · rw [producers_setProducer_of_ne _ _ hq] at h
      exact .inl (hs.owned q j i h)
  · rcases (hopen j i).mp h with h | ⟨rfl, rfl⟩
    · obtain ⟨q, hq⟩ := hs.owner j i h
      have hqp : q ≠ p := by
        rintro rfl
        rw [hp] at hq
        cases hq
      exact ⟨q, by rwa [producers_setProducer_of_ne _ _ hqp]⟩
    · exact ⟨p, producers_setProducer _ _ _⟩
  · -- the new slot lies behind all the open ones
    have hfresh {r : ℕ} (hr : s.producers r = .claimed j i) : ¬ (j = k ∧ i = (s.rings k).slots.length) := by
      rintro ⟨rfl, rfl⟩
      exact absurd (hs.owned r _ _ hr).lt_length (lt_irrefl _)
    by_cases hq : q = p <;> by_cases hq' : q' = p
    · rw [hq, hq']
    · subst hq
      rw [producers_setProducer] at h
      rw [producers_setProducer_of_ne _ _ hq'] at h'
      cases h
      exact (hfresh h' ⟨rfl, rfl⟩).elim
    · subst hq'
      rw [producers_setProducer] at h'
      rw [producers_setProducer_of_ne _ _ hq] at h
      cases h'
      exact (hfresh h ⟨rfl, rfl⟩).elim
    · rw [producers_setProducer_of_ne _ _ hq] at h
      rw [producers_setProducer_of_ne _ _ hq'] at h'
      exact hs.alone q q' j i h h'

lemma SlotInv.commit {s : State} (hs : SlotInv cfg s) {p k i : ℕ} (hp : s.producers p = .claimed k i) :
    SlotInv cfg ((s.setRing k ((s.rings k).commit i)).setProducer p .idle) := by
  have hopen (j n : ℕ) : ((update s.rings k ((s.rings k).commit i)) j).Open n ↔
      (s.rings j).Open n ∧ ¬ (j = k ∧ n = i) := by
    by_cases hj : j = k
    · subst hj
      simp [open_commit]
    · simp [hj]
  have hiff (q j n : ℕ) : ((s.setRing k ((s.rings k).commit i)).setProducer p .idle).producers q = .claimed j n ↔
      q ≠ p ∧ s.producers q = .claimed j n := by
    by_cases hq : q = p
    · subst hq
      simp
    · rw [producers_setProducer_of_ne _ _ hq]
      simp [hq]
  refine ⟨fun q => ?_, fun q j n h => ?_, fun j n h => ?_, fun q q' j n h h' => ?_⟩
  · by_cases hq : q = p
    · subst hq
      rw [producers_setProducer]
      exact Nat.zero_le _
    · rw [producers_setProducer_of_ne _ _ hq]
      exact hs.streams q
  · obtain ⟨hq, hc⟩ := (hiff q j n).mp h
    refine (hopen j n).mpr ⟨hs.owned q j n hc, ?_⟩
    rintro ⟨rfl, rfl⟩
    exact hq (hs.alone q p _ _ hc hp)
  · obtain ⟨h, hne⟩ := (hopen j n).mp h
    obtain ⟨q, hq⟩ := hs.owner j n h
    refine ⟨q, (hiff q j n).mpr ⟨?_, hq⟩⟩
    rintro rfl
    rw [hp] at hq
    cases hq
    exact hne ⟨rfl, rfl⟩
  · exact hs.alone q q' j n ((hiff q j n).mp h).2 ((hiff q' j n).mp h').2

lemma SlotInv.call {s t : State} {a : Action} (hs : SlotInv cfg s) (h : CallTurn cfg s a t) : SlotInv cfg t := by
  cases h with
  | lowered => exact hs
  | log hp => exact hs.own rfl rfl (Nat.zero_le _) (by simp [hp]) (by simp)
  | archive hp _ hk => exact hs.own rfl rfl hk (by simp [hp]) (by simp)
  | grant hp => exact hs.grant hp
  | wait hp => exact hs.own rfl rfl (Nat.zero_le _) (by simp [hp]) (by simp)
  | refuse hp => exact hs.own rfl rfl (Nat.zero_le _) (by simp [hp]) (by simp)
  | goOn hp => exact hs.own rfl rfl (Nat.zero_le _) (by simp [hp]) (by simp)
  | giveUp hp => exact hs.own rfl rfl (Nat.zero_le _) (by simp [hp]) (by simp)
  | unpark hp => exact hs.own rfl rfl (Nat.zero_le _) (by simp [hp]) (by simp)
  | commit hp => exact hs.commit hp

lemma SlotInv.step {s t : State} {a : Action} (hs : SlotInv cfg s) (h : step cfg s a = some t) : SlotInv cfg t := by
  by_cases ha : a.IsProducer
  · exact hs.call (call_turn h ha)
  · obtain ⟨hp, hslots⟩ := other_producers h ha
    have hr (k i : ℕ) : (t.rings k).Open i ↔ (s.rings k).Open i := by rw [Queue.Open, hslots, Queue.Open]
    refine ⟨by rw [hp]; exact hs.streams, fun q k i hq => ?_, fun k i ho => ?_, by rw [hp]; exact hs.alone⟩
    · exact (hr k i).mpr (hs.owned q k i (hp ▸ hq))
    · rw [hp]
      exact hs.owner k i ((hr k i).mp ho)

theorem open_slot_owned_once (cfg : Config) (s : State) (h : Reachable (step cfg) {} s) (k i : ℕ) :
    ((s.rings k).Open i ↔ ∃! p, s.producers p = .claimed k i) ∧ ((s.rings k).Open i → k ≤ cfg.archives) := by
  have hi : SlotInv cfg s := h.invariant (fun _ _ _ hs ha => hs.step ha) (.initial cfg)
  refine ⟨⟨fun ho => ?_, fun ⟨p, hp, _⟩ => hi.owned p k i hp⟩, fun ho => ?_⟩
  · obtain ⟨p, hp⟩ := hi.owner k i ho
    exact ⟨p, hp, fun q hq => hi.alone q p k i hq hp⟩
  · obtain ⟨p, hp⟩ := hi.owner k i ho
    have hk := hi.streams p
    rwa [hp] at hk

theorem open_slot_owned_once_two : ∃ s, Reachable (step plainConfig) {} s ∧ s.producers 1 = .claimed 0 1 ∧
    ((s.rings 0).Open 1 ↔ ∃! p, s.producers p = .claimed 0 1) ∧
      ((s.rings 0).Open 1 → 0 ≤ plainConfig.archives) := by
  have hrun : (exec (step plainConfig) {} (midClaimDrop.take 5)).map (fun s => s.producers 1) =
      some (.claimed 0 1) := by decide
  obtain ⟨s, hs, hp⟩ := reachable_of_exec_map hrun
  exact ⟨s, hs, hp, open_slot_owned_once plainConfig s hs 0 1⟩

lemma SlotInv.midClaim_iff {s : State} (hs : SlotInv cfg s) :
    s.MidClaim ↔ ∃ k ≤ cfg.archives, ∃ slot ∈ (s.rings k).slots, slot.committed = false := by
  constructor
  · rintro ⟨p, k, i, hp⟩
    have hk := hs.streams p
    rw [hp] at hk
    obtain ⟨record, hr⟩ := hs.owned p k i hp
    exact ⟨k, hk, _, List.mem_of_getElem? hr, rfl⟩
  · rintro ⟨k, -, ⟨record, committed⟩, hslot, rfl⟩
    obtain ⟨i, hi⟩ := List.mem_iff_getElem?.mp hslot
    obtain ⟨p, hp⟩ := hs.owner k i ⟨record, hi⟩
    exact ⟨p, k, i, hp⟩

def Complete (cfg : Config) (s : State) : Prop :=
  s.guard = .joined → ∀ rings, s.atStore = some rings → ∀ k ≤ cfg.archives,
    (rings k).records.map (cfg.format k) <+: (s.writes k).map some ∧ Flushed (s.calls k)

def QuietStore (s : State) : Action → Prop
  | .guard => s.guard = .held → ¬ s.MidClaim
  | _ => True

structure QuietInv (cfg : Config) (s : State) : Prop where
  drain : DrainInv cfg s
  flush : FlushInv cfg s
  slots : SlotInv cfg s
  whole : ∀ rings, s.atStore = some rings → ∀ k i, ¬ (rings k).Open i

lemma QuietInv.initial (cfg : Config) : QuietInv cfg {} :=
  ⟨drainInv_initial cfg, fun _ _ _ => flushed_nil, .initial cfg, by rintro rings ⟨⟩⟩

lemma QuietInv.not_drainBlocked {s : State} (hs : QuietInv cfg s) (a : Action) : ¬ DrainBlocked s a := by
  cases a with
  | archiver io =>
    rintro ⟨k, -, hpeek, rings, hrings, slot, hslot, -⟩
    have hlen := List.length_pos_of_mem hslot
    rw [List.length_drop] at hlen
    rcases committed_or_open (q := rings k) (i := (s.rings k).head) (by omega) with ⟨record, hc⟩ | ho
    · have hnow := (hs.drain.store.grown rings hrings k).committed _ _ hc
      rw [peek_eq_some.mpr hnow] at hpeek
      cases hpeek
    · exact hs.whole rings hrings k _ ho
  | _ => exact id

lemma QuietInv.step {s t : State} {a : Action} (hs : QuietInv cfg s) (hc : ¬ Unwinds cfg s a ∧ QuietStore s a)
    (h : step cfg s a = some t) : QuietInv cfg t := by
  have hdrain := hs.drain.step ⟨hc.1, hs.not_drainBlocked a⟩ h
  refine ⟨hdrain, hs.flush.step h, hs.slots.step h, ?_⟩
  cases a with
  | archiver io =>
    rw [(turn_frame (archiver_turn h)).2.2.1]
    exact hs.whole
  | timedOut =>
    obtain ⟨-, rfl⟩ := timedOut_turn h
    exact hs.whole
  | guard =>
    cases guard_turn h with
    | store hg =>
      rintro rings ⟨⟩ k i ho
      obtain ⟨p, hp⟩ := hs.slots.owner k i ho
      exact hc.2 hg ⟨p, k, i, hp⟩
    | unpark => exact hs.whole
    | join => exact hs.whole
  | _ =>
    rw [(producer_rely h trivial).atStore]
    exact hs.whole

lemma QuietInv.complete {s : State} (hs : QuietInv cfg s) : Complete cfg s := by
  intro hj rings hr k hk
  have hret : s.archiver = .returned := (hs.drain.store.joined hj).resolve_right hs.drain.alive
  refine ⟨?_, hs.flush k hk (by simp [hret, ArchiverPc.Pending])⟩
  have hgrown := (hs.drain.store.grown rings hr k).records
  have hlen : (rings k).records.length ≤ (s.rings k).head := by
    rw [Queue.records, List.length_map]
    by_contra hlt
    obtain ⟨record, hc⟩ | ho := committed_or_open (q := rings k) (i := (s.rings k).head) (by omega)
    · exact lt_irrefl _ (hs.drain.drained rings hr k (by rw [hret]; exact hk) _ record hc)
    · exact hs.whole rings hr k _ ho
  have hmap := map_some_filterMap (hs.drain.write.formatted hs.drain.alive k)
  rw [← hs.drain.write.writes k] at hmap
  rw [hmap]
  exact (List.prefix_take_iff.mpr ⟨hgrown, hlen⟩).map _

/-- In a run in which nothing unwinds the archiver and the guard is dropped while no thread is between claim
and commit, `drop` returns only when every record accepted so far has been written, in order, and flushed. -/
theorem quiet_shutdown_complete (cfg : Config) (t : State) (tr : List (State × Action))
    (h : Run (step cfg) {} tr t) (hc : Along (fun s a => ¬ Unwinds cfg s a ∧ QuietStore s a) tr) :
    Throughout (Complete cfg) tr t := by
  have hinv := h.guarded (fun _ _ _ hs hc ha => QuietInv.step hs hc ha) (.initial cfg) hc
  exact hinv.imp fun _ => QuietInv.complete

def quietDrop : List Action :=
  [.call 0 0 plainRecord, .tryClaim 0 true, .call 1 0 plainRecord, .commit 0, .tryClaim 1 true, .commit 1, .guard,
    .guard, .call 0 0 plainRecord] ++ .replicate 11 (.archiver .ok) ++ [.guard]

def AllCommitted (cfg : Config) (s : State) : Action → Prop
  | .guard => s.guard = .held → ∀ k ≤ cfg.archives, ∀ slot ∈ (s.rings k).slots, slot.committed = true
  | _ => True

instance (cfg : Config) (s : State) : DecidablePred (AllCommitted cfg s)
  | .guard => inferInstanceAs (Decidable (_ → _))
  | .call .. | .tryClaim .. | .recheck _ | .unpark _ | .commit _ | .timedOut | .archiver _ => instDecidableTrue

lemma SlotInv.quietStore {s : State} (hs : SlotInv cfg s) {a : Action} (h : AllCommitted cfg s a) :
    QuietStore s a := by
  cases a with
  | guard =>
    intro hg hm
    obtain ⟨k, hk, slot, hslot, hopen⟩ := hs.midClaim_iff.mp hm
    have hcom := h hg k hk slot hslot
    rw [hopen] at hcom
    cases hcom
  | _ => trivial

theorem quiet_shutdown_complete_plain : ∃ t tr, Run (step plainConfig) {} tr t ∧
    (t.guard, t.writes 0) = (.joined, [[7], [7]]) ∧ Throughout (Complete plainConfig) tr t := by
  have hrun : (exec (onlyIf (step plainConfig) fun s a => ¬ Unwinds plainConfig s a ∧ AllCommitted plainConfig s a)
      {} quietDrop).map (fun s => (s.guard, s.writes 0)) = some (.joined, [[7], [7]]) := by decide
  obtain ⟨t, tr, ht, hc, hv⟩ := run_of_exec_onlyIf hrun
  have hslots := ht.invariant (fun _ _ _ hs ha => SlotInv.step hs ha) (.initial plainConfig)
  exact ⟨t, tr, ht, hv, quiet_shutdown_complete plainConfig t tr ht fun p hp =>
    ⟨(hc p hp).1, (hslots.2 p hp).quietStore (hc p hp).2⟩⟩

end InqJet
