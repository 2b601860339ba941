import InqJet.Consumer.Busy
import InqJet.Consumer.Quiet
import Mathlib.Data.Set.Card

namespace InqJet

open ByteCodec ClaimQueue Function Runs

variable {cfg : Config} {room : ℕ → Queue Bytes → Bytes → Bool} {calls : List Entry}

def Roomy (room : ℕ → Queue Bytes → Bytes → Bool) (s : State) : Action → Prop
  | .tryClaim p granted =>
    match s.producers p with
    | .trying k record => granted = room k (s.rings k) record
    | _ => True
  | _ => True

instance (room : ℕ → Queue Bytes → Bytes → Bool) (s : State) : DecidablePred (Roomy room s) := fun a => by
  unfold Roomy
  split
  · split <;> infer_instance
  · infer_instance

def Settling : Action → Prop
  | .call _ _ _ => False
  | .guard => False
  | _ => True

instance : DecidablePred Settling := fun a => by
  unfold Settling
  split <;> infer_instance

def settle (cfg : Config) (room : ℕ → Queue Bytes → Bytes → Bool) : State → Action → Option State :=
  onlyIf (step cfg) fun s a => Roomy room s a ∧ Settling a

def State.busy (s : State) : Set ℕ := {p | s.producers p ≠ .idle}

def After (cfg : Config) (calls : List Entry) (s : State) : Prop :=
  ∃ tr, Run (step cfg) {} tr s ∧ events asked tr = calls

lemma settle_eq {s t : State} {a : Action} (h : step cfg s a = some t) (hr : Roomy room s a) (ha : Settling a) :
    settle cfg room s a = some t := by
  rw [settle, onlyIf, if_pos ⟨hr, ha⟩, h]

lemma After.settle {s t : State} {a : Action} (hs : After cfg calls s) (h : settle cfg room s a = some t) :
    After cfg calls t := by
  obtain ⟨tr, hr, hcalls⟩ := hs
  obtain ⟨⟨-, ha⟩, hstep⟩ := onlyIf_eq_some h
  refine ⟨_, hr.snoc hstep, ?_⟩
  have hasked : asked s a = none := by
    cases a with
    | call p k record => exact ha.elim
    | _ => rfl
  rw [events_snoc, hcalls, hasked, Option.toList_none, List.append_nil]

lemma After.course {s : State} (hs : After cfg calls s) : CourseInv cfg s := by
  obtain ⟨tr, hr, -⟩ := hs
  exact (hr.invariant (fun _ _ _ hs ha => hs.step ha) (.initial cfg)).1

lemma After.slots {s : State} (hs : After cfg calls s) : SlotInv cfg s := by
  obtain ⟨tr, hr, -⟩ := hs
  exact (hr.invariant (fun _ _ _ hs ha => hs.step ha) (.initial cfg)).1

lemma After.phase {s : State} (hs : After cfg calls s) : PhaseInv s := by
  obtain ⟨tr, hr, -⟩ := hs
  exact (hr.invariant (fun _ _ _ hs ha => PhaseInv.step hs ha) (by rintro ⟨⟩)).1

lemma After.pending {s : State} (hs : After cfg calls s) {p : ℕ} {e : Entry} (he : e ∈ (s.producers p).pending p) :
    e ∈ calls := by
  obtain ⟨tr, hr, rfl⟩ := hs
  have hin : e ∈ ofThread p (events asked tr) := by
    rw [← run_account hr p]
    exact List.mem_append_right _ he
  exact List.mem_of_mem_filter hin

lemma After.record {s : State} (hs : After cfg calls s) {k : ℕ} {record : Bytes} (h : record ∈ (s.rings k).records) :
    ∃ e ∈ calls, e.stream = k ∧ e.record = record := by
  obtain ⟨tr, hr, rfl⟩ := hs
  exact onStream_asked hr h

lemma After.finite {s : State} (hs : After cfg calls s) : s.busy.Finite := by
  obtain ⟨tr, hr, -⟩ := hs
  induction hr with
  | nil => exact Set.finite_empty.subset fun p hp => (hp rfl).elim
  | @snoc tr t a u hr ha ih =>
    by_cases hp : a.IsProducer
    · refine (ih.union (Set.finite_singleton (a.thread.getD 0))).subset fun q hq => ?_
      by_cases hthread : a.thread = some q
      · exact .inr (by rw [hthread]; rfl)
      · refine .inl ?_
        rwa [State.busy, Set.mem_ofPred_eq, ← ((call_turn ha hp).others hthread).1]
    · rwa [State.busy, (other_producers ha hp).1]

structure Finished (p : ℕ) (s t : State) : Prop where
  others : ∀ q, q ≠ p → t.producers q = s.producers q
  idle : t.producers p = .idle
  running : t.running = s.running
  archiver : t.archiver = s.archiver

lemma Finished.setProducer {p : ℕ} {s t : State} {pc : ProducerPc} (h : Finished p (s.setProducer p pc) t) :
    Finished p s t :=
  ⟨fun q hq => (h.others q hq).trans (producers_setProducer_of_ne s pc hq), h.idle, h.running, h.archiver⟩

lemma Finished.setRing {p k : ℕ} {s t : State} {q : Queue Bytes} (h : Finished p (s.setRing k q) t) :
    Finished p s t :=
  ⟨h.others, h.idle, h.running, h.archiver⟩

lemma finished_idle (s : State) (p : ℕ) : Finished p s (s.setProducer p .idle) :=
  ⟨fun _ hq => producers_setProducer_of_ne s .idle hq, producers_setProducer s p .idle, rfl, rfl⟩

lemma Finished.busy {p : ℕ} {s t : State} (h : Finished p s t) : t.busy = s.busy \ {p} := by
  ext q
  simp only [State.busy, Set.mem_ofPred_eq, Set.mem_sdiff, Set.mem_singleton_iff]
  by_cases hq : q = p
  · subst hq
    simp [h.idle]
  · simp [h.others q hq, hq]

variable (cfg room) in
lemma claimed_finishes {s : State} {p k i : ℕ} (hp : s.producers p = .claimed k i) :
    ∃ t, Reachable (settle cfg room) s t ∧ Finished p s t := by
  have hcommit : step cfg s (.commit p) = some ((s.setRing k ((s.rings k).commit i)).setProducer p .idle) := by
    simp [step, commitStep, hp]
  exact ⟨_, .of_step (settle_eq hcommit trivial trivial), (finished_idle _ p).setRing⟩

variable (cfg) in
lemma trying_finishes {s : State} {p k : ℕ} {record : Bytes} (hp : s.producers p = .trying k record)
    (hroom : s.running = true → room k (s.rings k) record = true) :
    ∃ t, Reachable (settle cfg room) s t ∧ Finished p s t := by
  have hroomy : Roomy room s (.tryClaim p (room k (s.rings k) record)) := by simp [Roomy, hp]
  cases hr : room k (s.rings k) record with
  | true =>
    let u := s.setRing k ((s.rings k).claim record)
    have hclaim : step cfg s (.tryClaim p true) = some (u.setProducer p (.claimed k (s.rings k).slots.length)) := by
      simp [step, tryClaimStep, hp, u]
    obtain ⟨t, ht, hfin⟩ := claimed_finishes cfg room (producers_setProducer u p _)
    exact ⟨t, (Reachable.of_step (settle_eq hclaim (hr ▸ hroomy) trivial)).trans ht, hfin.setProducer.setRing⟩
  | false =>
    have hlow : s.running = false := by
      by_contra hrun
      rw [hroom (by simpa using hrun)] at hr
      cases hr
    by_cases hb : k = 0 ∧ cfg.backpressure = .backoff
    · have hwait : step cfg s (.tryClaim p false) = some (s.setProducer p (.backoff record)) := by
        simp [step, tryClaimStep, hp, hb]
      have hgiveUp : step cfg (s.setProducer p (.backoff record)) (.recheck p) =
          some ((s.setProducer p (.backoff record)).setProducer p .idle) := by
        simp only [step, recheckStep, producers_setProducer]
        rw [if_neg (by simp [State.setProducer, hlow])]
      exact ⟨_, (Reachable.of_step (settle_eq hwait (hr ▸ hroomy) trivial)).trans
        (.of_step (settle_eq hgiveUp trivial trivial)), (finished_idle _ p).setProducer⟩
    · have hdrop : step cfg s (.tryClaim p false) = some (s.setProducer p .idle) := by
        simp only [step, tryClaimStep, hp, Bool.false_eq_true, if_false, if_neg hb]
      exact ⟨_, .of_step (settle_eq hdrop (hr ▸ hroomy) trivial), finished_idle s p⟩

variable (cfg) in
lemma waking_finishes {s : State} {p : ℕ} {record : Bytes} (hp : s.producers p = .waking record)
    (hroom : s.running = true → room 0 (s.rings 0) record = true) :
    ∃ t, Reachable (settle cfg room) s t ∧ Finished p s t := by
  have hunpark : step cfg s (.unpark p) = some ({ s with token := true }.setProducer p (.trying 0 record)) := by
    simp [step, unparkStep, hp]
  obtain ⟨t, ht, hfin⟩ := trying_finishes cfg
    (s := { s with token := true }.setProducer p (.trying 0 record)) (producers_setProducer _ p _) hroom
  have hsame : Finished p { s with token := true } t := hfin.setProducer
  exact ⟨t, (Reachable.of_step (settle_eq hunpark trivial trivial)).trans ht,
    hsame.others, hsame.idle, hsame.running, hsame.archiver⟩

variable (cfg) in
lemma call_finishes {s : State} {p : ℕ}
    (hroom : s.running = true → ∀ e ∈ (s.producers p).pending p, room e.stream (s.rings e.stream) e.record = true) :
    ∃ t, Reachable (settle cfg room) s t ∧ Finished p s t := by
  cases hp : s.producers p with
  | idle => exact ⟨s, .refl s, fun _ _ => rfl, hp, rfl, rfl⟩
  | trying k record =>
    exact trying_finishes cfg hp fun hr => hroom hr ⟨p, k, record⟩ (by simp [hp, ProducerPc.pending])
  | waking record =>
    exact waking_finishes cfg hp fun hr => hroom hr ⟨p, 0, record⟩ (by simp [hp, ProducerPc.pending])
  | claimed k i => exact claimed_finishes cfg room hp
  | backoff record =>
    have hrecheck : step cfg s (.recheck p) =
        some (s.setProducer p (if s.running then .waking record else .idle)) := by
      simp [step, recheckStep, hp]
    have hfirst := Reachable.of_step (settle_eq hrecheck (show Roomy room s _ from trivial) trivial)
    cases hrun : s.running with
    | true =>
      rw [hrun, if_pos rfl] at hfirst
      obtain ⟨t, ht, hfin⟩ := waking_finishes cfg (s := s.setProducer p (.waking record))
        (producers_setProducer s p _) fun hr => hroom hr ⟨p, 0, record⟩ (by simp [hp, ProducerPc.pending])
      exact ⟨t, hfirst.trans ht, hfin.setProducer⟩
    | false =>
      rw [hrun, if_neg Bool.false_ne_true] at hfirst
      exact ⟨_, hfirst, finished_idle s p⟩

structure Drained (s t : State) : Prop where
  producers : t.producers = s.producers
  running : t.running = s.running
  alive : s.archiver ≠ .unwound → t.archiver ≠ .unwound
  slots : ∀ k, (t.rings k).slots = (s.rings k).slots
  head : ∀ k, (s.rings k).head ≤ (t.rings k).head

lemma Drained.refl (s : State) : Drained s s := ⟨rfl, rfl, id, fun _ => rfl, fun _ => le_refl _⟩

lemma Drained.trans {s t u : State} (h : Drained s t) (h' : Drained t u) : Drained s u :=
  ⟨h'.producers.trans h.producers, h'.running.trans h.running, fun ha => h'.alive (h.alive ha),
    fun k => (h'.slots k).trans (h.slots k), fun k => (h.head k).trans (h'.head k)⟩

def Formats (cfg : Config) (calls : List Entry) : Prop :=
  ∀ e ∈ calls, (cfg.format e.stream e.record).isSome = true

variable (room) in
lemma live_move {s : State} (hs : After cfg calls s) (hf : Formats cfg calls) (hrun : s.running = true)
    (hu : s.archiver ≠ .unwound) :
    ∃ a t, settle cfg room s a = some t ∧ moves s a = 1 ∧ grants s a = 0 ∧ Drained s t := by
  have hkeep {a : Action} {t : State} (h : step cfg s a = some t) (ha : ¬ a.IsProducer) (hr : t.running = s.running)
      (ht : t.archiver ≠ .unwound) : Drained s t :=
    ⟨(other_producers h ha).1, hr, fun _ => ht, (other_producers h ha).2, fun k => (step_extends h k).head⟩
  by_cases hpark : s.archiver = .parked
  · have hstep : step cfg s .timedOut = some { s with archiver := .check } := if_pos hpark
    exact ⟨.timedOut, _, settle_eq hstep trivial trivial, rfl, rfl, hkeep hstep id rfl (by rintro ⟨⟩)⟩
  · have hleft : ¬ s.Left := by
      rintro (hret | hun)
      · have hlow := hs.phase (by rw [hret]; rfl)
        rw [hrun] at hlow
        cases hlow
      · exact hu hun
    obtain ⟨t, hmove⟩ := archiver_moves s .ok hleft fun hp => (hpark hp).elim
    have hstep : step cfg s (.archiver .ok) = some t := hmove
    have hturn := archiver_turn hmove
    refine ⟨.archiver .ok, t, settle_eq hstep trivial trivial, rfl, rfl,
      hkeep hstep id (turn_frame hturn).2.1 ?_⟩
    rcases turn_phase hturn with ⟨hun, -⟩ | ⟨-, -, ht⟩
    · simp only [Unwinds] at hun
      split at hun
      case h_1 ph k record hpc =>
        -- the record in work is one of the ring's, hence one that was asked for
        have hin := hs.course.write.inWork
        rw [hpc] at hin
        obtain ⟨e, he, rfl, rfl⟩ := hs.record (List.mem_map_of_mem (List.mem_of_getElem? (peek_eq_some.mp hin.1)))
        have hsome := hf e he
        rw [hun] at hsome
        cases hsome
      case h_2 => cases hun
      case h_3 => cases hun
      case h_4 => exact hun.elim
    · exact ht

variable (room) in
lemma drains_ring {s : State} (hs : After cfg calls s) (hf : Formats cfg calls) (hrun : s.running = true)
    (hu : s.archiver ≠ .unwound) (hm : ¬ s.MidClaim) {k : ℕ} (hk : k ≤ cfg.archives) :
    ∃ t, Reachable (settle cfg room) s t ∧ (After cfg calls t ∧ Drained s t) ∧
      (t.rings k).head = (t.rings k).slots.length := by
  refine reaches_of_decreasing (State.potential cfg k) (fun v ⟨hv, hd⟩ => ?_) s ⟨hs, .refl s⟩
  by_cases hlt : (v.rings k).head < (v.rings k).slots.length
  · have hvrun : v.running = true := hd.running.trans hrun
    obtain ⟨record, hc⟩ | ho := committed_or_open hlt
    · have hahead : Ahead cfg k v := by
        refine ⟨hv.course.stream, fun _ => ⟨record, peek_eq_some.mpr hc⟩, fun h => (Nat.not_lt_of_le hk h).elim,
          fun hp => ?_⟩
        have hlow := hv.phase (passed_phase hp)
        rw [hvrun] at hlow
        cases hlow
      obtain ⟨a, w, hstep, hmove, hgrant, hdw⟩ := live_move room hv hf hvrun (hd.alive hu)
      have hpay := step_pays hv.course.write hahead (onlyIf_eq_some hstep).2
      exact .inr ⟨w, .of_step hstep, ⟨hv.settle hstep, hd.trans hdw⟩, by omega⟩
    · obtain ⟨p, hp⟩ := hv.slots.owner k _ ho
      exact (hm ⟨p, k, _, hd.producers ▸ hp⟩).elim
  · exact .inl (Nat.le_antisymm (hv.course.write.bounds k) (Nat.le_of_not_lt hlt))

lemma Drained.empty {s t : State} (h : Drained s t) (ht : After cfg calls t) {k : ℕ}
    (he : (s.rings k).head = (s.rings k).slots.length) : (t.rings k).head = (t.rings k).slots.length := by
  have hle := ht.course.write.bounds k
  have hhead := h.head k
  rw [Queue.InBounds] at hle
  rw [h.slots k] at hle ⊢
  omega

variable (room) in
lemma drains_all {s : State} (hs : After cfg calls s) (hf : Formats cfg calls) (hrun : s.running = true)
    (hu : s.archiver ≠ .unwound) (hm : ¬ s.MidClaim) (n : ℕ) (hn : n ≤ cfg.archives + 1) :
    ∃ t, Reachable (settle cfg room) s t ∧ After cfg calls t ∧ Drained s t ∧
      ∀ k < n, (t.rings k).head = (t.rings k).slots.length := by
  induction n with
  | zero => exact ⟨s, .refl s, hs, .refl s, fun k hk => (Nat.not_lt_zero k hk).elim⟩
  | succ n ih =>
    obtain ⟨t, hst, ht, hd, hempty⟩ := ih (by omega)
    have hmt : ¬ t.MidClaim := by
      rw [State.MidClaim, hd.producers]
      exact hm
    obtain ⟨u, htu, ⟨hau, hdu⟩, hlast⟩ :=
      drains_ring room ht hf (hd.running.trans hrun) (hd.alive hu) hmt (Nat.le_of_lt_succ hn)
    refine ⟨u, hst.trans htu, hau, hd.trans hdu, fun k hk => ?_⟩
    rcases Nat.lt_succ_iff_lt_or_eq.mp hk with hlt | rfl
    · exact hdu.empty hau (hempty k hlt)
    · exact hlast

def FitEmpty (room : ℕ → Queue Bytes → Bytes → Bool) (calls : List Entry) : Prop :=
  ∀ e ∈ calls, ∀ q : Queue Bytes, q.head = q.slots.length → room e.stream q e.record = true

lemma one_finishes {s : State} (hs : After cfg calls s) (hf : Formats cfg calls) (hroom : FitEmpty room calls)
    (hu : s.running = true → s.archiver ≠ .unwound) {p : ℕ} (hp : s.producers p ≠ .idle) :
    ∃ t, Reachable (settle cfg room) s t ∧ t.running = s.running ∧
      (s.archiver ≠ .unwound → t.archiver ≠ .unwound) ∧ ∃ q ∈ s.busy, t.busy = s.busy \ {q} := by
  by_cases hm : s.MidClaim
  · obtain ⟨q, k, i, hq⟩ := hm
    obtain ⟨t, ht, hfin⟩ := claimed_finishes cfg room hq
    refine ⟨t, ht, hfin.running, fun ha => hfin.archiver ▸ ha, q, ?_, hfin.busy⟩
    rw [State.busy, Set.mem_ofPred_eq, hq]
    rintro ⟨⟩
  · cases hrun : s.running with
    | false =>
      obtain ⟨t, ht, hfin⟩ := call_finishes cfg (s := s) (p := p) fun h => by
        rw [hrun] at h
        cases h
      exact ⟨t, ht, hfin.running.trans hrun, fun ha => hfin.archiver ▸ ha, p, hp, hfin.busy⟩
    | true =>
      obtain ⟨u, hsu, hau, hd, hempty⟩ := drains_all room hs hf hrun (hu hrun) hm _ (le_refl _)
      obtain ⟨t, hut, hfin⟩ := call_finishes cfg (s := u) (p := p) fun _ e he => by
        refine hroom e (hau.pending he) _ (hempty _ (Nat.lt_succ_of_le ?_))
        have hk := hau.slots.streams p
        cases hpc : u.producers p <;> simp only [hpc, ProducerPc.pending, List.mem_singleton, List.not_mem_nil] at he
        all_goals
          subst he
          rwa [hpc] at hk
      have hbusy : u.busy = s.busy := by rw [State.busy, hd.producers, State.busy]
      exact ⟨t, hsu.trans hut, (hfin.running.trans hd.running).trans hrun,
        fun ha => hfin.archiver ▸ hd.alive ha, p, hp, by rw [hfin.busy, hbusy]⟩

/-- Let rings grant a claim exactly when they have room, at least when they are empty, and let no formatter panic.
Then no state is a trap for the calls: while the archiver has not been unwound, or once `running` is lowered, every
call in progress can return without a new one or the guard; and while `running` is up, all that is accepted can be
written. -/
theorem calls_can_return (cfg : Config) (room : ℕ → Queue Bytes → Bytes → Bool) (t : State)
    (tr : List (State × Action)) (h : Run (onlyIf (step cfg) fun s a => Roomy room s a) {} tr t)
    (hf : Formats cfg (events asked tr)) (hroom : FitEmpty room (events asked tr))
    (hu : t.running = true → t.archiver ≠ .unwound) :
    ∃ u, Reachable (settle cfg room) t u ∧ (∀ p, u.producers p = .idle) ∧ u.running = t.running ∧
      (t.running = true → ∀ k ≤ cfg.archives, (u.rings k).head = (u.rings k).slots.length) := by
  have ht : After cfg (events asked tr) t := ⟨tr, h.of_onlyIf.1, rfl⟩
  have hdown : ∀ s, After cfg (events asked tr) s ∧ s.running = t.running ∧
        (s.running = true → s.archiver ≠ .unwound) →
      (∀ p, s.producers p = .idle) ∨ ∃ v, Reachable (settle cfg room) s v ∧
        (After cfg (events asked tr) v ∧ v.running = t.running ∧ (v.running = true → v.archiver ≠ .unwound)) ∧
        v.busy.ncard < s.busy.ncard := by
    rintro s ⟨hs, hrun, hal⟩
    by_cases hall : ∀ p, s.producers p = .idle
    · exact .inl hall
    · obtain ⟨p, hp⟩ := not_forall.mp hall
      obtain ⟨v, hsv, hvrun, hval, q, hq, hbusy⟩ := one_finishes hs hf hroom hal hp
      refine .inr ⟨v, hsv, ⟨hsv.invariant (fun _ _ _ hs ha => After.settle hs ha) hs, hvrun.trans hrun,
        fun h => hval (hal (hvrun ▸ h))⟩, ?_⟩
      rw [hbusy]
      exact Set.ncard_sdiff_singleton_lt_of_mem hq hs.finite
  obtain ⟨u, htu, ⟨hau, hrun, hal⟩, hidle⟩ := reaches_of_decreasing _ hdown t ⟨ht, rfl, hu⟩
  cases hr : t.running with
  | false => exact ⟨u, htu, hidle, hrun.trans hr, fun h => by cases h⟩
  | true =>
    have hm : ¬ u.MidClaim := by
      rintro ⟨p, k, i, hp⟩
      rw [hidle p] at hp
      cases hp
    have hup := hrun.trans hr
    obtain ⟨v, huv, -, hd, hempty⟩ := drains_all room hau hf hup (hal hup) hm _ (le_refl _)
    exact ⟨v, htu.trans huv, fun p => by rw [hd.producers, hidle], hd.running.trans hup,
      fun _ k hk => hempty k (Nat.lt_succ_of_le hk)⟩

def oneRecord (_ : ℕ) (q : Queue Bytes) (_ : Bytes) : Bool := q.head == q.slots.length

def fullRing : List Action :=
  [.archiver .ok, .archiver .ok, .archiver .ok, .archiver .ok, .call 0 0 plainRecord, .tryClaim 0 true,
    .call 1 0 plainRecord, .tryClaim 1 false]

theorem calls_can_return_full : ∃ t tr,
    Run (onlyIf (step bothConfig) fun s a => Roomy oneRecord s a) {} tr t ∧
    (t.archiver, t.producers 0, t.producers 1) = (.parked, .claimed 0 0, .backoff plainRecord) ∧
    ∃ u, Reachable (settle bothConfig oneRecord) t u ∧ (∀ p, u.producers p = .idle) ∧ u.running = t.running ∧
      (t.running = true → ∀ k ≤ bothConfig.archives, (u.rings k).head = (u.rings k).slots.length) := by
  have hrun : (exec (onlyIf (step bothConfig) fun s a => Roomy oneRecord s a) {} fullRing).map (fun s =>
      (s.archiver, s.producers 0, s.producers 1)) = some (.parked, .claimed 0 0, .backoff plainRecord) := by decide
  obtain ⟨t, ht, hv⟩ := Option.map_eq_some_iff.mp hrun
  obtain ⟨tr, hr, hacts⟩ := exec_run ht
  have hasked : events asked tr = [⟨0, 0, plainRecord⟩, ⟨1, 0, plainRecord⟩] := by
    rw [events_asked, hacts]
    rfl
  have hf : Formats bothConfig (events asked tr) := by
    rw [hasked]
    exact List.forall_mem_cons.mpr ⟨by decide, List.forall_mem_cons.mpr ⟨by decide, List.forall_mem_nil _⟩⟩
  have hroom : FitEmpty oneRecord (events asked tr) := fun _ _ q hq => beq_iff_eq.mpr hq
  simp only [Prod.mk.injEq] at hv
  refine ⟨t, tr, hr, by rw [hv.1, hv.2.1, hv.2.2], calls_can_return bothConfig oneRecord t tr hr hf hroom fun _ => ?_⟩
  rw [hv.1]
  rintro ⟨⟩

end InqJet
