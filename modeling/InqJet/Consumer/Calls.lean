import InqJet.Consumer.Stranded

namespace InqJet

open ByteCodec ClaimQueue Function Runs

inductive CallTurn (cfg : Config) (s : State) : Action → State → Prop
  | lowered {p record} : s.producers p = .idle → s.running = false → CallTurn cfg s (.call p 0 record) s
  | log {p record} : s.producers p = .idle → s.running = true →
      CallTurn cfg s (.call p 0 record) (s.setProducer p (.trying 0 record))
  | archive {p k record} : s.producers p = .idle → k ≠ 0 → k ≤ cfg.archives →
      CallTurn cfg s (.call p k record) (s.setProducer p (.trying k record))
  | grant {p k record} : s.producers p = .trying k record → CallTurn cfg s (.tryClaim p true)
      ((s.setRing k ((s.rings k).claim record)).setProducer p (.claimed k (s.rings k).slots.length))
  | wait {p record} : s.producers p = .trying 0 record → cfg.backpressure = .backoff →
      CallTurn cfg s (.tryClaim p false) (s.setProducer p (.backoff record))
  | refuse {p k record} : s.producers p = .trying k record → ¬ (k = 0 ∧ cfg.backpressure = .backoff) →
      CallTurn cfg s (.tryClaim p false) (s.setProducer p .idle)
  | goOn {p record} : s.producers p = .backoff record → s.running = true →
      CallTurn cfg s (.recheck p) (s.setProducer p (.waking record))
  | giveUp {p record} : s.producers p = .backoff record → s.running = false →
      CallTurn cfg s (.recheck p) (s.setProducer p .idle)
  | unpark {p record} : s.producers p = .waking record →
      CallTurn cfg s (.unpark p) ({ s with token := true }.setProducer p (.trying 0 record))
  | commit {p k i} : s.producers p = .claimed k i →
      CallTurn cfg s (.commit p) ((s.setRing k ((s.rings k).commit i)).setProducer p .idle)

def Action.thread : Action → Option ℕ
  | .call p _ _ => some p
  | .tryClaim p _ => some p
  | .recheck p => some p
  | .unpark p => some p
  | .commit p => some p
  | _ => none

structure Entry where
  thread : ℕ
  stream : ℕ
  record : Bytes
  deriving DecidableEq

def asked (_ : State) : Action → Option Entry
  | .call p k record => some ⟨p, k, record⟩
  | _ => none

/-- The call a step settles: with `true` its record has a slot now, with `false` it is lost. -/
def settled (cfg : Config) (s : State) : Action → Option (Entry × Bool)
  | .call p k record => if k = 0 ∧ s.running = false then some (⟨p, 0, record⟩, false) else none
  | .tryClaim p granted =>
    match s.producers p with
    | .trying k record =>
      if granted then some (⟨p, k, record⟩, true)
      else if k = 0 ∧ cfg.backpressure = .backoff then none
      else some (⟨p, k, record⟩, false)
    | _ => none
  | .recheck p =>
    match s.producers p with
    | .backoff record => if s.running then none else some (⟨p, 0, record⟩, false)
    | _ => none
  | _ => none

def accepted (e : Entry × Bool) : Option Entry := if e.2 then some e.1 else none

def ProducerPc.pending (p : ℕ) : ProducerPc → List Entry
  | .trying k record => [⟨p, k, record⟩]
  | .backoff record => [⟨p, 0, record⟩]
  | .waking record => [⟨p, 0, record⟩]
  | _ => []

def ofThread (p : ℕ) (log : List Entry) : List Entry := log.filter fun e => e.thread = p

def onStream (k : ℕ) (log : List Entry) : List Bytes := (log.filter fun e => e.stream = k).map Entry.record

variable {cfg : Config}

lemma call_turn {s t : State} {a : Action} (h : step cfg s a = some t) (ha : a.IsProducer) :
    CallTurn cfg s a t := by
  cases a with
  | call p k record =>
    simp only [step, callStep] at h
    split at h
    case h_1 hp =>
      split_ifs at h with hk hr hr
      · subst hk
        exact Option.some.inj h ▸ .log hp hr
      · subst hk
        exact Option.some.inj h ▸ .lowered hp (by simpa using hr)
      · exact Option.some.inj h ▸ .archive hp hk hr
    case h_2 => cases h
  | tryClaim p granted =>
    simp only [step, tryClaimStep] at h
    split at h
    case h_1 k record hp =>
      split_ifs at h with hg hb
      · subst hg
        exact Option.some.inj h ▸ .grant hp
      · obtain rfl : granted = false := by simpa using hg
        obtain ⟨rfl, hb⟩ := hb
        exact Option.some.inj h ▸ .wait hp hb
      · obtain rfl : granted = false := by simpa using hg
        exact Option.some.inj h ▸ .refuse hp hb
    case h_2 => cases h
  | recheck p =>
    simp only [step, recheckStep] at h
    split at h
    case h_1 record hp =>
      obtain rfl := Option.some.inj h
      split_ifs with hr
      · exact .goOn hp hr
      · exact .giveUp hp (by simpa using hr)
    case h_2 => cases h
  | unpark p =>
    simp only [step, unparkStep] at h
    split at h
    case h_1 record hp => exact Option.some.inj h ▸ .unpark hp
    case h_2 => cases h
  | commit p =>
    simp only [step, commitStep] at h
    split at h
    case h_1 k i hp => exact Option.some.inj h ▸ .commit hp
    case h_2 => cases h
  | archiver io => exact ha.elim
  | timedOut => exact ha.elim
  | guard => exact ha.elim

lemma turn_slots {s t : State} {io : IoResult} (h : Turn cfg s io t) (k : ℕ) :
    (t.rings k).slots = (s.rings k).slots := by
  have hadvance (j : ℕ) : ((update s.rings j (s.rings j).advance) k).slots = (s.rings k).slots := by
    by_cases hk : k = j
    · subst hk
      rw [update_self, Queue.advance]
    · rw [update_of_ne hk]
  cases h with
  | formatPanic => exact hadvance _
  | write => exact hadvance _
  | writePanic => exact hadvance _
  | _ => rfl

lemma other_producers {s t : State} {a : Action} (h : step cfg s a = some t) (ha : ¬ a.IsProducer) :
    t.producers = s.producers ∧ ∀ k, (t.rings k).slots = (s.rings k).slots := by
  cases a with
  | archiver io =>
    have ht := archiver_turn h
    exact ⟨by cases ht <;> rfl, turn_slots ht⟩
  | timedOut =>
    obtain ⟨-, rfl⟩ := timedOut_turn h
    exact ⟨rfl, fun _ => rfl⟩
  | guard => cases guard_turn h <;> exact ⟨rfl, fun _ => rfl⟩
  | _ => exact (ha trivial).elim

lemma other_settled (cfg : Config) (s : State) {a : Action} (ha : ¬ a.IsProducer) :
    settled cfg s a = none ∧ asked s a = none := by
  cases a with
  | archiver io => exact ⟨rfl, rfl⟩
  | timedOut => exact ⟨rfl, rfl⟩
  | guard => exact ⟨rfl, rfl⟩
  | _ => exact (ha trivial).elim

@[simp] lemma producers_setProducer (s : State) (p : ℕ) (pc : ProducerPc) : (s.setProducer p pc).producers p = pc :=
  update_self _ _ _

lemma producers_setProducer_of_ne (s : State) {p q : ℕ} (pc : ProducerPc) (h : p ≠ q) :
    (s.setProducer q pc).producers p = s.producers p :=
  update_of_ne h _ _

@[simp] lemma producers_setRing (s : State) (k : ℕ) (q : Queue Bytes) : (s.setRing k q).producers = s.producers :=
  rfl

lemma CallTurn.others {s t : State} {a : Action} {p : ℕ} (h : CallTurn cfg s a t) (hp : a.thread ≠ some p) :
    t.producers p = s.producers p ∧ ofThread p ((settled cfg s a).map Prod.fst).toList = [] ∧
      ofThread p (asked s a).toList = [] := by
  have hne {q : ℕ} (hq : a.thread = some q) : p ≠ q := by
    rintro rfl
    exact hp hq
  cases h with
  | lowered hq hr => simp [settled, asked, hr, ofThread, (hne rfl).symm]
  | log hq hr => simp [producers_setProducer_of_ne _ _ (hne rfl), settled, asked, hr, ofThread, (hne rfl).symm]
  | archive hq hk => simp [producers_setProducer_of_ne _ _ (hne rfl), settled, asked, hk, ofThread, (hne rfl).symm]
  | grant hq => simp [producers_setProducer_of_ne _ _ (hne rfl), settled, asked, hq, ofThread, (hne rfl).symm]
  | wait hq hb => simp [producers_setProducer_of_ne _ _ (hne rfl), settled, asked, hq, hb, ofThread]
  | refuse hq hb => simp [producers_setProducer_of_ne _ _ (hne rfl), settled, asked, hq, hb, ofThread, (hne rfl).symm]
  | goOn hq hr => simp [producers_setProducer_of_ne _ _ (hne rfl), settled, asked, hq, hr, ofThread]
  | giveUp hq hr => simp [producers_setProducer_of_ne _ _ (hne rfl), settled, asked, hq, hr, ofThread, (hne rfl).symm]
  | unpark => exact ⟨producers_setProducer_of_ne _ _ (hne rfl), rfl, rfl⟩
  | commit => exact ⟨producers_setProducer_of_ne _ _ (hne rfl), rfl, rfl⟩

lemma call_account {s t : State} {a : Action} (h : CallTurn cfg s a t) (p : ℕ) :
    ofThread p ((settled cfg s a).map Prod.fst).toList ++ (t.producers p).pending p =
      (s.producers p).pending p ++ ofThread p (asked s a).toList := by
  by_cases hp : a.thread = some p
  · cases h with
    | lowered hq hr =>
      obtain rfl := Option.some.inj hp
      simp [settled, asked, hr, hq, ofThread, ProducerPc.pending]
    | log hq hr =>
      obtain rfl := Option.some.inj hp
      simp [settled, asked, hr, hq, ofThread, ProducerPc.pending]
    | archive hq hk =>
      obtain rfl := Option.some.inj hp
      simp [settled, asked, hk, hq, ofThread, ProducerPc.pending]
    | grant hq =>
      obtain rfl := Option.some.inj hp
      simp [settled, asked, hq, ofThread, ProducerPc.pending]
    | wait hq hb =>
      obtain rfl := Option.some.inj hp
      simp [settled, asked, hq, hb, ofThread, ProducerPc.pending]
    | refuse hq hb =>
      obtain rfl := Option.some.inj hp
      simp [settled, asked, hq, hb, ofThread, ProducerPc.pending]
    | goOn hq hr =>
      obtain rfl := Option.some.inj hp
      simp [settled, asked, hq, hr, ofThread, ProducerPc.pending]
    | giveUp hq hr =>
      obtain rfl := Option.some.inj hp
      simp [settled, asked, hq, hr, ofThread, ProducerPc.pending]
    | unpark hq =>
      obtain rfl := Option.some.inj hp
      simp [settled, asked, hq, ofThread, ProducerPc.pending]
    | commit hq =>
      obtain rfl := Option.some.inj hp
      simp [settled, asked, hq, ofThread, ProducerPc.pending]
  · obtain ⟨ht, hs, ha⟩ := h.others hp
    rw [ht, hs, ha, List.nil_append, List.append_nil]

lemma call_records {s t : State} {a : Action} (h : CallTurn cfg s a t) (k : ℕ) :
    (t.rings k).records = (s.rings k).records ++ onStream k ((settled cfg s a).bind accepted).toList := by
  cases h with
  | lowered _ hr => simp [settled, hr, accepted, onStream]
  | log _ hr => simp [settled, hr, onStream, State.setProducer]
  | archive _ hk => simp [settled, hk, onStream, State.setProducer]
  | @grant p j record hq =>
    by_cases hk : k = j
    · subst hk
      simp [settled, hq, accepted, onStream, State.setProducer, State.setRing]
    · simp [settled, hq, accepted, onStream, State.setProducer, State.setRing, hk, Ne.symm hk]
  | wait hq hb => simp [settled, hq, hb, onStream, State.setProducer]
  | refuse hq hb => simp [settled, hq, hb, accepted, onStream, State.setProducer]
  | goOn hq hr => simp [settled, hq, hr, onStream, State.setProducer]
  | giveUp hq hr => simp [settled, hq, hr, accepted, onStream, State.setProducer]
  | unpark => simp [settled, onStream, State.setProducer]
  | @commit p j i hq =>
    by_cases hk : k = j
    · subst hk
      simp [settled, onStream, State.setProducer, State.setRing]
    · simp [settled, onStream, State.setProducer, State.setRing, hk]

lemma step_account {s t : State} {a : Action} (h : step cfg s a = some t) (p : ℕ) :
    ofThread p ((settled cfg s a).map Prod.fst).toList ++ (t.producers p).pending p =
      (s.producers p).pending p ++ ofThread p (asked s a).toList := by
  by_cases ha : a.IsProducer
  · exact call_account (call_turn h ha) p
  · obtain ⟨hs, hq⟩ := other_settled cfg s ha
    rw [(other_producers h ha).1, hs, hq]
    simp [ofThread]

lemma step_records {s t : State} {a : Action} (h : step cfg s a = some t) (k : ℕ) :
    (t.rings k).records = (s.rings k).records ++ onStream k ((settled cfg s a).bind accepted).toList := by
  by_cases ha : a.IsProducer
  · exact call_records (call_turn h ha) k
  · rw [Queue.records, (other_producers h ha).2 k, ← Queue.records, (other_settled cfg s ha).1]
    simp [onStream]

lemma run_account {t : State} {tr : List (State × Action)} (h : Run (step cfg) {} tr t) (p : ℕ) :
    ofThread p ((events (settled cfg) tr).map Prod.fst) ++ (t.producers p).pending p =
      ofThread p (events asked tr) := by
  induction h with
  | nil => rfl
  | @snoc tr t a u hr ha ih =>
    have hstep := step_account ha p
    rw [events_snoc, events_snoc, List.map_append, ofThread, ofThread, List.filter_append, List.filter_append,
      ← ofThread, ← ofThread, ← ofThread, ← ofThread, ← ih, List.append_assoc, List.append_assoc, ← hstep,
      ← Option.toList_map]

lemma run_records {t : State} {tr : List (State × Action)} (h : Run (step cfg) {} tr t) (k : ℕ) :
    (t.rings k).records = onStream k ((events (settled cfg) tr).filterMap accepted) := by
  induction h with
  | nil => rfl
  | @snoc tr t a u hr ha ih =>
    rw [step_records ha k, ih, events_filterMap, events_filterMap, events_snoc, onStream, onStream, onStream,
      List.filter_append, List.map_append]

/-- In every run, whatever the schedule: the calls of a thread are settled one by one in the order in which
it makes them, all but the one it is in; and a writer has got the lines of the accepted records of its stream,
in the order of their acceptance and each once, up to the ring's head. -/
theorem calls_settle_in_order (cfg : Config) (t : State) (tr : List (State × Action)) (h : Run (step cfg) {} tr t) :
    (∀ p, ofThread p ((events (settled cfg) tr).map Prod.fst) ++ (t.producers p).pending p =
      ofThread p (events asked tr)) ∧
    ∀ k, t.writes k = ((onStream k ((events (settled cfg) tr).filterMap accepted)).take
      (t.rings k).head).filterMap (cfg.format k) := by
  have hi : WriteInv cfg t := (h.invariant (fun _ _ _ hs ha => hs.step ha) (writeInv_initial cfg)).1
  refine ⟨run_account h, fun k => ?_⟩
  rw [hi.writes k, Queue.consumed, run_records h k]

def refusedThenGranted : List Action :=
  [.call 0 1 [7], .call 1 0 [8], .tryClaim 1 false, .tryClaim 0 true, .recheck 1, .commit 0, .unpark 1,
    .call 0 1 [9], .tryClaim 1 true, .tryClaim 0 false] ++ .replicate 6 (.archiver .ok)

theorem calls_settle_in_order_refused : ∃ t tr, Run (step lineConfig) {} tr t ∧ t.writes 1 = [[7, 10]] ∧
    (∀ p, ofThread p ((events (settled lineConfig) tr).map Prod.fst) ++ (t.producers p).pending p =
      ofThread p (events asked tr)) ∧
    ∀ k, t.writes k = ((onStream k ((events (settled lineConfig) tr).filterMap accepted)).take
      (t.rings k).head).filterMap (lineConfig.format k) := by
  have hrun : (exec (step lineConfig) {} refusedThenGranted).map (fun s => s.writes 1) = some [[7, 10]] := by decide
  obtain ⟨t, ⟨tr, ht⟩, hw⟩ := reachable_of_exec_map hrun
  exact ⟨t, tr, ht, hw, calls_settle_in_order lineConfig t tr ht⟩

lemma lost_turn {s t : State} {a : Action} (h : CallTurn cfg s a t) {e : Entry}
    (he : settled cfg s a = some (e, false)) : e.stream ≠ 0 ∨ cfg.backpressure ≠ .backoff ∨ s.running = false := by
  cases h with
  | lowered _ hr => exact .inr (.inr hr)
  | log _ hr => simp [settled, hr] at he
  | archive _ hk => simp [settled, hk] at he
  | grant hq => simp [settled, hq] at he
  | wait hq hb => simp [settled, hq, hb] at he
  | @refuse p k record hq hb =>
    simp only [settled, hq, Bool.false_eq_true, if_false, if_neg hb, Option.some.injEq, Prod.mk.injEq,
      and_true] at he
    subst he
    by_cases hk : k = 0
    · exact .inr (.inl fun hbp => hb ⟨hk, hbp⟩)
    · exact .inl hk
  | goOn hq hr => simp [settled, hq, hr] at he
  | giveUp _ hr => exact .inr (.inr hr)
  | unpark => simp [settled] at he
  | commit => simp [settled] at he

lemma lowered_step {s t : State} {a : Action} (h : step cfg s a = some t) (hs : s.running = false) :
    t.running = false := by
  cases a with
  | archiver io => exact (turn_frame (archiver_turn h)).2.1.trans hs
  | _ => exact (other_step h (by rintro _ ⟨⟩)).2 hs

lemma lost_only {s t : State} {tr : List (State × Action)} (h : Run (step cfg) s tr t) {e : Entry}
    (he : (e, false) ∈ events (settled cfg) tr) :
    e.stream ≠ 0 ∨ cfg.backpressure ≠ .backoff ∨ t.running = false := by
  induction h with
  | nil => simp at he
  | @snoc tr t a u hr ha ih =>
    rw [events_snoc, List.mem_append, Option.mem_toList] at he
    have hlost : e.stream ≠ 0 ∨ cfg.backpressure ≠ .backoff ∨ t.running = false := by
      rcases he with he | he
      · exact ih he
      · by_cases hp : a.IsProducer
        · exact lost_turn (call_turn ha hp) he
        · rw [(other_settled cfg t hp).1] at he
          cases he
    exact hlost.imp_right (Or.imp_right (lowered_step ha))

lemma onStream_accepted {log : List (Entry × Bool)} {k : ℕ} (p : ℕ)
    (h : ∀ e, (e, false) ∈ log → e.stream ≠ k) :
    onStream k (ofThread p (log.filterMap accepted)) = onStream k (ofThread p (log.map Prod.fst)) := by
  induction log with
  | nil => rfl
  | cons x log ih =>
    obtain ⟨e, granted⟩ := x
    have hlog := ih fun e he => h e (List.mem_cons_of_mem _ he)
    have hsplit (rest : List Entry) :
        onStream k (ofThread p (e :: rest)) = onStream k (ofThread p [e]) ++ onStream k (ofThread p rest) := by
      rw [← List.singleton_append, ofThread, ofThread, ofThread, List.filter_append, onStream, onStream, onStream,
        List.filter_append, List.map_append]
    cases granted with
    | true =>
      have hx : accepted (e, true) = some e := rfl
      rw [List.filterMap_cons_some hx, List.map_cons, hsplit, hsplit (log.map Prod.fst), hlog]
    | false =>
      have hx : accepted (e, false) = none := rfl
      have hk : e.stream ≠ k := h e (List.mem_cons_self ..)
      have hnil : onStream k (ofThread p [e]) = [] := by
        by_cases hp : e.thread = p <;> simp [onStream, ofThread, hp, hk]
      rw [List.filterMap_cons_none hx, List.map_cons, hsplit (log.map Prod.fst), hnil, hlog, List.nil_append]

theorem backoff_loses_nothing (cfg : Config) (hb : cfg.backpressure = .backoff) (t : State)
    (tr : List (State × Action)) (h : Run (step cfg) {} tr t) (hr : t.running = true) (p : ℕ) :
    onStream 0 (ofThread p ((events (settled cfg) tr).filterMap accepted)) ++
        onStream 0 ((t.producers p).pending p) =
      onStream 0 (ofThread p (events asked tr)) := by
  have hlost : ∀ e, (e, false) ∈ events (settled cfg) tr → e.stream ≠ 0 := by
    intro e he
    rcases lost_only h he with hs | hm | hl
    · exact hs
    · exact (hm hb).elim
    · rw [hr] at hl
      cases hl
  rw [onStream_accepted p hlost, ← run_account h p, onStream, onStream, onStream, List.filter_append,
    List.map_append]

theorem backoff_loses_nothing_refused : ∃ t tr, Run (step lineConfig) {} tr t ∧
    (t.rings 0).records = [[8]] ∧
    onStream 0 (ofThread 1 ((events (settled lineConfig) tr).filterMap accepted)) ++
      onStream 0 ((t.producers 1).pending 1) = onStream 0 (ofThread 1 (events asked tr)) := by
  have hrun : (exec (step lineConfig) {} refusedThenGranted).map (fun s => (s.running, (s.rings 0).records)) =
      some (true, [[8]]) := by decide
  obtain ⟨t, ⟨tr, ht⟩, hv⟩ := reachable_of_exec_map hrun
  simp only [Prod.mk.injEq] at hv
  exact ⟨t, tr, ht, hv.2, backoff_loses_nothing lineConfig rfl t tr ht hv.1 1⟩

lemma events_asked (tr : List (State × Action)) : events asked tr = (tr.map Prod.snd).filterMap (asked {}) := by
  rw [events, List.filterMap_map]
  rfl

lemma accepted_asked {cfg : Config} {t : State} {tr : List (State × Action)} (h : Run (step cfg) {} tr t)
    {e : Entry} (he : e ∈ (events (settled cfg) tr).filterMap accepted) : e ∈ events asked tr := by
  obtain ⟨⟨e', granted⟩, hmem, hacc⟩ := List.mem_filterMap.mp he
  cases granted with
  | true =>
    obtain rfl : e' = e := Option.some.inj hacc
    have hin : e' ∈ ofThread e'.thread ((events (settled cfg) tr).map Prod.fst) := by
      rw [ofThread, List.mem_filter]
      exact ⟨List.mem_map_of_mem hmem, by simp⟩
    have hask : e' ∈ ofThread e'.thread (events asked tr) := by
      rw [← run_account h e'.thread]
      exact List.mem_append_left _ hin
    exact List.mem_of_mem_filter hask
  | false => cases hacc

lemma onStream_asked {cfg : Config} {t : State} {tr : List (State × Action)} (h : Run (step cfg) {} tr t) {k : ℕ}
    {record : Bytes} (hr : record ∈ (t.rings k).records) :
    ∃ e ∈ events asked tr, e.stream = k ∧ e.record = record := by
  rw [run_records h k, onStream, List.mem_map] at hr
  obtain ⟨e, he, hrec⟩ := hr
  obtain ⟨hacc, hk⟩ := List.mem_filter.mp he
  exact ⟨e, accepted_asked h hacc, by simpa using hk, hrec⟩

lemma filterMap_said {β : Type*} {R : Bytes → β → Prop} {Q : β → Prop} {f : β → Bytes} {g : Bytes → Option Bytes}
    (hf : ∀ record b, R record b → g record = some (f b)) {records : List Bytes}
    (h : ∀ record ∈ records, ∃ b, R record b ∧ Q b) :
    ∃ bs, List.Forall₂ R records bs ∧ (∀ b ∈ bs, Q b) ∧ records.filterMap g = bs.map f := by
  induction records with
  | nil => exact ⟨[], .nil, List.forall_mem_nil _, rfl⟩
  | cons record records ih =>
    simp only [List.forall_mem_cons] at h
    obtain ⟨⟨b, hr, hq⟩, hrest⟩ := h
    obtain ⟨bs, hrs, hqs, hlines⟩ := ih hrest
    refine ⟨b :: bs, .cons hr hrs, List.forall_mem_cons.mpr ⟨hq, hqs⟩, ?_⟩
    rw [List.filterMap_cons_some (hf record b hr), hlines, List.map_cons]

lemma lines_said {t : State} {tr : List (State × Action)} (h : Run (step cfg) {} tr t) {k : ℕ} {β : Type*}
    {R : Bytes → β → Prop} {Q : β → Prop} {f : β → Bytes}
    (hf : ∀ record b, R record b → cfg.format k record = some (f b))
    (hasked : ∀ e ∈ events asked tr, e.stream = k → ∃ b, R e.record b ∧ Q b) :
    ∃ bs, List.Forall₂ R ((onStream k ((events (settled cfg) tr).filterMap accepted)).take (t.rings k).head) bs ∧
      (∀ b ∈ bs, Q b) ∧ t.writes k = bs.map f := by
  have hi : WriteInv cfg t := (h.invariant (fun _ _ _ hs ha => hs.step ha) (writeInv_initial cfg)).1
  rw [← run_records h k, hi.writes k]
  refine filterMap_said hf fun record hr => ?_
  obtain ⟨e, he, hk, rfl⟩ := onStream_asked h (List.mem_of_mem_take hr)
  exact hasked e he hk

end InqJet
