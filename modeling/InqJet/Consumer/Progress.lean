import InqJet.Consumer.Calls
import InqJet.Consumer.Drain
import InqJet.Consumer.Wakeup

namespace InqJet

open ByteCodec ClaimQueue Function Runs

def moves (_ : State) : Action → ℕ
  | .archiver _ => 1
  | .timedOut => 1
  | _ => 0

def grants (_ : State) : Action → ℕ
  | .tryClaim _ true => 1
  | _ => 0

def State.backlog (cfg : Config) (s : State) : ℕ :=
  ∑ k ∈ Finset.range (cfg.archives + 1), ((s.rings k).slots.length - (s.rings k).head)

def ArchiverPc.stream : ArchiverPc → ℕ
  | .poll _ k => k
  | .claimed _ k _ => k
  | .cleared _ k _ => k
  | .formatted _ k => k
  | .flush _ k => k
  | _ => 0

/-- Moves from the poll of stream `j` to the one of stream `k` of the streams up to `n`, if no record is found
on the way and there is one at `k`; with `n < k`, to the return. The records taken at `k` need three more. -/
def pollDistance (n k : ℕ) : Phase → ℕ → ℕ
  | .live, j => if j ≤ k ∧ k ≤ n then k - j + 3 else (n - j) + n + 2 * k + 7
  | .drain, j => 2 * (k - j) + 3

def ArchiverPc.distance (n k : ℕ) : ArchiverPc → ℕ
  | .check => 2 * k + 4
  | .poll ph j => pollDistance n k ph j
  | .claimed ph j _ => pollDistance n k ph j - 1
  | .cleared ph j _ => pollDistance n k ph j - 2
  | .formatted ph j => pollDistance n k ph j - 3
  | .flush .live j => (n - j) + 2 * k + 5
  | .flush .drain j => 2 * (k - j) + 2
  | .idle => 2 * k + 6
  | .parked => 2 * k + 5
  | .returned => 0
  | .unwound => 0

def State.potential (cfg : Config) (k : ℕ) (s : State) : ℕ :=
  s.archiver.distance cfg.archives k + 4 * s.backlog cfg

variable {cfg : Config}

lemma three_le_pollDistance (n k : ℕ) (ph : Phase) (j : ℕ) : 3 ≤ pollDistance n k ph j := by
  cases ph with
  | live => simp only [pollDistance]; split_ifs <;> omega
  | drain => simp only [pollDistance]; omega

lemma distance_le (n k : ℕ) (pc : ArchiverPc) : pc.distance n k ≤ 2 * n + 2 * k + 7 := by
  have hpoll (ph : Phase) (j : ℕ) : pollDistance n k ph j ≤ 2 * n + 2 * k + 7 := by
    cases ph with
    | live => simp only [pollDistance]; split_ifs <;> omega
    | drain => simp only [pollDistance]; omega
  cases pc with
  | poll ph j => exact hpoll ph j
  | claimed ph j record => exact (Nat.sub_le _ _).trans (hpoll ph j)
  | cleared ph j record => exact (Nat.sub_le _ _).trans (hpoll ph j)
  | formatted ph j => exact (Nat.sub_le _ _).trans (hpoll ph j)
  | flush ph j => cases ph <;> simp only [ArchiverPc.distance] <;> omega
  | _ => simp only [ArchiverPc.distance]; omega

lemma backlog_of_rings {s t : State} (h : t.rings = s.rings) : t.backlog cfg = s.backlog cfg := by
  rw [State.backlog, State.backlog, h]

lemma backlog_advance {s t : State} {k : ℕ} {record : Bytes} (hk : k ≤ cfg.archives)
    (hp : (s.rings k).peek = some record) (hr : t.rings = update s.rings k (s.rings k).advance) :
    t.backlog cfg + 1 = s.backlog cfg := by
  have hmem : k ∈ Finset.range (cfg.archives + 1) := Finset.mem_range.mpr (by omega)
  have hlt := (peek_eq_some.mp hp).lt_length
  have hrest : ∑ j ∈ (Finset.range (cfg.archives + 1)).erase k, ((t.rings j).slots.length - (t.rings j).head) =
      ∑ j ∈ (Finset.range (cfg.archives + 1)).erase k, ((s.rings j).slots.length - (s.rings j).head) := by
    apply Finset.sum_congr rfl
    intro j hj
    rw [hr, update_of_ne (Finset.ne_of_mem_erase hj)]
  rw [State.backlog, State.backlog, ← Finset.add_sum_erase _ _ hmem, ← Finset.add_sum_erase _ _ hmem, hrest, hr,
    update_self]
  simp only [Queue.advance]
  omega

lemma backlog_call {s t : State} {a : Action} (h : CallTurn cfg s a t) :
    t.backlog cfg ≤ s.backlog cfg + grants s a := by
  cases h with
  | @grant p k record hp =>
    have hle (j : ℕ) : ((update s.rings k ((s.rings k).claim record)) j).slots.length -
        ((update s.rings k ((s.rings k).claim record)) j).head ≤
          (s.rings j).slots.length - (s.rings j).head + if j = k then 1 else 0 := by
      by_cases hj : j = k
      · subst hj
        simp only [update_self, Queue.claim, List.length_append, List.length_singleton, if_pos]
        omega
      · rw [update_of_ne hj]
        omega
    calc _ ≤ ∑ j ∈ Finset.range (cfg.archives + 1),
          ((s.rings j).slots.length - (s.rings j).head + if j = k then 1 else 0) :=
        Finset.sum_le_sum fun j _ => hle j
      _ ≤ _ := by
        rw [Finset.sum_add_distrib, Finset.sum_ite_eq']
        apply Nat.add_le_add_left
        split_ifs <;> simp [grants]
  | @commit p k i hp =>
    refine (Finset.sum_congr rfl fun j _ => ?_).le
    simp only [State.setProducer, State.setRing]
    by_cases hj : j = k
    · subst hj
      simp [Queue.commit]
    · rw [update_of_ne hj]
  | _ => exact Nat.le_add_right _ _

structure Ahead (cfg : Config) (k : ℕ) (s : State) : Prop where
  stream : s.archiver.stream ≤ cfg.archives
  waiting : k ≤ cfg.archives → ∃ record, (s.rings k).peek = some record
  lowered : cfg.archives < k → s.running = false
  notPassed : ¬ s.archiver.Passed cfg k

lemma pays_of_rings {s t : State} {k : ℕ} (hr : t.rings = s.rings)
    (hd : t.archiver.distance cfg.archives k + 1 ≤ s.archiver.distance cfg.archives k) :
    t.potential cfg k + 1 ≤ s.potential cfg k := by
  rw [State.potential, State.potential, backlog_of_rings hr]
  omega

lemma pays_of_advance {s t : State} {j k : ℕ} {record : Bytes} (hj : j ≤ cfg.archives)
    (hp : (s.rings j).peek = some record) (hr : t.rings = update s.rings j (s.rings j).advance)
    (hd : t.archiver.distance cfg.archives k ≤ s.archiver.distance cfg.archives k + 3) :
    t.potential cfg k + 1 ≤ s.potential cfg k := by
  have hb := backlog_advance hj hp hr
  rw [State.potential, State.potential]
  omega

lemma afterPoll_pays {s : State} {j k : ℕ} {ph : Phase} (hs : Ahead cfg k s) (hpc : s.archiver = .poll ph j)
    (he : (s.rings j).peek = none) (hadWork : Bool) :
    (afterPoll cfg hadWork ph j).distance cfg.archives k + 1 ≤ pollDistance cfg.archives k ph j := by
  have hj : j ≤ cfg.archives := by
    have h := hs.stream
    rwa [hpc] at h
  cases ph with
  | live =>
    have hne : k ≤ cfg.archives → j ≠ k := by
      rintro hk rfl
      obtain ⟨record, hr⟩ := hs.waiting hk
      rw [he] at hr
      cases hr
    simp only [afterPoll]
    split_ifs with hlt hwork
    · simp only [ArchiverPc.distance, pollDistance]
      split_ifs <;> omega
    · simp only [ArchiverPc.distance, pollDistance]
      split_ifs <;> omega
    · simp only [ArchiverPc.distance, pollDistance]
      split_ifs <;> omega
  | drain => simp only [afterPoll, ArchiverPc.distance, pollDistance, le_refl]

lemma afterFlush_pays {s : State} {j k : ℕ} {ph : Phase} (hs : Ahead cfg k s) (hpc : s.archiver = .flush ph j) :
    (afterFlush cfg ph j).distance cfg.archives k + 1 ≤ (ArchiverPc.flush ph j).distance cfg.archives k := by
  cases ph with
  | live =>
    simp only [afterFlush]
    split_ifs with hj <;> simp only [ArchiverPc.distance] <;> omega
  | drain =>
    have hjk : j < k := by
      have h := hs.notPassed
      rw [hpc] at h
      exact Nat.lt_of_not_le h
    simp only [afterFlush]
    split_ifs with hj <;> simp only [ArchiverPc.distance, pollDistance] <;> omega

lemma turn_pays {s t : State} {io : IoResult} {k : ℕ} (hw : WriteInv cfg s) (hs : Ahead cfg k s)
    (h : Turn cfg s io t) : t.potential cfg k + 1 ≤ s.potential cfg k := by
  have hin := hw.inWork
  have hst := hs.stream
  cases h with
  | start hpc hr =>
    refine pays_of_rings (by rfl) ?_
    have hk : k ≤ cfg.archives := by
      by_contra hk
      rw [hs.lowered (by omega)] at hr
      cases hr
    simp only [hpc, ArchiverPc.distance, pollDistance]
    split_ifs <;> omega
  | stop hpc =>
    refine pays_of_rings (by rfl) ?_
    simp only [hpc, ArchiverPc.distance, pollDistance]
    omega
  | @take _ ph j _ hpc =>
    refine pays_of_rings (by rfl) ?_
    have h3 := three_le_pollDistance cfg.archives k ph j
    simp only [hpc, ArchiverPc.distance]
    omega
  | empty hpc he =>
    refine pays_of_rings (by rfl) ?_
    rw [hpc]
    exact afterPoll_pays hs hpc he _
  | @clear _ ph j _ hpc =>
    refine pays_of_rings (by rfl) ?_
    have h3 := three_le_pollDistance cfg.archives k ph j
    simp only [hpc, ArchiverPc.distance]
    omega
  | @format _ ph j _ _ hpc =>
    refine pays_of_rings (by rfl) ?_
    have h3 := three_le_pollDistance cfg.archives k ph j
    simp only [hpc, ArchiverPc.distance]
    omega
  | formatPanic hpc =>
    rw [hpc] at hin hst
    exact pays_of_advance hst hin.1 rfl (Nat.zero_le _)
  | @write _ ph j hpc =>
    rw [hpc] at hin hst
    obtain ⟨record, hp, -⟩ := hin
    refine pays_of_advance hst hp rfl ?_
    simp only [hpc, ArchiverPc.distance]
    omega
  | writePanic hpc =>
    rw [hpc] at hin hst
    obtain ⟨record, hp, -⟩ := hin
    exact pays_of_advance hst hp rfl (Nat.zero_le _)
  | flush hpc =>
    refine pays_of_rings (by rfl) ?_
    rw [hpc]
    exact afterFlush_pays hs hpc
  | @flushPanic ph j hpc =>
    refine pays_of_rings (by rfl) ?_
    rw [hpc]
    cases ph <;> simp only [ArchiverPc.distance] <;> omega
  | rest hpc =>
    refine pays_of_rings (by rfl) ?_
    rw [hpc]
    dsimp only
    split_ifs <;> simp only [ArchiverPc.distance] <;> omega
  | wake hpc =>
    refine pays_of_rings (by rfl) ?_
    simp only [hpc, ArchiverPc.distance]
    omega

lemma step_pays {s t : State} {a : Action} {k : ℕ} (hw : WriteInv cfg s) (hs : Ahead cfg k s)
    (h : step cfg s a = some t) :
    t.potential cfg k + moves s a ≤ s.potential cfg k + 4 * grants s a := by
  cases a with
  | archiver io => exact turn_pays hw hs (archiver_turn h)
  | timedOut =>
    obtain ⟨hpc, rfl⟩ := timedOut_turn h
    simp only [State.potential, State.backlog, hpc, ArchiverPc.distance, moves, grants]
    omega
  | guard => cases guard_turn h <;> exact Nat.le_add_right _ _
  | _ =>
    have hb := backlog_call (call_turn h trivial)
    rw [State.potential, State.potential, (producer_rely h trivial).archiver]
    simp only [moves]
    omega

structure CourseInv (cfg : Config) (s : State) : Prop where
  write : WriteInv cfg s
  stream : s.archiver.stream ≤ cfg.archives

lemma afterPoll_stream {hadWork : Bool} {ph : Phase} {k : ℕ} (hk : k ≤ cfg.archives) :
    (afterPoll cfg hadWork ph k).stream ≤ cfg.archives := by
  cases ph with
  | live => simp only [afterPoll]; split_ifs <;> simp only [ArchiverPc.stream] <;> omega
  | drain => exact hk

lemma afterFlush_stream {ph : Phase} {k : ℕ} : (afterFlush cfg ph k).stream ≤ cfg.archives := by
  cases ph <;> simp only [afterFlush] <;> split_ifs <;> simp only [ArchiverPc.stream] <;> omega

lemma turn_stream {s t : State} {io : IoResult} (h : Turn cfg s io t) (hs : s.archiver.stream ≤ cfg.archives) :
    t.archiver.stream ≤ cfg.archives := by
  cases h with
  | take hpc => rwa [hpc] at hs
  | empty hpc =>
    rw [hpc] at hs
    exact afterPoll_stream hs
  | clear hpc => rwa [hpc] at hs
  | format hpc => rwa [hpc] at hs
  | write hpc => rwa [hpc] at hs
  | flush => exact afterFlush_stream
  | rest =>
    dsimp only
    split_ifs <;> exact Nat.zero_le _
  | _ => exact Nat.zero_le _

lemma CourseInv.step {s t : State} {a : Action} (hs : CourseInv cfg s) (h : step cfg s a = some t) :
    CourseInv cfg t := by
  refine ⟨hs.write.step h, ?_⟩
  cases a with
  | archiver io => exact turn_stream (archiver_turn h) hs.stream
  | _ =>
    rcases (other_step h (by rintro _ ⟨⟩)).1 with hpc | hpc
    · rw [hpc]
      exact hs.stream
    · rw [hpc]
      exact Nat.zero_le _

lemma CourseInv.initial (cfg : Config) : CourseInv cfg {} := ⟨writeInv_initial cfg, Nat.zero_le _⟩

lemma step_extends {s t : State} {a : Action} (h : step cfg s a = some t) (k : ℕ) :
    (s.rings k).Extends (t.rings k) := by
  cases a with
  | archiver io => exact (turn_frame (archiver_turn h)).2.2.2.2 k
  | timedOut =>
    obtain ⟨-, rfl⟩ := timedOut_turn h
    exact .refl _
  | guard => cases guard_turn h <;> exact .refl _
  | _ => exact ((producer_rely h trivial).rings k).extends

lemma step_passed {s t : State} {a : Action} {k : ℕ} (h : step cfg s a = some t) (hp : t.archiver.Passed cfg k) :
    s.archiver.Passed cfg k ∨ s.archiver = .poll .drain k ∧ (s.rings k).peek = none := by
  cases a with
  | archiver io => exact turn_passed (archiver_turn h) hp
  | _ =>
    rcases (other_step h (by rintro _ ⟨⟩)).1 with hpc | hpc
    · rw [hpc] at hp
      exact .inl hp
    · rw [hpc] at hp
      exact hp.elim

structure Awaited (cfg : Config) (k i : ℕ) (s : State) : Prop where
  course : CourseInv cfg s
  committed : ∀ j ≤ i, ∃ record, (s.rings k).Committed j record
  passed : s.archiver.Passed cfg k → i < (s.rings k).head

lemma Awaited.waiting {s : State} {k i : ℕ} (hs : Awaited cfg k i s) (hi : (s.rings k).head ≤ i) :
    ∃ record, (s.rings k).peek = some record := by
  obtain ⟨record, hr⟩ := hs.committed _ hi
  exact ⟨record, peek_eq_some.mpr hr⟩

lemma Awaited.step {s t : State} {a : Action} {k i : ℕ} (hs : Awaited cfg k i s) (h : step cfg s a = some t) :
    Awaited cfg k i t := by
  have hex := step_extends h k
  refine ⟨hs.course.step h, fun j hj => ?_, fun hp => ?_⟩
  · obtain ⟨record, hr⟩ := hs.committed j hj
    exact ⟨record, hex.committed j record hr⟩
  · rcases step_passed h hp with hp | ⟨-, hpeek⟩
    · exact (hs.passed hp).trans_le hex.head
    · by_contra hi
      obtain ⟨record, hr⟩ := hs.waiting (by have := hex.head; omega)
      rw [hpeek] at hr
      cases hr

lemma Awaited.ahead {s : State} {k i : ℕ} (hs : Awaited cfg k i s) (hk : k ≤ cfg.archives)
    (hi : (s.rings k).head ≤ i) : Ahead cfg k s :=
  ⟨hs.course.stream, fun _ => hs.waiting hi, fun hlt => (Nat.not_lt_of_le hk hlt).elim,
    fun hp => (Nat.not_lt_of_le hi (hs.passed hp)).elim⟩

lemma archiver_moves (s : State) (io : IoResult) (hl : ¬ s.Left) (hp : s.archiver = .parked → s.token = true) :
    ∃ t, archiverStep cfg s io = some t := by
  unfold archiverStep
  split
  case h_1 => exact ⟨_, rfl⟩
  case h_2 => split <;> exact ⟨_, rfl⟩
  case h_3 => exact ⟨_, rfl⟩
  case h_4 => split <;> exact ⟨_, rfl⟩
  case h_5 => dsimp only; split_ifs <;> exact ⟨_, rfl⟩
  case h_6 => dsimp only; split_ifs <;> exact ⟨_, rfl⟩
  case h_7 => exact ⟨_, rfl⟩
  case h_8 hpc => exact ⟨_, if_pos (hp hpc)⟩
  case h_9 hpc => exact (hl (.inl hpc)).elim
  case h_10 hpc => exact (hl (.inr hpc)).elim

lemma WriteInv.line {s : State} (hs : WriteInv cfg s) (hu : s.archiver ≠ .unwound) {k i : ℕ} {record : Bytes}
    (hc : (s.rings k).Committed i record) (hi : i < (s.rings k).head) :
    ∃ bytes, cfg.format k record = some bytes ∧ (s.writes k)[i]? = some bytes := by
  have hcons := consumed_of_committed hc hi
  obtain ⟨bytes, hb⟩ := Option.isSome_iff_exists.mp (hs.formatted hu k record (List.mem_of_getElem? hcons))
  have hmap := map_some_filterMap (hs.formatted hu k)
  rw [← hs.writes k] at hmap
  have hget := congrArg (fun l => l[i]?) hmap
  simp only [List.getElem?_map, hcons, Option.map_some, hb] at hget
  exact ⟨bytes, hb, by simpa using hget⟩

lemma potential_le (s : State) (k : ℕ) :
    s.potential cfg k ≤ 2 * (cfg.archives + k) + 7 + 4 * s.backlog cfg := by
  have hd := distance_le cfg.archives k s.archiver
  rw [State.potential]
  omega

lemma paid_moves {s t : State} {tr : List (State × Action)} {k : ℕ} (h : Run (step cfg) s tr t)
    (hI : Throughout (fun s => CourseInv cfg s ∧ Ahead cfg k s) tr t) :
    total moves tr ≤ 4 * (s.backlog cfg + total grants tr) + 2 * (cfg.archives + k) + 7 := by
  have hpay := h.amortized (V := State.potential cfg k) (c := moves) (g := fun s a => 4 * grants s a)
    (fun _ _ _ hs _ ha => step_pays hs.1.write hs.2 ha) hI
  have hgain : total (fun s a => 4 * grants s a) tr = 4 * total grants tr := by
    rw [total, total, List.sum_map_mul_left]
  have hle : s.potential cfg k ≤ _ := potential_le s k
  omega

/-- A committed record with nothing uncommitted before it, on a stream the drain is not past: after any run, it is
at its place among the writer's lines, or a panic has unwound the archiver, or the archiver can still move and has
made no more moves than the bound. Every claim granted on the way may cost four moves. -/
theorem delivered_within (cfg : Config) (s t : State) (tr : List (State × Action)) (k i : ℕ) (record : Bytes)
    (hs : Reachable (step cfg) {} s) (hk : k ≤ cfg.archives) (hr : (s.rings k).Committed i record)
    (hc : ∀ j < i, ∃ r, (s.rings k).Committed j r) (hp : ¬ s.archiver.Passed cfg k) (h : Run (step cfg) s tr t) :
    (∃ bytes, cfg.format k record = some bytes ∧ (t.writes k)[i]? = some bytes) ∨ t.archiver = .unwound ∨
      total moves tr ≤ 4 * (s.backlog cfg + total grants tr) + 2 * (cfg.archives + k) + 7 ∧
        ∃ a u, moves t a = 1 ∧ step cfg t a = some u := by
  have hcourse : CourseInv cfg s := hs.invariant (fun _ _ _ hs ha => hs.step ha) (.initial cfg)
  have hawait : Awaited cfg k i s := by
    refine ⟨hcourse, fun j hj => ?_, fun hp' => (hp hp').elim⟩
    rcases Nat.lt_or_eq_of_le hj with hlt | rfl
    · exact hc j hlt
    · exact ⟨record, hr⟩
  have hall := h.invariant (fun _ _ _ hs ha => Awaited.step hs ha) hawait
  by_cases hu : t.archiver = .unwound
  · exact .inr (.inl hu)
  by_cases hi : i < (t.rings k).head
  · have hext : (s.rings k).Extends (t.rings k) :=
      (h.invariant (I := fun u => (s.rings k).Extends (u.rings k)) (fun _ _ _ hs ha => hs.trans (step_extends ha k))
        (.refl _)).1
    exact .inl (hall.1.course.write.line hu (hext.committed i record hr) hi)
  · have hbehind : Throughout (fun u => (u.rings k).head ≤ i) tr t :=
      h.backwards (P := fun u => (u.rings k).head ≤ i) (fun _ _ _ ha ht => (step_extends ha k).head.trans ht)
        (Nat.le_of_not_lt hi)
    refine .inr (.inr ⟨paid_moves h ((hall.and hbehind).imp fun u hu => ⟨hu.1.course, hu.1.ahead hk hu.2⟩), ?_⟩)
    by_cases hpark : t.archiver = .parked
    · exact ⟨.timedOut, _, rfl, if_pos hpark⟩
    · have hleft : ¬ t.Left := by
        rintro (hret | hun)
        · exact hi (hall.1.passed (by rw [hret]; exact hk))
        · exact hu hun
      obtain ⟨u, hu⟩ := archiver_moves t .ok hleft fun hpc => (hpark hpc).elim
      exact ⟨.archiver .ok, u, rfl, hu⟩

def lineCommitted : State := (exec (step lineConfig) {} (oneLine.take 3)).getD {}

theorem delivered_within_line : ∃ t tr, Run (step lineConfig) lineCommitted tr t ∧ t.writes 1 = [[7, 10]] ∧
    ((∃ bytes, lineConfig.format 1 [7] = some bytes ∧ (t.writes 1)[0]? = some bytes) ∨ t.archiver = .unwound ∨
      total moves tr ≤ 4 * (lineCommitted.backlog lineConfig + total grants tr) + 2 * (1 + 1) + 7 ∧
        ∃ a u, moves t a = 1 ∧ step lineConfig t a = some u) := by
  have hrun₀ : exec (step lineConfig) {} (oneLine.take 3) = some lineCommitted := rfl
  have hrun : (exec (step lineConfig) lineCommitted (oneLine.drop 3)).map (fun s => s.writes 1) = some [[7, 10]] := by
    decide
  obtain ⟨t, ⟨tr, ht⟩, hw⟩ := reachable_of_exec_map hrun
  exact ⟨t, tr, ht, hw, delivered_within lineConfig lineCommitted t tr 1 0 [7] (exec_reachable hrun₀) (le_refl _) rfl
    (fun j hj => (Nat.not_lt_zero j hj).elim) id ht⟩

lemma passed_le {pc : ArchiverPc} {k : ℕ} (h : pc.Passed cfg k) (hst : pc.stream ≤ cfg.archives) :
    k ≤ cfg.archives := by
  have hbehind : k ≤ pc.stream ∨ k ≤ cfg.archives := by
    cases pc with
    | poll ph => cases ph <;> first | exact .inl (Nat.le_of_lt h) | exact h.elim
    | claimed ph => cases ph <;> first | exact .inl (Nat.le_of_lt h) | exact h.elim
    | cleared ph => cases ph <;> first | exact .inl (Nat.le_of_lt h) | exact h.elim
    | formatted ph => cases ph <;> first | exact .inl (Nat.le_of_lt h) | exact h.elim
    | flush ph => cases ph <;> first | exact .inl h | exact h.elim
    | returned => exact .inr h
    | _ => exact h.elim
  exact hbehind.elim hst.trans' id

lemma CourseInv.past {s : State} (hs : CourseInv cfg s) (hr : s.running = false) :
    Ahead cfg (cfg.archives + 1) s :=
  ⟨hs.stream, fun hk => (Nat.not_succ_le_self _ hk).elim, fun _ => hr,
    fun hp => Nat.not_succ_le_self _ (passed_le hp hs.stream)⟩

lemma WakeInv.initial : WakeInv {} := ⟨fun hh => (hh rfl).elim, by rintro (hh | hh) <;> cases hh⟩

/-- From the guard's store on the archiver makes no more moves than the bound, in any run: four for each record
that is or comes into a ring, and a round through its streams. Once the guard has unparked, nothing keeps it
from the next move until it has left. -/
theorem shutdown_within (cfg : Config) (s t : State) (tr : List (State × Action)) (hs : Reachable (step cfg) {} s)
    (hg : s.guard ≠ .held) (h : Run (step cfg) s tr t) :
    total moves tr ≤ 4 * (s.backlog cfg + total grants tr) + 4 * cfg.archives + 9 ∧
      (t.Signalled → ¬ t.Left → ∀ io, ∃ u, step cfg t (.archiver io) = some u) := by
  have hcourse : CourseInv cfg s := hs.invariant (fun _ _ _ hs ha => hs.step ha) (.initial cfg)
  have hwake : WakeInv s := hs.invariant (fun _ _ _ hs ha => hs.step ha) .initial
  have hlow := h.invariant (I := fun u => u.running = false) (fun _ _ _ hu ha => lowered_step ha hu)
    (hwake.lowered hg)
  have hmoves := paid_moves h (((h.invariant (fun _ _ _ hs ha => CourseInv.step hs ha) hcourse).and hlow).imp
    fun u hu => ⟨hu.1, hu.1.past hu.2⟩)
  refine ⟨by omega, fun hsig hleft io => ?_⟩
  have hwaket := (h.invariant (fun _ _ _ hs ha => WakeInv.step hs ha) hwake).1
  exact archiver_moves t io hleft (hwaket.sleepless hsig)

def parkedDrop : List Action :=
  [.archiver .ok, .archiver .ok, .archiver .ok, .archiver .ok, .call 0 1 [7], .tryClaim 0 true, .commit 0, .guard]

def parkedStored : State := (exec (step lineConfig) {} parkedDrop).getD {}

theorem shutdown_within_parked : ∃ t tr, Run (step lineConfig) parkedStored tr t ∧
    (t.archiver, t.writes 1) = (.returned, [[7, 10]]) ∧
    total moves tr ≤ 4 * (parkedStored.backlog lineConfig + total grants tr) + 4 * 1 + 9 ∧
      (t.Signalled → ¬ t.Left → ∀ io, ∃ u, step lineConfig t (.archiver io) = some u) := by
  have hrun₀ : exec (step lineConfig) {} parkedDrop = some parkedStored := rfl
  have hrun : (exec (step lineConfig) parkedStored (.guard :: .replicate 10 (.archiver .ok))).map
      (fun s => (s.archiver, s.writes 1)) = some (.returned, [[7, 10]]) := by decide
  obtain ⟨t, ⟨tr, ht⟩, hv⟩ := reachable_of_exec_map hrun
  exact ⟨t, tr, ht, hv, shutdown_within lineConfig parkedStored t tr (exec_reachable hrun₀) (by rintro ⟨⟩) ht⟩

lemma guard_signals (cfg : Config) (s : State) : ∃ t, Reachable (step cfg) s t ∧ t.Signalled := by
  have hunpark (s : State) (hg : s.guard = .stored) :
      step cfg s .guard = some { s with token := true, guard := .unparked } := by
    simp [step, guardStep, hg]
  cases hg : s.guard with
  | held =>
    have hstore : step cfg s .guard =
        some { s with running := false, guard := .stored, atStore := some s.rings } := by
      simp [step, guardStep, hg]
    exact ⟨_, (Reachable.of_step hstore).trans (.of_step (hunpark _ rfl)), .inl rfl⟩
  | stored => exact ⟨_, .of_step (hunpark s hg), .inl rfl⟩
  | unparked => exact ⟨s, .refl s, .inl hg⟩
  | joined => exact ⟨s, .refl s, .inr hg⟩

theorem drop_can_return (cfg : Config) (s : State) (hs : Reachable (step cfg) {} s) :
    ∃ t, Reachable (step cfg) s t ∧ t.guard = .joined := by
  obtain ⟨u, hu, hsig⟩ := guard_signals cfg s
  have hreach := hs.trans hu
  have hcourse : CourseInv cfg u := hreach.invariant (fun _ _ _ hs ha => hs.step ha) (.initial cfg)
  have hwake : WakeInv u := hreach.invariant (fun _ _ _ hs ha => hs.step ha) .initial
  have hdown : ∀ v, CourseInv cfg v ∧ WakeInv v ∧ v.Signalled → v.Left ∨ ∃ w, Reachable (step cfg) v w ∧
      (CourseInv cfg w ∧ WakeInv w ∧ w.Signalled) ∧
        w.potential cfg (cfg.archives + 1) < v.potential cfg (cfg.archives + 1) := by
    rintro v ⟨hc, hw, hsig⟩
    by_cases hleft : v.Left
    · exact .inl hleft
    · obtain ⟨w, hmove⟩ := archiver_moves v .ok hleft (hw.sleepless hsig)
      have hstep : step cfg v (.archiver .ok) = some w := hmove
      have hturn := archiver_turn hmove
      have hpay := turn_pays hc.write (hc.past (hw.lowered (signalled_not_held hsig))) hturn
      refine .inr ⟨w, .of_step hstep, ⟨hc.step hstep, hw.step hstep, ?_⟩, hpay⟩
      rwa [State.Signalled, (turn_frame hturn).1]
  obtain ⟨v, hv, ⟨-, -, hsig⟩, hleft⟩ := reaches_of_decreasing _ hdown u ⟨hcourse, hwake, hsig⟩
  rcases hsig with hg | hg
  · have hjoin : step cfg v .guard = some { v with guard := .joined } := by
      simp [step, guardStep, hg, hleft]
    exact ⟨_, (hu.trans hv).trans (.of_step hjoin), rfl⟩
  · exact ⟨v, hu.trans hv, hg⟩

theorem drop_can_return_parked : parkedStored.archiver = .parked ∧
    ∃ t, Reachable (step lineConfig) parkedStored t ∧ t.guard = .joined := by
  have hrun₀ : exec (step lineConfig) {} parkedDrop = some parkedStored := rfl
  exact ⟨rfl, drop_can_return lineConfig parkedStored (exec_reachable hrun₀)⟩

end InqJet
