import InqJet.Logger.Thread

namespace InqJet

open ByteCodec Runs

def Frame.bridgeOwn : Frame → Option String
  | .bridgeFmt _ _ own => some own
  | .bridgeClaim _ _ own => some own
  | _ => none

def Commit.CarriesOwnText : Commit → Prop
  | .hot _ => True
  | .bridge line target own payload => readStandardPayload payload = some (line, target, own)

namespace Thread

variable {mode : BackpressureMode}

def EnteredWhileBorrowed (s : Thread) : Prop := ∃ f ∈ s.frames.tail, f.holdsProducer = true

/-- The discipline of `TLS_BUF` in one state, with what every step from it can do. -/
structure Exclusive (mode : BackpressureMode) (s : Thread) : Prop where
  one : s.frames.countP Frame.usesTlsBuf ≤ 1
  held : ∀ f ∈ s.frames, f.usesTlsBuf = true → f.holdsProducer = true
  borrowed : s.borrowed = true ↔ ∃ f ∈ s.frames, f.holdsProducer = true
  bridge_entry : s.borrowed = true → ∀ line target ready t, step mode s (.logImpl line target ready) = some t →
    t = s.raise ∨ ready = false ∧ t = s
  hot_entry : s.borrowed = true → ∀ ready t, step mode s (.submit ready) = some t →
    t = s.pop.raise ∨ ready = false ∧ t = s.pop
  nested : s.EnteredWhileBorrowed → ∀ a t, step mode s a = some t →
    t.tlsBuf = s.tlsBuf ∧ t.committed = s.committed
  own : ∀ c ∈ s.committed, c.CarriesOwnText
  released : s.frames = [] → s.borrowed = false ∧ ∀ line target t,
    step mode s (.logImpl line target true) = some t → t.frames = [.bridgeFmt line target ""] ∧ t.panicking = false

structure BufInv (s : Thread) : Prop where
  frames : FrameInv s
  own : ∀ f ∈ s.frames, ∀ own, f.bridgeOwn = some own → own = s.tlsBuf
  committed : ∀ c ∈ s.committed, c.CarriesOwnText

@[simp] lemma pop_tlsBuf (s : Thread) : s.pop.tlsBuf = s.tlsBuf := by
  unfold pop
  split <;> rfl

@[simp] lemma pop_committed (s : Thread) : s.pop.committed = s.committed := by
  unfold pop
  split <;> rfl

lemma pop_frames (s : Thread) : s.pop.frames = s.frames.tail := by
  unfold pop
  split
  case h_1 hf => rw [hf]; rfl
  case h_2 hf => rw [hf]; rfl

lemma bridgeOwn_holds {f : Frame} {own : String} (h : f.bridgeOwn = some own) : f.holdsProducer = true := by
  cases f <;> first | rfl | cases h

lemma FrameInv.no_other {s : Thread} (hs : FrameInv s) {f : Frame} {fs : List Frame} (hf : s.frames = f :: fs)
    (hh : f.holdsProducer = true) : ∀ g ∈ fs, ¬ g.holdsProducer = true := by
  have hp := hs.producer
  rw [hf, countP_cons_toNat, hh] at hp
  have hle := Bool.toNat_le s.borrowed
  have hz : fs.countP Frame.holdsProducer = 0 := by
    simp at hp
    omega
  exact List.countP_eq_zero.mp hz

lemma FrameInv.none_holds {s : Thread} (hs : FrameInv s) (hb : s.borrowed = false) :
    ∀ f ∈ s.frames, ¬ f.holdsProducer = true := by
  have hp := hs.producer
  rw [hb] at hp
  exact List.countP_eq_zero.mp hp

lemma FrameInv.borrowed_iff {s : Thread} (hs : FrameInv s) :
    s.borrowed = true ↔ ∃ f ∈ s.frames, f.holdsProducer = true := by
  constructor
  · intro hb
    have hp := hs.producer
    rw [hb] at hp
    apply List.countP_pos_iff.mp
    rw [hp]
    exact Nat.zero_lt_one
  · rintro ⟨f, hf, hh⟩
    by_contra hb
    exact hs.none_holds (by simpa using hb) f hf hh

lemma BufInv.setTop {s t : Thread} (hs : BufInv s) (hi : FrameInv t) (hb : t.tlsBuf = s.tlsBuf)
    (hc : t.committed = s.committed) {f f' : Frame} {fs : List Frame} (hf : s.frames = f :: fs)
    (ht : t.frames = f' :: fs) (ho : f'.bridgeOwn = none ∨ f'.bridgeOwn = f.bridgeOwn) : BufInv t := by
  have hown := hs.own
  rw [hf, List.forall_mem_cons] at hown
  refine ⟨hi, ?_, hc ▸ hs.committed⟩
  rw [ht, hb]
  apply List.forall_mem_cons.mpr ⟨fun own h => ?_, hown.2⟩
  rcases ho with ho | ho
  · rw [ho] at h
    cases h
  · exact hown.1 own (ho ▸ h)

lemma BufInv.pop {s t : Thread} (hs : BufInv s) (hi : FrameInv t) (hb : t.tlsBuf = s.tlsBuf)
    (hf : t.frames = s.frames.tail) {cs : List Commit} (hc : t.committed = s.committed ++ cs)
    (hcs : ∀ c ∈ cs, c.CarriesOwnText) : BufInv t := by
  refine ⟨hi, ?_, ?_⟩
  · rw [hf, hb]
    exact fun f hm => hs.own f (List.mem_of_mem_tail hm)
  · rw [hc]
    exact List.forall_mem_append.mpr ⟨hs.committed, hcs⟩

lemma BufInv.left {s t : Thread} (hs : BufInv s) (hi : FrameInv t) (hb : t.tlsBuf = s.tlsBuf)
    (hf : t.frames = s.frames.tail) (hc : t.committed = s.committed) : BufInv t := by
  have happ : t.committed = s.committed ++ [] := by rw [hc, List.append_nil]
  exact hs.pop hi hb hf happ (List.forall_mem_nil _)

lemma BufInv.alone {s t : Thread} (hs : BufInv s) (hi : FrameInv t) {f : Frame} {fs : List Frame}
    (ht : t.frames = f :: fs) (hc : t.committed = s.committed) (ho : f.bridgeOwn = some t.tlsBuf) : BufInv t := by
  refine ⟨hi, ?_, hc ▸ hs.committed⟩
  rw [ht]
  intro g hg own hgo
  rcases List.mem_cons.mp hg with rfl | hg
  · exact Option.some.inj (hgo.symm.trans ho)
  · exact (hi.no_other ht (bridgeOwn_holds ho) g hg (bridgeOwn_holds hgo)).elim

lemma BufInv.turn {s t : Thread} {a : Action} (hs : BufInv s) (h : Turn s a t) : BufInv t := by
  have hi := hs.frames.turn h
  have htop {f : Frame} {fs : List Frame} (hf : s.frames = f :: fs) {own : String} (ho : f.bridgeOwn = some own) :
      own = s.tlsBuf := by
    apply hs.own f _ own ho
    rw [hf]
    exact List.mem_cons_self
  cases h with
  | flag => exact ⟨hi, hs.own, hs.committed⟩
  | clearPanic => exact ⟨hi, hs.own, hs.committed⟩
  | start => exact ⟨hi, List.forall_mem_cons.mpr ⟨by rintro _ ⟨⟩, hs.own⟩, hs.committed⟩
  | evaluated hf => exact hs.setTop hi rfl rfl hf (setTop_frames hf _) (.inl rfl)
  | sized hf => exact hs.setTop hi rfl rfl hf (setTop_frames hf _) (.inl rfl)
  | openPanic => exact hs.left hi (pop_tlsBuf _) (pop_frames _) (pop_committed _)
  | opened hf => exact hs.setTop hi rfl rfl hf (setTop_frames hf _) (.inl rfl)
  | stashWrite hf => exact hs.setTop hi rfl rfl hf (setTop_frames hf _) (.inl rfl)
  | bridgeWrite hf =>
    have ho := htop hf rfl
    exact hs.alone hi (setTop_frames hf _) rfl (by simp [Frame.bridgeOwn, Thread.setTop, ho])
  | stashed hf => exact hs.setTop hi rfl rfl hf (setTop_frames hf _) (.inl rfl)
  | bridgeFormatted hf => exact hs.setTop hi rfl rfl hf (setTop_frames hf _) (.inr rfl)
  | submitted hf => exact hs.setTop hi rfl rfl hf (setTop_frames hf _) (.inl rfl)
  | bridgeStart => exact hs.alone hi rfl rfl rfl
  | left => exact hs.left hi (pop_tlsBuf _) (pop_frames _) (pop_committed _)
  | encodePanic => exact hs.left hi (pop_tlsBuf _) (pop_frames _) (pop_committed _)
  | encoded => exact hs.pop hi (pop_tlsBuf _) (pop_frames _) rfl (List.forall_mem_singleton.mpr trivial)
  | bridgeCommit hf hw hl =>
    have hown := readStandardPayload_of_write hw hl
    rw [← htop hf rfl] at hown
    exact hs.pop hi (pop_tlsBuf _) (pop_frames _) rfl (List.forall_mem_singleton.mpr hown)

lemma holdsProducer_of_usesTlsBuf {f : Frame} (h : f.usesTlsBuf = true) : f.holdsProducer = true := by
  cases f <;> first | rfl | cases h

lemma FrameInv.nested_turn {s t : Thread} {a : Action} (hs : FrameInv s) (hn : s.EnteredWhileBorrowed)
    (h : Turn s a t) : t.tlsBuf = s.tlsBuf ∧ t.committed = s.committed := by
  obtain ⟨g, hg, hh⟩ := hn
  have htop {f : Frame} {fs : List Frame} (hf : s.frames = f :: fs) : ¬ f.holdsProducer = true := by
    intro ht
    rw [hf] at hg
    exact hs.no_other hf ht g hg hh
  cases h with
  | openPanic => exact ⟨pop_tlsBuf _, pop_committed _⟩
  | bridgeWrite hf => exact (htop hf rfl).elim
  | bridgeStart _ hb => exact (hs.none_holds hb g (List.mem_of_mem_tail hg) hh).elim
  | left => exact ⟨pop_tlsBuf _, pop_committed _⟩
  | encodePanic claim hf => exact (htop hf rfl).elim
  | encoded claim payload hf => exact (htop hf rfl).elim
  | bridgeCommit hf => exact (htop hf rfl).elim
  | _ => exact ⟨rfl, rfl⟩

lemma not_panicking {s t : Thread} {line : UInt32} {target : String} {ready : Bool}
    (h : step mode s (.logImpl line target ready) = some t) :
    s.panicking = false ∧ t = logImplStep s line target ready := by
  simp only [step, unwindingStep, callingStep] at h
  split_ifs at h with hp hu
  exact ⟨by simpa using hp, (Option.some.inj h).symm⟩

lemma submitStep_of_step {s t : Thread} {ready : Bool} (h : step mode s (.submit ready) = some t) :
    submitStep s ready = some t := by
  simp only [step, unwindingStep, callingStep] at h
  split_ifs at h
  exact h

lemma BufInv.exclusive {s : Thread} (hs : BufInv s) : Exclusive mode s := by
  have hi := hs.frames
  refine ⟨?_, fun f _ => holdsProducer_of_usesTlsBuf, hi.borrowed_iff, ?_, ?_, ?_, hs.committed, ?_⟩
  · calc s.frames.countP Frame.usesTlsBuf
      _ ≤ s.frames.countP Frame.holdsProducer := List.countP_mono_left fun f _ => holdsProducer_of_usesTlsBuf
      _ = s.borrowed.toNat := hi.producer
      _ ≤ 1 := Bool.toNat_le _
  · intro hb line target ready t h
    obtain ⟨-, rfl⟩ := not_panicking h
    cases ready with
    | false => exact .inr ⟨rfl, rfl⟩
    | true => exact .inl (by simp [logImplStep, hb])
  · intro hb ready t h
    have hsub := submitStep_of_step h
    simp only [submitStep] at hsub
    split at hsub
    · cases ready with
      | false => exact .inr ⟨rfl, (Option.some.inj hsub).symm⟩
      | true =>
        simp only [Bool.true_eq_false, if_false, hb, if_true, Option.some.injEq] at hsub
        exact .inl hsub.symm
    · cases hsub
  · exact fun hn a t h => hi.nested_turn hn (step_turn h)
  · intro hf
    have hb : 0 = s.borrowed.toNat := by simpa [hf] using hi.producer
    have hfree := Bool.toNat_eq_zero.mp hb.symm
    refine ⟨hfree, fun line target t h => ?_⟩
    obtain ⟨hp, rfl⟩ := not_panicking h
    simp [logImplStep, hfree, push, hf, hp]

theorem reentrant_calls_exclusive (mode : BackpressureMode) (s : Thread) (h : Reachable (step mode) {} s) :
    Exclusive mode s := by
  have hinit : BufInv {} := ⟨frameInv_initial, nofun, nofun⟩
  exact (h.invariant (fun _ _ _ hs ha => hs.turn (step_turn ha)) hinit).exclusive

def nestedRun : List Action := [.logImpl 1 "app" true, .write "x", .hotLog 2 "app" [], .evaluated]

theorem reentrant_calls_exclusive_nested : ∃ s, Reachable (step .drop) {} s ∧
    (s.tlsBuf, s.frames.length) = ("x", 2) ∧ Exclusive .drop s := by
  have hrun : (exec (step .drop) {} nestedRun).map (fun s => (s.tlsBuf, s.frames.length)) = some ("x", 2) := by
    decide
  obtain ⟨s, hs, hv⟩ := reachable_of_exec_map hrun
  exact ⟨s, hs, hv, reentrant_calls_exclusive .drop s hs⟩

theorem nested_call_returns_when_stopped : ∃ s t, Reachable (step .drop) {} s ∧ s.borrowed = true ∧
    step .drop s (.logImpl 2 "app" false) = some t ∧ t.panicking = false := by
  have hrun : (exec (step .drop) {} [.logImpl 1 "app" true, .write "x"]).map (fun s =>
      (s.borrowed, (step .drop s (.logImpl 2 "app" false)).map Thread.panicking)) =
      some (true, some false) := by decide
  obtain ⟨s, hs, hv⟩ := reachable_of_exec_map hrun
  simp only [Prod.mk.injEq, Option.map_eq_some_iff] at hv
  obtain ⟨hb, t, ht, hp⟩ := hv
  exact ⟨s, t, hs, hb, ht, hp⟩

end Thread

end InqJet
