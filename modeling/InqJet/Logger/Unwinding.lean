import InqJet.Logger.Thread

namespace InqJet

open ByteCodec Runs

namespace Thread

variable {mode : BackpressureMode}

/-- Between two top-level calls a lowered flag means that the stash is empty, and so the clear of the
next call leaves it empty. -/
def FlagKept (s : Thread) : Prop :=
  s.frames = [] → s.stash.FlagSound ∧ ∃ st, fallbackStashClear s.stash = .done st ∧ st.Cleared

def LogsWhileStashing (s : Thread) : Action → Prop
  | .hotLog _ _ (_ :: _) => s.stash.borrowed = true
  | _ => False

instance (s : Thread) : DecidablePred (LogsWhileStashing s) := fun a => by
  unfold LogsWhileStashing
  split <;> infer_instance

end Thread

def Frame.HasStashed : Frame → Prop
  | .sizing _ _ _ sized => stashTexts (sized.map Prod.fst) ≠ []
  | .stashing .. => True
  | .hotClaim _ _ sized => stashTexts (sized.map Prod.fst) ≠ []
  | _ => False

namespace Thread

structure FlagInv (s : Thread) : Prop where
  frames : FrameInv s
  sound : s.stash.FlagSound
  raised : ∀ f ∈ s.frames, f.HasStashed → s.stash.dirty = true

lemma flagInv_initial : FlagInv {} := ⟨frameInv_initial, fun _ => ⟨rfl, rfl, rfl⟩, List.forall_mem_nil _⟩

lemma FlagInv.kept {s : Thread} (hs : FlagInv s) : FlagKept s := by
  intro hf
  have hb : 0 = s.stash.borrowed.toNat := by simpa [hf] using hs.frames.stash
  exact ⟨hs.sound, clear_done (Bool.toNat_eq_zero.mp hb.symm) hs.sound⟩

lemma FrameInv.none_stashed {s : Thread} (hs : FrameInv s) (hu : s.inUserCode = true)
    (hb : s.stash.borrowed = false) : ∀ f ∈ s.frames, ¬ f.HasStashed := by
  have hcount := hs.stash
  rw [hb] at hcount
  have hfree := List.countP_eq_zero.mp hcount
  intro f hf
  have hl := hs.all_user hu f hf
  have hn := hfree f hf
  cases f with
  | evaluating => exact id
  | stashing => exact (hn rfl).elim
  | bridgeFmt => exact id
  | _ => cases hl

lemma FlagInv.top_raised {s : Thread} (hs : FlagInv s) {f : Frame} {fs : List Frame} (hf : s.frames = f :: fs)
    (hh : f.HasStashed) : s.stash.dirty = true :=
  hs.raised f (by rw [hf]; exact List.mem_cons_self) hh

lemma FlagInv.of_dirty {t : Thread} (hi : FrameInv t) (hd : t.stash.dirty = true) : FlagInv t :=
  ⟨hi, fun hh => by simp [hd] at hh, fun _ _ _ => hd⟩

lemma FlagInv.setTop {s t : Thread} (hs : FlagInv s) (hi : FrameInv t) (hst : t.stash = s.stash) {f f' : Frame}
    {fs : List Frame} (hf : s.frames = f :: fs) (ht : t.frames = f' :: fs) (hh : f'.HasStashed → f.HasStashed) :
    FlagInv t := by
  have hr := hs.raised
  rw [hf, List.forall_mem_cons] at hr
  refine ⟨hi, hst ▸ hs.sound, ?_⟩
  rw [ht, hst]
  exact List.forall_mem_cons.mpr ⟨fun h => hr.1 (hh h), hr.2⟩

lemma FlagInv.push {s t : Thread} (hs : FlagInv s) (hi : FrameInv t) (hst : t.stash = s.stash) {f : Frame}
    (ht : t.frames = f :: s.frames) (hh : ¬ f.HasStashed) : FlagInv t := by
  refine ⟨hi, hst ▸ hs.sound, ?_⟩
  rw [ht, hst]
  exact List.forall_mem_cons.mpr ⟨fun h => (hh h).elim, hs.raised⟩

lemma FlagInv.pop {s t : Thread} (hs : FlagInv s) (hi : FrameInv t) (hst : t.stash = s.pop.stash)
    (hf : t.frames = s.pop.frames) : FlagInv t := by
  cases hfr : s.frames with
  | nil =>
    simp only [Thread.pop, hfr] at hst hf
    exact ⟨hi, hst ▸ hs.sound, by simp [hf]⟩
  | cons f fs =>
    have hr := hs.raised
    rw [hfr, List.forall_mem_cons] at hr
    simp only [Thread.pop, hfr] at hst hf
    refine ⟨hi, by rw [hst]; exact hs.sound, ?_⟩
    rw [hf, hst]
    exact hr.2

lemma FlagInv.encode {s : Thread} (hs : FlagInv s) {line : UInt32} {target : String} {sized : List (HotArg × ℕ)}
    {fs : List Frame} (hf : s.frames = .hotClaim line target sized :: fs) (claim : Bytes) :
    FlagInv { s with stash := (encodeBlock line target sized s.stash claim).1 } := by
  obtain ⟨n, hn, he⟩ := encodeBlock_stash line target sized s.stash claim
  rw [he]
  have hi : FrameInv { s with stash := { s.stash with readIdx := s.stash.readIdx + n } } :=
    hs.frames.congr rfl rfl rfl
  by_cases ht : stashTexts (sized.map Prod.fst) = []
  · obtain rfl : n = 0 := by simpa [ht] using hn
    exact ⟨hi, hs.sound, hs.raised⟩
  · exact .of_dirty hi (hs.top_raised hf ht)

lemma FlagInv.turn {s t : Thread} {a : Action} (hs : FlagInv s) (hc : ¬ LogsWhileStashing s a)
    (h : Turn s a t) : FlagInv t := by
  have hi := hs.frames.turn h
  cases h with
  | flag => exact ⟨hi, hs.sound, hs.raised⟩
  | @clearPanic _ _ args _ hp =>
    obtain ⟨-, hb, hne⟩ := clearFor_panicked hp
    cases args with
    | nil => exact (hne rfl).elim
    | cons a as => exact (hc hb).elim
  | @start line target args st hu hd =>
    rcases (clearFor_done hd).2 with rfl | ⟨hsound, hb⟩
    · exact hs.push hi rfl rfl id
    · have hnone := hs.frames.none_stashed hu hb
      refine ⟨hi, hsound, List.forall_mem_cons.mpr ⟨False.elim, ?_⟩⟩
      exact fun f hm hh => (hnone f hm hh).elim
  | evaluated hf => exact hs.setTop hi rfl hf (setTop_frames hf _) (fun hh => hh rfl)
  | @sized _ line target arg h todo sized fs n hf =>
    refine hs.setTop hi rfl hf (setTop_frames hf _) fun hh => ?_
    simpa [Frame.HasStashed, stashTexts, h] using hh
  | openPanic ho =>
    refine .of_dirty hi ?_
    have hd := (openFallback_panicked ho).1
    unfold Thread.raise Thread.pop
    split <;> exact hd
  | opened hf ho => exact .of_dirty hi (openFallback_done ho).2.2
  | stashWrite hf => exact .of_dirty hi (hs.top_raised hf trivial)
  | bridgeWrite hf => exact hs.setTop hi rfl hf (setTop_frames hf _) id
  | stashed hf => exact .of_dirty hi (hs.top_raised hf trivial)
  | bridgeFormatted hf => exact hs.setTop hi rfl hf (setTop_frames hf _) id
  | submitted hf => exact hs.setTop hi rfl hf (setTop_frames hf _) id
  | bridgeStart => exact hs.push hi rfl rfl id
  | left => exact hs.pop hi rfl rfl
  | encodePanic claim hf => exact (hs.encode hf claim).pop hi rfl rfl
  | encoded claim payload hf => exact (hs.encode hf claim).pop hi rfl rfl
  | bridgeCommit => exact hs.pop hi rfl rfl

theorem flag_survives_unwinding (mode : BackpressureMode) (t : Thread) (tr : List (Thread × Action))
    (h : Run (step mode) {} tr t) (hc : Along (fun s a => ¬ LogsWhileStashing s a) tr) :
    Throughout FlagKept tr t := by
  have hinit : FlagInv {} := ⟨frameInv_initial, fun _ => ⟨rfl, rfl, rfl⟩, nofun⟩
  have hinv := h.guarded (fun _ _ _ hs hc ha => FlagInv.turn hs hc (step_turn ha)) hinit hc
  exact hinv.imp fun _ => FlagInv.kept

def panickingArgument : List Action :=
  [.hotLog 1 "app" [.fallback], .evaluated, .sizeArg, .write "x", .panic, .unwind, .caught]

theorem flag_survives_unwinding_once : ∃ t tr, Run (step .drop) {} tr t ∧ t.stash.offsets = [0] ∧
    Throughout FlagKept tr t := by
  have hrun : (exec (onlyIf (step .drop) fun s a => ¬ LogsWhileStashing s a) {} panickingArgument).map
      (fun s => s.stash.offsets) = some [0] := by decide
  obtain ⟨t, tr, ht, hc, hv⟩ := run_of_exec_onlyIf hrun
  exact ⟨t, tr, ht, hv, flag_survives_unwinding .drop t tr ht hc⟩

def loggingArgument : List Action :=
  [.hotLog 1 "app" [.fallback], .evaluated, .sizeArg, .write "x", .hotLog 2 "app" [.fallback], .unwind, .caught]

theorem nested_log_lowers_flag : ∃ s, Reachable (step .drop) {} s ∧ ¬ FlagKept s := by
  have hrun : (exec (step .drop) {} loggingArgument).map (fun s => (s.frames.isEmpty, s.stash.dirty, s.stash.buf)) =
      some (true, false, "x") := by decide
  obtain ⟨s, hs, he⟩ := reachable_of_exec_map hrun
  simp only [Prod.mk.injEq, List.isEmpty_iff] at he
  refine ⟨s, hs, fun hk => ?_⟩
  have hbuf := ((hk he.1).1 he.2.1).1
  rw [he.2.2] at hbuf
  exact absurd hbuf (by decide)

end Thread

end InqJet
