import InqJet.Lib.Simulation
import InqJet.Logger.Unwinding

/-! The dirty flag of the stash as an optimisation, against a thread that has no such flag and clears
its cells whenever a macro with arguments is entered. -/

namespace InqJet

open ByteCodec Runs

def Stash.unflagged (st : Stash) : Stash := { st with dirty := false }

def plainClear (st : Stash) : Outcome Stash :=
  if st.borrowed then .panicked st else .done { st with buf := "", offsets := [], readIdx := 0 }

def plainClearFor {α : Type*} (args : List α) (st : Stash) : Outcome Stash :=
  match args with
  | [] => .done st
  | _ :: _ => plainClear st

@[simp] def Outcome.map {σ τ : Type} (f : σ → τ) : Outcome σ → Outcome τ
  | .done s => .done (f s)
  | .panicked s => .panicked (f s)

namespace Thread

variable {mode : BackpressureMode}

def unflagged (s : Thread) : Thread := { s with stash := s.stash.unflagged }

def afterClear (s : Thread) (line : UInt32) (target : String) (args : List Pending) : Outcome Stash → Thread
  | .panicked st => { s with stash := st }.raise
  | .done st => { s with stash := st }.push (.evaluating line target args)

def plainHotLogStep (s : Thread) (line : UInt32) (target : String) (args : List Pending) : Thread :=
  s.afterClear line target args (plainClearFor args s.stash)

/-- The thread without the flag: nothing reads it, and what a step leaves in its cell is dropped. -/
def plainStep (mode : BackpressureMode) (s : Thread) (a : Action) : Option Thread :=
  let t := match a with
    | .hotLog line target args =>
      if s.panicking = false ∧ s.inUserCode = true then some (plainHotLogStep s line target args) else none
    | a => step mode s a
  t.map unflagged

end Thread

@[simp] lemma openFallback_unflagged (st : Stash) : st.unflagged.openFallback = st.openFallback := rfl

lemma hotEncode_unflagged (a : HotArg) (st : Stash) (buf : Bytes) :
    a.hotEncode st.unflagged buf = Prod.map Stash.unflagged id (a.hotEncode st buf) := by
  cases a <;> rfl

lemma encodeArgs_unflagged (args : List (HotArg × ℕ)) (off : ℕ) (st : Stash) (buf : Bytes) :
    encodeArgs args off st.unflagged buf = Prod.map Stash.unflagged id (encodeArgs args off st buf) := by
  induction args generalizing off st buf with
  | nil => rfl
  | cons p as ih =>
    obtain ⟨a, size⟩ := p
    simp only [encodeArgs]
    cases slice buf off buf.length with
    | none => rfl
    | some region =>
      simp only [hotEncode_unflagged]
      obtain ⟨st', res⟩ := a.hotEncode st region
      cases res with
      | none => rfl
      | some region' => exact ih (off + size) st' _

lemma encodeBlock_unflagged (line : UInt32) (target : String) (args : List (HotArg × ℕ)) (st : Stash)
    (buf : Bytes) : encodeBlock line target args st.unflagged buf =
      Prod.map Stash.unflagged id (encodeBlock line target args st buf) := by
  simp only [encodeBlock]
  cases prefixEncode line target buf with
  | none => rfl
  | some buf => exact encodeArgs_unflagged args _ st buf

lemma hotSizeWith_unflagged {a : HotArg} (h : a.texts = []) (st : Stash) :
    a.hotSizeWith st.unflagged = (a.hotSizeWith st).map (Prod.map id Stash.unflagged) := by
  cases a with
  | fallback text => cases h
  | _ => rfl

lemma plainClearFor_eq {α : Type*} (args : List α) {st : Stash} (hf : st.FlagSound)
    (hb : st.borrowed = true → st.dirty = true) :
    (plainClearFor args st.unflagged).map Stash.unflagged = (clearFor args st).map Stash.unflagged := by
  cases args with
  | nil => rfl
  | cons a as =>
    obtain ⟨dirty, buf, offsets, readIdx, borrowed⟩ := st
    cases dirty with
    | true => cases borrowed <;> rfl
    | false =>
      obtain ⟨rfl, rfl, rfl⟩ := hf rfl
      cases borrowed with
      | true => cases hb rfl
      | false => rfl

namespace Thread

variable {mode : BackpressureMode}

@[simp] lemma unflagged_frames (s : Thread) : s.unflagged.frames = s.frames := rfl

@[simp] lemma unflagged_stash (s : Thread) : s.unflagged.stash = s.stash.unflagged := rfl

@[simp] lemma unflagged_borrowed (s : Thread) : s.unflagged.borrowed = s.borrowed := rfl

@[simp] lemma unflagged_tlsBuf (s : Thread) : s.unflagged.tlsBuf = s.tlsBuf := rfl

@[simp] lemma unflagged_panicking (s : Thread) : s.unflagged.panicking = s.panicking := rfl

@[simp] lemma unflagged_inUserCode (s : Thread) : s.unflagged.inUserCode = s.inUserCode := rfl

@[simp] lemma unflagged_pop (s : Thread) : s.unflagged.pop = s.pop.unflagged := by
  simp only [pop, unflagged_frames]
  split <;> rfl

def IgnoresFlag (f : Thread → Option Thread) : Prop := ∀ s, (f s.unflagged).map unflagged = (f s).map unflagged

lemma IgnoresFlag.ite {p : Thread → Prop} [DecidablePred p] {f g : Thread → Option Thread}
    (hp : ∀ s, p s.unflagged ↔ p s) (hf : IgnoresFlag f) (hg : IgnoresFlag g) :
    IgnoresFlag fun s => if p s then f s else g s := by
  intro s
  by_cases h : p s
  · simpa only [if_pos h, if_pos ((hp s).mpr h)] using hf s
  · simpa only [if_neg h, if_neg (mt (hp s).mp h)] using hg s

lemma ignores_none : IgnoresFlag fun _ => none := fun _ => rfl

lemma ignores_pop : IgnoresFlag fun s => some s.pop := by
  intro s
  simp only [unflagged_pop]
  rfl

lemma sizeArgStep_ignores : IgnoresFlag sizeArgStep := by
  intro s
  simp only [sizeArgStep, unflagged_frames]
  split
  case h_1 ha _ _ _ _ =>
    rw [unflagged_stash, hotSizeWith_unflagged ha, Option.map_map, Option.map_map, Option.map_map]
    rfl
  case h_2 =>
    simp only [unflagged_stash, openFallback_unflagged]
    split <;> rfl
  case h_3 => rfl

lemma writeStep_ignores (text : String) : IgnoresFlag (writeStep · text) := by
  intro s
  simp only [writeStep, unflagged_frames]
  split <;> rfl

lemma formattedStep_ignores : IgnoresFlag formattedStep := by
  intro s
  simp only [formattedStep, unflagged_frames]
  split <;> rfl

lemma submitStep_ignores (ready : Bool) : IgnoresFlag (submitStep · ready) := by
  intro s
  simp only [submitStep, unflagged_frames, unflagged_borrowed, unflagged_pop]
  split
  case h_1 => split_ifs <;> rfl
  case h_2 => rfl

lemma logImplStep_ignores (line : UInt32) (target : String) (ready : Bool) :
    IgnoresFlag fun s => some (logImplStep s line target ready) := by
  rintro ⟨_, borrowed, _, _, _, _⟩
  cases ready <;> cases borrowed <;> rfl

lemma grantedStep_ignores : IgnoresFlag grantedStep := by
  intro s
  simp only [grantedStep, unflagged_frames]
  split
  case h_1 line target sized fs _ =>
    rw [unflagged_stash, encodeBlock_unflagged]
    rcases encodeBlock line target sized s.stash _ with ⟨st, _ | payload⟩
    · exact congrArg (fun t => some t.raise.unflagged) (unflagged_pop { s with stash := st })
    · change some (unflagged { ({ s with stash := st } : Thread).unflagged.pop with
        committed := s.committed ++ [.hot payload] }) = _
      rw [unflagged_pop]
      rfl
  case h_2 =>
    simp only [unflagged_tlsBuf, unflagged_pop]
    split <;> rfl
  case h_3 => rfl

lemma fullStep_ignores (running : Bool) : IgnoresFlag (fullStep mode · running) := by
  intro s
  simp only [fullStep, unflagged_frames, unflagged_pop]
  split
  case h_1 => split_ifs <;> rfl
  case h_2 => split_ifs <;> rfl
  case h_3 => rfl

lemma unwindingStep_ignores (a : Action) : IgnoresFlag (unwindingStep · a) := by
  cases a with
  | unwind => exact .ite (fun _ => Iff.rfl) ignores_none ignores_pop
  | caught => exact .ite (fun _ => Iff.rfl) (fun _ => rfl) ignores_none
  | _ => exact ignores_none

lemma callingStep_ignores {a : Action} (h : ∀ line target args, a ≠ .hotLog line target args) :
    IgnoresFlag (callingStep · mode a) := by
  cases a with
  | hotLog line target args => exact (h line target args rfl).elim
  | evaluated =>
    intro s
    simp only [callingStep, unflagged_frames]
    split <;> rfl
  | sizeArg => exact sizeArgStep_ignores
  | write text => exact writeStep_ignores text
  | formatted => exact formattedStep_ignores
  | submit ready => exact submitStep_ignores ready
  | logImpl line target ready => exact .ite (fun _ => Iff.rfl) (logImplStep_ignores line target ready) ignores_none
  | granted => exact grantedStep_ignores
  | full running => exact fullStep_ignores running
  | panic => exact .ite (fun _ => Iff.rfl) (fun _ => rfl) ignores_none
  | unwind => exact ignores_none
  | caught => exact ignores_none

lemma step_ignores {a : Action} (h : ∀ line target args, a ≠ .hotLog line target args) :
    IgnoresFlag (step mode · a) :=
  .ite (fun _ => Iff.rfl) (unwindingStep_ignores a) (callingStep_ignores h)

lemma FlagInv.raised_while_borrowed {s : Thread} (hs : FlagInv s) (hb : s.stash.borrowed = true) :
    s.stash.dirty = true := by
  have hcount := hs.frames.stash
  rw [hb] at hcount
  have hpos : 0 < s.frames.countP Frame.holdsStash := by
    rw [hcount]
    exact Nat.zero_lt_one
  obtain ⟨f, hf, hh⟩ := List.countP_pos_iff.mp hpos
  cases f with
  | stashing => exact hs.raised _ hf trivial
  | _ => cases hh

lemma hotLogStep_eq (s : Thread) (line : UInt32) (target : String) (args : List Pending) :
    hotLogStep s line target args = s.afterClear line target args (clearFor args s.stash) := by
  unfold hotLogStep
  cases clearFor args s.stash <;> rfl

lemma afterClear_unflagged (s : Thread) (line : UInt32) (target : String) (args : List Pending)
    (o : Outcome Stash) : (s.unflagged.afterClear line target args (o.map Stash.unflagged)).unflagged =
      (s.afterClear line target args o).unflagged := by
  cases o <;> rfl

lemma plainHotLogStep_unflagged {s : Thread} (hs : FlagInv s) (line : UInt32) (target : String)
    (args : List Pending) :
    (plainHotLogStep s.unflagged line target args).unflagged = (hotLogStep s line target args).unflagged := by
  have hclear := plainClearFor_eq args hs.sound hs.raised_while_borrowed
  calc (plainHotLogStep s.unflagged line target args).unflagged
    _ = (s.unflagged.afterClear line target args
          ((plainClearFor args s.stash.unflagged).map Stash.unflagged)).unflagged :=
        (afterClear_unflagged s.unflagged line target args _).symm
    _ = (s.afterClear line target args (clearFor args s.stash)).unflagged := by
        rw [hclear, afterClear_unflagged]
    _ = (hotLogStep s line target args).unflagged := by rw [hotLogStep_eq]

lemma plainStep_unflagged {s : Thread} (hs : FlagInv s) (a : Action) :
    plainStep mode s.unflagged a = (step mode s a).map unflagged := by
  cases a with
  | hotLog line target args =>
    simp only [plainStep, step, callingStep, unwindingStep, unflagged_panicking, unflagged_inUserCode]
    by_cases hp : s.panicking = true
    · simp [hp]
    · by_cases hu : s.inUserCode = true
      · simpa [hp, hu] using plainHotLogStep_unflagged hs line target args
      · simp [hp, hu]
  | _ => exact step_ignores (by rintro _ _ _ ⟨⟩) s

def withoutFlag (mode : BackpressureMode) :
    Simulation (onlyIf (step mode) fun s a => ¬ LogsWhileStashing s a) (plainStep mode) where
  inv := FlagInv
  abs := unflagged
  seen := fun _ a => some a
  keeps s a t hs h := by
    obtain ⟨hc, ha⟩ := onlyIf_eq_some h
    exact hs.turn hc (step_turn ha)
  hidden := by rintro _ _ _ _ _ ⟨⟩
  shown := by
    rintro s a t b hs h ⟨⟩
    obtain ⟨-, ha⟩ := onlyIf_eq_some h
    rw [plainStep_unflagged hs, ha]
    rfl

/-- While no hot macro with arguments is entered from inside the formatting of a stashed argument, the flag is
a pure optimisation: the thread that clears for every call can take exactly the same steps, and the two differ
in nothing but the flag. -/
theorem lazy_clear_agrees (mode : BackpressureMode) (t : Thread) (tr : List (Thread × Action))
    (h : Run (step mode) {} tr t) (hc : Along (fun s a => ¬ LogsWhileStashing s a) tr) :
    exec (plainStep mode) {} (tr.map Prod.snd) = some t.unflagged ∧
      ∀ a, plainStep mode t.unflagged a = (step mode t a).map unflagged := by
  have hrun := h.onlyIf hc
  have hplain := (withoutFlag mode).replays hrun flagInv_initial
  rw [withoutFlag, events_actions] at hplain
  exact ⟨hplain, plainStep_unflagged (hrun.invariant (withoutFlag mode).keeps flagInv_initial).1⟩

def stashingCall (line : UInt32) (text : String) : List Action :=
  [.hotLog line "app" [.fallback], .evaluated, .sizeArg, .write text, .formatted, .submit true, .granted]

theorem lazy_clear_agrees_caught : ∃ t tr, Run (step .drop) {} tr t ∧ t.committed.length = 1 ∧
    exec (plainStep .drop) {} (tr.map Prod.snd) = some t.unflagged ∧
      ∀ a, plainStep .drop t.unflagged a = (step .drop t a).map unflagged := by
  have hrun : (exec (onlyIf (step .drop) fun s a => ¬ LogsWhileStashing s a) {}
      (panickingArgument ++ stashingCall 2 "y")).map (fun s => s.committed.length) = some 1 := by decide
  obtain ⟨t, tr, ht, hc, hv⟩ := run_of_exec_onlyIf hrun
  exact ⟨t, tr, ht, hv, lazy_clear_agrees .drop t tr ht hc⟩

def committedPayloads (s : Thread) : List Bytes :=
  s.committed.map fun
    | .hot payload => payload
    | .bridge _ _ _ payload => payload

-- the clear that lowered the flag has panicked: the next call encodes the text that was left behind
example : (exec (step .drop) {} (loggingArgument ++ stashingCall 2 "y")).map committedPayloads =
    some [hotPayload 2 "app" [.fallback "x"]] := by decide

example : (exec (plainStep .drop) {} (loggingArgument ++ stashingCall 2 "y")).map committedPayloads =
    some [hotPayload 2 "app" [.fallback "y"]] := by decide

end Thread

end InqJet
