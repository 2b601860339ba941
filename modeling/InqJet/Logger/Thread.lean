import InqJet.Consumer.System
import InqJet.Logger.Records

/-! One thread that logs: its thread-local cells and the stack of log calls it is in, each started
by user code that runs inside the one below. -/

namespace InqJet

open ByteCodec

inductive Pending
  | direct (a : HotArg) (h : a.texts = [])
  | fallback

/-- An active log call. From `evaluating` to `hotClaim` it is a hot macro, which evaluates its target and
arguments, sizes the arguments and waits for its claim; the others are the stages of `log_impl`. `own`
collects the text that the call's own arguments have written so far. -/
inductive Frame
  | evaluating (line : UInt32) (target : String) (todo : List Pending)
  | sizing (line : UInt32) (target : String) (todo : List Pending) (sized : List (HotArg × ℕ))
  | stashing (line : UInt32) (target : String) (todo : List Pending) (sized : List (HotArg × ℕ)) (start : ℕ)
      (own : String)
  | hotClaim (line : UInt32) (target : String) (sized : List (HotArg × ℕ))
  | bridgeFmt (line : UInt32) (target own : String)
  | bridgeClaim (line : UInt32) (target own : String)

def Frame.runsUserCode : Frame → Bool
  | .evaluating .. => true
  | .stashing .. => true
  | .bridgeFmt .. => true
  | _ => false

def Frame.holdsProducer : Frame → Bool
  | .hotClaim .. => true
  | .bridgeFmt .. => true
  | .bridgeClaim .. => true
  | _ => false

def Frame.holdsStash : Frame → Bool
  | .stashing .. => true
  | _ => false

def Frame.usesTlsBuf : Frame → Bool
  | .bridgeFmt .. => true
  | .bridgeClaim .. => true
  | _ => false

inductive Commit
  | hot (payload : Bytes)
  | bridge (line : UInt32) (target own : String) (payload : Bytes)

/-- `borrowed` is the state of the `TLS_PRODUCER` cell. While a panic unwinds, `panicking` is set and
has just left a log call, or user code of the innermost frame. -/
structure Thread where
  stash : Stash := {}
  borrowed : Bool := false
  tlsBuf : String := ""
  frames : List Frame := []
  committed : List Commit := []
  panicking : Bool := false

namespace Thread

/-- Steps of user code and of the log calls. `ready` says that a logger is set and running. -/
inductive Action
  | hotLog (line : UInt32) (target : String) (args : List Pending)
  | evaluated
  | sizeArg
  | write (text : String)
  | formatted
  | submit (ready : Bool)
  | logImpl (line : UInt32) (target : String) (ready : Bool)
  | granted
  | full (running : Bool)
  | panic
  | unwind
  | caught

def inUserCode (s : Thread) : Bool :=
  match s.frames with
  | [] => true
  | f :: _ => f.runsUserCode

def pop (s : Thread) : Thread :=
  match s.frames with
  | [] => s
  | f :: fs =>
    { s with
      frames := fs
      borrowed := s.borrowed && !f.holdsProducer
      stash := { s.stash with borrowed := s.stash.borrowed && !f.holdsStash } }

def raise (s : Thread) : Thread := { s with panicking := true }

def setTop (s : Thread) (f : Frame) : Thread := { s with frames := f :: s.frames.tail }

def push (s : Thread) (f : Frame) : Thread := { s with frames := f :: s.frames }

def hotLogStep (s : Thread) (line : UInt32) (target : String) (args : List Pending) : Thread :=
  match clearFor args s.stash with
  | .panicked st => { s with stash := st }.raise
  | .done st => { s with stash := st }.push (.evaluating line target args)

def sizeArgStep (s : Thread) : Option Thread :=
  match s.frames with
  | .sizing line target (.direct a _ :: todo) sized :: _ =>
    (a.hotSizeWith s.stash).map fun p =>
      { s with stash := p.2 }.setTop (.sizing line target todo (sized ++ [(a, p.1)]))
  | .sizing line target (.fallback :: todo) sized :: _ =>
    match s.stash.openFallback with
    | .panicked st => some { s with stash := st }.pop.raise
    | .done st =>
      some ({ s with stash := st }.setTop (.stashing line target todo sized (utf8 s.stash.buf).length ""))
  | _ => none

def writeStep (s : Thread) (text : String) : Option Thread :=
  match s.frames with
  | .stashing line target todo sized start own :: _ =>
    some ({ s with stash := s.stash.write text }.setTop (.stashing line target todo sized start (own ++ text)))
  | .bridgeFmt line target own :: _ =>
    some ({ s with tlsBuf := s.tlsBuf ++ text }.setTop (.bridgeFmt line target (own ++ text)))
  | _ => none

def formattedStep (s : Thread) : Option Thread :=
  match s.frames with
  | .stashing line target todo sized start own :: _ =>
    let (size, st) := s.stash.closeFallback start
    some ({ s with stash := st }.setTop (.sizing line target todo (sized ++ [(HotArg.fallback own, size)])))
  | .bridgeFmt line target own :: _ => some (s.setTop (.bridgeClaim line target own))
  | _ => none

def submitStep (s : Thread) (ready : Bool) : Option Thread :=
  match s.frames with
  | .sizing line target [] sized :: _ =>
    if ready = false then some s.pop
    else if s.borrowed then some s.pop.raise
    else some ({ s with borrowed := true }.setTop (.hotClaim line target sized))
  | _ => none

def logImplStep (s : Thread) (line : UInt32) (target : String) (ready : Bool) : Thread :=
  if ready = false then s
  else if s.borrowed then s.raise
  else { s with borrowed := true, tlsBuf := "" }.push (.bridgeFmt line target "")

def grantedStep (s : Thread) : Option Thread :=
  match s.frames with
  | .hotClaim line target sized :: _ =>
    let claim := List.replicate (totalSize target (sized.map Prod.snd)) 0
    let (st, payload) := encodeBlock line target sized s.stash claim
    match payload with
    | none => some { s with stash := st }.pop.raise
    | some payload => some { { s with stash := st }.pop with committed := s.committed ++ [.hot payload] }
  | .bridgeClaim line target own :: _ =>
    let totalSize := standardRecordSize (utf8 target).length (utf8 s.tlsBuf).length
    match writeStandardPayload (List.replicate (totalSize - headerSize) 0) line target s.tlsBuf with
    | none => some s.pop.raise
    | some (payload, _) => some { s.pop with committed := s.committed ++ [.bridge line target own payload] }
  | _ => none

def fullStep (mode : BackpressureMode) (s : Thread) (running : Bool) : Option Thread :=
  match s.frames with
  | .hotClaim .. :: _ => some (if mode = .drop ∨ running = false then s.pop else s)
  | .bridgeClaim .. :: _ => some (if mode = .drop ∨ running = false then s.pop else s)
  | _ => none

def unwindingStep (s : Thread) : Action → Option Thread
  | .unwind => if s.frames = [] then none else some s.pop
  | .caught => if s.inUserCode then some { s with panicking := false } else none
  | _ => none

def callingStep (s : Thread) (mode : BackpressureMode) : Action → Option Thread
  | .hotLog line target args => if s.inUserCode then some (hotLogStep s line target args) else none
  | .evaluated =>
    match s.frames with
    | .evaluating line target args :: _ => some (s.setTop (.sizing line target args []))
    | _ => none
  | .sizeArg => sizeArgStep s
  | .write text => writeStep s text
  | .formatted => formattedStep s
  | .submit ready => submitStep s ready
  | .logImpl line target ready => if s.inUserCode then some (logImplStep s line target ready) else none
  | .granted => grantedStep s
  | .full running => fullStep mode s running
  | .panic => if s.inUserCode then some s.raise else none
  | .unwind => none
  | .caught => none

def step (mode : BackpressureMode) (s : Thread) (a : Action) : Option Thread :=
  if s.panicking then s.unwindingStep a else s.callingStep mode a

inductive Turn (s : Thread) : Action → Thread → Prop
  | flag {a} (b : Bool) : Turn s a { s with panicking := b }
  | clearPanic {line target} {args : List Pending} {st} : clearFor args s.stash = .panicked st →
      Turn s (.hotLog line target args) { s with stash := st }.raise
  | start {line target} {args : List Pending} {st} : s.inUserCode = true → clearFor args s.stash = .done st →
      Turn s (.hotLog line target args) ({ s with stash := st }.push (.evaluating line target args))
  | evaluated {a line target args fs} : s.frames = .evaluating line target args :: fs →
      Turn s a (s.setTop (.sizing line target args []))
  | sized {a line target arg h todo sized fs n} :
      s.frames = .sizing line target (.direct arg h :: todo) sized :: fs →
      Turn s a (s.setTop (.sizing line target todo (sized ++ [(arg, n)])))
  | openPanic {a st} : s.stash.openFallback = .panicked st → Turn s a { s with stash := st }.pop.raise
  | opened {a line target todo sized fs st start} :
      s.frames = .sizing line target (.fallback :: todo) sized :: fs → s.stash.openFallback = .done st →
      Turn s a ({ s with stash := st }.setTop (.stashing line target todo sized start ""))
  | stashWrite {a line target todo sized start own fs text} :
      s.frames = .stashing line target todo sized start own :: fs →
      Turn s a ({ s with stash := s.stash.write text }.setTop
        (.stashing line target todo sized start (own ++ text)))
  | bridgeWrite {a line target own fs text} : s.frames = .bridgeFmt line target own :: fs →
      Turn s a ({ s with tlsBuf := s.tlsBuf ++ text }.setTop (.bridgeFmt line target (own ++ text)))
  | stashed {a line target todo sized start own fs} : s.frames = .stashing line target todo sized start own :: fs →
      Turn s a ({ s with stash := (s.stash.closeFallback start).2 }.setTop
        (.sizing line target todo (sized ++ [(HotArg.fallback own, (s.stash.closeFallback start).1)])))
  | bridgeFormatted {a line target own fs} : s.frames = .bridgeFmt line target own :: fs →
      Turn s a (s.setTop (.bridgeClaim line target own))
  | submitted {a line target sized fs} : s.frames = .sizing line target [] sized :: fs → s.borrowed = false →
      Turn s a ({ s with borrowed := true }.setTop (.hotClaim line target sized))
  | bridgeStart {a line target} : s.inUserCode = true → s.borrowed = false →
      Turn s a ({ s with borrowed := true, tlsBuf := "" }.push (.bridgeFmt line target ""))
  | left {a} (b : Bool) : s.frames ≠ [] → Turn s a { s.pop with panicking := b }
  | encodePanic {a line target sized fs} (claim : Bytes) : s.frames = .hotClaim line target sized :: fs →
      Turn s a ({ s with stash := (encodeBlock line target sized s.stash claim).1 }.pop.raise)
  | encoded {a line target sized fs} (claim payload : Bytes) : s.frames = .hotClaim line target sized :: fs →
      Turn s a { { s with stash := (encodeBlock line target sized s.stash claim).1 }.pop with
        committed := s.committed ++ [.hot payload] }
  | bridgeCommit {a line target own fs claim payload n} : s.frames = .bridgeClaim line target own :: fs →
      writeStandardPayload claim line target s.tlsBuf = some (payload, n) →
      claim.length = 6 + (utf8 target).length + (utf8 s.tlsBuf).length →
      Turn s a { s.pop with committed := s.committed ++ [.bridge line target own payload] }

lemma hotSizeWith_direct {a : HotArg} (h : a.texts = []) (st : Stash) : ∃ n, a.hotSizeWith st = some (n, st) := by
  cases a with
  | fallback text => simp [HotArg.texts] at h
  | _ => exact ⟨_, rfl⟩

lemma flag_self (s : Thread) (a : Action) : Turn s a s := Turn.flag s.panicking

lemma left_pop {s : Thread} {a : Action} (hf : s.frames ≠ []) : Turn s a s.pop := Turn.left s.pop.panicking hf

variable {mode : BackpressureMode}

lemma unwindingStep_turn {s t : Thread} {a : Action} (h : unwindingStep s a = some t) : Turn s a t := by
  unfold unwindingStep at h
  split at h
  case h_1 =>
    split_ifs at h with hf
    exact Option.some.inj h ▸ left_pop hf
  case h_2 =>
    split_ifs at h with hu
    exact Option.some.inj h ▸ .flag false
  case h_3 => cases h

lemma hotLogStep_turn {s : Thread} (hu : s.inUserCode = true) (line : UInt32) (target : String)
    (args : List Pending) : Turn s (.hotLog line target args) (hotLogStep s line target args) := by
  unfold hotLogStep
  split
  case h_1 hc => exact .clearPanic hc
  case h_2 hc => exact .start hu hc

lemma sizeArgStep_turn {s t : Thread} (h : sizeArgStep s = some t) : Turn s .sizeArg t := by
  unfold sizeArgStep at h
  split at h
  case h_1 ha _ _ _ hf =>
    obtain ⟨n, hn⟩ := hotSizeWith_direct ha s.stash
    rw [hn] at h
    exact Option.some.inj h ▸ .sized hf
  case h_2 hf =>
    split at h
    case h_1 ho => exact Option.some.inj h ▸ .openPanic ho
    case h_2 ho => exact Option.some.inj h ▸ .opened hf ho
  case h_3 => cases h

lemma writeStep_turn {s t : Thread} {text : String} (h : writeStep s text = some t) : Turn s (.write text) t := by
  unfold writeStep at h
  split at h
  case h_1 hf => exact Option.some.inj h ▸ .stashWrite hf
  case h_2 hf => exact Option.some.inj h ▸ .bridgeWrite hf
  case h_3 => cases h

lemma formattedStep_turn {s t : Thread} (h : formattedStep s = some t) : Turn s .formatted t := by
  unfold formattedStep at h
  split at h
  case h_1 hf => exact Option.some.inj h ▸ .stashed hf
  case h_2 hf => exact Option.some.inj h ▸ .bridgeFormatted hf
  case h_3 => cases h

lemma submitStep_turn {s t : Thread} {ready : Bool} (h : submitStep s ready = some t) :
    Turn s (.submit ready) t := by
  unfold submitStep at h
  split at h
  case h_1 hf =>
    have hne : s.frames ≠ [] := by simp [hf]
    split_ifs at h with hr hb
    · exact Option.some.inj h ▸ left_pop hne
    · exact Option.some.inj h ▸ .left true hne
    · exact Option.some.inj h ▸ .submitted hf (by simpa using hb)
  case h_2 => cases h

lemma logImplStep_turn {s : Thread} (hu : s.inUserCode = true) (line : UInt32) (target : String) (ready : Bool) :
    Turn s (.logImpl line target ready) (logImplStep s line target ready) := by
  unfold logImplStep
  split_ifs with hr hb
  · exact flag_self s _
  · exact .flag true
  · exact .bridgeStart hu (by simpa using hb)

lemma grantedStep_turn {s t : Thread} (h : grantedStep s = some t) : Turn s .granted t := by
  simp only [grantedStep] at h
  split at h
  case h_1 line target sized fs hf =>
    split at h
    case h_1 => exact Option.some.inj h ▸ .encodePanic _ hf
    case h_2 => exact Option.some.inj h ▸ .encoded _ _ hf
  case h_2 line target own fs hf =>
    have hne : s.frames ≠ [] := by simp [hf]
    split at h
    case h_1 => exact Option.some.inj h ▸ .left true hne
    case h_2 payload n hw =>
      refine Option.some.inj h ▸ .bridgeCommit hf hw ?_
      simp only [List.length_replicate, standardRecordSize, headerSize]
      omega
  case h_3 => cases h

lemma fullStep_turn {s t : Thread} {running : Bool} (h : fullStep mode s running = some t) :
    Turn s (.full running) t := by
  have hturn (hne : s.frames ≠ []) (hs : some (if mode = .drop ∨ running = false then s.pop else s) = some t) :
      Turn s (.full running) t := by
    obtain rfl := Option.some.inj hs
    split_ifs
    · exact left_pop hne
    · exact flag_self s _
  unfold fullStep at h
  split at h
  case h_1 hf => exact hturn (by simp [hf]) h
  case h_2 hf => exact hturn (by simp [hf]) h
  case h_3 => cases h

lemma callingStep_turn {s t : Thread} {a : Action} (h : callingStep s mode a = some t) : Turn s a t := by
  cases a with
  | hotLog line target args =>
    obtain ⟨hu, he⟩ := Option.ite_none_right_eq_some.mp h
    exact Option.some.inj he ▸ hotLogStep_turn hu line target args
  | evaluated =>
    simp only [callingStep] at h
    split at h
    case h_1 hf => exact Option.some.inj h ▸ .evaluated hf
    case h_2 => cases h
  | sizeArg => exact sizeArgStep_turn h
  | write text => exact writeStep_turn h
  | formatted => exact formattedStep_turn h
  | submit ready => exact submitStep_turn h
  | logImpl line target ready =>
    obtain ⟨hu, he⟩ := Option.ite_none_right_eq_some.mp h
    exact Option.some.inj he ▸ logImplStep_turn hu line target ready
  | granted => exact grantedStep_turn h
  | full running => exact fullStep_turn h
  | panic =>
    obtain ⟨-, he⟩ := Option.ite_none_right_eq_some.mp h
    exact Option.some.inj he ▸ .flag true
  | unwind => cases h
  | caught => cases h

theorem step_turn {s t : Thread} {a : Action} (h : step mode s a = some t) : Turn s a t := by
  unfold step at h
  split_ifs at h with hp
  · exact unwindingStep_turn h
  · exact callingStep_turn h

structure FrameInv (s : Thread) : Prop where
  outer : ∀ f ∈ s.frames.tail, f.runsUserCode = true
  producer : s.frames.countP Frame.holdsProducer = s.borrowed.toNat
  stash : s.frames.countP Frame.holdsStash = s.stash.borrowed.toNat

lemma countP_cons_toNat {α : Type*} (p : α → Bool) (x : α) (xs : List α) :
    (x :: xs).countP p = (p x).toNat + xs.countP p := by
  rw [List.countP_cons]
  cases p x <;> simp [Nat.add_comm]

lemma setTop_frames {s : Thread} {f : Frame} {fs : List Frame} (hf : s.frames = f :: fs) (g : Frame) :
    (s.setTop g).frames = g :: fs := by
  rw [setTop, hf]
  rfl

lemma frameInv_initial : FrameInv {} := ⟨List.forall_mem_nil _, rfl, rfl⟩

lemma FrameInv.setTop {s t : Thread} (hs : FrameInv s) {f f' : Frame} {fs : List Frame} (hf : s.frames = f :: fs)
    (ht : t.frames = f' :: fs)
    (hp : f'.holdsProducer.toNat + s.borrowed.toNat = f.holdsProducer.toNat + t.borrowed.toNat)
    (hst : f'.holdsStash.toNat + s.stash.borrowed.toNat = f.holdsStash.toNat + t.stash.borrowed.toNat) :
    FrameInv t := by
  have hpr := hs.producer
  have hsr := hs.stash
  rw [hf, countP_cons_toNat] at hpr hsr
  refine ⟨?_, ?_, ?_⟩
  · have ho := hs.outer
    rw [hf] at ho
    rwa [ht]
  · rw [ht, countP_cons_toNat]
    omega
  · rw [ht, countP_cons_toNat]
    omega

lemma FrameInv.all_user {s : Thread} (hs : FrameInv s) (hu : s.inUserCode = true) :
    ∀ f ∈ s.frames, f.runsUserCode = true := by
  have ho := hs.outer
  cases hf : s.frames with
  | nil => exact List.forall_mem_nil _
  | cons g gs =>
    rw [hf] at ho
    simp only [inUserCode, hf] at hu
    exact List.forall_mem_cons.mpr ⟨hu, ho⟩

lemma FrameInv.push {s t : Thread} (hs : FrameInv s) (hu : s.inUserCode = true) {f : Frame}
    (ht : t.frames = f :: s.frames) (hp : t.borrowed.toNat = f.holdsProducer.toNat + s.borrowed.toNat)
    (hst : t.stash.borrowed.toNat = f.holdsStash.toNat + s.stash.borrowed.toNat) : FrameInv t := by
  refine ⟨?_, by rw [ht, countP_cons_toNat, hs.producer, hp], by rw [ht, countP_cons_toNat, hs.stash, hst]⟩
  rw [ht]
  exact hs.all_user hu

lemma toNat_release {b h : Bool} {n : ℕ} (hn : h.toNat + n = b.toNat) : n = (b && !h).toNat := by
  cases b <;> cases h <;> simp at hn ⊢ <;> omega

lemma FrameInv.pop {s : Thread} (hs : FrameInv s) : FrameInv s.pop := by
  cases hf : s.frames with
  | nil => simpa [Thread.pop, hf] using hs
  | cons f fs =>
    have hpr := hs.producer
    have hsr := hs.stash
    have ho := hs.outer
    rw [hf, countP_cons_toNat] at hpr hsr
    rw [hf] at ho
    simp only [Thread.pop, hf]
    exact ⟨fun g hg => ho g (List.mem_of_mem_tail hg), toNat_release hpr, toNat_release hsr⟩

lemma FrameInv.congr {s t : Thread} (hs : FrameInv s) (hf : t.frames = s.frames) (hb : t.borrowed = s.borrowed)
    (hst : t.stash.borrowed = s.stash.borrowed) : FrameInv t :=
  ⟨by rw [hf]; exact hs.outer, by rw [hf, hb]; exact hs.producer, by rw [hf, hst]; exact hs.stash⟩

theorem FrameInv.turn {s t : Thread} {a : Action} (hs : FrameInv s) (h : Turn s a t) : FrameInv t := by
  have hstash {st : Stash} (hb : st.borrowed = s.stash.borrowed) : FrameInv { s with stash := st } :=
    hs.congr rfl rfl hb
  cases h with
  | flag => exact hs.congr rfl rfl rfl
  | clearPanic hc => exact hs.congr rfl rfl (clearFor_panicked hc).1
  | start hu hc =>
    have hb := (clearFor_done hc).1
    exact hs.push hu rfl (by simp [Thread.push, Frame.holdsProducer])
      (by simp [Thread.push, Frame.holdsStash, hb])
  | evaluated hf => exact hs.setTop hf (setTop_frames hf _) rfl rfl
  | sized hf => exact hs.setTop hf (setTop_frames hf _) rfl rfl
  | openPanic ho => exact (hstash (openFallback_panicked ho).2).pop.congr rfl rfl rfl
  | opened hf ho =>
    obtain ⟨hb, hb', -⟩ := openFallback_done ho
    refine hs.setTop hf (setTop_frames hf _) rfl ?_
    simp [Thread.setTop, Frame.holdsStash, hb, hb']
  | stashWrite hf => exact hs.setTop hf (setTop_frames hf _) rfl rfl
  | bridgeWrite hf => exact hs.setTop hf (setTop_frames hf _) rfl rfl
  | stashed hf =>
    have hb := hs.stash
    rw [hf, countP_cons_toNat] at hb
    refine hs.setTop hf (setTop_frames hf _) rfl ?_
    cases hbr : s.stash.borrowed
    · simp [hbr, Frame.holdsStash] at hb
    · simp [Thread.setTop, Stash.closeFallback, Frame.holdsStash]
  | bridgeFormatted hf => exact hs.setTop hf (setTop_frames hf _) rfl rfl
  | submitted hf hb =>
    exact hs.setTop hf (setTop_frames hf _) (by simp [Thread.setTop, Frame.holdsProducer, hb]) rfl
  | bridgeStart hu hb =>
    exact hs.push hu rfl (by simp [Thread.push, Frame.holdsProducer, hb])
      (by simp [Thread.push, Frame.holdsStash])
  | left => exact hs.pop.congr rfl rfl rfl
  | @encodePanic _ line target sized _ claim =>
    obtain ⟨n, -, he⟩ := encodeBlock_stash line target sized s.stash claim
    exact (hstash (by rw [he])).pop.congr rfl rfl rfl
  | @encoded _ line target sized _ claim =>
    obtain ⟨n, -, he⟩ := encodeBlock_stash line target sized s.stash claim
    exact (hstash (by rw [he])).pop.congr rfl rfl rfl
  | bridgeCommit => exact hs.pop.congr rfl rfl rfl

end Thread

end InqJet
