import InqJet.Archive
import InqJet.Lib.ClaimQueue
import InqJet.Lib.Runs

/-! Producers, archiver and guard as one system: every step is one atomic action of one of them.
Stream 0 is the log stream, the archive streams are numbered from 1. -/

namespace InqJet

open ByteCodec ClaimQueue Function

inductive BackpressureMode
  | backoff
  | drop
  deriving DecidableEq

/-- What is fixed for the life of a logger. `code` is the function behind a formatter's address. -/
structure Config where
  backpressure : BackpressureMode
  hasTimeout : Bool
  archives : ℕ
  code : UInt64 → FormatFn
  formatFn : ℕ → Bytes → Option Bytes

def formatLogRecord (code : UInt64 → FormatFn) (record : Bytes) : Option Bytes := do
  let header ← readHeader record
  let payload ← slice record headerSize record.length
  code header.formatter ⟨header.timestampNs, header.level, payload⟩

def Config.format (cfg : Config) (k : ℕ) (record : Bytes) : Option Bytes :=
  if k = 0 then formatLogRecord cfg.code record else cfg.formatFn k record

inductive WriterCall
  | writeAll (bytes : Bytes)
  | flush
  deriving DecidableEq

inductive IoResult
  | ok
  | err
  | panic
  deriving DecidableEq

inductive Phase
  | live
  | drain
  deriving DecidableEq

/-- Where `archiver_loop` stands. From `claimed` to `formatted` it holds the `ReadClaim` of stream `k`. -/
inductive ArchiverPc
  | check
  | poll (ph : Phase) (k : ℕ)
  | claimed (ph : Phase) (k : ℕ) (record : Bytes)
  | cleared (ph : Phase) (k : ℕ) (record : Bytes)
  | formatted (ph : Phase) (k : ℕ)
  | flush (ph : Phase) (k : ℕ)
  | idle
  | parked
  | returned
  | unwound
  deriving DecidableEq

inductive ProducerPc
  | idle
  | trying (k : ℕ) (record : Bytes)
  | backoff (record : Bytes)
  | waking (record : Bytes)
  | claimed (k : ℕ) (slot : ℕ)
  deriving DecidableEq

inductive GuardPc
  | held
  | stored
  | unparked
  | joined
  deriving DecidableEq

/-- `token` is the parker's. `atStore` is for reasoning only: the rings as they were when the
guard stored `running = false`. -/
structure State where
  rings : ℕ → Queue Bytes := fun _ => {}
  calls : ℕ → List WriterCall := fun _ => []
  buf : Bytes := []
  hadWork : Bool := false
  archiver : ArchiverPc := .check
  running : Bool := true
  token : Bool := false
  producers : ℕ → ProducerPc := fun _ => .idle
  guard : GuardPc := .held
  atStore : Option (ℕ → Queue Bytes) := none

/-- Whether a claim is granted, how a writer's call ends and when a park times out is up to the environment. -/
inductive Action
  | call (p k : ℕ) (record : Bytes)
  | tryClaim (p : ℕ) (granted : Bool)
  | recheck (p : ℕ)
  | unpark (p : ℕ)
  | commit (p : ℕ)
  | archiver (io : IoResult)
  | timedOut
  | guard

def State.setProducer (s : State) (p : ℕ) (pc : ProducerPc) : State :=
  { s with producers := update s.producers p pc }

def State.setRing (s : State) (k : ℕ) (q : Queue Bytes) : State := { s with rings := update s.rings k q }

def State.issue (s : State) (k : ℕ) (c : WriterCall) : State :=
  { s with calls := update s.calls k (s.calls k ++ [c]) }

variable (cfg : Config)

/-- A log call reads `running` first, an archive write does not. A call that formatting code makes while its
own thread is in another one is no step here: nested calls are modelled in `Logger.Thread`. -/
def callStep (s : State) (p k : ℕ) (record : Bytes) : Option State :=
  match s.producers p with
  | .idle =>
    if k = 0 then some (if s.running then s.setProducer p (.trying 0 record) else s)
    else if k ≤ cfg.archives then some (s.setProducer p (.trying k record))
    else none
  | _ => none

def tryClaimStep (s : State) (p : ℕ) (granted : Bool) : Option State :=
  match s.producers p with
  | .trying k record =>
    if granted then
      some ((s.setRing k ((s.rings k).claim record)).setProducer p (.claimed k (s.rings k).slots.length))
    else if k = 0 ∧ cfg.backpressure = .backoff then some (s.setProducer p (.backoff record))
    else some (s.setProducer p .idle)
  | _ => none

def recheckStep (s : State) (p : ℕ) : Option State :=
  match s.producers p with
  | .backoff record => some (s.setProducer p (if s.running then .waking record else .idle))
  | _ => none

def unparkStep (s : State) (p : ℕ) : Option State :=
  match s.producers p with
  | .waking record => some ({ s with token := true }.setProducer p (.trying 0 record))
  | _ => none

/-- The claim has been filled and is committed. Left out is the panic that can come before the commit (of the
target's length check or of an encoder) and drops the claim as it is: the runs here have no such call. -/
def commitStep (s : State) (p : ℕ) : Option State :=
  match s.producers p with
  | .claimed k i => some ((s.setRing k ((s.rings k).commit i)).setProducer p .idle)
  | _ => none

def afterPoll (hadWork : Bool) (ph : Phase) (k : ℕ) : ArchiverPc :=
  match ph with
  | .live =>
    if k < cfg.archives then .poll .live (k + 1)
    else if hadWork then .flush .live 0 else .idle
  | .drain => .flush .drain k

def afterFlush (ph : Phase) (k : ℕ) : ArchiverPc :=
  match ph with
  | .live => if k < cfg.archives then .flush .live (k + 1) else .check
  | .drain => if k < cfg.archives then .poll .drain (k + 1) else .returned

/-- One step of `archiver_loop`; `io` is the outcome of the writer's call, if the step makes one.
A `ReadClaim` is dropped, and its record consumed, behind the write or when a panic unwinds. -/
def archiverStep (s : State) (io : IoResult) : Option State :=
  match s.archiver with
  | .check =>
    some (if s.running then { s with archiver := .poll .live 0, hadWork := false }
      else { s with archiver := .poll .drain 0 })
  | .poll ph k =>
    match (s.rings k).peek with
    | some record => some { s with archiver := .claimed ph k record }
    | none => some { s with archiver := afterPoll cfg s.hadWork ph k }
  | .claimed ph k record => some { s with archiver := .cleared ph k record, buf := [] }
  | .cleared ph k record =>
    match cfg.format k record with
    | some bytes => some { s with archiver := .formatted ph k, buf := s.buf ++ bytes }
    | none => some { s.setRing k (s.rings k).advance with archiver := .unwound }
  | .formatted ph k =>
    let s := (s.issue k (.writeAll s.buf)).setRing k (s.rings k).advance
    if io = .panic then some { s with archiver := .unwound }
    else some { s with archiver := .poll ph k, hadWork := s.hadWork || ph == .live }
  | .flush ph k =>
    let s := s.issue k .flush
    if io = .panic then some { s with archiver := .unwound }
    else some { s with archiver := afterFlush cfg ph k }
  | .idle => some { s with archiver := if cfg.hasTimeout then .parked else .check }
  | .parked => if s.token then some { s with archiver := .check, token := false } else none
  | .returned => none
  | .unwound => none

def timedOutStep (s : State) : Option State :=
  if s.archiver = .parked then some { s with archiver := .check } else none

def State.Left (s : State) : Prop := s.archiver = .returned ∨ s.archiver = .unwound

instance (s : State) : Decidable s.Left := inferInstanceAs (Decidable (_ ∨ _))

def guardStep (s : State) : Option State :=
  match s.guard with
  | .held => some { s with running := false, guard := .stored, atStore := some s.rings }
  | .stored => some { s with token := true, guard := .unparked }
  | .unparked => if s.Left then some { s with guard := .joined } else none
  | .joined => none

def step (s : State) : Action → Option State
  | .call p k record => callStep cfg s p k record
  | .tryClaim p granted => tryClaimStep cfg s p granted
  | .recheck p => recheckStep s p
  | .unpark p => unparkStep s p
  | .commit p => commitStep s p
  | .archiver io => archiverStep cfg s io
  | .timedOut => timedOutStep s
  | .guard => guardStep s

def WriterCall.bytes : WriterCall → Option Bytes
  | .writeAll bytes => some bytes
  | .flush => none

def State.writes (s : State) (k : ℕ) : List Bytes := (s.calls k).filterMap WriterCall.bytes

inductive Turn (cfg : Config) (s : State) : IoResult → State → Prop
  | start {io} : s.archiver = .check → s.running = true →
      Turn cfg s io { s with archiver := .poll .live 0, hadWork := false }
  | stop {io} : s.archiver = .check → s.running = false → Turn cfg s io { s with archiver := .poll .drain 0 }
  | take {io ph k record} : s.archiver = .poll ph k → (s.rings k).peek = some record →
      Turn cfg s io { s with archiver := .claimed ph k record }
  | empty {io ph k} : s.archiver = .poll ph k → (s.rings k).peek = none →
      Turn cfg s io { s with archiver := afterPoll cfg s.hadWork ph k }
  | clear {io ph k record} : s.archiver = .claimed ph k record →
      Turn cfg s io { s with archiver := .cleared ph k record, buf := [] }
  | format {io ph k record bytes} : s.archiver = .cleared ph k record → cfg.format k record = some bytes →
      Turn cfg s io { s with archiver := .formatted ph k, buf := s.buf ++ bytes }
  | formatPanic {io ph k record} : s.archiver = .cleared ph k record → cfg.format k record = none →
      Turn cfg s io { s.setRing k (s.rings k).advance with archiver := .unwound }
  | write {io ph k} : s.archiver = .formatted ph k → io ≠ .panic →
      Turn cfg s io { (s.issue k (.writeAll s.buf)).setRing k (s.rings k).advance with
        archiver := .poll ph k, hadWork := s.hadWork || ph == .live }
  | writePanic {ph k} : s.archiver = .formatted ph k →
      Turn cfg s .panic { (s.issue k (.writeAll s.buf)).setRing k (s.rings k).advance with archiver := .unwound }
  | flush {io ph k} : s.archiver = .flush ph k → io ≠ .panic →
      Turn cfg s io { s.issue k .flush with archiver := afterFlush cfg ph k }
  | flushPanic {ph k} : s.archiver = .flush ph k → Turn cfg s .panic { s.issue k .flush with archiver := .unwound }
  | rest {io} : s.archiver = .idle →
      Turn cfg s io { s with archiver := if cfg.hasTimeout then .parked else .check }
  | wake {io} : s.archiver = .parked → s.token = true → Turn cfg s io { s with archiver := .check, token := false }

inductive GuardTurn (s : State) : State → Prop
  | store : s.guard = .held → GuardTurn s { s with running := false, guard := .stored, atStore := some s.rings }
  | unpark : s.guard = .stored → GuardTurn s { s with token := true, guard := .unparked }
  | join : s.guard = .unparked → s.Left → GuardTurn s { s with guard := .joined }

def Action.IsProducer : Action → Prop
  | .archiver _ => False
  | .timedOut => False
  | .guard => False
  | _ => True

inductive ProducerTurn (s : State) : State → Prop
  | skip : ProducerTurn s s
  | own (p : ℕ) (pc : ProducerPc) : ProducerTurn s (s.setProducer p pc)
  | wake (p : ℕ) (pc : ProducerPc) : ProducerTurn s ({ s with token := true }.setProducer p pc)
  | ring {k : ℕ} {q : Queue Bytes} (p : ℕ) (pc : ProducerPc) : (s.rings k).Produced q →
      ProducerTurn s ((s.setRing k q).setProducer p pc)

structure Rely (s t : State) : Prop where
  archiver : t.archiver = s.archiver
  buf : t.buf = s.buf
  calls : t.calls = s.calls
  running : t.running = s.running
  guard : t.guard = s.guard
  atStore : t.atStore = s.atStore
  rings : ∀ k, (s.rings k).Produced (t.rings k)

variable {cfg}

theorem archiver_turn {s t : State} {io : IoResult} (h : archiverStep cfg s io = some t) : Turn cfg s io t := by
  unfold archiverStep at h
  split at h
  case h_1 hpc =>
    obtain rfl := Option.some.inj h
    split_ifs with hr
    · exact .start hpc hr
    · exact .stop hpc (by simpa using hr)
  case h_2 ph k hpc =>
    split at h
    case h_1 record hp => exact Option.some.inj h ▸ .take hpc hp
    case h_2 hp => exact Option.some.inj h ▸ .empty hpc hp
  case h_3 hpc => exact Option.some.inj h ▸ .clear hpc
  case h_4 ph k record hpc =>
    split at h
    case h_1 bytes hf => exact Option.some.inj h ▸ .format hpc hf
    case h_2 hf => exact Option.some.inj h ▸ .formatPanic hpc hf
  case h_5 hpc =>
    dsimp only at h
    split_ifs at h with hio
    · subst hio
      exact Option.some.inj h ▸ .writePanic hpc
    · exact Option.some.inj h ▸ .write hpc hio
  case h_6 hpc =>
    dsimp only at h
    split_ifs at h with hio
    · subst hio
      exact Option.some.inj h ▸ .flushPanic hpc
    · exact Option.some.inj h ▸ .flush hpc hio
  case h_7 hpc => exact Option.some.inj h ▸ .rest hpc
  case h_8 hpc =>
    split_ifs at h with ht
    exact Option.some.inj h ▸ .wake hpc ht
  case h_9 => cases h
  case h_10 => cases h

lemma guard_turn {s t : State} (h : guardStep s = some t) : GuardTurn s t := by
  unfold guardStep at h
  split at h
  case h_1 hg => exact Option.some.inj h ▸ .store hg
  case h_2 hg => exact Option.some.inj h ▸ .unpark hg
  case h_3 hg =>
    split_ifs at h with hl
    exact Option.some.inj h ▸ .join hg hl
  case h_4 => cases h

lemma timedOut_turn {s t : State} (h : timedOutStep s = some t) :
    s.archiver = .parked ∧ t = { s with archiver := .check } := by
  unfold timedOutStep at h
  split_ifs at h with hp
  exact ⟨hp, (Option.some.inj h).symm⟩

lemma extends_setRing_advance (s : State) (j k : ℕ) :
    (s.rings k).Extends ((s.setRing j (s.rings j).advance).rings k) := by
  by_cases hk : k = j
  · subst hk
    simpa [State.setRing] using extends_advance (s.rings k)
  · simpa [State.setRing, hk] using Queue.Extends.refl (s.rings k)

lemma turn_frame {s t : State} {io : IoResult} (h : Turn cfg s io t) :
    t.guard = s.guard ∧ t.running = s.running ∧ t.atStore = s.atStore ∧ ¬ s.Left ∧
      ∀ k, (s.rings k).Extends (t.rings k) := by
  refine ⟨by cases h <;> rfl, by cases h <;> rfl, by cases h <;> rfl, by cases h <;> simp [State.Left, *], ?_⟩
  intro k
  cases h with
  | formatPanic => exact extends_setRing_advance s _ k
  | write => exact extends_setRing_advance s _ k
  | writePanic => exact extends_setRing_advance s _ k
  | _ => exact .refl _

lemma producer_turn {s t : State} {a : Action} (h : step cfg s a = some t) (ha : a.IsProducer) :
    ProducerTurn s t := by
  cases a with
  | call p k record =>
    simp only [step, callStep] at h
    split at h
    · split_ifs at h
      · exact Option.some.inj h ▸ .own p _
      · exact Option.some.inj h ▸ .skip
      · exact Option.some.inj h ▸ .own p _
    · cases h
  | tryClaim p granted =>
    simp only [step, tryClaimStep] at h
    split at h
    · split_ifs at h
      · exact Option.some.inj h ▸ .ring p _ (.claim _)
      · exact Option.some.inj h ▸ .own p _
      · exact Option.some.inj h ▸ .own p _
    · cases h
  | recheck p =>
    simp only [step, recheckStep] at h
    split at h
    · exact Option.some.inj h ▸ .own p _
    · cases h
  | unpark p =>
    simp only [step, unparkStep] at h
    split at h
    · exact Option.some.inj h ▸ .wake p _
    · cases h
  | commit p =>
    simp only [step, commitStep] at h
    split at h
    · exact Option.some.inj h ▸ .ring p _ (.commit _)
    · cases h
  | archiver io => exact ha.elim
  | timedOut => exact ha.elim
  | guard => exact ha.elim

theorem producer_rely {s t : State} {a : Action} (h : step cfg s a = some t) (ha : a.IsProducer) : Rely s t := by
  cases producer_turn h ha with
  | skip => exact ⟨rfl, rfl, rfl, rfl, rfl, rfl, fun _ => .same⟩
  | own => exact ⟨rfl, rfl, rfl, rfl, rfl, rfl, fun _ => .same⟩
  | wake => exact ⟨rfl, rfl, rfl, rfl, rfl, rfl, fun _ => .same⟩
  | @ring k q p pc hq =>
    refine ⟨rfl, rfl, rfl, rfl, rfl, rfl, fun j => ?_⟩
    by_cases hj : j = k
    · subst hj
      simpa [State.setProducer, State.setRing] using hq
    · simpa [State.setProducer, State.setRing, hj] using Queue.Produced.same

lemma producer_frame {s t : State} {a : Action} (h : step cfg s a = some t) (ha : a.IsProducer) :
    t.hadWork = s.hadWork ∧ (s.token = true → t.token = true) := by
  cases producer_turn h ha with
  | wake => exact ⟨rfl, fun _ => rfl⟩
  | _ => exact ⟨rfl, id⟩

end InqJet
