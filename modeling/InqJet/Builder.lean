import InqJet.Lib.Runs

namespace InqJet

open Runs

inductive LevelFilter
  | off
  | error
  | warn
  | info
  | debug
  | trace
  deriving DecidableEq

def LevelFilter.asU8 : LevelFilter → UInt8
  | .off => 0
  | .error => 1
  | .warn => 2
  | .info => 3
  | .debug => 4
  | .trace => 5

inductive ColorMode
  | auto
  | always
  | never
  deriving DecidableEq

structure Environment where
  stdoutIsTerminal : Bool
  noColor : Bool
  term : Option String
  deriving DecidableEq

def isColorEnabled (env : Environment) : ColorMode → Bool
  | .auto => env.stdoutIsTerminal && !env.noColor && env.term != some "dumb"
  | .always => true
  | .never => false

inductive InqJetBuilderError
  | noConfiguredWriter
  | noConfiguredLogLevel
  | alreadyInitialized
  deriving DecidableEq

/-- The settings of a call that the globals depend on; `wr` says that a writer is configured. -/
structure InqJetBuilder where
  wr : Bool
  level : Option LevelFilter
  colorMode : ColorMode
  env : Environment
  deriving DecidableEq

inductive BuildPc
  | check
  | storeColor (level : LevelFilter)
  | setLogger (level : LevelFilter)
  | storeLevel (level : LevelFilter)
  | setLogCrate (level : LevelFilter)
  | ok
  | err (e : InqJetBuilderError)
  deriving DecidableEq

structure BuildCall where
  builder : InqJetBuilder
  pc : BuildPc := .check
  deriving DecidableEq

/-- `LOGGER` is given by the call whose ring its producers are cloned from. -/
structure Globals where
  logger : Option ℕ := none
  colorEnabled : Bool := false
  maxLevel : UInt8 := 0
  logMaxLevel : LevelFilter := .off
  deriving DecidableEq

structure Builds where
  globals : Globals := {}
  calls : List BuildCall
  deriving DecidableEq

def check (logger : Option ℕ) (b : InqJetBuilder) : BuildPc :=
  if logger.isSome then .err .alreadyInitialized
  else if b.wr = false then .err .noConfiguredWriter
  else
    match b.level with
    | none => .err .noConfiguredLogLevel
    | some level => .storeColor level

def callStepAt (i : ℕ) (c : BuildCall) (g : Globals) : Option (BuildPc × Globals) :=
  match c.pc with
  | .check => some (check g.logger c.builder, g)
  | .storeColor level =>
    some (.setLogger level, { g with colorEnabled := isColorEnabled c.builder.env c.builder.colorMode })
  -- the result of `LOGGER.set` is ignored: an earlier value stays
  | .setLogger level => some (.storeLevel level, { g with logger := g.logger.or (some i) })
  | .storeLevel level => some (.setLogCrate level, { g with maxLevel := level.asU8 })
  | .setLogCrate level => some (.ok, { g with logMaxLevel := level })
  | .ok => none
  | .err _ => none

def buildStep (s : Builds) (i : ℕ) : Option Builds :=
  s.calls[i]?.bind fun c => (callStepAt i c s.globals).map fun r =>
    { globals := r.2, calls := s.calls.set i { c with pc := r.1 } }

def Builds.start (builders : List InqJetBuilder) : Builds := { calls := builders.map fun b => { builder := b } }

def Builds.At (s : Builds) (i : ℕ) (pc : BuildPc) : Prop := ∃ c, s.calls[i]? = some c ∧ c.pc = pc

structure InitExclusive (s : Builds) : Prop where
  one : ∀ i j, s.At i .ok → s.At j .ok → i = j
  ring : ∀ i, s.At i .ok → s.globals.logger = some i
  failing : ∀ i e t, buildStep s i = some t → t.At i (.err e) →
    s.At i .check ∧ t.globals = s.globals ∧ buildStep t i = none

def BuildPc.inWindow : BuildPc → Bool
  | .storeColor _ => true
  | .setLogger _ => true
  | _ => false

def BuildPc.published : BuildPc → Bool
  | .storeLevel _ => true
  | .setLogCrate _ => true
  | .ok => true
  | _ => false

def Races (s : Builds) (i : ℕ) : Prop :=
  ∃ c ∈ s.calls[i]?, c.pc = .check ∧ c.builder.wr = true ∧ c.builder.level.isSome = true ∧
    s.globals.logger = none ∧ ∃ d ∈ s.calls, d.pc.inWindow = true

instance (s : Builds) : DecidablePred (Races s) := fun i => inferInstanceAs (Decidable (∃ c ∈ s.calls[i]?, _))

structure BuildInv (s : Builds) : Prop where
  window : ∀ (i j : ℕ) (c d : BuildCall), s.calls[i]? = some c → s.calls[j]? = some d →
    c.pc.inWindow = true → d.pc.inWindow = true → i = j
  empty : ∀ (i : ℕ) (c : BuildCall), s.calls[i]? = some c → c.pc.inWindow = true → s.globals.logger = none
  set : ∀ (i : ℕ) (c : BuildCall), s.calls[i]? = some c → c.pc.published = true → s.globals.logger = some i

inductive BuildTurn (i : ℕ) (c : BuildCall) (g : Globals) : BuildPc → Globals → Prop
  | reject {e} : c.pc = .check → BuildTurn i c g (.err e) g
  | enter {level} : c.pc = .check → g.logger = none → c.builder.wr = true → c.builder.level = some level →
      BuildTurn i c g (.storeColor level) g
  | storeColor {level} : c.pc = .storeColor level → BuildTurn i c g (.setLogger level)
      { g with colorEnabled := isColorEnabled c.builder.env c.builder.colorMode }
  | setLogger {level} : c.pc = .setLogger level →
      BuildTurn i c g (.storeLevel level) { g with logger := g.logger.or (some i) }
  | storeLevel {level} : c.pc = .storeLevel level →
      BuildTurn i c g (.setLogCrate level) { g with maxLevel := level.asU8 }
  | setLogCrate {level} : c.pc = .setLogCrate level → BuildTurn i c g .ok { g with logMaxLevel := level }

lemma check_turn {i : ℕ} {c : BuildCall} {g : Globals} (hpc : c.pc = .check) :
    BuildTurn i c g (check g.logger c.builder) g := by
  rw [check]
  split_ifs with hl hw
  · exact .reject hpc
  · exact .reject hpc
  · cases hlev : c.builder.level with
    | none => exact .reject hpc
    | some level => exact .enter hpc (by simpa using hl) (by simpa using hw) hlev

lemma callStepAt_turn {i : ℕ} {c : BuildCall} {g g' : Globals} {pc : BuildPc}
    (h : callStepAt i c g = some (pc, g')) : BuildTurn i c g pc g' := by
  cases hpc : c.pc <;> simp only [callStepAt, hpc] at h <;> cases h
  case check => exact check_turn hpc
  case storeColor => exact .storeColor hpc
  case setLogger => exact .setLogger hpc
  case storeLevel => exact .storeLevel hpc
  case setLogCrate => exact .setLogCrate hpc

lemma buildStep_turn {s t : Builds} {i : ℕ} (h : buildStep s i = some t) :
    ∃ c pc g, s.calls[i]? = some c ∧ BuildTurn i c s.globals pc g ∧
      t = ⟨g, s.calls.set i { c with pc := pc }⟩ := by
  obtain ⟨c, hc, h⟩ := Option.bind_eq_some_iff.mp h
  obtain ⟨⟨pc, g⟩, hr, ht⟩ := Option.map_eq_some_iff.mp h
  exact ⟨c, pc, g, hc, callStepAt_turn hr, ht.symm⟩

lemma calls_set {calls : List BuildCall} {i j : ℕ} {c c' d : BuildCall} (hc : calls[i]? = some c)
    (h : (calls.set i c')[j]? = some d) : j = i ∧ d = c' ∨ j ≠ i ∧ calls[j]? = some d := by
  have hi := (List.getElem?_eq_some_iff.mp hc).1
  by_cases hj : j = i
  · subst hj
    rw [List.getElem?_set_self hi] at h
    exact .inl ⟨rfl, (Option.some.inj h).symm⟩
  · rw [List.getElem?_set_ne (Ne.symm hj)] at h
    exact .inr ⟨hj, h⟩

lemma BuildInv.keep {s : Builds} (hs : BuildInv s) {i : ℕ} {c : BuildCall} {pc : BuildPc} {g : Globals}
    (hc : s.calls[i]? = some c) (hg : g.logger = s.globals.logger)
    (hw : pc.inWindow = true → c.pc.inWindow = true) (hp : pc.published = true → c.pc.published = true) :
    BuildInv ⟨g, s.calls.set i { c with pc := pc }⟩ := by
  have hback {j : ℕ} {d : BuildCall} (hd : (s.calls.set i { c with pc := pc })[j]? = some d) :
      ∃ e, s.calls[j]? = some e ∧ (d.pc.inWindow = true → e.pc.inWindow = true) ∧
        (d.pc.published = true → e.pc.published = true) := by
    rcases calls_set hc hd with ⟨rfl, rfl⟩ | ⟨-, hd⟩
    · exact ⟨c, hc, hw, hp⟩
    · exact ⟨d, hd, id, id⟩
  refine ⟨fun j k d e hd he hdw hew => ?_, fun j d hd hdw => ?_, fun j d hd hdp => ?_⟩
  · obtain ⟨d', hd', hdw', -⟩ := hback hd
    obtain ⟨e', he', hew', -⟩ := hback he
    exact hs.window j k d' e' hd' he' (hdw' hdw) (hew' hew)
  · obtain ⟨d', hd', hdw', -⟩ := hback hd
    exact hg.trans (hs.empty j d' hd' (hdw' hdw))
  · obtain ⟨d', hd', -, hdp'⟩ := hback hd
    exact hg.trans (hs.set j d' hd' (hdp' hdp))

lemma BuildInv.enter {s : Builds} (hs : BuildInv s) {i : ℕ} {c : BuildCall} (hc : s.calls[i]? = some c)
    (hl : s.globals.logger = none) (hnone : ∀ d ∈ s.calls, ¬ d.pc.inWindow = true) (level : LevelFilter) :
    BuildInv ⟨s.globals, s.calls.set i { c with pc := .storeColor level }⟩ := by
  have honly {j : ℕ} {d : BuildCall} (hd : (s.calls.set i { c with pc := .storeColor level })[j]? = some d)
      (hw : d.pc.inWindow = true) : j = i := by
    rcases calls_set hc hd with ⟨hj, -⟩ | ⟨-, hd⟩
    · exact hj
    · exact (hnone d (List.mem_of_getElem? hd) hw).elim
  refine ⟨fun j k d e hd he hdw hew => (honly hd hdw).trans (honly he hew).symm, fun _ _ _ _ => hl, ?_⟩
  intro j d hd hp
  rcases calls_set hc hd with ⟨-, rfl⟩ | ⟨-, hd⟩
  · cases hp
  · exact hs.set j d hd hp

lemma BuildInv.publish {s : Builds} (hs : BuildInv s) {i : ℕ} {c : BuildCall} (hc : s.calls[i]? = some c)
    (hw : c.pc.inWindow = true) (level : LevelFilter) :
    BuildInv ⟨{ s.globals with logger := s.globals.logger.or (some i) },
      s.calls.set i { c with pc := .storeLevel level }⟩ := by
  have hl := hs.empty i c hc hw
  have hnone {j : ℕ} {d : BuildCall} (hd : (s.calls.set i { c with pc := .storeLevel level })[j]? = some d) :
      ¬ d.pc.inWindow = true := by
    intro hdw
    rcases calls_set hc hd with ⟨-, rfl⟩ | ⟨hj, hd⟩
    · cases hdw
    · exact hj (hs.window j i d c hd hc hdw hw)
  refine ⟨fun j k d e hd _ hdw => (hnone hd hdw).elim, fun j d hd hdw => (hnone hd hdw).elim, ?_⟩
  intro j d hd hp
  rcases calls_set hc hd with ⟨rfl, -⟩ | ⟨-, hd⟩
  · simp [hl]
  · have hset := hs.set j d hd hp
    rw [hl] at hset
    cases hset

lemma BuildInv.step {s t : Builds} {i : ℕ} (hs : BuildInv s) (hr : ¬ Races s i) (h : buildStep s i = some t) :
    BuildInv t := by
  obtain ⟨c, pc, g, hc, hturn, rfl⟩ := buildStep_turn h
  cases hturn with
  | reject => exact hs.keep hc rfl (by rintro ⟨⟩) (by rintro ⟨⟩)
  | @enter level hpc hnone hconf hlev =>
    have hlevel : c.builder.level.isSome = true := by rw [hlev]; rfl
    refine hs.enter hc hnone (fun d hd hdw => hr ?_) level
    exact ⟨c, hc, hpc, hconf, hlevel, hnone, d, hd, hdw⟩
  | storeColor hpc => exact hs.keep hc rfl (fun _ => by rw [hpc]; rfl) (by rintro ⟨⟩)
  | @setLogger level hpc => exact hs.publish hc (by rw [hpc]; rfl) level
  | storeLevel hpc => exact hs.keep hc rfl (by rintro ⟨⟩) (fun _ => by rw [hpc]; rfl)
  | setLogCrate hpc => exact hs.keep hc rfl (by rintro ⟨⟩) (fun _ => by rw [hpc]; rfl)

lemma buildInv_start (builders : List InqJetBuilder) : BuildInv (.start builders) := by
  have hpc {i : ℕ} {c : BuildCall} (hc : (Builds.start builders).calls[i]? = some c) : c.pc = .check := by
    simp only [Builds.start, List.getElem?_map, Option.map_eq_some_iff] at hc
    obtain ⟨b, -, rfl⟩ := hc
    rfl
  refine ⟨fun i j c d hc _ hw => ?_, fun _ _ _ _ => rfl, fun i c hc hp => ?_⟩
  · rw [hpc hc] at hw
    cases hw
  · rw [hpc hc] at hp
    cases hp

lemma failing_step {s t : Builds} {i : ℕ} {e : InqJetBuilderError} (h : buildStep s i = some t)
    (he : t.At i (.err e)) : s.At i .check ∧ t.globals = s.globals ∧ buildStep t i = none := by
  obtain ⟨c, pc, g, hc, hturn, rfl⟩ := buildStep_turn h
  obtain ⟨d, hd, hpcd⟩ := he
  rcases calls_set hc hd with ⟨-, rfl⟩ | ⟨hne, -⟩
  · obtain rfl : pc = .err e := hpcd
    cases hturn with
    | reject hpc => exact ⟨⟨c, hc, hpc⟩, rfl, by simp only [buildStep, hd]; rfl⟩
  · exact (hne rfl).elim

lemma BuildInv.exclusive {s : Builds} (hs : BuildInv s) : InitExclusive s := by
  have hring (i : ℕ) (hi : s.At i .ok) : s.globals.logger = some i := by
    obtain ⟨c, hc, hpc⟩ := hi
    exact hs.set i c hc (by rw [hpc]; rfl)
  refine ⟨fun i j hi hj => ?_, hring, fun i e t h he => failing_step h he⟩
  exact Option.some.inj ((hring i hi).symm.trans (hring j hj))

/-- Initialisation is exclusive in every run in which no configured call checks `LOGGER` while another
one is between its own check and its set. -/
theorem builds_exclusive (builders : List InqJetBuilder) (t : Builds) (tr : List (Builds × ℕ))
    (h : Run buildStep (.start builders) tr t) (hc : Along (fun s i => ¬ Races s i) tr) :
    Throughout InitExclusive tr t := by
  have hinv := h.guarded (fun _ _ _ hs hc ha => BuildInv.step hs hc ha) (buildInv_start builders) hc
  exact hinv.imp fun _ => BuildInv.exclusive

def consoleBuilder : InqJetBuilder := ⟨true, some .info, .always, ⟨true, false, none⟩⟩

theorem builds_exclusive_sequential : ∃ t tr,
    Run buildStep (.start [consoleBuilder, { consoleBuilder with level := none }, consoleBuilder]) tr t ∧
    t.calls.map BuildCall.pc = [.ok, .err .noConfiguredLogLevel, .err .alreadyInitialized] ∧
    Throughout InitExclusive tr t := by
  let builders := [consoleBuilder, { consoleBuilder with level := none }, consoleBuilder]
  have hrun : (exec (onlyIf buildStep fun s i => ¬ Races s i) (.start builders) [0, 1, 0, 0, 2, 0, 0]).map
      (fun s => s.calls.map BuildCall.pc) = some [.ok, .err .noConfiguredLogLevel, .err .alreadyInitialized] := by
    decide
  obtain ⟨t, tr, ht, hc, hv⟩ := run_of_exec_onlyIf hrun
  exact ⟨t, tr, ht, hv, builds_exclusive builders t tr ht hc⟩

theorem two_builds_succeed : ∃ s, Reachable buildStep (.start [consoleBuilder, consoleBuilder]) s ∧
    ¬ InitExclusive s := by
  have hrun : (exec buildStep (.start [consoleBuilder, consoleBuilder]) [0, 1, 0, 0, 0, 0, 1, 1, 1, 1]).map
      (fun s => s.calls.map BuildCall.pc) = some [.ok, .ok] := by decide
  obtain ⟨s, hs, he⟩ := reachable_of_exec_map hrun
  refine ⟨s, hs, fun hx => ?_⟩
  have hat (i : ℕ) (hi : (s.calls.map BuildCall.pc)[i]? = some .ok) : s.At i .ok := by
    rw [List.getElem?_map] at hi
    exact Option.map_eq_some_iff.mp hi
  have h01 := hx.one 0 1 (hat 0 (by rw [he]; rfl)) (hat 1 (by rw [he]; rfl))
  cases h01

end InqJet
