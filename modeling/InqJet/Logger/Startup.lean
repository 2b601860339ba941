import InqJet.Logger.SetLevel

namespace InqJet

open Function Runs

structure Startup where
  builds : Builds
  threads : ℕ → SetLevelPc := fun _ => .idle

inductive StartupAction
  | build (i : ℕ)
  | level (a : LevelAction)

def Startup.levels (s : Startup) : Levels := ⟨s.builds.globals, s.threads⟩

def startupStep (s : Startup) : StartupAction → Option Startup
  | .build i => (buildStep s.builds i).map fun builds => { s with builds := builds }
  | .level a => (setLevelStep s.levels a).map fun l => ⟨{ s.builds with globals := l.globals }, l.threads⟩

def Startup.GateImpliesLogger (s : Startup) : Prop :=
  ∀ level, s.builds.globals.logEnabled (levelToU8 level) = true → s.builds.globals.logger.isSome = true

def NotBeforeLogger (s : Startup) : StartupAction → Prop
  | .level (.store p) => ∀ level, s.threads p = .storeMax level → level ≠ .off →
    s.builds.globals.logger.isSome = true
  | _ => True

def Startup.SettledBy (s : Startup) (i : ℕ) : Prop :=
  ∃ c, s.builds.calls[i]? = some c ∧ c.pc.published = true ∧ c.builder.wr = true ∧ c.builder.level.isSome = true ∧
    s.builds.globals.colorEnabled = isColorEnabled c.builder.env c.builder.colorMode

def NoRace (s : Startup) : StartupAction → Prop
  | .build i => ¬ Races s.builds i
  | .level _ => True

instance (s : Startup) : DecidablePred (NoRace s)
  | .build i => inferInstanceAs (Decidable (¬ Races s.builds i))
  | .level _ => inferInstanceAs (Decidable True)

lemma gateImpliesLogger_iff (s : Startup) :
    s.GateImpliesLogger ↔ (s.builds.globals.maxLevel ≠ 0 → s.builds.globals.logger.isSome = true) := by
  constructor
  · intro h hm
    refine h .error (decide_eq_true (UInt8.le_iff_toNat_le.mpr ?_))
    exact Nat.one_le_iff_ne_zero.mpr fun hz => hm (UInt8.toNat_inj.mp hz)
  · intro h level hl
    refine h fun hz => ?_
    rw [Globals.logEnabled, hz] at hl
    cases level <;> exact absurd hl (by decide)

lemma asU8_ne_zero_iff (level : LevelFilter) : level.asU8 ≠ 0 ↔ level ≠ .off := by
  cases level <;> decide

lemma startup_cases {s t : Startup} {a : StartupAction} (h : startupStep s a = some t) :
    (∃ i, a = .build i ∧ buildStep s.builds i = some t.builds ∧ t.threads = s.threads) ∨
      ∃ b, a = .level b ∧ LevelTurn s.levels b t.levels ∧ t.builds.calls = s.builds.calls := by
  cases a with
  | build i =>
    obtain ⟨b, hb, rfl⟩ := Option.map_eq_some_iff.mp h
    exact .inl ⟨i, rfl, hb, rfl⟩
  | level b =>
    obtain ⟨l, hl, rfl⟩ := Option.map_eq_some_iff.mp h
    exact .inr ⟨b, rfl, setLevel_turn hl, rfl⟩

lemma LevelTurn.logger {s t : Levels} {a : LevelAction} (h : LevelTurn s a t) :
    t.globals.logger = s.globals.logger ∧ t.globals.colorEnabled = s.globals.colorEnabled := by
  cases h <;> exact ⟨rfl, rfl⟩

def LoggerSet (s : Startup) : Prop :=
  ∀ (i : ℕ) (c : BuildCall), s.builds.calls[i]? = some c → c.pc.published = true →
    s.builds.globals.logger.isSome = true

lemma BuildTurn.logger_isSome {i : ℕ} {c : BuildCall} {g g' : Globals} {pc : BuildPc} (h : BuildTurn i c g pc g')
    (hl : g.logger.isSome = true) : g'.logger.isSome = true := by
  cases h with
  | setLogger => simp
  | _ => exact hl

lemma LoggerSet.step {s t : Startup} {a : StartupAction} (hs : LoggerSet s) (h : startupStep s a = some t) :
    LoggerSet t := by
  rcases startup_cases h with ⟨i, -, hb, -⟩ | ⟨b, -, hl, hcalls⟩
  · obtain ⟨c, pc, g, hc, hturn, ht⟩ := buildStep_turn hb
    intro j d hd hp
    rw [ht] at hd ⊢
    rcases calls_set hc hd with ⟨-, rfl⟩ | ⟨-, hd⟩
    · cases hturn with
      | setLogger => simp
      | storeLevel hpc => exact hs i c hc (by rw [hpc]; rfl)
      | setLogCrate hpc => exact hs i c hc (by rw [hpc]; rfl)
      | _ => cases hp
    · exact hturn.logger_isSome (hs j d hd hp)
  · intro j d hd hp
    have hlog : t.builds.globals.logger = s.builds.globals.logger := hl.logger.1
    rw [hlog]
    exact hs j d (hcalls ▸ hd) hp

lemma gate_step_iff {s t : Startup} {a : StartupAction} (hs : LoggerSet s) (hg : s.GateImpliesLogger)
    (h : startupStep s a = some t) : t.GateImpliesLogger ↔ NotBeforeLogger s a := by
  rw [gateImpliesLogger_iff] at hg ⊢
  rcases startup_cases h with ⟨i, rfl, hb, -⟩ | ⟨b, rfl, hl, -⟩
  · refine iff_of_true (fun hm => ?_) trivial
    obtain ⟨c, pc, g, hc, hturn, ht⟩ := buildStep_turn hb
    rw [ht] at hm ⊢
    cases hturn with
    | storeLevel hpc => exact hs i c hc (by rw [hpc]; rfl)
    | setLogger => simp
    | _ => exact hg hm
  · change (t.levels.globals.maxLevel ≠ 0 → t.levels.globals.logger.isSome = true) ↔ _
    generalize t.levels = l at hl ⊢
    cases hl with
    | call => exact iff_of_true hg trivial
    | @storeMax p level hp =>
      have hthread : s.threads p = .storeMax level := hp
      simp only [NotBeforeLogger, hthread, SetLevelPc.storeMax.injEq, forall_eq']
      exact imp_congr_left (asU8_ne_zero_iff level)
    | @storeLog p level hp =>
      have hthread : s.threads p = .storeLog level := hp
      simp only [NotBeforeLogger, hthread, reduceCtorEq, false_imp_iff, implies_true, iff_true]
      exact hg

lemma start_at_check {builders : List InqJetBuilder} {i : ℕ} {c : BuildCall}
    (hc : (Builds.start builders).calls[i]? = some c) : c.pc = .check := by
  simp only [Builds.start, List.getElem?_map, Option.map_eq_some_iff] at hc
  obtain ⟨b, -, rfl⟩ := hc
  rfl

def Startup.start (builders : List InqJetBuilder) : Startup := { builds := .start builders }

/-- However calls of `build` and of `set_level` interleave: a macro that passes its level gate finds a logger
throughout the run, exactly when no call of `set_level` opens the gate before `LOGGER` has been set. -/
theorem open_gate_has_logger_iff (builders : List InqJetBuilder) (t : Startup) (tr : List (Startup × StartupAction))
    (h : Run startupStep (.start builders) tr t) :
    Throughout Startup.GateImpliesLogger tr t ↔ Along NotBeforeLogger tr := by
  have hset : LoggerSet (.start builders) := fun i c hc hp => by simp [start_at_check hc, BuildPc.published] at hp
  have hclosed : (Startup.start builders).GateImpliesLogger :=
    (gateImpliesLogger_iff _).mpr fun hm => (hm rfl).elim
  exact h.throughout_iff (I := LoggerSet) (fun _ _ _ hs ha => hs.step ha)
    (fun _ _ _ hs hg ha => gate_step_iff hs hg ha) hset hclosed

def levelDuringBuild : List StartupAction :=
  [.build 0, .build 0, .build 0, .level (.call 7 .trace), .build 0, .level (.store 7), .build 0, .level (.store 7)]

theorem open_gate_has_logger_iff_during : ∃ t tr, Run startupStep (.start [consoleBuilder]) tr t ∧
    t.builds.globals.maxLevel = 5 ∧ (Throughout Startup.GateImpliesLogger tr t ↔ Along NotBeforeLogger tr) := by
  have hrun : (exec startupStep (.start [consoleBuilder]) levelDuringBuild).map
      (fun s => s.builds.globals.maxLevel) = some 5 := by decide
  obtain ⟨t, ⟨tr, ht⟩, hm⟩ := reachable_of_exec_map hrun
  exact ⟨t, tr, ht, hm, open_gate_has_logger_iff [consoleBuilder] t tr ht⟩

structure CallSettled (g : Globals) (c : BuildCall) : Prop where
  configured : c.pc.inWindow = true ∨ c.pc.published = true → c.builder.wr = true ∧ c.builder.level.isSome = true
  colored : c.pc.published = true ∨ (∃ level, c.pc = .setLogger level) →
    g.colorEnabled = isColorEnabled c.builder.env c.builder.colorMode

structure StartupInv (s : Builds) : Prop where
  build : BuildInv s
  settled : ∀ (i : ℕ) (c : BuildCall), s.calls[i]? = some c → CallSettled s.globals c
  owner : ∀ i, s.globals.logger = some i → ∃ c, s.calls[i]? = some c ∧ c.pc.published = true

lemma settled_set {s : Builds} {i : ℕ} {c : BuildCall} (hc : s.calls[i]? = some c)
    {pc : BuildPc} {g : Globals} (hown : CallSettled g { c with pc := pc })
    (hrest : ∀ (j : ℕ) (d : BuildCall), j ≠ i → s.calls[j]? = some d → CallSettled g d) (j : ℕ) (d : BuildCall)
    (hd : (s.calls.set i { c with pc := pc })[j]? = some d) : CallSettled g d := by
  rcases calls_set hc hd with ⟨-, rfl⟩ | ⟨hj, hd⟩
  · exact hown
  · exact hrest j d hj hd

lemma StartupInv.owned {s : Builds} (hs : StartupInv s) {i : ℕ} {c : BuildCall} (hc : s.calls[i]? = some c)
    {pc : BuildPc} (hp : c.pc.published = true → pc.published = true) (j : ℕ) (hj : s.globals.logger = some j) :
    ∃ d, (s.calls.set i { c with pc := pc })[j]? = some d ∧ d.pc.published = true := by
  obtain ⟨d, hd, hdp⟩ := hs.owner j hj
  rcases eq_or_ne j i with rfl | hji
  · obtain rfl := Option.some.inj (hc.symm.trans hd)
    exact ⟨_, List.getElem?_set_self (List.getElem?_eq_some_iff.mp hc).1, hp hdp⟩
  · exact ⟨d, by rw [List.getElem?_set_ne (Ne.symm hji)]; exact hd, hdp⟩

lemma StartupInv.step {s t : Builds} {i : ℕ} (hs : StartupInv s) (hr : ¬ Races s i)
    (h : buildStep s i = some t) : StartupInv t := by
  have hbuild := hs.build.step hr h
  obtain ⟨c, pc, g, hc, hturn, rfl⟩ := buildStep_turn h
  have hown := hs.settled i c hc
  have hkeep (hg : g.colorEnabled = s.globals.colorEnabled) (j : ℕ) (d : BuildCall) (_ : j ≠ i)
      (hd : s.calls[j]? = some d) : CallSettled g d :=
    ⟨(hs.settled j d hd).configured, fun hp => hg.trans ((hs.settled j d hd).colored hp)⟩
  cases hturn with
  | reject hpc =>
    refine ⟨hbuild, settled_set hc ⟨by simp [BuildPc.inWindow, BuildPc.published], by simp [BuildPc.published]⟩
      (hkeep rfl), hs.owned hc (by simp [hpc, BuildPc.published])⟩
  | enter hpc hnone hw hlev =>
    refine ⟨hbuild, settled_set hc ⟨fun _ => ⟨hw, by simp [hlev]⟩, by simp [BuildPc.published]⟩ (hkeep rfl),
      hs.owned hc (by simp [hpc, BuildPc.published])⟩
  | @storeColor level hpc =>
    have hw : c.pc.inWindow = true := by rw [hpc]; rfl
    refine ⟨hbuild, settled_set hc ⟨fun _ => hown.configured (.inl hw), fun _ => rfl⟩ ?_,
      hs.owned hc (by simp [hpc, BuildPc.published])⟩
    -- no other call has read or will read the colour: this one alone is in the window
    intro j d hj hd
    refine ⟨(hs.settled j d hd).configured, ?_⟩
    rintro (hp | ⟨other, hp⟩)
    · have hset := hs.build.set j d hd hp
      rw [hs.build.empty i c hc hw] at hset
      cases hset
    · exact (hj (hs.build.window j i d c hd hc (by rw [hp]; rfl) hw)).elim
  | @setLogger level hpc =>
    have hw : c.pc.inWindow = true := by rw [hpc]; rfl
    refine ⟨hbuild, settled_set hc ⟨fun _ => hown.configured (.inl hw), fun _ => hown.colored (.inr ⟨level, hpc⟩)⟩
      (hkeep rfl), fun j hj => ?_⟩
    simp only [hs.build.empty i c hc hw, Option.none_or, Option.some.injEq] at hj
    obtain rfl := hj
    exact ⟨_, List.getElem?_set_self (List.getElem?_eq_some_iff.mp hc).1, rfl⟩
  | storeLevel hpc =>
    have hp : c.pc.published = true := by rw [hpc]; rfl
    exact ⟨hbuild, settled_set hc ⟨fun _ => hown.configured (.inr hp), fun _ => hown.colored (.inl hp)⟩ (hkeep rfl),
      hs.owned hc fun _ => rfl⟩
  | setLogCrate hpc =>
    have hp : c.pc.published = true := by rw [hpc]; rfl
    exact ⟨hbuild, settled_set hc ⟨fun _ => hown.configured (.inr hp), fun _ => hown.colored (.inl hp)⟩ (hkeep rfl),
      hs.owned hc fun _ => rfl⟩

lemma BuildInv.congr {s : Builds} (hs : BuildInv s) {g : Globals} (hl : g.logger = s.globals.logger) :
    BuildInv ⟨g, s.calls⟩ :=
  ⟨hs.window, fun i c hc hw => hl.trans (hs.empty i c hc hw), fun i c hc hp => hl.trans (hs.set i c hc hp)⟩

lemma StartupInv.congr {s : Builds} (hs : StartupInv s) {g : Globals} (hl : g.logger = s.globals.logger)
    (hc : g.colorEnabled = s.globals.colorEnabled) : StartupInv ⟨g, s.calls⟩ :=
  ⟨hs.build.congr hl,
    fun i c hi => ⟨(hs.settled i c hi).configured, fun hp => hc.trans ((hs.settled i c hi).colored hp)⟩,
    fun i hi => hs.owner i (hl ▸ hi)⟩

lemma StartupInv.startup {s t : Startup} {a : StartupAction} (hs : StartupInv s.builds) (hr : NoRace s a)
    (h : startupStep s a = some t) : StartupInv t.builds := by
  rcases startup_cases h with ⟨i, rfl, hb, -⟩ | ⟨b, rfl, hl, hcalls⟩
  · exact hs.step hr hb
  · have ht : t.builds = ⟨t.levels.globals, s.builds.calls⟩ := by rw [← hcalls]; rfl
    rw [ht]
    exact hs.congr hl.logger.1 hl.logger.2

/-- While no build races with another, whoever finds `LOGGER` set finds the settings of the one call that has
set it: it was configured, its colour is in place for good, and no other call has passed it. -/
theorem settings_published_together (builders : List InqJetBuilder) (t : Startup)
    (tr : List (Startup × StartupAction)) (h : Run startupStep (.start builders) tr t) (hc : Along NoRace tr) :
    Throughout (fun s => ∀ i, s.builds.globals.logger = some i → s.SettledBy i ∧
      ∀ (j : ℕ) (d : BuildCall), s.builds.calls[j]? = some d → d.pc.published = true → j = i) tr t := by
  have hinit : StartupInv (Builds.start builders) := by
    refine ⟨buildInv_start builders, fun i c hc => ⟨?_, ?_⟩, by rintro i ⟨⟩⟩
    · simp [start_at_check hc, BuildPc.inWindow, BuildPc.published]
    · simp [start_at_check hc, BuildPc.published]
  have hinv := h.guarded (I := fun s => StartupInv s.builds) (fun _ _ _ hs hr ha => hs.startup hr ha) hinit hc
  refine hinv.imp fun s hs i hi => ⟨?_, fun j d hd hp => ?_⟩
  · obtain ⟨c, hci, hp⟩ := hs.owner i hi
    have hset := hs.settled i c hci
    exact ⟨c, hci, hp, (hset.configured (.inr hp)).1, (hset.configured (.inr hp)).2, hset.colored (.inl hp)⟩
  · exact Option.some.inj ((hs.build.set j d hd hp).symm.trans hi)

theorem settings_published_together_second : ∃ t tr,
    Run startupStep (.start [{ consoleBuilder with level := none }, consoleBuilder]) tr t ∧
    t.builds.globals.logger = some 1 ∧
    Throughout (fun s => ∀ i, s.builds.globals.logger = some i → s.SettledBy i ∧
      ∀ (j : ℕ) (d : BuildCall), s.builds.calls[j]? = some d → d.pc.published = true → j = i) tr t := by
  let builders := [{ consoleBuilder with level := none }, consoleBuilder]
  have hrun : (exec (onlyIf startupStep NoRace) (.start builders)
      [.build 1, .level (.call 0 .debug), .build 0, .build 1, .level (.store 0), .build 1]).map
      (fun s => s.builds.globals.logger) = some (some 1) := by decide
  obtain ⟨t, tr, ht, hc, hv⟩ := run_of_exec_onlyIf hrun
  exact ⟨t, tr, ht, hv, settings_published_together builders t tr ht hc⟩

end InqJet
