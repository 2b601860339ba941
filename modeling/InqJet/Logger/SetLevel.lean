import InqJet.Builder

namespace InqJet

open Function Runs

inductive Level
  | error
  | warn
  | info
  | debug
  | trace
  deriving DecidableEq

def levelToU8 : Level → UInt8
  | .error => 1
  | .warn => 2
  | .info => 3
  | .debug => 4
  | .trace => 5

def Globals.logEnabled (g : Globals) (level : UInt8) : Bool := level ≤ g.maxLevel

/-- A `log` macro compares with the crate's own maximum before it calls `Log::log`. -/
def Globals.logMacroEnabled (g : Globals) (level : Level) : Bool :=
  levelToU8 level ≤ g.logMaxLevel.asU8 && g.logEnabled (levelToU8 level)

inductive SetLevelPc
  | idle
  | storeMax (level : LevelFilter)
  | storeLog (level : LevelFilter)
  deriving DecidableEq

structure Levels where
  globals : Globals
  threads : ℕ → SetLevelPc := fun _ => .idle

inductive LevelAction
  | call (p : ℕ) (level : LevelFilter)
  | store (p : ℕ)

def setLevelStep (s : Levels) : LevelAction → Option Levels
  | .call p level =>
    match s.threads p with
    | .idle => some { s with threads := update s.threads p (.storeMax level) }
    | _ => none
  | .store p =>
    match s.threads p with
    | .idle => none
    | .storeMax level =>
      some ⟨{ s.globals with maxLevel := level.asU8 }, update s.threads p (.storeLog level)⟩
    | .storeLog level =>
      some ⟨{ s.globals with logMaxLevel := level }, update s.threads p .idle⟩

def Globals.SameLevel (g : Globals) : Prop := g.maxLevel = g.logMaxLevel.asU8

/-- When no call is in progress, the two copies denote one filter, and the macros of both fronts are
enabled for the same levels. -/
def GatesAgree (s : Levels) : Prop :=
  (∀ p, s.threads p = .idle) →
    s.globals.SameLevel ∧ ∀ level, s.globals.logMacroEnabled level = s.globals.logEnabled (levelToU8 level)

def NotOverwritten (s : Levels) : LevelAction → Prop
  | .call _ _ => True
  | .store p => ∀ level, s.threads p = .storeLog level → (∀ q ≠ p, s.threads q = .idle) →
    s.globals.maxLevel = level.asU8

def Undisturbed (s : Levels) : LevelAction → Prop
  | .call _ _ => True
  | .store p => ∀ level, s.threads p = .storeMax level → ∀ q other, s.threads q = .storeLog other → other = level

structure BuildLevels (s : Builds) : Prop where
  inv : BuildInv s
  settled : (∀ i level, ¬ s.At i (.setLogCrate level)) → s.globals.SameLevel
  storing : ∀ i level, s.At i (.setLogCrate level) → s.globals.maxLevel = level.asU8

lemma at_set {calls : List BuildCall} {g g' : Globals} {i j : ℕ} {c : BuildCall} {pc pc' : BuildPc}
    (hc : calls[i]? = some c) (h : Builds.At ⟨g, calls.set i { c with pc := pc }⟩ j pc') :
    j = i ∧ pc' = pc ∨ j ≠ i ∧ Builds.At ⟨g', calls⟩ j pc' := by
  obtain ⟨d, hd, rfl⟩ := h
  rcases calls_set hc hd with ⟨hj, rfl⟩ | ⟨hj, hd⟩
  · exact .inl ⟨hj, rfl⟩
  · exact .inr ⟨hj, d, hd, rfl⟩

lemma at_of_ne {calls : List BuildCall} {g g' : Globals} {i j : ℕ} {c : BuildCall} {pc : BuildPc} (hj : j ≠ i)
    (h : Builds.At ⟨g, calls⟩ j pc) : Builds.At ⟨g', calls.set i c⟩ j pc := by
  obtain ⟨d, hd, rfl⟩ := h
  exact ⟨d, by rw [List.getElem?_set_ne (Ne.symm hj)]; exact hd, rfl⟩

lemma BuildLevels.keep {s : Builds} (hs : BuildLevels s) {i : ℕ} {c : BuildCall} {pc : BuildPc} {g : Globals}
    (hc : s.calls[i]? = some c) (hinv : BuildInv ⟨g, s.calls.set i { c with pc := pc }⟩)
    (hmax : g.maxLevel = s.globals.maxLevel) (hlog : g.logMaxLevel = s.globals.logMaxLevel)
    (hold : ∀ level, c.pc ≠ .setLogCrate level) (hnew : ∀ level, pc ≠ .setLogCrate level) :
    BuildLevels ⟨g, s.calls.set i { c with pc := pc }⟩ := by
  refine ⟨hinv, fun hno => ?_, fun j level hj => ?_⟩
  · have hsame := hs.settled fun j level hj => by
      rcases eq_or_ne j i with rfl | hji
      · obtain ⟨d, hd, hpc⟩ := hj
        obtain rfl := Option.some.inj (hc.symm.trans hd)
        exact hold level hpc
      · exact hno j level (at_of_ne hji hj)
    rwa [Globals.SameLevel, ← hmax, ← hlog] at hsame
  · rcases at_set hc hj with ⟨-, hpc⟩ | ⟨-, hj⟩
    · exact (hnew level hpc.symm).elim
    · exact hmax.trans (hs.storing j level hj)

lemma BuildLevels.step {s t : Builds} {i : ℕ} (hs : BuildLevels s) (hr : ¬ Races s i)
    (h : buildStep s i = some t) : BuildLevels t := by
  have hinv := hs.inv.step hr h
  obtain ⟨c, pc, g, hc, hturn, rfl⟩ := buildStep_turn h
  -- past `LOGGER`, call `i` is the only one
  have halone (hp : c.pc.published = true) {j : ℕ} {level : LevelFilter} (hj : s.At j (.setLogCrate level)) :
      j = i := by
    obtain ⟨d, hd, hpc⟩ := hj
    have hset := hs.inv.set j d hd (by rw [hpc]; rfl)
    rw [hs.inv.set i c hc hp] at hset
    exact (Option.some.inj hset).symm
  cases hturn with
  | reject hpc => exact hs.keep hc hinv rfl rfl (by simp [hpc]) (by simp)
  | enter hpc => exact hs.keep hc hinv rfl rfl (by simp [hpc]) (by simp)
  | storeColor hpc => exact hs.keep hc hinv rfl rfl (by simp [hpc]) (by simp)
  | setLogger hpc => exact hs.keep hc hinv rfl rfl (by simp [hpc]) (by simp)
  | @storeLevel level hpc =>
    refine ⟨hinv, fun hno => (hno i level ?_).elim, fun j other hj => ?_⟩
    · exact ⟨_, List.getElem?_set_self (List.getElem?_eq_some_iff.mp hc).1, rfl⟩
    · rcases at_set hc hj with ⟨-, heq⟩ | ⟨hji, hj⟩
      · obtain rfl := BuildPc.setLogCrate.inj heq
        rfl
      · exact (hji (halone (by rw [hpc]; rfl) hj)).elim
  | @setLogCrate level hpc =>
    refine ⟨hinv, fun _ => hs.storing i level ⟨c, hc, hpc⟩, fun j other hj => ?_⟩
    rcases at_set hc hj with ⟨-, heq⟩ | ⟨hji, hj⟩
    · cases heq
    · exact (hji (halone (by rw [hpc]; rfl) hj)).elim

theorem builds_same_level {builders : List InqJetBuilder} {t : Builds} {tr : List (Builds × ℕ)}
    (h : Run buildStep (.start builders) tr t) (hc : Along (fun s i => ¬ Races s i) tr)
    (hq : ∀ i level, ¬ t.At i (.setLogCrate level)) : t.globals.SameLevel := by
  have hstart : BuildLevels (.start builders) := by
    refine ⟨buildInv_start builders, fun _ => rfl, fun i level hi => ?_⟩
    obtain ⟨c, hc, hpc⟩ := hi
    simp only [Builds.start, List.getElem?_map, Option.map_eq_some_iff] at hc
    obtain ⟨b, -, rfl⟩ := hc
    cases hpc
  have hinv := h.guarded (fun _ _ _ hs hc ha => BuildLevels.step hs hc ha) hstart hc
  exact hinv.1.settled hq

lemma gatesAgree_iff (s : Levels) : GatesAgree s ↔ ((∀ p, s.threads p = .idle) → s.globals.SameLevel) := by
  refine forall_congr' fun _ => ⟨And.left, fun h => ⟨h, fun level => ?_⟩⟩
  have hm : s.globals.logMaxLevel.asU8 = s.globals.maxLevel := h.symm
  simp only [Globals.logMacroEnabled, Globals.logEnabled, hm, Bool.and_self]

lemma idle_update {threads : ℕ → SetLevelPc} {p : ℕ} {pc : SetLevelPc} :
    (∀ q, update threads p pc q = .idle) ↔ pc = .idle ∧ ∀ q ≠ p, threads q = .idle := by
  constructor
  · intro h
    refine ⟨by simpa using h p, fun q hq => ?_⟩
    have hh := h q
    rwa [update_of_ne hq] at hh
  · rintro ⟨rfl, h⟩ q
    by_cases hq : q = p
    · rw [hq, update_self]
    · rw [update_of_ne hq]
      exact h q hq

inductive LevelTurn (s : Levels) : LevelAction → Levels → Prop
  | call {p level} : s.threads p = .idle →
      LevelTurn s (.call p level) { s with threads := update s.threads p (.storeMax level) }
  | storeMax {p level} : s.threads p = .storeMax level →
      LevelTurn s (.store p) ⟨{ s.globals with maxLevel := level.asU8 }, update s.threads p (.storeLog level)⟩
  | storeLog {p level} : s.threads p = .storeLog level →
      LevelTurn s (.store p) ⟨{ s.globals with logMaxLevel := level }, update s.threads p .idle⟩

lemma setLevel_turn {s t : Levels} {a : LevelAction} (h : setLevelStep s a = some t) : LevelTurn s a t := by
  cases a with
  | call p level =>
    simp only [setLevelStep] at h
    split at h
    case h_1 hp => exact Option.some.inj h ▸ .call hp
    case h_2 => cases h
  | store p =>
    simp only [setLevelStep] at h
    split at h
    case h_1 => cases h
    case h_2 hp => exact Option.some.inj h ▸ .storeMax hp
    case h_3 hp => exact Option.some.inj h ▸ .storeLog hp

lemma step_gatesAgree_iff {s t : Levels} {a : LevelAction} (h : setLevelStep s a = some t) :
    GatesAgree t ↔ NotOverwritten s a := by
  rw [gatesAgree_iff]
  cases setLevel_turn h with
  | call => simp [idle_update, NotOverwritten]
  | storeMax hp => simp [idle_update, NotOverwritten, hp]
  | storeLog hp => simp [idle_update, NotOverwritten, hp, Globals.SameLevel]

/-- The gates agree throughout a run exactly when each call that ends alone still finds its own level in
`MAX_LEVEL` at its second store. -/
theorem gates_agree_iff (g : Globals) (hg : g.SameLevel) (t : Levels) (tr : List (Levels × LevelAction))
    (h : Run setLevelStep ⟨g, fun _ => .idle⟩ tr t) :
    Throughout GatesAgree tr t ↔ Along NotOverwritten tr := by
  refine h.throughout_iff (I := fun _ => True) (fun _ _ _ _ _ => trivial)
    (fun _ _ _ _ _ ha => step_gatesAgree_iff ha) trivial ?_
  exact (gatesAgree_iff _).mpr fun _ => hg

def warnThenTrace : List LevelAction :=
  [.call 0 .warn, .store 0, .call 1 .trace, .store 0, .store 1, .store 1]

theorem gates_agree_iff_warn : ∃ t tr, Run setLevelStep ⟨{}, fun _ => .idle⟩ tr t ∧
    t.globals.logMaxLevel = .trace ∧ (Throughout GatesAgree tr t ↔ Along NotOverwritten tr) := by
  have hrun : (exec setLevelStep ⟨{}, fun _ => .idle⟩ warnThenTrace).map (fun s => s.globals.logMaxLevel) =
      some .trace := by decide
  obtain ⟨t, ⟨tr, ht⟩, hl⟩ := reachable_of_exec_map hrun
  exact ⟨t, tr, ht, hl, gates_agree_iff {} rfl t tr ht⟩

structure OwnLevel (s : Levels) : Prop where
  agree : GatesAgree s
  own : ∀ p level, s.threads p = .storeLog level → s.globals.maxLevel = level.asU8

lemma OwnLevel.step {s t : Levels} {a : LevelAction} (hs : OwnLevel s) (hc : Undisturbed s a)
    (h : setLevelStep s a = some t) : OwnLevel t := by
  have ht : NotOverwritten s a := by
    cases a with
    | call => trivial
    | store p => exact fun level hp _ => hs.own p level hp
  refine ⟨(step_gatesAgree_iff h).mpr ht, fun q other hq => ?_⟩
  cases setLevel_turn h with
  | @call p level hp =>
    rcases eq_or_ne q p with rfl | hqp
    · simp at hq
    · exact hs.own q other (by simpa [hqp] using hq)
  | @storeMax p level hp =>
    rcases eq_or_ne q p with rfl | hqp
    · obtain rfl : level = other := by simpa using hq
      rfl
    · obtain rfl := hc level hp q other (by simpa [hqp] using hq)
      rfl
  | @storeLog p level hp =>
    rcases eq_or_ne q p with rfl | hqp
    · simp at hq
    · exact hs.own q other (by simpa [hqp] using hq)

theorem undisturbed_gates_agree {g : Globals} (hg : g.SameLevel) {t : Levels} {tr : List (Levels × LevelAction)}
    (h : Run setLevelStep ⟨g, fun _ => .idle⟩ tr t) (hc : Along Undisturbed tr) : Throughout GatesAgree tr t := by
  have hstart : OwnLevel ⟨g, fun _ => .idle⟩ := ⟨(gatesAgree_iff _).mpr fun _ => hg, by rintro p level ⟨⟩⟩
  exact (h.guarded (fun _ _ _ hs hc ha => OwnLevel.step hs hc ha) hstart hc).imp fun _ hs => hs.agree

def nestedCalls : List LevelAction := [.call 0 .info, .call 1 .debug, .store 0, .store 1, .store 1, .store 0]

theorem nested_calls_disagree : ∃ s, Reachable setLevelStep ⟨{}, fun _ => .idle⟩ s ∧
    (∀ p, s.threads p = .idle) ∧ ¬ GatesAgree s := by
  have hrun : ∃ s, exec setLevelStep ⟨{}, fun _ => .idle⟩ nestedCalls = some s ∧ (∀ p, s.threads p = .idle) ∧
      s.globals.maxLevel = 4 ∧ s.globals.logMaxLevel = .info := by
    refine ⟨_, rfl, fun p => ?_, rfl, rfl⟩
    rcases p with _ | _ | p <;> rfl
  obtain ⟨s, hs, hidle, hmax, hlog⟩ := hrun
  refine ⟨s, exec_reachable hs, hidle, fun hg => ?_⟩
  have hsame : s.globals.maxLevel = s.globals.logMaxLevel.asU8 := (hg hidle).1
  rw [hmax, hlog] at hsame
  exact absurd hsame (by decide)

end InqJet
