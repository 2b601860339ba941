import Mathlib.Tactic

/-! Finite runs of a partial step function. The trace of a run lists every step
taken, as the state before it and the action. -/

namespace Runs

variable {σ α β : Type*} (step : σ → α → Option σ)

inductive Run (s : σ) : List (σ × α) → σ → Prop
  | nil : Run s [] s
  | snoc {tr t a u} : Run s tr t → step t a = some u → Run s (tr ++ [(t, a)]) u

def Reachable (s t : σ) : Prop := ∃ tr, Run step s tr t

def Along (C : σ → α → Prop) (tr : List (σ × α)) : Prop := ∀ p ∈ tr, C p.1 p.2

def Throughout (P : σ → Prop) (tr : List (σ × α)) (t : σ) : Prop := P t ∧ ∀ p ∈ tr, P p.1

def events (f : σ → α → Option β) (tr : List (σ × α)) : List β := tr.filterMap fun p => f p.1 p.2

def total (c : σ → α → ℕ) (tr : List (σ × α)) : ℕ := (tr.map fun p => c p.1 p.2).sum

variable {step}

@[simp] lemma events_nil (f : σ → α → Option β) : events f [] = [] := rfl

@[simp] lemma events_snoc (f : σ → α → Option β) (tr : List (σ × α)) (t : σ) (a : α) :
    events f (tr ++ [(t, a)]) = events f tr ++ (f t a).toList := by
  rw [events, events, List.filterMap_append]
  cases h : f t a <;> simp [h]

lemma events_filterMap {γ : Type*} (f : σ → α → Option β) (g : β → Option γ) (tr : List (σ × α)) :
    (events f tr).filterMap g = events (fun s a => (f s a).bind g) tr := by
  rw [events, List.filterMap_filterMap]
  rfl

lemma events_actions (tr : List (σ × α)) : events (fun _ a => some a) tr = tr.map Prod.snd := by
  rw [events, ← List.filterMap_eq_map]
  rfl

@[simp] lemma total_nil (c : σ → α → ℕ) : total c [] = 0 := rfl

@[simp] lemma total_snoc (c : σ → α → ℕ) (tr : List (σ × α)) (t : σ) (a : α) :
    total c (tr ++ [(t, a)]) = total c tr + c t a := by
  simp [total]

lemma total_append (c : σ → α → ℕ) (tr tr' : List (σ × α)) : total c (tr ++ tr') = total c tr + total c tr' := by
  simp [total]

lemma along_snoc {C : σ → α → Prop} {tr : List (σ × α)} {t : σ} {a : α} :
    Along C (tr ++ [(t, a)]) ↔ Along C tr ∧ C t a := by
  simp [Along, or_imp, forall_and]

lemma throughout_snoc {P : σ → Prop} {tr : List (σ × α)} {t u : σ} {a : α} :
    Throughout P (tr ++ [(t, a)]) u ↔ P u ∧ Throughout P tr t := by
  simp only [Throughout, List.forall_mem_append, List.forall_mem_singleton]
  rw [and_comm (a := P t)]

lemma Throughout.imp {P Q : σ → Prop} {tr : List (σ × α)} {t : σ} (h : Throughout P tr t) (hPQ : ∀ s, P s → Q s) :
    Throughout Q tr t :=
  ⟨hPQ t h.1, fun p hp => hPQ p.1 (h.2 p hp)⟩

lemma Run.cons {s t u : σ} {a : α} {tr : List (σ × α)} (ha : step s a = some t) (h : Run step t tr u) :
    Run step s ((s, a) :: tr) u := by
  induction h with
  | nil => exact @Run.snoc _ _ _ _ [] _ _ _ .nil ha
  | snoc _ hs ih => exact .snoc ih hs

theorem Run.guarded {I : σ → Prop} {C : σ → α → Prop}
    (hstep : ∀ s a t, I s → C s a → step s a = some t → I t) {s t : σ} {tr : List (σ × α)}
    (h : Run step s tr t) (hs : I s) (hc : Along C tr) : Throughout I tr t := by
  induction h with
  | nil => exact ⟨hs, by simp⟩
  | @snoc tr t a u _ ha ih =>
    obtain ⟨hc, hca⟩ := along_snoc.mp hc
    have ht := ih hc
    apply throughout_snoc.mpr
    exact ⟨hstep t a u ht.1 hca ha, ht⟩

theorem Run.invariant {I : σ → Prop} (hstep : ∀ s a t, I s → step s a = some t → I t) {s t : σ}
    {tr : List (σ × α)} (h : Run step s tr t) (hs : I s) : Throughout I tr t :=
  h.guarded (C := fun _ _ => True) (fun s a t hi _ ha => hstep s a t hi ha) hs (fun _ _ => trivial)

/-- When a step keeps `P` exactly if it meets `C`, so does a run. `I` is what holds anyway. -/
theorem Run.throughout_iff {I P : σ → Prop} {C : σ → α → Prop}
    (hI : ∀ s a t, I s → step s a = some t → I t)
    (hP : ∀ s a t, I s → P s → step s a = some t → (P t ↔ C s a)) {s t : σ} {tr : List (σ × α)}
    (h : Run step s tr t) (hi : I s) (hp : P s) : Throughout P tr t ↔ Along C tr := by
  induction h with
  | nil => simp [Throughout, Along, hp]
  | @snoc tr t a u hr ha ih =>
    have ht : I t := (hr.invariant hI hi).1
    rw [along_snoc, throughout_snoc, ← ih]
    constructor
    · rintro ⟨hu, hp⟩
      exact ⟨hp, (hP t a u ht hp.1 ha).mp hu⟩
    · rintro ⟨hp, hc⟩
      exact ⟨(hP t a u ht hp.1 ha).mpr hc, hp⟩

lemma Run.backwards {P : σ → Prop} (hP : ∀ s a t, step s a = some t → P t → P s) {s t : σ} {tr : List (σ × α)}
    (h : Run step s tr t) (ht : P t) : Throughout P tr t := by
  induction h with
  | nil => exact ⟨ht, by simp⟩
  | @snoc tr t a u _ ha ih => exact throughout_snoc.mpr ⟨ht, ih (hP t a u ha ht)⟩

lemma Throughout.and {P Q : σ → Prop} {tr : List (σ × α)} {t : σ} (hP : Throughout P tr t)
    (hQ : Throughout Q tr t) : Throughout (fun s => P s ∧ Q s) tr t :=
  ⟨⟨hP.1, hQ.1⟩, fun p hp => ⟨hP.2 p hp, hQ.2 p hp⟩⟩

theorem Run.amortized {I : σ → Prop} {V : σ → ℕ} {c g : σ → α → ℕ}
    (hV : ∀ s a t, I s → I t → step s a = some t → V t + c s a ≤ V s + g s a) {s t : σ}
    {tr : List (σ × α)} (h : Run step s tr t) (hI : Throughout I tr t) :
    V t + total c tr ≤ V s + total g tr := by
  induction h with
  | nil => simp
  | @snoc tr t a u hr ha ih =>
    obtain ⟨hu, ht⟩ := throughout_snoc.mp hI
    have hpay := hV t a u ht.1 hu ha
    have hrest := ih ht
    rw [total_snoc, total_snoc]
    omega

lemma Run.trans {s t u : σ} {tr tr' : List (σ × α)} (h : Run step s tr t) (h' : Run step t tr' u) :
    Run step s (tr ++ tr') u := by
  induction h' with
  | nil => simpa using h
  | snoc _ ha ih => exact List.append_assoc tr _ _ ▸ .snoc ih ha

lemma Throughout.append {P : σ → Prop} {tr tr' : List (σ × α)} {t u : σ} (h : Throughout P tr t)
    (h' : Throughout P tr' u) : Throughout P (tr ++ tr') u :=
  ⟨h'.1, List.forall_mem_append.mpr ⟨h.2, h'.2⟩⟩

lemma Reachable.trans {s t u : σ} (h : Reachable step s t) (h' : Reachable step t u) : Reachable step s u := by
  obtain ⟨tr, hr⟩ := h
  obtain ⟨tr', hr'⟩ := h'
  exact ⟨_, hr.trans hr'⟩

lemma Reachable.of_step {s t : σ} {a : α} (h : step s a = some t) : Reachable step s t := ⟨_, Run.nil.snoc h⟩

theorem reaches_of_decreasing {I P : σ → Prop} (V : σ → ℕ)
    (hI : ∀ s, I s → P s ∨ ∃ t, Reachable step s t ∧ I t ∧ V t < V s) (s : σ) (hs : I s) :
    ∃ t, Reachable step s t ∧ I t ∧ P t := by
  induction hn : V s using Nat.strong_induction_on generalizing s with
  | _ n ih =>
    rcases hI s hs with hg | ⟨t, hst, ht, hlt⟩
    · exact ⟨s, ⟨[], .nil⟩, hs, hg⟩
    · obtain ⟨u, hu, hiu, hg⟩ := ih (V t) (hn ▸ hlt) t ht rfl
      exact ⟨u, hst.trans hu, hiu, hg⟩

theorem Reachable.invariant {I : σ → Prop} (hstep : ∀ s a t, I s → step s a = some t → I t) {s t : σ}
    (h : Reachable step s t) (hs : I s) : I t := by
  obtain ⟨tr, hr⟩ := h
  exact (hr.invariant hstep hs).1

lemma Reachable.refl (s : σ) : Reachable step s s := ⟨[], .nil⟩

variable (step) in
def exec (s : σ) : List α → Option σ
  | [] => some s
  | a :: as => (step s a).bind fun t => exec t as

lemma exec_append (s : σ) (as bs : List α) :
    exec step s (as ++ bs) = (exec step s as).bind fun t => exec step t bs := by
  induction as generalizing s with
  | nil => rfl
  | cons a as ih => simp only [List.cons_append, exec, ih, Option.bind_assoc]

lemma exec_snoc (s : σ) (as : List α) (a : α) :
    exec step s (as ++ [a]) = (exec step s as).bind fun t => step t a := by
  rw [exec_append]
  congr 1
  funext t
  cases h : step t a <;> simp [exec, h]

lemma exec_run {s t : σ} {as : List α} (h : exec step s as = some t) :
    ∃ tr, Run step s tr t ∧ tr.map Prod.snd = as := by
  induction as generalizing s with
  | nil => obtain rfl := Option.some.inj h; exact ⟨[], .nil, rfl⟩
  | cons a as ih =>
    obtain ⟨u, hu, ht⟩ := Option.bind_eq_some_iff.mp h
    obtain ⟨tr, hr, hacts⟩ := ih ht
    exact ⟨_, hr.cons hu, congrArg (a :: ·) hacts⟩

lemma exec_reachable {s t : σ} {as : List α} (h : exec step s as = some t) : Reachable step s t := by
  obtain ⟨tr, hr, -⟩ := exec_run h
  exact ⟨tr, hr⟩

lemma reachable_of_exec_map {s : σ} {as : List α} {f : σ → β} {v : β}
    (h : (exec step s as).map f = some v) : ∃ t, Reachable step s t ∧ f t = v := by
  obtain ⟨t, ht, hv⟩ := Option.map_eq_some_iff.mp h
  exact ⟨t, exec_reachable ht, hv⟩

variable (step) in
def onlyIf (C : σ → α → Prop) [∀ s a, Decidable (C s a)] (s : σ) (a : α) : Option σ :=
  if C s a then step s a else none

lemma onlyIf_eq_some {C : σ → α → Prop} [∀ s a, Decidable (C s a)] {s t : σ} {a : α}
    (h : onlyIf step C s a = some t) : C s a ∧ step s a = some t := Option.ite_none_right_eq_some.mp h

lemma Run.of_onlyIf {C : σ → α → Prop} [∀ s a, Decidable (C s a)] {s t : σ} {tr : List (σ × α)}
    (h : Run (onlyIf step C) s tr t) : Run step s tr t ∧ Along C tr := by
  induction h with
  | nil => exact ⟨.nil, by simp [Along]⟩
  | snoc _ ha ih =>
    obtain ⟨hc, ha⟩ := onlyIf_eq_some ha
    exact ⟨.snoc ih.1 ha, along_snoc.mpr ⟨ih.2, hc⟩⟩

lemma Run.onlyIf {C : σ → α → Prop} [∀ s a, Decidable (C s a)] {s t : σ} {tr : List (σ × α)}
    (h : Run step s tr t) (hc : Along C tr) : Run (onlyIf step C) s tr t := by
  induction h with
  | nil => exact .nil
  | snoc _ ha ih =>
    obtain ⟨hc, hca⟩ := along_snoc.mp hc
    exact .snoc (ih hc) (by rw [Runs.onlyIf, if_pos hca, ha])

lemma run_of_exec_onlyIf {C : σ → α → Prop} [∀ s a, Decidable (C s a)] {s : σ} {as : List α} {f : σ → β}
    {v : β} (h : (exec (onlyIf step C) s as).map f = some v) :
    ∃ t tr, Run step s tr t ∧ Along C tr ∧ f t = v := by
  obtain ⟨t, ⟨tr, hr⟩, hv⟩ := reachable_of_exec_map h
  exact ⟨t, tr, hr.of_onlyIf.1, hr.of_onlyIf.2, hv⟩

end Runs
