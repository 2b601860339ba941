import InqJet.Lib.Runs

/-! Forward simulation by an abstraction function. A step of the concrete machine is matched by one
step of the abstract machine, or is not seen there. -/

namespace Runs

variable {σ α τ β : Type*}

structure Simulation (step : σ → α → Option σ) (abstractStep : τ → β → Option τ) where
  inv : σ → Prop
  abs : σ → τ
  seen : σ → α → Option β
  keeps : ∀ s a t, inv s → step s a = some t → inv t
  hidden : ∀ s a t, inv s → step s a = some t → seen s a = none → abs t = abs s
  shown : ∀ s a t b, inv s → step s a = some t → seen s a = some b → abstractStep (abs s) b = some (abs t)

variable {step : σ → α → Option σ} {abstractStep : τ → β → Option τ}

theorem Simulation.replays (m : Simulation step abstractStep) {s t : σ} {tr : List (σ × α)}
    (h : Run step s tr t) (hs : m.inv s) :
    exec abstractStep (m.abs s) (events m.seen tr) = some (m.abs t) := by
  induction h with
  | nil => rfl
  | @snoc tr t a u hr ha ih =>
    have ht : m.inv t := (hr.invariant m.keeps hs).1
    rw [events_snoc]
    cases hb : m.seen t a with
    | none => simpa [m.hidden t a u ht ha hb] using ih
    | some b =>
      rw [Option.toList_some, exec_snoc, ih, Option.bind_some]
      exact m.shown t a u b ht ha hb

theorem Simulation.invariant (m : Simulation step abstractStep) {P : τ → Prop}
    (hP : ∀ s b t, P s → abstractStep s b = some t → P t) {s t : σ} {tr : List (σ × α)}
    (h : Run step s tr t) (hs : m.inv s) (hp : P (m.abs s)) : P (m.abs t) :=
  (exec_reachable (m.replays h hs)).invariant hP hp

end Runs
