import Mathlib.Tactic

/-! A queue with two-phase enqueueing: a producer claims the next slot and commits it later.
Committed slots are handed out in the order of the claims; the oldest slot blocks the others
until it is committed. Slots are never forgotten, `head` of them have been consumed. -/

namespace ClaimQueue

structure Slot (α : Type*) where
  record : α
  committed : Bool

structure Queue (α : Type*) where
  slots : List (Slot α) := []
  head : ℕ := 0

variable {α : Type*}

def Queue.claim (q : Queue α) (record : α) : Queue α := { q with slots := q.slots ++ [⟨record, false⟩] }

def Queue.commit (q : Queue α) (i : ℕ) : Queue α :=
  { q with slots := q.slots.modify i fun s => { s with committed := true } }

def Queue.peek (q : Queue α) : Option α :=
  match q.slots[q.head]? with
  | some ⟨record, true⟩ => some record
  | _ => none

def Queue.advance (q : Queue α) : Queue α := { q with head := q.head + 1 }

def Queue.records (q : Queue α) : List α := q.slots.map Slot.record

def Queue.consumed (q : Queue α) : List α := q.records.take q.head

def Queue.Committed (q : Queue α) (i : ℕ) (record : α) : Prop := q.slots[i]? = some ⟨record, true⟩

def Queue.Open (q : Queue α) (i : ℕ) : Prop := ∃ record, q.slots[i]? = some ⟨record, false⟩

def Queue.InBounds (q : Queue α) : Prop := q.head ≤ q.slots.length

structure Queue.Extends (q q' : Queue α) : Prop where
  head : q.head ≤ q'.head
  records : q.records <+: q'.records
  committed : ∀ i record, q.Committed i record → q'.Committed i record

inductive Queue.Produced (q : Queue α) : Queue α → Prop
  | same : q.Produced q
  | claim (record : α) : q.Produced (q.claim record)
  | commit (i : ℕ) : q.Produced (q.commit i)

variable {q q' : Queue α} {record : α} {i : ℕ}

lemma peek_eq_some : q.peek = some record ↔ q.Committed q.head record := by
  simp only [Queue.peek, Queue.Committed]
  split
  · next r h => simp [h]
  · next h => exact ⟨by rintro ⟨⟩, fun hr => (h record hr).elim⟩

lemma Queue.Committed.lt_length (h : q.Committed i record) : i < q.slots.length :=
  (List.getElem?_eq_some_iff.mp h).1

@[simp] lemma records_claim (q : Queue α) (record : α) : (q.claim record).records = q.records ++ [record] := by
  simp [Queue.claim, Queue.records]

@[simp] lemma records_commit (q : Queue α) (i : ℕ) : (q.commit i).records = q.records := by
  apply List.ext_getElem?
  intro j
  simp only [Queue.commit, Queue.records, List.getElem?_map, List.getElem?_modify]
  split
  · cases q.slots[j]? <;> rfl
  · simp

lemma consumed_advance (h : q.peek = some record) : q.advance.consumed = q.consumed ++ [record] := by
  have hr : q.records[q.head]? = some record := by
    rw [Queue.records, List.getElem?_map, peek_eq_some.mp h]
    rfl
  have ht := List.take_add_one (l := q.records) (i := q.head)
  rw [hr] at ht
  exact ht

lemma Queue.Committed.claim (h : q.Committed i record) (r : α) : (q.claim r).Committed i record := by
  rw [Queue.Committed, Queue.claim, List.getElem?_append_left h.lt_length]
  exact h

lemma Queue.Committed.commit (h : q.Committed i record) (j : ℕ) : (q.commit j).Committed i record := by
  have hh : q.slots[i]? = some ⟨record, true⟩ := h
  simp only [Queue.Committed, Queue.commit, List.getElem?_modify, hh]
  split <;> rfl

lemma inBounds_advance (h : q.peek = some record) : q.advance.InBounds :=
  (peek_eq_some.mp h).lt_length

lemma Queue.Extends.refl (q : Queue α) : q.Extends q := ⟨le_refl _, List.prefix_refl _, fun _ _ h => h⟩

lemma Queue.Extends.trans {q q' q'' : Queue α} (h : q.Extends q') (h' : q'.Extends q'') : q.Extends q'' :=
  ⟨h.head.trans h'.head, h.records.trans h'.records, fun i r hr => h'.committed i r (h.committed i r hr)⟩

lemma extends_advance (q : Queue α) : q.Extends q.advance :=
  ⟨Nat.le_succ _, List.prefix_refl _, fun _ _ h => h⟩

lemma Queue.Produced.extends (h : q.Produced q') : q.Extends q' := by
  cases h with
  | same => exact .refl q
  | claim record =>
    refine ⟨le_refl _, ?_, fun _ _ h => h.claim record⟩
    rw [records_claim]
    exact List.prefix_append _ _
  | commit i => exact ⟨le_refl _, by rw [records_commit], fun _ _ h => h.commit i⟩

lemma Queue.Produced.head_eq (h : q.Produced q') : q'.head = q.head := by
  cases h <;> rfl

lemma Queue.Produced.inBounds (h : q.Produced q') (hq : q.InBounds) : q'.InBounds := by
  have hl := h.extends.records.length_le
  simp only [Queue.records, List.length_map] at hl
  rw [Queue.InBounds, h.head_eq]
  exact le_trans hq hl

lemma Queue.Produced.consumed (h : q.Produced q') (hq : q.InBounds) : q'.consumed = q.consumed := by
  have hl : q.head ≤ q.records.length := by
    rw [Queue.records, List.length_map]
    exact hq
  obtain ⟨more, hm⟩ := h.extends.records
  rw [Queue.consumed, h.head_eq, ← hm]
  exact List.take_append_of_le_length hl

lemma Queue.Produced.peek (h : q.Produced q') (hp : q.peek = some record) : q'.peek = some record := by
  rw [peek_eq_some] at *
  rw [h.head_eq]
  exact h.extends.committed _ _ hp

lemma consumed_of_committed (h : q.Committed i record) (hi : i < q.head) : q.consumed[i]? = some record := by
  have hh : q.slots[i]? = some ⟨record, true⟩ := h
  rw [Queue.consumed, List.getElem?_take_of_lt hi, Queue.records, List.getElem?_map, hh]
  rfl

lemma Queue.Open.lt_length (h : q.Open i) : i < q.slots.length := by
  obtain ⟨record, hr⟩ := h
  exact (List.getElem?_eq_some_iff.mp hr).1

lemma open_claim (q : Queue α) (record : α) (i : ℕ) : (q.claim record).Open i ↔ q.Open i ∨ i = q.slots.length := by
  simp only [Queue.Open, Queue.claim]
  rcases Nat.lt_trichotomy i q.slots.length with hi | rfl | hi
  · rw [List.getElem?_append_left hi]
    exact (or_iff_left hi.ne).symm
  · simp
  · have hout : ¬ q.Open i := fun h => absurd h.lt_length (by omega)
    simp only [Queue.Open] at hout
    rw [List.getElem?_eq_none (by simp; omega)]
    simp [hi.ne', hout]

lemma open_commit (q : Queue α) (j i : ℕ) : (q.commit j).Open i ↔ q.Open i ∧ i ≠ j := by
  simp only [Queue.Open, Queue.commit, List.getElem?_modify]
  by_cases hi : j = i
  · subst hi
    simp
  · simp [hi, Ne.symm hi]

lemma committed_or_open (hi : i < q.slots.length) : (∃ record, q.Committed i record) ∨ q.Open i := by
  have hs := List.getElem?_eq_getElem hi
  generalize q.slots[i] = slot at hs
  obtain ⟨record, committed⟩ := slot
  cases committed with
  | true => exact .inl ⟨record, hs⟩
  | false => exact .inr ⟨record, hs⟩

end ClaimQueue
