import InqJet.Lib.ByteCodec

/-! Segments kept back to back in one flat buffer, found again by their start offsets or by a terminator. -/

namespace Segments

open ByteCodec (slice)

variable {α : Type*}

def starts (base : ℕ) : List (List α) → List ℕ
  | [] => []
  | t :: ts => base :: starts (base + t.length) ts

def segment (buf : List α) (offsets : List ℕ) (i : ℕ) : Option (List α) :=
  offsets[i]?.bind fun start => slice buf start (offsets[i + 1]?.getD buf.length)

@[simp] lemma starts_length (base : ℕ) (ts : List (List α)) : (starts base ts).length = ts.length := by
  induction ts generalizing base with
  | nil => rfl
  | cons t ts ih => simp [starts, ih]

lemma starts_append (base : ℕ) (ts us : List (List α)) :
    starts base (ts ++ us) = starts base ts ++ starts (base + ts.flatten.length) us := by
  induction ts generalizing base with
  | nil => simp [starts]
  | cons t ts ih => simp [starts, ih, Nat.add_assoc]

lemma starts_middle (base : ℕ) (ts us : List (List α)) (t : List α) :
    (starts base (ts ++ t :: us))[ts.length]? = some (base + ts.flatten.length) := by
  rw [starts_append, List.getElem?_append_right (by simp)]
  simp [starts]

lemma starts_after (base : ℕ) (ts us : List (List α)) (t : List α) :
    ((starts base (ts ++ t :: us))[ts.length + 1]?).getD (base + (ts ++ t :: us).flatten.length) =
      base + ts.flatten.length + t.length := by
  cases us with
  | nil =>
    have hn : (starts base (ts ++ [t]))[ts.length + 1]? = none := by simp
    rw [hn]
    simp [Nat.add_assoc]
  | cons u us =>
    have hh := starts_middle base (ts ++ [t]) us u
    simp only [List.append_assoc, List.singleton_append, List.length_append, List.length_singleton] at hh
    rw [hh]
    simp [Nat.add_assoc]

theorem segment_flatten (ts : List (List α)) (i : ℕ) : segment ts.flatten (starts 0 ts) i = ts[i]? := by
  by_cases hi : i < ts.length
  · obtain ⟨as, t, bs, rfl, rfl⟩ : ∃ as t bs, ts = as ++ t :: bs ∧ as.length = i :=
      ⟨ts.take i, ts[i], ts.drop (i + 1), by simp, by simp; omega⟩
    have hstart := starts_middle 0 as bs t
    have hstop := starts_after 0 as bs t
    have hs := ByteCodec.slice_append as.flatten t bs.flatten
    simp only [Nat.zero_add] at hstart hstop
    simp only [segment, hstart, hstop, Option.bind_some]
    simpa using hs
  · have hn : (starts 0 ts)[i]? = none := by simp; omega
    simp [segment, hn, List.getElem?_eq_none (Nat.le_of_not_lt hi)]

lemma not_mem_of_splitOn [BEq α] [LawfulBEq α] {c : α} {xs l : List α} (h : l ∈ xs.splitOn c) : c ∉ l := by
  induction xs generalizing l with
  | nil =>
    rw [List.splitOn_nil, List.mem_singleton] at h
    simp [h]
  | cons x xs ih =>
    rw [List.splitOn_cons_eq_if_modifyHead] at h
    split_ifs at h with hx
    · rcases List.mem_cons.mp h with rfl | h
      · exact List.not_mem_nil
      · exact ih h
    · cases hs : xs.splitOn c with
      | nil => exact (List.splitOn_ne_nil c xs hs).elim
      | cons y ys =>
        rw [hs] at h ih
        rcases List.mem_cons.mp h with rfl | h
        · have hy : c ∉ y := ih List.mem_cons_self
          rw [List.mem_cons, not_or]
          exact ⟨fun he => hx (beq_iff_eq.mpr he.symm), hy⟩
        · exact ih (List.mem_cons_of_mem y h)

theorem splitOn_terminated_iff [BEq α] [LawfulBEq α] (c : α) (ls : List (List α)) :
    (ls.map fun l => l ++ [c]).flatten.splitOn c = ls ++ [[]] ↔ ∀ l ∈ ls, c ∉ l := by
  constructor
  · intro h l hl
    exact not_mem_of_splitOn (h ▸ List.mem_append_left _ hl)
  · intro h
    induction ls with
    | nil => rfl
    | cons l ls ih =>
      rw [List.forall_mem_cons] at h
      have hl := List.splitOn_append_cons_self_of_not_mem h.1 (ls.map fun l => l ++ [c]).flatten
      rw [List.map_cons, List.flatten_cons, List.append_assoc, List.singleton_append, hl, ih h.2]
      rfl

def upTo [BEq α] (c : α) (xs : List α) : List α × List α :=
  (xs.takeWhile fun x => !(x == c), (xs.dropWhile fun x => !(x == c)).tail)

lemma upTo_append [BEq α] [LawfulBEq α] {c : α} {xs : List α} (h : c ∉ xs) (ys : List α) :
    upTo c (xs ++ c :: ys) = (xs, ys) := by
  have hx : ∀ x ∈ xs, (!(x == c)) = true := by
    intro x hx
    rw [Bool.not_eq_true', beq_eq_false_iff_ne]
    rintro rfl
    exact h hx
  rw [upTo, List.takeWhile_append_of_pos hx, List.dropWhile_append_of_pos hx]
  simp

def readLines {β : Type*} [BEq α] (c : α) (read : List α → β) (text : List α) : List β :=
  (text.splitOn c).dropLast.map read

theorem readLines_terminated {β γ : Type*} [BEq α] [LawfulBEq α] {c : α} {read : List α → β} {write : γ → List α}
    {seen : γ → β} {as : List γ} (h : ∀ a ∈ as, c ∉ write a ∧ read (write a) = seen a) :
    readLines c read (as.map fun a => write a ++ [c]).flatten = as.map seen := by
  have hsplit : (as.map fun a => write a ++ [c]).flatten.splitOn c = as.map write ++ [[]] := by
    have hlines := (splitOn_terminated_iff c (as.map write)).mpr (List.forall_mem_map.mpr fun a ha => (h a ha).1)
    rwa [List.map_map] at hlines
  rw [readLines, hsplit, List.dropLast_concat, List.map_map]
  exact List.map_congr_left fun a ha => (h a ha).2

end Segments
