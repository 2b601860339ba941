import InqJet.Lib.Segments

/-! The thread-local stash of eagerly formatted arguments, and the queue of texts it stands for. -/

namespace InqJet

open ByteCodec Segments

/-- The four `FALLBACK_*` cells of a thread, and whether `FALLBACK_BUF` is mutably borrowed. -/
structure Stash where
  dirty : Bool := false
  buf : String := ""
  offsets : List ℕ := []
  readIdx : ℕ := 0
  borrowed : Bool := false
  deriving DecidableEq

/-- A panic leaves the cells as they are at the point where it is raised. -/
inductive Outcome (σ : Type)
  | done (s : σ)
  | panicked (s : σ)

def fallbackStashClear (st : Stash) : Outcome Stash :=
  if st.dirty then
    let st := { st with dirty := false }
    -- `FALLBACK_BUF.borrow_mut()` comes after the flag has been lowered
    if st.borrowed then .panicked st else .done { st with buf := "", offsets := [], readIdx := 0 }
  else .done st

/-- A call without arguments is expanded without the clear. -/
def clearFor {α : Type*} (args : List α) (st : Stash) : Outcome Stash :=
  match args with
  | [] => .done st
  | _ :: _ => fallbackStashClear st

def Stash.openFallback (st : Stash) : Outcome Stash :=
  let st := { st with dirty := true }
  if st.borrowed then .panicked st
  else .done { st with borrowed := true, offsets := st.offsets ++ [(utf8 st.buf).length] }

def Stash.write (st : Stash) (text : String) : Stash := { st with buf := st.buf ++ text }

def Stash.closeFallback (st : Stash) (start : ℕ) : ℕ × Stash :=
  (4 + ((utf8 st.buf).length - start), { st with borrowed := false })

/-- `hot_size_with` of a fallback argument whose closure writes `text`; `none` when it panics. -/
def fallbackHotSizeWith (text : String) (st : Stash) : Option (ℕ × Stash) :=
  match st.openFallback with
  | .panicked _ => none
  | .done opened => some ((opened.write text).closeFallback (utf8 st.buf).length)

def encodeBytes (content buf : Bytes) : Option Bytes := do
  let buf ← writeAt buf 0 (u32ToLe (UInt32.ofNat content.length))
  writeAt buf 4 content

def Stash.nextContent (st : Stash) : Option Bytes :=
  if st.borrowed then none else segment (utf8 st.buf) st.offsets st.readIdx

def fallbackStashEncode (st : Stash) (buf : Bytes) : Stash × Option Bytes :=
  ({ st with readIdx := st.readIdx + 1 }, st.nextContent.bind fun content => encodeBytes content buf)

/-- What the stash is for: texts are read once each, in the order they were stashed. -/
structure TextQueue where
  texts : List String
  read : ℕ

def TextQueue.push (q : TextQueue) (texts : List String) : TextQueue :=
  { q with texts := q.texts ++ texts }

def TextQueue.skip (q : TextQueue) (n : ℕ) : TextQueue := { q with read := q.read + n }

def TextQueue.unread (q : TextQueue) : List String := q.texts.drop q.read

def Stash.FlagSound (st : Stash) : Prop :=
  st.dirty = false → st.buf = "" ∧ st.offsets = [] ∧ st.readIdx = 0

structure Stash.Represents (st : Stash) (q : TextQueue) : Prop where
  free : st.borrowed = false
  bytes : utf8 st.buf = (q.texts.map utf8).flatten
  offsets : st.offsets = starts 0 (q.texts.map utf8)
  readIdx : st.readIdx = q.read
  inRange : q.read ≤ q.texts.length
  flag : st.FlagSound

def Stash.Cleared (st : Stash) : Prop := st.Represents ⟨[], 0⟩

@[simp] lemma TextQueue.push_nil (q : TextQueue) : q.push [] = q := by simp [push]

@[simp] lemma TextQueue.push_push (q : TextQueue) (ts us : List String) :
    (q.push ts).push us = q.push (ts ++ us) := by simp [push]

@[simp] lemma TextQueue.skip_zero (q : TextQueue) : q.skip 0 = q := rfl

@[simp] lemma TextQueue.skip_skip (q : TextQueue) (m n : ℕ) : (q.skip m).skip n = q.skip (m + n) := by
  simp [skip, Nat.add_assoc]

lemma TextQueue.unread_push {q : TextQueue} (h : q.read ≤ q.texts.length) (ts : List String) :
    (q.push ts).unread = q.unread ++ ts := by
  simp [unread, push, List.drop_append_of_le_length h]

lemma TextQueue.unread_skip (q : TextQueue) (n : ℕ) : (q.skip n).unread = q.unread.drop n := by
  simp [unread, skip, List.drop_drop]

lemma Stash.Represents.offsets_length {st : Stash} {q : TextQueue} (h : st.Represents q) :
    st.offsets.length = q.texts.length := by
  simp [h.offsets]

lemma cleared_initial : ({} : Stash).Cleared :=
  ⟨rfl, by simp, rfl, rfl, le_refl 0, fun _ => ⟨rfl, rfl, rfl⟩⟩

lemma clear_done {st : Stash} (hb : st.borrowed = false) (hf : st.FlagSound) :
    ∃ st', fallbackStashClear st = .done st' ∧ st'.Cleared := by
  cases hd : st.dirty with
  | false =>
    obtain ⟨h₁, h₂, h₃⟩ := hf hd
    exact ⟨st, by simp [fallbackStashClear, hd], ⟨hb, by simp [h₁], h₂, h₃, le_refl 0, hf⟩⟩
  | true =>
    refine ⟨{ st with dirty := false, buf := "", offsets := [], readIdx := 0 }, ?_, ?_⟩
    · simp [fallbackStashClear, hd, hb]
    · exact ⟨hb, by simp, rfl, rfl, le_refl 0, fun _ => ⟨rfl, rfl, rfl⟩⟩

lemma clearFor_done {α : Type*} {args : List α} {st st' : Stash} (h : clearFor args st = .done st') :
    st'.borrowed = st.borrowed ∧ (st' = st ∨ st'.FlagSound ∧ st.borrowed = false) := by
  cases args with
  | nil =>
    obtain rfl := Outcome.done.inj h
    exact ⟨rfl, .inl rfl⟩
  | cons a as =>
    simp only [clearFor, fallbackStashClear] at h
    split_ifs at h with hd hb
    · obtain rfl := Outcome.done.inj h
      exact ⟨rfl, .inr ⟨fun _ => ⟨rfl, rfl, rfl⟩, by simpa using hb⟩⟩
    · obtain rfl := Outcome.done.inj h
      exact ⟨rfl, .inl rfl⟩

lemma clearFor_panicked {α : Type*} {args : List α} {st st' : Stash} (h : clearFor args st = .panicked st') :
    st'.borrowed = st.borrowed ∧ st.borrowed = true ∧ args ≠ [] := by
  cases args with
  | nil => cases h
  | cons a as =>
    simp only [clearFor, fallbackStashClear] at h
    split_ifs at h with hd hb
    obtain rfl := Outcome.panicked.inj h
    exact ⟨rfl, hb, List.cons_ne_nil _ _⟩

lemma openFallback_done {st st' : Stash} (h : st.openFallback = .done st') :
    st.borrowed = false ∧ st'.borrowed = true ∧ st'.dirty = true := by
  simp only [Stash.openFallback] at h
  split_ifs at h with hb
  obtain rfl := Outcome.done.inj h
  exact ⟨by simpa using hb, rfl, rfl⟩

lemma openFallback_panicked {st st' : Stash} (h : st.openFallback = .panicked st') :
    st'.dirty = true ∧ st'.borrowed = st.borrowed := by
  simp only [Stash.openFallback] at h
  split_ifs at h with hb
  obtain rfl := Outcome.panicked.inj h
  exact ⟨rfl, rfl⟩

lemma fallbackHotSizeWith_eq {st : Stash} {q : TextQueue} (h : st.Represents q) (text : String) :
    ∃ st', fallbackHotSizeWith text st = some (4 + (utf8 text).length, st') ∧
      st'.Represents (q.push [text]) := by
  have hb := h.free
  let offsets := st.offsets ++ [(utf8 st.buf).length]
  refine ⟨{ st with dirty := true, buf := st.buf ++ text, offsets := offsets, borrowed := false }, ?_,
    ⟨rfl, ?_, ?_, h.readIdx, ?_, nofun⟩⟩
  · simp [fallbackHotSizeWith, Stash.openFallback, Stash.write, Stash.closeFallback, hb, offsets]
  · simp [h.bytes, TextQueue.push]
  · simp [offsets, h.offsets, h.bytes, TextQueue.push, starts_append, starts]
  · have hr := h.inRange
    simp [TextQueue.push]
    omega

lemma nextContent_eq {st : Stash} {q : TextQueue} (h : st.Represents q) :
    st.nextContent = q.unread.head?.map utf8 := by
  rw [Stash.nextContent, h.free, if_neg (by simp), h.bytes, h.offsets, h.readIdx, segment_flatten]
  simp [TextQueue.unread, List.head?_drop]

theorem fallbackStashEncode_eq {st : Stash} {q : TextQueue} (h : st.Represents q) {text : String}
    {more : List String} (hq : q.unread = text :: more) (buf : Bytes) :
    ∃ st', fallbackStashEncode st buf = (st', encodeBytes (utf8 text) buf) ∧
      st'.Represents (q.skip 1) := by
  have hflag : st.dirty = true := by
    by_contra hd
    have ho := (h.flag (by simpa using hd)).2.1
    have hl := h.offsets_length
    rw [ho] at hl
    simp [TextQueue.unread, List.eq_nil_of_length_eq_zero hl.symm] at hq
  refine ⟨{ st with readIdx := st.readIdx + 1 }, ?_, ⟨h.free, h.bytes, h.offsets, ?_, ?_, ?_⟩⟩
  · rw [fallbackStashEncode, nextContent_eq h, hq]
    rfl
  · simp [h.readIdx, TextQueue.skip]
  · have hl := congrArg List.length hq
    simp only [TextQueue.unread, List.length_drop, List.length_cons] at hl
    simp only [TextQueue.skip]
    omega
  · simp [Stash.FlagSound, hflag]

def prefixed (content : Bytes) : Bytes := u32ToLe (UInt32.ofNat content.length) ++ content

@[simp] lemma prefixed_length (content : Bytes) : (prefixed content).length = 4 + content.length := by
  simp [prefixed]

lemma encodeBytes_eq {content buf : Bytes} (h : 4 + content.length ≤ buf.length) :
    encodeBytes content buf = some (prefixed content ++ buf.drop (4 + content.length)) := by
  have h₁ := writeAt_next (a := []) (b := buf) (s := u32ToLe (UInt32.ofNat content.length))
    (i := 0) rfl (by simp; omega)
  have h₂ := writeAt_next (a := u32ToLe (UInt32.ofNat content.length)) (b := buf.drop 4) (s := content)
    (i := 4) (by simp) (by simp; omega)
  simp only [List.nil_append, u32ToLe_length] at h₁
  simp only [List.drop_drop] at h₂
  simp [encodeBytes, h₁, h₂, prefixed]

lemma encodeBytes_length {content buf buf' : Bytes} (h : encodeBytes content buf = some buf') :
    buf'.length = buf.length := by
  simp only [encodeBytes, Option.bind_eq_bind, Option.bind_eq_some_iff] at h
  obtain ⟨b, h₁, h₂⟩ := h
  rw [writeAt_length h₂, writeAt_length h₁]

end InqJet
