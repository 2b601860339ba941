import Mathlib.Tactic

namespace ByteCodec

abbrev Bytes := List UInt8

def toLe : ℕ → ℕ → Bytes
  | 0, _ => []
  | w + 1, n => UInt8.ofNat n :: toLe w (n / 256)

def ofLe : Bytes → ℕ
  | [] => 0
  | b :: bs => b.toNat + 256 * ofLe bs

@[simp] lemma toLe_length (w n : ℕ) : (toLe w n).length = w := by
  induction w generalizing n with
  | zero => rfl
  | succ w ih => simp [toLe, ih]

lemma ofLe_toLe (w n : ℕ) : ofLe (toLe w n) = n % 256 ^ w := by
  induction w generalizing n with
  | zero => simp [toLe, ofLe, Nat.mod_one]
  | succ w ih =>
    have hb : (UInt8.ofNat n).toNat = n % 256 := by simp
    rw [toLe, ofLe, ih, hb, pow_succ', Nat.mod_mul]

lemma ofLe_toLe_of_lt {w n : ℕ} (h : n < 256 ^ w) : ofLe (toLe w n) = n := by
  rw [ofLe_toLe, Nat.mod_eq_of_lt h]

lemma toLe_ofLe (bs : Bytes) : toLe bs.length (ofLe bs) = bs := by
  induction bs with
  | nil => rfl
  | cons b bs ih =>
    have hb := b.toNat_lt
    have hlow : UInt8.ofNat (b.toNat + 256 * ofLe bs) = b := by
      apply UInt8.toNat_inj.mp
      rw [UInt8.toNat_ofNat']
      omega
    have hhigh : (b.toNat + 256 * ofLe bs) / 256 = ofLe bs := by omega
    rw [List.length_cons, ofLe, toLe, hlow, hhigh, ih]

lemma ofLe_lt (bs : Bytes) : ofLe bs < 256 ^ bs.length := by
  rw [← toLe_ofLe bs, ofLe_toLe, toLe_length]
  exact Nat.mod_lt _ (by positivity)

def u16ToLe (x : UInt16) : Bytes := toLe 2 x.toNat
def u16FromLe (bs : Bytes) : UInt16 := UInt16.ofNat (ofLe bs)
def u32ToLe (x : UInt32) : Bytes := toLe 4 x.toNat
def u32FromLe (bs : Bytes) : UInt32 := UInt32.ofNat (ofLe bs)
def u64ToLe (x : UInt64) : Bytes := toLe 8 x.toNat
def u64FromLe (bs : Bytes) : UInt64 := UInt64.ofNat (ofLe bs)

@[simp] lemma u16ToLe_length (x : UInt16) : (u16ToLe x).length = 2 := toLe_length 2 _
@[simp] lemma u32ToLe_length (x : UInt32) : (u32ToLe x).length = 4 := toLe_length 4 _
@[simp] lemma u64ToLe_length (x : UInt64) : (u64ToLe x).length = 8 := toLe_length 8 _

@[simp] lemma u16FromLe_toLe (x : UInt16) : u16FromLe (u16ToLe x) = x := by
  rw [u16FromLe, u16ToLe, ofLe_toLe_of_lt x.toNat_lt, UInt16.ofNat_toNat]

@[simp] lemma u32FromLe_toLe (x : UInt32) : u32FromLe (u32ToLe x) = x := by
  rw [u32FromLe, u32ToLe, ofLe_toLe_of_lt x.toNat_lt, UInt32.ofNat_toNat]

@[simp] lemma u64FromLe_toLe (x : UInt64) : u64FromLe (u64ToLe x) = x := by
  rw [u64FromLe, u64ToLe, ofLe_toLe_of_lt x.toNat_lt, UInt64.ofNat_toNat]

lemma u16ToLe_fromLe {bs : Bytes} (h : bs.length = 2) : u16ToLe (u16FromLe bs) = bs := by
  have hlt := ofLe_lt bs
  rw [h] at hlt
  rw [u16ToLe, u16FromLe, UInt16.toNat_ofNat', Nat.mod_eq_of_lt (by omega), ← h, toLe_ofLe]

lemma u32ToLe_fromLe {bs : Bytes} (h : bs.length = 4) : u32ToLe (u32FromLe bs) = bs := by
  have hlt := ofLe_lt bs
  rw [h] at hlt
  rw [u32ToLe, u32FromLe, UInt32.toNat_ofNat', Nat.mod_eq_of_lt (by omega), ← h, toLe_ofLe]

section Regions

variable {α : Type*}

def slice (buf : List α) (start stop : ℕ) : Option (List α) :=
  if start ≤ stop ∧ stop ≤ buf.length then some ((buf.drop start).take (stop - start)) else none

/-- `buf[off..off + src.len()].copy_from_slice(src)`. -/
def writeAt (buf : List α) (off : ℕ) (src : List α) : Option (List α) :=
  if off + src.length ≤ buf.length then some (buf.take off ++ src ++ buf.drop (off + src.length)) else none

lemma slice_append (a b c : List α) : slice (a ++ b ++ c) a.length (a.length + b.length) = some b := by
  simp [slice, List.append_assoc]

lemma slice_at {a b c : List α} {i j : ℕ} (hi : a.length = i) (hj : i + b.length = j) :
    slice (a ++ b ++ c) i j = some b := by
  subst hi hj
  exact slice_append a b c

lemma slice_from {a b : List α} {i : ℕ} (hi : a.length = i) : slice (a ++ b) i (a ++ b).length = some b := by
  simp [slice, ← hi]

lemma slice_congr {buf buf' : List α} {n start stop : ℕ} (hl : buf'.length = buf.length)
    (ht : buf'.take n = buf.take n) (hn : stop ≤ n) : slice buf' start stop = slice buf start stop := by
  have hd (xs : List α) : (xs.drop start).take (stop - start) = ((xs.take n).drop start).take (stop - start) := by
    rw [List.drop_take, List.take_take, Nat.min_eq_left (by omega)]
  rw [slice, slice, hl, hd buf', hd buf, ht]

lemma take_of_slice {buf x : List α} {start stop : ℕ} (h : slice buf start stop = some x) :
    buf.take stop = buf.take start ++ x ∧ x.length = stop - start ∧ start ≤ stop ∧ stop ≤ buf.length := by
  simp only [slice, Option.ite_none_right_eq_some, Option.some.injEq] at h
  obtain ⟨⟨hle, hlen⟩, rfl⟩ := h
  refine ⟨?_, ?_, hle, hlen⟩
  · rw [← List.take_add, Nat.add_sub_cancel' hle]
  · rw [List.length_take, List.length_drop]
    omega

lemma writeAt_next {a b s : List α} {i : ℕ} (hi : a.length = i) (h : s.length ≤ b.length) :
    writeAt (a ++ b) i s = some (a ++ s ++ b.drop s.length) := by
  simp [writeAt, ← hi, h, List.append_assoc, List.drop_append]

variable {buf buf' src : List α} {off : ℕ}

lemma writeAt_eq_some : writeAt buf off src = some buf' ↔
    off + src.length ≤ buf.length ∧ buf' = buf.take off ++ src ++ buf.drop (off + src.length) := by
  simp only [writeAt]
  split_ifs with h <;> simp [h, eq_comm]

lemma writeAt_length (h : writeAt buf off src = some buf') : buf'.length = buf.length := by
  obtain ⟨hl, rfl⟩ := writeAt_eq_some.mp h
  simp
  omega

lemma writeAt_take {n : ℕ} (h : writeAt buf off src = some buf') (hn : n ≤ off) : buf'.take n = buf.take n := by
  obtain ⟨hl, rfl⟩ := writeAt_eq_some.mp h
  rw [List.append_assoc, List.take_append_of_le_length (by simp; omega), List.take_take,
    Nat.min_eq_left hn]

lemma writeAt_slice (h : writeAt buf off src = some buf') : slice buf' off (off + src.length) = some src := by
  obtain ⟨hl, rfl⟩ := writeAt_eq_some.mp h
  have hh := slice_append (buf.take off) src (buf.drop (off + src.length))
  simpa only [List.length_take, Nat.min_eq_left (by omega : off ≤ buf.length)] using hh

end Regions

/-- The bytes of a string; their number is what Rust's `len()` returns. -/
def utf8 (s : String) : Bytes := s.toByteArray.data.toList

def fromUtf8 (bs : Bytes) : Option String := String.fromUTF8? ⟨bs.toArray⟩

@[simp] lemma utf8_empty : utf8 "" = [] := by decide

@[simp] lemma utf8_append (s t : String) : utf8 (s ++ t) = utf8 s ++ utf8 t := by
  simp [utf8, String.toByteArray_append]

@[simp] lemma fromUtf8_utf8 (s : String) : fromUtf8 (utf8 s) = some s := by
  rw [fromUtf8, utf8, Array.toArray_toList, String.fromUTF8?, dif_pos s.isValidUTF8]
  rfl

lemma utf8_of_fromUtf8 {bs : Bytes} {s : String} (h : fromUtf8 bs = some s) : utf8 s = bs := by
  simp only [fromUtf8, String.fromUTF8?, Option.dite_none_right_eq_some, Option.some.injEq] at h
  obtain ⟨hv, rfl⟩ := h
  rfl

end ByteCodec
