import InqJet.Format

namespace InqJet

open ByteCodec

/-- `ArchiveHandle::write` on a granted claim. The tag is given by its memory, `tagSize` bytes. -/
def archiveWrite (ts : UInt64) (tag payload claim : Bytes) : Option Bytes := do
  let tagSize := tag.length
  let buf ← writeAt claim 0 (u64ToLe ts)
  let buf ← (if tagSize > 0 then writeAt buf 8 tag else some buf)
  let buf ← writeAt buf (8 + tagSize) (u32ToLe (UInt32.ofNat payload.length))
  writeAt buf (8 + tagSize + 4) payload

def archiveRecordSize (tagSize payloadLen : ℕ) : ℕ := 8 + tagSize + 4 + payloadLen

structure ArchiveTag where
  size : ℕ
  writeLabel : Bytes → Option Bytes

def archiveFormatFn (T : ArchiveTag) (record : Bytes) : Option Bytes := do
  let tagSize := T.size
  let ts ← slice record 0 8
  let tail ← slice record 8 record.length
  let tag ← (if tagSize > 0 then slice tail 0 tagSize else some [])
  let plen ← slice record (8 + tagSize) (8 + tagSize + 4)
  let plen := (u32FromLe plen).toNat
  let payload ← slice record (8 + tagSize + 4) (8 + tagSize + 4 + plen)
  let label ← T.writeLabel tag
  some (formatTimestamp (u64FromLe ts) ++ utf8 " [" ++ label ++ utf8 "] " ++ payload ++ utf8 "\n")

/-- A tag type with its values. A value's memory may hold any padding; read back as a value, it is the
value it was copied from. -/
structure TagType where
  Val : Type
  size : ℕ
  Memory : Val → Bytes → Prop
  read : Bytes → Val
  writeLabel : Val → Option Bytes
  memory_length : ∀ tag m, Memory tag m → m.length = size
  read_memory : ∀ tag m, Memory tag m → read m = tag

def TagType.archiveTag (T : TagType) : ArchiveTag := ⟨T.size, fun m => T.writeLabel (T.read m)⟩

def archiveRecord (ts : UInt64) (tag payload : Bytes) : Bytes :=
  u64ToLe ts ++ tag ++ u32ToLe (UInt32.ofNat payload.length) ++ payload

lemma archiveRecord_length (ts : UInt64) (tag payload : Bytes) :
    (archiveRecord ts tag payload).length = archiveRecordSize tag.length payload.length := by
  simp [archiveRecord, archiveRecordSize, Nat.add_assoc]

lemma archiveWrite_eq (ts : UInt64) {tag payload claim : Bytes}
    (h : claim.length = archiveRecordSize tag.length payload.length) :
    archiveWrite ts tag payload claim = some (archiveRecord ts tag payload) := by
  simp only [archiveRecordSize] at h
  have h1 : writeAt claim 0 (u64ToLe ts) = some (u64ToLe ts ++ claim.drop 8) := by
    have hw := writeAt_next (a := []) (b := claim) (s := u64ToLe ts) rfl (by simp; omega)
    simpa using hw
  have h2 : (if tag.length > 0 then writeAt (u64ToLe ts ++ claim.drop 8) 8 tag
      else some (u64ToLe ts ++ claim.drop 8)) = some (u64ToLe ts ++ tag ++ claim.drop (8 + tag.length)) := by
    split_ifs with ht
    · rw [writeAt_next (u64ToLe_length ts) (by simp; omega), List.drop_drop]
    · obtain rfl := List.length_eq_zero_iff.mp (Nat.eq_zero_of_not_pos ht)
      simp
  have h3 := writeAt_next (a := u64ToLe ts ++ tag) (b := claim.drop (8 + tag.length)) (i := 8 + tag.length)
    (s := u32ToLe (UInt32.ofNat payload.length)) (by simp) (by simp; omega)
  have h4 := writeAt_next (a := u64ToLe ts ++ tag ++ u32ToLe (UInt32.ofNat payload.length))
    (b := claim.drop (8 + tag.length + 4)) (i := 8 + tag.length + 4) (s := payload)
    (by simp [Nat.add_assoc]) (by simp; omega)
  have hend : claim.drop (8 + tag.length + 4 + payload.length) = [] := List.drop_eq_nil_of_le (by omega)
  rw [u32ToLe_length, List.drop_drop] at h3
  rw [List.drop_drop, hend, List.append_nil] at h4
  simp only [archiveWrite, h1, h2, h3, h4, Option.bind_eq_bind, Option.bind_some, archiveRecord]

lemma archiveFormatFn_eq (T : ArchiveTag) (ts : UInt64) {tag payload : Bytes} (ht : tag.length = T.size)
    (hp : payload.length < 2 ^ 32) : archiveFormatFn T (archiveRecord ts tag payload) =
      (T.writeLabel tag).map fun label =>
        formatTimestamp ts ++ utf8 " [" ++ label ++ utf8 "] " ++ payload ++ utf8 "\n" := by
  obtain ⟨len, hlen⟩ : ∃ len, u32ToLe (UInt32.ofNat payload.length) = len := ⟨_, rfl⟩
  have hl : len.length = 4 := by rw [← hlen, u32ToLe_length]
  have h1 : slice (archiveRecord ts tag payload) 0 8 = some (u64ToLe ts) := by
    have hs := slice_at (a := []) (b := u64ToLe ts) (c := tag ++ len ++ payload) (i := 0) (j := 8) rfl (by simp)
    simpa [archiveRecord, hlen] using hs
  have h2 : slice (archiveRecord ts tag payload) 8 (archiveRecord ts tag payload).length =
      some (tag ++ len ++ payload) := by
    have hs := slice_from (b := tag ++ len ++ payload) (u64ToLe_length ts)
    simpa [archiveRecord, hlen] using hs
  have h3 : (if T.size > 0 then slice (tag ++ len ++ payload) 0 T.size else some []) = some tag := by
    split_ifs with hz
    · have hs := slice_at (a := []) (b := tag) (c := len ++ payload) (i := 0) (j := T.size) rfl (by simpa)
      simpa using hs
    · obtain rfl := List.length_eq_zero_iff.mp (ht.trans (Nat.eq_zero_of_not_pos hz))
      rfl
  have h4 : slice (archiveRecord ts tag payload) (8 + T.size) (8 + T.size + 4) = some len := by
    have hs := slice_at (a := u64ToLe ts ++ tag) (b := len) (c := payload) (i := 8 + T.size)
      (j := 8 + T.size + 4) (by simp [ht]) (by rw [hl])
    rwa [archiveRecord, hlen]
  have h5 : (u32FromLe len).toNat = payload.length := by
    rw [← hlen, u32FromLe_toLe]
    exact Nat.mod_eq_of_lt hp
  have h6 : slice (archiveRecord ts tag payload) (8 + T.size + 4) (8 + T.size + 4 + payload.length) =
      some payload := by
    have hs := slice_at (a := u64ToLe ts ++ tag ++ len) (b := payload) (c := []) (i := 8 + T.size + 4)
      (j := 8 + T.size + 4 + payload.length) (by simp [ht, hl, Nat.add_assoc]) rfl
    simpa [archiveRecord, hlen] using hs
  simp only [archiveFormatFn, h1, h2, h3, h4, h5, h6, Option.bind_eq_bind, Option.bind_some, u64FromLe_toLe]
  cases T.writeLabel tag <;> rfl

theorem archive_round_trip (T : TagType) (ts : UInt64) (tag : T.Val) (m payload : Bytes) (hm : T.Memory tag m)
    (hp : payload.length < 2 ^ 32) :
    ∃ record, record.length = archiveRecordSize T.size payload.length ∧
      (∀ claim, claim.length = archiveRecordSize T.size payload.length →
        archiveWrite ts m payload claim = some record) ∧
      archiveFormatFn T.archiveTag record = (T.writeLabel tag).map fun label =>
        formatTimestamp ts ++ utf8 " [" ++ label ++ utf8 "] " ++ payload ++ utf8 "\n" := by
  have hl : m.length = T.size := T.memory_length tag m hm
  refine ⟨archiveRecord ts m payload, ?_, fun claim hc => ?_, ?_⟩
  · rw [archiveRecord_length, hl]
  · apply archiveWrite_eq
    rw [hc, hl]
  · rw [archiveFormatFn_eq T.archiveTag ts hl hp]
    simp only [TagType.archiveTag, T.read_memory tag m hm]

lemma direction_memory_length (tag : Bool) (m : Bytes) (h : ∃ pad, m = [if tag then 1 else 0, pad]) :
    m.length = 2 := by
  obtain ⟨pad, rfl⟩ := h
  rfl

lemma direction_read_memory (tag : Bool) (m : Bytes) (h : ∃ pad, m = [if tag then 1 else 0, pad]) :
    (m.head? == some 1) = tag := by
  obtain ⟨pad, rfl⟩ := h
  cases tag <;> rfl

def direction : TagType where
  Val := Bool
  size := 2
  Memory tag m := ∃ pad, m = [if tag then 1 else 0, pad]
  read m := m.head? == some 1
  writeLabel tag := some (if tag then utf8 "OUTBOUND" else utf8 "INBOUND")
  memory_length := direction_memory_length
  read_memory := direction_read_memory

theorem archive_round_trip_direction :
    ∃ record, record.length = archiveRecordSize 2 4 ∧
      (∀ claim, claim.length = archiveRecordSize 2 4 →
        archiveWrite 0 [1, 170] (utf8 "ping") claim = some record) ∧
      archiveFormatFn direction.archiveTag record = (direction.writeLabel true).map fun label =>
        formatTimestamp 0 ++ utf8 " [" ++ label ++ utf8 "] " ++ utf8 "ping" ++ utf8 "\n" :=
  archive_round_trip direction 0 true [1, 170] (utf8 "ping") ⟨170, rfl⟩ (by decide)

end InqJet
