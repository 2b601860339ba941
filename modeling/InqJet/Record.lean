import InqJet.Lib.ByteCodec

/-! Records of the log ring: a fixed 24-byte header, then a payload. -/

namespace InqJet

open ByteCodec

/-- What a format function reads; the bytes it appends to `out` are its result. -/
structure FormatContext where
  timestampNs : UInt64
  level : UInt8
  payload : Bytes

abbrev FormatFn := FormatContext → Option Bytes

/-- The formatter is kept as the address of a function. -/
structure RecordHeader where
  timestampNs : UInt64
  formatter : UInt64
  level : UInt8
  deriving DecidableEq

def headerSize : ℕ := 24

def RecordHeader.bytes (h : RecordHeader) : Bytes :=
  u64ToLe h.timestampNs ++ u64ToLe h.formatter ++ [h.level] ++ List.replicate 7 0

@[simp] lemma RecordHeader.bytes_length (h : RecordHeader) : h.bytes.length = headerSize := by
  simp [bytes, headerSize]

def writeHeader (buf : Bytes) (header : RecordHeader) : Option Bytes :=
  if headerSize ≤ buf.length then writeAt buf 0 header.bytes else none

def readHeader (buf : Bytes) : Option RecordHeader := do
  let timestampNs ← slice buf 0 8
  let formatter ← slice buf 8 16
  let level ← buf[16]?
  if headerSize ≤ buf.length then
    some ⟨u64FromLe timestampNs, u64FromLe formatter, level⟩
  else none

lemma writeHeader_eq {buf : Bytes} (header : RecordHeader) (h : headerSize ≤ buf.length) :
    writeHeader buf header = some (header.bytes ++ buf.drop headerSize) := by
  have hw := writeAt_next (a := []) (b := buf) (s := header.bytes) rfl (by simpa using h)
  simpa [writeHeader, h] using hw

lemma readHeader_bytes (header : RecordHeader) (payload : Bytes) :
    readHeader (header.bytes ++ payload) = some header := by
  have ht : slice (header.bytes ++ payload) 0 8 = some (u64ToLe header.timestampNs) := by
    have hh := slice_at (a := []) (b := u64ToLe header.timestampNs)
      (c := u64ToLe header.formatter ++ [header.level] ++ List.replicate 7 0 ++ payload)
      (i := 0) (j := 8) rfl (by simp)
    simpa [RecordHeader.bytes, List.append_assoc] using hh
  have hf : slice (header.bytes ++ payload) 8 16 = some (u64ToLe header.formatter) := by
    have hh := slice_at (a := u64ToLe header.timestampNs) (b := u64ToLe header.formatter)
      (c := [header.level] ++ List.replicate 7 0 ++ payload) (i := 8) (j := 16) (by simp) (by simp)
    simpa [RecordHeader.bytes, List.append_assoc] using hh
  have hl : (header.bytes ++ payload)[16]? = some header.level := by
    rw [RecordHeader.bytes, List.append_assoc, List.append_assoc,
      List.getElem?_append_right (by simp)]
    simp
  simp [readHeader, ht, hf, hl]

def payloadPrefix (line : UInt32) (target : String) : Bytes :=
  u32ToLe line ++ u16ToLe (UInt16.ofNat (utf8 target).length) ++ utf8 target

@[simp] lemma payloadPrefix_length (line : UInt32) (target : String) :
    (payloadPrefix line target).length = 6 + (utf8 target).length := by
  simp [payloadPrefix]
  omega

def standardRecordSize (targetLen messageLen : ℕ) : ℕ :=
  headerSize + 4 + 2 + targetLen + messageLen

/-- The buffer after the writes and the number of bytes written; `none` when the assertion on
the target length or a slice index panics. -/
def writeStandardPayload (buf : Bytes) (line : UInt32) (target message : String) : Option (Bytes × ℕ) := do
  let tb := utf8 target
  let mb := utf8 message
  if tb.length ≤ 65535 then
    let tl := UInt16.ofNat tb.length
    let buf ← writeAt buf 0 (u32ToLe line)
    let buf ← writeAt buf 4 (u16ToLe tl)
    let buf ← writeAt buf 6 tb
    let msgStart := 6 + tb.length
    let buf ← writeAt buf msgStart mb
    some (buf, msgStart + mb.length)
  else none

def readStandardPayload (payload : Bytes) : Option (UInt32 × String × String) := do
  let line ← slice payload 0 4
  let tl ← slice payload 4 6
  let tl := (u16FromLe tl).toNat
  let tb ← slice payload 6 (6 + tl)
  let target ← fromUtf8 tb
  let mb ← slice payload (6 + tl) payload.length
  let message ← fromUtf8 mb
  some (u32FromLe line, target, message)

lemma writePrefix_eq {buf : Bytes} (line : UInt32) (target : String)
    (h : 6 + (utf8 target).length ≤ buf.length) :
    ((writeAt buf 0 (u32ToLe line)).bind fun buf =>
      (writeAt buf 4 (u16ToLe (UInt16.ofNat (utf8 target).length))).bind fun buf =>
      writeAt buf 6 (utf8 target)) =
      some (payloadPrefix line target ++ buf.drop (6 + (utf8 target).length)) := by
  have h₁ := writeAt_next (a := []) (b := buf) (s := u32ToLe line) rfl (by simp; omega)
  have h₂ := writeAt_next (a := u32ToLe line) (b := buf.drop 4)
    (s := u16ToLe (UInt16.ofNat (utf8 target).length)) (i := 4) (by simp) (by simp; omega)
  have h₃ := writeAt_next (a := u32ToLe line ++ u16ToLe (UInt16.ofNat (utf8 target).length))
    (b := buf.drop 6) (s := utf8 target) (i := 6) (by simp) (by simp; omega)
  simp only [List.nil_append, u32ToLe_length, List.length_nil] at h₁
  simp only [u16ToLe_length, List.drop_drop] at h₂ h₃
  rw [h₁, Option.bind_some, h₂, Option.bind_some, h₃]
  rfl

lemma writeStandardPayload_eq {buf : Bytes} (line : UInt32) {target message : String}
    (ht : (utf8 target).length ≤ 65535)
    (h : 6 + (utf8 target).length + (utf8 message).length ≤ buf.length) :
    writeStandardPayload buf line target message =
      some (payloadPrefix line target ++ utf8 message ++
        buf.drop (6 + (utf8 target).length + (utf8 message).length),
        6 + (utf8 target).length + (utf8 message).length) := by
  have hp := writePrefix_eq line target (show 6 + (utf8 target).length ≤ buf.length by omega)
  have hm := writeAt_next (a := payloadPrefix line target) (b := buf.drop (6 + (utf8 target).length))
    (s := utf8 message) (payloadPrefix_length line target) (by simp; omega)
  simp only [Option.bind_eq_some_iff] at hp
  obtain ⟨b₁, h₁, b₂, h₂, h₃⟩ := hp
  simp [writeStandardPayload, ht, h₁, h₂, h₃, hm, List.drop_drop]

lemma readPrefix_eq (line : UInt32) {target : String} (ht : (utf8 target).length ≤ 65535) (rest : Bytes) :
    slice (payloadPrefix line target ++ rest) 0 4 = some (u32ToLe line) ∧
      slice (payloadPrefix line target ++ rest) 4 6 = some (u16ToLe (UInt16.ofNat (utf8 target).length)) ∧
      (UInt16.ofNat (utf8 target).length).toNat = (utf8 target).length ∧
      slice (payloadPrefix line target ++ rest) 6 (6 + (utf8 target).length) = some (utf8 target) := by
  refine ⟨?_, ?_, ?_, ?_⟩
  · have hh := slice_at (a := []) (b := u32ToLe line)
      (c := u16ToLe (UInt16.ofNat (utf8 target).length) ++ utf8 target ++ rest) (i := 0) (j := 4)
      rfl (by simp)
    simpa [payloadPrefix, List.append_assoc] using hh
  · have hh := slice_at (a := u32ToLe line) (b := u16ToLe (UInt16.ofNat (utf8 target).length))
      (c := utf8 target ++ rest) (i := 4) (j := 6) (by simp) (by simp)
    simpa [payloadPrefix, List.append_assoc] using hh
  · rw [UInt16.toNat_ofNat']
    omega
  · exact slice_at (a := u32ToLe line ++ u16ToLe (UInt16.ofNat (utf8 target).length)) (by simp) rfl

lemma readStandardPayload_eq (line : UInt32) {target : String} (message : String)
    (ht : (utf8 target).length ≤ 65535) :
    readStandardPayload (payloadPrefix line target ++ utf8 message) = some (line, target, message) := by
  obtain ⟨hl, htl, hn, htb⟩ := readPrefix_eq line ht (utf8 message)
  have hm := slice_from (a := payloadPrefix line target) (b := utf8 message)
    (payloadPrefix_length line target)
  simp only [readStandardPayload, hl, htl, hn, htb, hm, Option.bind_eq_bind, Option.bind_some,
    u16FromLe_toLe, u32FromLe_toLe, fromUtf8_utf8]

lemma writeStandardPayload_target {buf : Bytes} {line : UInt32} {target message : String} {r : Bytes × ℕ}
    (h : writeStandardPayload buf line target message = some r) : (utf8 target).length ≤ 65535 := by
  simp only [writeStandardPayload] at h
  split_ifs at h with ht
  exact ht

lemma readStandardPayload_of_write {buf payload : Bytes} {line : UInt32} {target message : String} {n : ℕ}
    (h : writeStandardPayload buf line target message = some (payload, n))
    (hl : buf.length = 6 + (utf8 target).length + (utf8 message).length) :
    readStandardPayload payload = some (line, target, message) := by
  have ht := writeStandardPayload_target h
  rw [writeStandardPayload_eq line ht hl.ge, List.drop_eq_nil_of_le hl.le, List.append_nil] at h
  obtain ⟨rfl, -⟩ := Prod.mk.inj (Option.some.inj h)
  exact readStandardPayload_eq line message ht

lemma payload_of_read {payload : Bytes} {line : UInt32} {target message : String}
    (h : readStandardPayload payload = some (line, target, message)) :
    (utf8 target).length ≤ 65535 ∧ payload = payloadPrefix line target ++ utf8 message := by
  simp only [readStandardPayload, Option.bind_eq_bind, Option.bind_eq_some_iff, Option.some.injEq,
    Prod.mk.injEq] at h
  obtain ⟨lb, hlb, tlb, htlb, tb, htb, target', hft, mb, hmb, message', hfm, rfl, rfl, rfl⟩ := h
  obtain ⟨hline, hlen4, -, -⟩ := take_of_slice hlb
  obtain ⟨hsize, hlen2, -, -⟩ := take_of_slice htlb
  obtain ⟨htarget, hlent, -, -⟩ := take_of_slice htb
  obtain ⟨hmessage, -, -, -⟩ := take_of_slice hmb
  have ht : utf8 target' = tb := utf8_of_fromUtf8 hft
  have hm : utf8 message' = mb := utf8_of_fromUtf8 hfm
  have hn : tb.length = (u16FromLe tlb).toNat := by omega
  have hfield : u16ToLe (UInt16.ofNat tb.length) = tlb := by
    rw [hn, UInt16.ofNat_toNat, u16ToLe_fromLe hlen2]
  constructor
  · have hlt := (u16FromLe tlb).toNat_lt
    rw [ht, hn]
    omega
  · rw [payloadPrefix, ht, hm, u32ToLe_fromLe hlen4, hfield]
    calc payload
      _ = payload.take (6 + (u16FromLe tlb).toNat) ++ mb := by rw [← hmessage, List.take_length]
      _ = payload.take 6 ++ tb ++ mb := by rw [htarget]
      _ = payload.take 4 ++ tlb ++ tb ++ mb := by rw [hsize]
      _ = lb ++ tlb ++ tb ++ mb := by rw [hline, List.take_zero, List.nil_append]

theorem standard_payload_one_to_one (line : UInt32) (target message : String) (buf : Bytes) (n : ℕ)
    (hn : standardRecordSize (utf8 target).length (utf8 message).length - headerSize = n)
    (hbuf : n ≤ buf.length) :
    ((utf8 target).length ≤ 65535 → ∃ written,
      writeStandardPayload buf line target message = some (written, n) ∧
      written.length = buf.length ∧ written.drop n = buf.drop n ∧
      readStandardPayload (written.take n) = some (line, target, message)) ∧
    ∀ payload, readStandardPayload payload = some (line, target, message) →
      payload.length = n ∧ ∃ written,
        writeStandardPayload buf line target message = some (written, n) ∧ written.take n = payload := by
  have hlen : (payloadPrefix line target ++ utf8 message).length = n := by
    rw [← hn, List.length_append, payloadPrefix_length, standardRecordSize]
    omega
  have hsize : 6 + (utf8 target).length + (utf8 message).length = n := by simpa using hlen
  have hwrite (ht : (utf8 target).length ≤ 65535) : writeStandardPayload buf line target message =
      some (payloadPrefix line target ++ utf8 message ++ buf.drop n, n) := by
    rw [writeStandardPayload_eq line ht (by rwa [hsize]), hsize]
  constructor
  · intro ht
    refine ⟨_, hwrite ht, ?_, ?_, ?_⟩
    · rw [List.length_append, hlen, List.length_drop, Nat.add_sub_cancel' hbuf]
    · rw [List.drop_left' hlen]
    · rw [List.take_left' hlen]
      exact readStandardPayload_eq line message ht
  · intro payload hread
    obtain ⟨ht, rfl⟩ := payload_of_read hread
    exact ⟨hlen, _, hwrite ht, List.take_left' hlen⟩

theorem standard_payload_one_to_one_msg :
    ((utf8 "app").length ≤ 65535 → ∃ written,
      writeStandardPayload (List.replicate 20 255) 42 "app" "msg" = some (written, 12) ∧
      written.length = 20 ∧ written.drop 12 = (List.replicate 20 255).drop 12 ∧
      readStandardPayload (written.take 12) = some (42, "app", "msg")) ∧
    ∀ payload, readStandardPayload payload = some (42, "app", "msg") →
      payload.length = 12 ∧ ∃ written,
        writeStandardPayload (List.replicate 20 255) 42 "app" "msg" = some (written, 12) ∧
        written.take 12 = payload :=
  standard_payload_one_to_one 42 "app" "msg" (List.replicate 20 255) 12 (by decide) (by decide)

end InqJet
