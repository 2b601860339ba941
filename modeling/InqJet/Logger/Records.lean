import InqJet.HotPath.RoundTrip

namespace InqJet

open ByteCodec

/-- The claim as `log_impl` commits it; `none` when a panic drops it before the commit. -/
def logImplRecord (header : RecordHeader) (line : UInt32) (target message : String) (claim : Bytes) :
    Option Bytes := do
  let claim ← writeHeader claim header
  let payload ← slice claim headerSize claim.length
  let (payload, _) ← writeStandardPayload payload line target message
  some (claim.take headerSize ++ payload)

def hotSubmitRecord (header : RecordHeader) (line : UInt32) (target : String) (args : List (HotArg × ℕ))
    (st : Stash) (claim : Bytes) : Stash × Option Bytes :=
  match writeHeader claim header with
  | none => (st, none)
  | some claim =>
    match slice claim headerSize claim.length with
    | none => (st, none)
    | some payload =>
      let r := encodeBlock line target args st payload
      (r.1, r.2.map fun payload => claim.take headerSize ++ payload)

lemma writeHeader_take {header : RecordHeader} {buf buf' : Bytes} (h : writeHeader buf header = some buf') :
    buf'.take headerSize = header.bytes ∧ headerSize ≤ buf'.length := by
  by_cases hl : headerSize ≤ buf.length
  · rw [writeHeader_eq header hl] at h
    obtain rfl := Option.some.inj h
    exact ⟨List.take_left' header.bytes_length, by simp⟩
  · simp [writeHeader, hl] at h

lemma hotSubmitRecord_eq {st : Stash} {q : TextQueue} (h : st.Represents q) {args : List HotArg}
    {more : List String} (hq : q.unread = stashTexts args ++ more) (header : RecordHeader) (line : UInt32)
    (target : String) {claim : Bytes}
    (hc : claim.length = headerSize + totalSize target (args.map fun a => a.encoded.length)) :
    ∃ st', hotSubmitRecord header line target (sized args) st claim =
        (st', some (header.bytes ++ hotPayload line target args)) ∧
      st'.Represents (q.skip (stashTexts args).length) := by
  have hlen : headerSize ≤ claim.length := by omega
  obtain ⟨st', he, hr⟩ := encodeBlock_eq h hq line target (claim.drop headerSize) (by simp [hc])
  have hs := slice_from (b := claim.drop headerSize) header.bytes_length
  refine ⟨st', ?_, hr⟩
  simp only [hotSubmitRecord, writeHeader_eq header hlen, hs, he, Option.map_some,
    List.take_left' header.bytes_length]

lemma slice_tail {α : Type*} {buf rest : List α} {off : ℕ} (h : slice buf off buf.length = some rest) :
    off ≤ buf.length ∧ rest = buf.drop off := by
  simp only [slice, le_refl, and_true] at h
  split_ifs at h with ho
  refine ⟨ho, ?_⟩
  rw [← Option.some.inj h, List.take_of_length_le (by simp)]

lemma hotSubmitRecord_eq_some {header : RecordHeader} {line : UInt32} {target : String}
    {args : List (HotArg × ℕ)} {st st' : Stash} {claim record : Bytes}
    (h : hotSubmitRecord header line target args st claim = (st', some record)) :
    ∃ region payload, encodeBlock line target args st region = (st', some payload) ∧
      record = header.bytes ++ payload := by
  simp only [hotSubmitRecord] at h
  cases hw : writeHeader claim header with
  | none => simp [hw] at h
  | some claim' =>
    obtain ⟨ht, hl⟩ := writeHeader_take hw
    cases hs : slice claim' headerSize claim'.length with
    | none => simp [hw, hs] at h
    | some region =>
      simp only [hw, hs, Prod.mk.injEq, Option.map_eq_some_iff] at h
      obtain ⟨hst, payload, hp, rfl⟩ := h
      exact ⟨region, payload, Prod.ext hst hp, by rw [ht]⟩

lemma logImplRecord_eq_some {header : RecordHeader} {line : UInt32} {target message : String}
    {claim record : Bytes} (h : logImplRecord header line target message claim = some record) :
    ∃ region payload n, writeStandardPayload region line target message = some (payload, n) ∧
      record = header.bytes ++ payload := by
  simp only [logImplRecord, Option.bind_eq_bind, Option.bind_eq_some_iff] at h
  obtain ⟨claim', hw, region, hs, ⟨payload, n⟩, hp, hr⟩ := h
  obtain ⟨ht, -⟩ := writeHeader_take hw
  exact ⟨region, payload, n, hp, by rw [← Option.some.inj hr, ht]⟩

end InqJet
