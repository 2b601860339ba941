import InqJet.Macros.Generate

namespace InqJet

open ByteCodec

def hotPayload (line : UInt32) (target : String) (args : List HotArg) : Bytes :=
  payloadPrefix line target ++ encodedArgs args

lemma hotPayload_length (line : UInt32) (target : String) (args : List HotArg) :
    (hotPayload line target args).length = totalSize target (args.map fun a => a.encoded.length) := by
  simp [hotPayload, encodedArgs, totalSize, prefixSize]

lemma zip_sizes (args : List HotArg) : args.zip (args.map fun a => a.encoded.length) = sized args := by
  induction args with
  | nil => rfl
  | cons a as ih => simpa [sized] using ih

lemma encodeBlock_eq {st : Stash} {q : TextQueue} (h : st.Represents q) {args : List HotArg}
    {more : List String} (hq : q.unread = stashTexts args ++ more) (line : UInt32) (target : String)
    (claim : Bytes) (hc : claim.length = totalSize target (args.map fun a => a.encoded.length)) :
    ∃ st', encodeBlock line target (sized args) st claim = (st', some (hotPayload line target args)) ∧
      st'.Represents (q.skip (stashTexts args).length) := by
  have hlen : claim.length = 6 + (utf8 target).length + (encodedArgs args).length := by
    rw [hc, ← hotPayload_length 0 target args]
    simp [hotPayload]
  have hp := prefixEncode_eq line target (show 6 + (utf8 target).length ≤ claim.length by omega)
  obtain ⟨st', he, hr⟩ := encodeArgs_eq h hq (payloadPrefix line target)
    (claim.drop (6 + (utf8 target).length)) (payloadPrefix_length line target) (by simp; omega)
  refine ⟨st', ?_, hr⟩
  rw [encodeBlock, hp]
  simp only [he, List.drop_drop]
  rw [List.drop_eq_nil_of_le (by omega), List.append_nil]
  rfl

lemma hotPayload_encoded {st : Stash} (hst : st.Cleared) (line : UInt32) (target : String) (args : List HotArg) :
    ∃ sizes st₁, sizeArgs args st = some (sizes, st₁) ∧
      (hotPayload line target args).length = totalSize target sizes ∧
      ∀ claim : Bytes, claim.length = totalSize target sizes →
        (encodeBlock line target (args.zip sizes) st₁ claim).2 = some (hotPayload line target args) := by
  obtain ⟨st₁, q, hs, hr, hq⟩ := sizeArgs_cleared hst args
  refine ⟨_, st₁, hs, hotPayload_length line target args, fun claim hc => ?_⟩
  obtain ⟨st₂, he, -⟩ := encodeBlock_eq hr hq line target claim hc
  rw [zip_sizes, he]

lemma decodePayload_eq (line : UInt32) {target : String} (ht : (utf8 target).length ≤ 65535)
    {args : List HotArg} (hfit : ∀ a ∈ args, a.Fits) :
    decodePayload (args.map HotArg.hotWitness) (hotPayload line target args) =
      some (line, target, args.map HotArg.decoded, (hotPayload line target args).length) := by
  obtain ⟨hl, htl, hn, htb⟩ := readPrefix_eq line ht (encodedArgs args)
  have hd := decodeArgs_eq hfit _ (payloadPrefix_length line target)
  simp only [decodePayload, hotPayload, hl, htl, hn, htb, hd, Option.bind_eq_bind, Option.bind_some,
    u16FromLe_toLe, u32FromLe_toLe, fromUtf8_utf8, List.length_append, payloadPrefix_length]

/-- On every claim of exactly `__total` bytes the closure stays inside it and leaves one and the
same payload, so that no byte keeps its old value; decoding recovers line, target and arguments
and ends at the end of the payload. -/
theorem hot_payload_round_trip (line : UInt32) (target : String) (ht : (utf8 target).length ≤ 65535)
    (args : List HotArg) (hfit : ∀ a ∈ args, a.Fits) (st : Stash) (hst : st.Cleared) :
    ∃ sizes st₁, sizeArgs args st = some (sizes, st₁) ∧
      ∃ payload, payload.length = totalSize target sizes ∧
        (∀ claim : Bytes, claim.length = totalSize target sizes →
          (encodeBlock line target (args.zip sizes) st₁ claim).2 = some payload) ∧
        decodePayload (args.map HotArg.hotWitness) payload =
          some (line, target, args.map HotArg.decoded, payload.length) := by
  obtain ⟨sizes, st₁, hs, hl, he⟩ := hotPayload_encoded hst line target args
  refine ⟨sizes, st₁, hs, hotPayload line target args, hl, he, ?_⟩
  exact decodePayload_eq line ht hfit

theorem hot_payload_round_trip_mixed :
    ∃ sizes st₁, sizeArgs [.pod [], .str "ab", .fallback "[1]", .pod [7, 8]] {} = some (sizes, st₁) ∧
      ∃ payload, payload.length = totalSize "app" sizes ∧
        (∀ claim : Bytes, claim.length = totalSize "app" sizes →
          (encodeBlock 42 "app" ([HotArg.pod [], .str "ab", .fallback "[1]", .pod [7, 8]].zip sizes) st₁
            claim).2 = some payload) ∧
        decodePayload [.pod 0, .string, .preFormatted, .pod 2] payload =
          some (42, "app", [.pod [], .string "ab", .preFormatted "[1]", .pod [7, 8]], payload.length) :=
  hot_payload_round_trip 42 "app" (by decide) [.pod [], .str "ab", .fallback "[1]", .pod [7, 8]]
    (by decide) {} cleared_initial

end InqJet
