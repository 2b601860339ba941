import InqJet.Consumer.System
import InqJet.Lengths
import InqJet.Lib.Retry

/-! The retry loops of `log_impl` and `hot_log_submit` over a ring that other producers fill and the
archiver empties. The ring itself is a parameter: it belongs to another crate. -/

namespace InqJet

open ByteCodec Retry

/-- What a submit can tell of a ring: its capacity and, in each of its states, how many bytes are taken and
which claims it grants. -/
structure LogRing (σ : Type*) where
  capacity : ℕ
  used : σ → ℕ
  grants : σ → ℕ → Bool

variable {σ : Type*}

def LogRing.free (ring : LogRing σ) (s : σ) : ℕ := ring.capacity - ring.used s

/-- What does not fit in the free space is `BufferFull`. Nothing says that what fits is granted: alignment,
length words or a wrap may cost more. -/
def LogRing.RefusesBeyondFree (ring : LogRing σ) : Prop := ∀ s n, ring.free s < n → ring.grants s n = false

/-- What a call meets: the ring as each try finds it, the states it passes through behind a failed try, what
the call's checks of `running` read (the first one before the first try), and the memory of a granted claim. -/
structure Surroundings (ring : LogRing σ) where
  found : ℕ → σ
  between : ℕ → List σ
  running : ℕ → Bool
  region : ℕ → ℕ → Bytes
  region_length : ∀ i n, (region i n).length = n

variable {ring : LogRing σ} (e : Surroundings ring)

def Surroundings.tryClaim (i n : ℕ) : Option Bytes :=
  if ring.grants (e.found i) n then some (e.region i n) else none

inductive Ended
  | committed (record : Bytes)
  | panicked
  | returned
  deriving DecidableEq

/-- The common course of both submits: `none` while the loop has not been left after `fuel` tries. -/
def submit (mode : BackpressureMode) (size : ℕ) (fill : Bytes → Option Bytes) (fuel : ℕ) : Option Ended :=
  if e.running 0 then
    match retry (fun i => (e.tryClaim i size).map fill)
        (fun i => decide (mode = .backoff) && e.running (i + 1)) fuel 0 with
    | some (some (some record)) => some (.committed record)
    | some (some none) => some .panicked
    | some none => some .returned
    | none => none
  else some .returned

def hotLogSubmit (mode : BackpressureMode) (header : RecordHeader) (line : UInt32) (target : String)
    (args : List (HotArg × ℕ)) (st : Stash) (fuel : ℕ) : Option Ended :=
  submit e mode (headerSize + totalSize target (args.map Prod.snd))
    (fun claim => (hotSubmitRecord header line target args st claim).2) fuel

def logImpl (mode : BackpressureMode) (header : RecordHeader) (line : UInt32) (target message : String)
    (fuel : ℕ) : Option Ended :=
  submit e mode (standardRecordSize (utf8 target).length (utf8 message).length)
    (logImplRecord header line target message) fuel

/-- A call as it reaches its loop: on the hot path with the sizes it has measured and whatever the
thread's stash holds then. -/
inductive SubmitCall
  | hot (header : RecordHeader) (line : UInt32) (target : String) (args : List (HotArg × ℕ)) (st : Stash)
  | bridge (header : RecordHeader) (line : UInt32) (target message : String)

def SubmitCall.run (mode : BackpressureMode) (fuel : ℕ) : SubmitCall → Option Ended
  | .hot header line target args st => hotLogSubmit e mode header line target args st fuel
  | .bridge header line target message => logImpl e mode header line target message fuel

def SubmitCall.Delivered (call : SubmitCall) : Prop :=
  ∃ fuel record, call.run e .backoff fuel = some (.committed record)

def SubmitCall.size : SubmitCall → ℕ
  | .hot _ _ target args _ => headerSize + totalSize target (args.map Prod.snd)
  | .bridge _ _ target message => standardRecordSize (utf8 target).length (utf8 message).length

def HotArg.written (a : HotArg) (st : Stash) : Option ℕ :=
  match a with
  | .pod bytes => some bytes.length
  | _ => (a.content st).map fun c => 4 + c.length

def Encodable : List (HotArg × ℕ) → Stash → Prop
  | [], _ => True
  | (a, size) :: as, st =>
    (∃ n, a.written st = some n ∧ n ≤ size + (as.map Prod.snd).sum) ∧ Encodable as (a.afterEncode st)

def SubmitCall.Fillable : SubmitCall → Prop
  | .hot _ _ _ args st => Encodable args st
  | .bridge _ _ target _ => (utf8 target).length ≤ 65535

def Surroundings.Emptied : Prop := ∀ i, ∃ s ∈ e.between i, ring.used s = 0

variable {e}

lemma writeAt_isSome {buf src : Bytes} {off : ℕ} :
    (writeAt buf off src).isSome = true ↔ off + src.length ≤ buf.length := by
  simp only [writeAt]
  split_ifs with h <;> simp [h]

lemma encodeBytes_isSome {content buf : Bytes} :
    (encodeBytes content buf).isSome = true ↔ 4 + content.length ≤ buf.length := by
  constructor
  · intro h
    obtain ⟨buf', he⟩ := Option.isSome_iff_exists.mp h
    simp only [encodeBytes, Option.bind_eq_bind, Option.bind_eq_some_iff] at he
    obtain ⟨b, h₁, h₂⟩ := he
    rw [← writeAt_length h₁]
    exact (writeAt_eq_some.mp h₂).1
  · intro h
    rw [encodeBytes_eq h]
    rfl

lemma hotEncode_isSome {a : HotArg} {st : Stash} {region : Bytes} :
    (a.hotEncode st region).2.isSome = true ↔ ∃ n, a.written st = some n ∧ n ≤ region.length := by
  cases a with
  | pod bytes => simp [HotArg.hotEncode, HotArg.written, writeAt_isSome]
  | str s => simp [HotArg.hotEncode, strHotEncode, HotArg.written, HotArg.content, encodeBytes_isSome]
  | string s => simp [HotArg.hotEncode, strHotEncode, HotArg.written, HotArg.content, encodeBytes_isSome]
  | fallback text =>
    simp only [HotArg.hotEncode, fallbackStashEncode, HotArg.written, HotArg.content]
    cases st.nextContent with
    | none => simp
    | some content => simp [encodeBytes_isSome]

lemma encodeArgs_isSome {args : List (HotArg × ℕ)} {off : ℕ} {st : Stash} {buf : Bytes}
    (h : buf.length = off + (args.map Prod.snd).sum) :
    (encodeArgs args off st buf).2.isSome = true ↔ Encodable args st := by
  induction args generalizing off st buf with
  | nil => simp [encodeArgs, Encodable]
  | cons p as ih =>
    obtain ⟨a, size⟩ := p
    simp only [List.map_cons, List.sum_cons] at h
    have hs : slice buf off buf.length = some (buf.drop off) := by
      simp [slice, show off ≤ buf.length by omega]
    have hregion : (buf.drop off).length = size + (as.map Prod.snd).sum := by
      rw [List.length_drop]
      omega
    have harg := @hotEncode_isSome a st (buf.drop off)
    rw [hregion] at harg
    simp only [encodeArgs, hs, Encodable, ← harg]
    cases he : a.hotEncode st (buf.drop off) with
    | mk st' res =>
      cases res with
      | none => simp
      | some region' =>
        obtain ⟨rfl, hl, -⟩ := hotEncode_spec he
        have hnext : (buf.take off ++ region').length = off + size + (as.map Prod.snd).sum := by
          rw [List.length_append, List.length_take, hl, hregion]
          omega
        simpa using ih hnext

lemma hotSubmit_isSome {header : RecordHeader} {line : UInt32} {target : String} {args : List (HotArg × ℕ)}
    {st : Stash} {claim : Bytes} (h : claim.length = headerSize + totalSize target (args.map Prod.snd)) :
    (hotSubmitRecord header line target args st claim).2.isSome = true ↔ Encodable args st := by
  have hlen : headerSize ≤ claim.length := by omega
  have hs := slice_from (b := claim.drop headerSize) header.bytes_length
  have hroom : 6 + (utf8 target).length ≤ (claim.drop headerSize).length := by
    simp only [List.length_drop, h, totalSize, prefixSize]
    omega
  have hp := prefixEncode_eq line target hroom
  simp only [hotSubmitRecord, writeHeader_eq header hlen, hs, Option.isSome_map, encodeBlock, hp]
  apply encodeArgs_isSome
  simp only [List.length_append, payloadPrefix_length, List.length_drop, h, totalSize, prefixSize]
  omega

lemma logImpl_isSome {header : RecordHeader} {line : UInt32} {target message : String} {claim : Bytes}
    (h : claim.length = standardRecordSize (utf8 target).length (utf8 message).length) :
    (logImplRecord header line target message claim).isSome = true ↔ (utf8 target).length ≤ 65535 := by
  simp only [standardRecordSize] at h
  have hs := slice_from (b := claim.drop headerSize) header.bytes_length
  simp only [logImplRecord, writeHeader_eq header (show headerSize ≤ claim.length by omega), hs,
    Option.bind_eq_bind, Option.bind_some]
  constructor
  · intro hh
    obtain ⟨record, hr⟩ := Option.isSome_iff_exists.mp hh
    obtain ⟨r, hw, -⟩ := Option.bind_eq_some_iff.mp hr
    exact writeStandardPayload_target hw
  · intro ht
    rw [writeStandardPayload_eq line ht (by simp only [List.length_drop]; omega)]
    rfl

lemma attempt_eq_some {i size : ℕ} {fill : Bytes → Option Bytes} {res : Option Bytes} :
    (e.tryClaim i size).map fill = some res ↔
      ring.grants (e.found i) size = true ∧ fill (e.region i size) = res := by
  simp only [Surroundings.tryClaim]
  split_ifs with h <;> simp [h]

lemma attempt_eq_none {i size : ℕ} {fill : Bytes → Option Bytes} :
    (e.tryClaim i size).map fill = none ↔ ¬ ring.grants (e.found i) size = true := by
  simp only [Surroundings.tryClaim]
  split_ifs with h <;> simp [h]

lemma submit_committed_iff {size : ℕ} {fill : Bytes → Option Bytes} {fuel : ℕ} (hrun : e.running 0 = true) :
    (∃ record, submit e .backoff size fill fuel = some (.committed record)) ↔
      ∃ res, retry (fun i => (e.tryClaim i size).map fill) (fun i => true && e.running (i + 1)) fuel 0 =
        some (some res) ∧ res.isSome = true := by
  simp only [submit, hrun, if_true, decide_true]
  split <;> simp_all

lemma submit_delivers {size : ℕ} {fill : Bytes → Option Bytes} (hrun : ∀ i, e.running i = true) {P : Prop}
    (hfill : ∀ claim : Bytes, claim.length = size → ((fill claim).isSome = true ↔ P)) :
    (∃ fuel record, submit e .backoff size fill fuel = some (.committed record)) ↔
      (∃ i, ring.grants (e.found i) size = true) ∧ P := by
  rw [exists_congr fun _ => submit_committed_iff (hrun 0), retry_first_iff fun i => by simp [hrun (i + 1)]]
  constructor
  · rintro ⟨i, res, hi, -, hres⟩
    obtain ⟨hgrant, rfl⟩ := attempt_eq_some.mp hi
    exact ⟨⟨i, hgrant⟩, (hfill _ (e.region_length i size)).mp hres⟩
  · rintro ⟨hgrant, hp⟩
    have hfirst := Nat.find_spec hgrant
    refine ⟨Nat.find hgrant, _, attempt_eq_some.mpr ⟨hfirst, rfl⟩, fun j hj => ?_, ?_⟩
    · exact attempt_eq_none.mpr (Nat.find_min hgrant hj)
    · exact (hfill _ (e.region_length _ size)).mpr hp

lemma delivered_iff (call : SubmitCall) (hrun : ∀ i, e.running i = true) :
    call.Delivered e ↔ (∃ i, ring.grants (e.found i) call.size = true) ∧ call.Fillable := by
  cases call with
  | hot header line target args st => exact submit_delivers hrun fun _ hc => hotSubmit_isSome hc
  | bridge header line target message => exact submit_delivers hrun fun _ hc => logImpl_isSome hc

lemma LogRing.RefusesBeyondFree.le_capacity (hfull : ring.RefusesBeyondFree) {s : σ} {n : ℕ}
    (h : ring.grants s n = true) : n ≤ ring.capacity := by
  by_contra hlt
  have hfree : ring.free s < n := by
    simp only [LogRing.free]
    omega
  rw [hfull s n hfree] at h
  cases h

/-- In backoff mode, while `running` stays true, a call is delivered exactly when one of its tries is granted
and the claim can be filled, whatever the archiver does between the tries. No record longer than the ring is. -/
theorem backoff_delivers_iff (ring : LogRing σ) (hfull : ring.RefusesBeyondFree) (e : Surroundings ring)
    (hrun : ∀ i, e.running i = true) (call : SubmitCall) :
    (call.Delivered e ↔ (∃ i, ring.grants (e.found i) call.size = true) ∧ call.Fillable) ∧
      (call.Delivered e → call.size ≤ ring.capacity) := by
  have hiff := delivered_iff call hrun
  refine ⟨hiff, fun hd => ?_⟩
  obtain ⟨⟨i, hgrant⟩, -⟩ := hiff.mp hd
  exact hfull.le_capacity hgrant

theorem fillable_own {st : Stash} (h : st.Cleared) (args : List HotArg) :
    ∃ st', sizeArgs args st = some (args.map fun a => a.encoded.length, st') ∧
      ∀ header line target, (SubmitCall.hot header line target (sized args) st').Fillable := by
  obtain ⟨st', q, hs, hr, hq⟩ := sizeArgs_cleared h args
  refine ⟨st', hs, fun header line target => ?_⟩
  have hmap : (sized args).map Prod.snd = args.map fun a => a.encoded.length := by simp [sized]
  obtain ⟨claim, hc⟩ : ∃ claim : Bytes,
      claim.length = headerSize + totalSize target ((sized args).map Prod.snd) :=
    ⟨List.replicate _ 0, List.length_replicate⟩
  obtain ⟨st'', he, -⟩ := hotSubmitRecord_eq hr hq header line target (hmap ▸ hc)
  apply (hotSubmit_isSome hc).mp
  rw [he]
  rfl

lemma oversized_never_left (hfull : ring.RefusesBeyondFree) {call : SubmitCall}
    (hrun : ∀ i, e.running i = true) (h : ring.capacity < call.size) (fuel : ℕ) :
    call.run e .backoff fuel = none := by
  have hnever (fill : Bytes → Option Bytes) (i : ℕ) : (e.tryClaim i call.size).map fill = none := by
    apply attempt_eq_none.mpr
    intro hgrant
    exact (hfull.le_capacity hgrant).not_gt h
  have hloop (fill : Bytes → Option Bytes) : submit e .backoff call.size fill fuel = none := by
    simp only [submit, hrun 0, if_true, decide_true]
    rw [retry_never (hnever fill) fun i => by simp [hrun (i + 1)]]
  cases call with
  | hot => exact hloop _
  | bridge => exact hloop _

/-- A ring that keeps eight bytes in front of each record. Its state is the number of bytes taken. -/
def prefixedRing (capacity : ℕ) : LogRing ℕ := ⟨capacity, id, fun used n => decide (n + 8 ≤ capacity - used)⟩

lemma prefixedRing_refuses (capacity : ℕ) : (prefixedRing capacity).RefusesBeyondFree := by
  intro used n h
  simp only [prefixedRing, LogRing.free, id] at h ⊢
  rw [decide_eq_false_iff_not]
  omega

def zeroed (_ n : ℕ) : Bytes := List.replicate n 0

lemma zeroed_length (i n : ℕ) : (zeroed i n).length = n := List.length_replicate

def crowded : Surroundings (prefixedRing 256) :=
  ⟨fun i => if i = 0 then 256 else 100, fun _ => [0, 100], fun _ => true, zeroed, zeroed_length⟩

def shortCall : SubmitCall := .bridge ⟨0, 0, 3⟩ 7 "app" "ready"

theorem backoff_delivers_iff_crowded : crowded.Emptied ∧ shortCall.Delivered crowded ∧
    (shortCall.Delivered crowded ↔
      (∃ i, (prefixedRing 256).grants (crowded.found i) shortCall.size = true) ∧ shortCall.Fillable) ∧
    (shortCall.Delivered crowded → shortCall.size ≤ (prefixedRing 256).capacity) := by
  have hiff := backoff_delivers_iff (prefixedRing 256) (prefixedRing_refuses 256) crowded (fun _ => rfl) shortCall
  have hgrant : (prefixedRing 256).grants (crowded.found 1) shortCall.size = true := by decide
  have hfill : shortCall.Fillable := show (utf8 "app").length ≤ 65535 by decide
  exact ⟨fun _ => ⟨0, by simp [crowded], rfl⟩, hiff.1.mpr ⟨⟨1, hgrant⟩, hfill⟩, hiff⟩

def smallRing : Surroundings (prefixedRing 64) :=
  ⟨fun _ => 0, fun _ => [0], fun _ => true, zeroed, zeroed_length⟩

def longCall : SubmitCall :=
  .hot ⟨0, 0, 3⟩ 7 "app" (sized [.str "a record is never compared with the capacity"]) {}

theorem long_call_retries_forever : (prefixedRing 64).RefusesBeyondFree ∧ (∀ i, smallRing.running i = true) ∧
    smallRing.Emptied ∧ longCall.Fillable ∧ (∀ fuel, longCall.run smallRing .backoff fuel = none) ∧
    ¬ longCall.Delivered smallRing := by
  have hnever (fuel : ℕ) : longCall.run smallRing .backoff fuel = none :=
    oversized_never_left (prefixedRing_refuses 64) (fun _ => rfl) (by decide) fuel
  refine ⟨prefixedRing_refuses 64, fun _ => rfl, fun _ => ⟨0, by simp [smallRing], rfl⟩, ?_, hnever, ?_⟩
  · exact ⟨⟨_, rfl, by decide⟩, trivial⟩
  · rintro ⟨fuel, record, hr⟩
    rw [hnever fuel] at hr
    cases hr

end InqJet
