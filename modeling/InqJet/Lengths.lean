import InqJet.Archive
import InqJet.HotPath.RoundTrip
import InqJet.Logger.Records

namespace InqJet

open ByteCodec

/-- A stored length field, and the byte length of the data that was written behind it. -/
structure LengthField where
  offset : ℕ
  width : ℕ
  actual : ℕ

def LengthField.shift (n : ℕ) (f : LengthField) : LengthField := { f with offset := n + f.offset }

def LengthField.stored (record : Bytes) (f : LengthField) : Option ℕ :=
  (slice record f.offset (f.offset + f.width)).map ofLe

def Faithful (record : Bytes) (fields : List LengthField) : Prop :=
  ∀ f ∈ fields, f.stored record = some f.actual

def HotArg.content (a : HotArg) (st : Stash) : Option Bytes :=
  match a with
  | .pod _ => none
  | .str s => some (utf8 s)
  | .string s => some (utf8 s)
  | .fallback _ => st.nextContent

def HotArg.afterEncode (a : HotArg) (st : Stash) : Stash :=
  match a with
  | .fallback _ => { st with readIdx := st.readIdx + 1 }
  | _ => st

def argContents : List HotArg → Stash → List Bytes
  | [], _ => []
  | a :: as, st => (a.content st).toList ++ argContents as (a.afterEncode st)

def argFields : List (HotArg × ℕ) → ℕ → Stash → List LengthField
  | [], _, _ => []
  | (a, size) :: as, off, st =>
    ((a.content st).map fun c => ⟨off, 4, c.length⟩).toList ++ argFields as (off + size) (a.afterEncode st)

def payloadFields (target : String) (args : List (HotArg × ℕ)) (st : Stash) : List LengthField :=
  ⟨4, 2, (utf8 target).length⟩ :: argFields args (6 + (utf8 target).length) st

/-- The three ways a record gets into a ring, each on a claim that was granted. A hot-path call
may find any stash, also one with foreign texts in it. -/
inductive Write
  | hot (header : RecordHeader) (line : UInt32) (target : String) (args : List HotArg) (st : Stash)
      (claim : Bytes)
  | bridge (header : RecordHeader) (line : UInt32) (target message : String) (claim : Bytes)
  | archive (ts : UInt64) (tag payload claim : Bytes)

def Write.committed : Write → Option Bytes
  | .hot header line target args st claim =>
    (sizeArgs args st).bind fun p => (hotSubmitRecord header line target (args.zip p.1) p.2 claim).2
  | .bridge header line target message claim => logImplRecord header line target message claim
  | .archive ts tag payload claim => archiveWrite ts tag payload claim

def Write.fields : Write → List LengthField
  | .hot _ _ target args st _ =>
    ((sizeArgs args st).toList.flatMap fun p => payloadFields target (args.zip p.1) p.2).map
      (.shift headerSize)
  | .bridge _ _ target _ _ => [.shift headerSize ⟨4, 2, (utf8 target).length⟩]
  | .archive _ tag payload _ => [⟨8 + tag.length, 4, payload.length⟩]

def Write.Fits : Write → Prop
  | .hot _ _ target args st _ => (utf8 target).length < 2 ^ 16 ∧
      ∀ p, sizeArgs args st = some p → ∀ c ∈ argContents args p.2, c.length < 2 ^ 32
  | .bridge _ _ _ _ _ => True
  | .archive _ _ payload _ => payload.length < 2 ^ 32

def Wrapped (record : Bytes) (f : LengthField) : Prop := f.stored record = some (f.actual % 256 ^ f.width)

lemma ofLe_u16 (n : ℕ) : ofLe (u16ToLe (UInt16.ofNat n)) = n % 256 ^ 2 := by
  rw [u16ToLe, ofLe_toLe, UInt16.toNat_ofNat']
  simp

lemma ofLe_u32 (n : ℕ) : ofLe (u32ToLe (UInt32.ofNat n)) = n % 256 ^ 4 := by
  rw [u32ToLe, ofLe_toLe, UInt32.toNat_ofNat']
  simp

lemma faithful_iff {record : Bytes} {fields : List LengthField} (h : ∀ f ∈ fields, Wrapped record f) :
    Faithful record fields ↔ ∀ f ∈ fields, f.actual < 256 ^ f.width := by
  refine forall₂_congr fun f hf => ?_
  rw [h f hf, Option.some_inj]
  exact ⟨fun hm => hm ▸ Nat.mod_lt _ (by positivity), Nat.mod_eq_of_lt⟩

lemma stored_shift (front record : Bytes) (f : LengthField) :
    (f.shift front.length).stored (front ++ record) = f.stored record := by
  have hs : slice (front ++ record) (front.length + f.offset) (front.length + f.offset + f.width) =
      slice record f.offset (f.offset + f.width) := by
    simp [slice, Nat.add_assoc, Nat.add_sub_add_left]
  rw [LengthField.stored, LengthField.shift, hs, LengthField.stored]

lemma wrapped_of_slice {record bs : Bytes} {i w n : ℕ} (hs : slice record i (i + w) = some bs)
    (hb : ofLe bs = n % 256 ^ w) : Wrapped record ⟨i, w, n⟩ := by
  rw [Wrapped, LengthField.stored, hs, Option.map_some, hb]

lemma Wrapped.congr {record record' : Bytes} {f : LengthField} {n : ℕ} (h : Wrapped record f)
    (hl : record'.length = record.length) (ht : record'.take n = record.take n)
    (hn : f.offset + f.width ≤ n) : Wrapped record' f := by
  rwa [Wrapped, LengthField.stored, slice_congr hl ht hn]

lemma encodeBytes_stored {content buf buf' : Bytes} (h : encodeBytes content buf = some buf') :
    slice buf' 0 4 = some (u32ToLe (UInt32.ofNat content.length)) := by
  simp only [encodeBytes, Option.bind_eq_bind, Option.bind_eq_some_iff] at h
  obtain ⟨b, h₁, h₂⟩ := h
  rw [slice_congr (writeAt_length h₂) (writeAt_take h₂ (le_refl 4)) (le_refl 4)]
  simpa using writeAt_slice h₁

lemma hotEncode_spec {a : HotArg} {st st' : Stash} {buf buf' : Bytes}
    (h : a.hotEncode st buf = (st', some buf')) :
    st' = a.afterEncode st ∧ buf'.length = buf.length ∧
      ∀ c, a.content st = some c → slice buf' 0 4 = some (u32ToLe (UInt32.ofNat c.length)) := by
  have hbytes {content : Bytes} (he : encodeBytes content buf = some buf') :
      buf'.length = buf.length ∧ ∀ c, some content = some c →
        slice buf' 0 4 = some (u32ToLe (UInt32.ofNat c.length)) := by
    refine ⟨encodeBytes_length he, fun c hc => ?_⟩
    obtain rfl := Option.some.inj hc
    exact encodeBytes_stored he
  cases a with
  | pod bytes =>
    obtain ⟨rfl, hw⟩ := Prod.mk.inj h
    exact ⟨rfl, writeAt_length hw, by rintro _ ⟨⟩⟩
  | str s =>
    obtain ⟨rfl, he⟩ := Prod.mk.inj h
    exact ⟨rfl, hbytes he⟩
  | string s =>
    obtain ⟨rfl, he⟩ := Prod.mk.inj h
    exact ⟨rfl, hbytes he⟩
  | fallback text =>
    obtain ⟨rfl, he⟩ := Prod.mk.inj h
    obtain ⟨content, hn, he⟩ := Option.bind_eq_some_iff.mp he
    exact ⟨rfl, by simpa [HotArg.content, hn] using hbytes he⟩

def SlotRoom (p : HotArg × ℕ) : Prop := ∀ st c, p.1.content st = some c → 4 ≤ p.2

lemma encodeArgs_cons {a : HotArg} {size off : ℕ} {as : List (HotArg × ℕ)} {st st' : Stash} {buf buf' : Bytes}
    (h : encodeArgs ((a, size) :: as) off st buf = (st', some buf')) :
    ∃ region, off ≤ buf.length ∧ a.hotEncode st (buf.drop off) = (a.afterEncode st, some region) ∧
      encodeArgs as (off + size) (a.afterEncode st) (buf.take off ++ region) = (st', some buf') := by
  simp only [encodeArgs] at h
  cases hs : slice buf off buf.length with
  | none => simp [hs] at h
  | some rest =>
    obtain ⟨hoff, rfl⟩ := slice_tail hs
    simp only [hs] at h
    cases he : a.hotEncode st (buf.drop off) with
    | mk st₁ res =>
      cases res with
      | none => simp [he] at h
      | some region =>
        obtain ⟨rfl, -, -⟩ := hotEncode_spec he
        simp only [he] at h
        exact ⟨region, hoff, rfl, h⟩

lemma encodeArgs_spec {args : List (HotArg × ℕ)} (hroom : ∀ p ∈ args, SlotRoom p) {off : ℕ}
    {st st' : Stash} {buf buf' : Bytes} (h : encodeArgs args off st buf = (st', some buf')) :
    buf'.length = buf.length ∧ buf'.take off = buf.take off ∧
      ∀ f ∈ argFields args off st, Wrapped buf' f := by
  induction args generalizing off st buf with
  | nil =>
    obtain ⟨rfl, hb⟩ := Prod.mk.inj h
    obtain rfl := Option.some.inj hb
    exact ⟨rfl, rfl, by simp [argFields]⟩
  | cons p as ih =>
    obtain ⟨a, size⟩ := p
    obtain ⟨region, hoff, he, hrest⟩ := encodeArgs_cons h
    obtain ⟨-, hlen, hfield⟩ := hotEncode_spec he
    obtain ⟨hl, ht, hfs⟩ := ih (fun p hp => hroom p (List.mem_cons_of_mem _ hp)) hrest
    have hbuf : (buf.take off ++ region).length = buf.length := by
      simp only [List.length_append, List.length_take, hlen, List.length_drop]
      omega
    have htake (n : ℕ) (hn : n ≤ off + size) : buf'.take n = (buf.take off ++ region).take n := by
      have hh := congrArg (List.take n) ht
      simpa only [List.take_take, Nat.min_eq_left hn] using hh
    refine ⟨hl.trans hbuf, ?_, ?_⟩
    · rw [htake off (Nat.le_add_right _ _), List.take_left' (by simp; omega)]
    · intro f hf
      rcases List.mem_append.mp hf with hf | hf
      · simp only [Option.mem_toList, Option.map_eq_some_iff] at hf
        obtain ⟨c, hc, rfl⟩ := hf
        have h4 := hroom (a, size) (by simp) st c hc
        have hstored := stored_shift (buf.take off) region ⟨0, 4, c.length⟩
        have hw := wrapped_of_slice (i := 0) (hfield c hc) (ofLe_u32 _)
        simp only [LengthField.shift, List.length_take, Nat.min_eq_left hoff, Nat.add_zero] at hstored
        rw [Wrapped, ← hstored] at hw
        exact Wrapped.congr hw hl (htake (off + 4) (by omega)) (le_refl _)
      · exact hfs f hf

lemma sizeArgs_cons {a : HotArg} {as : List HotArg} {st st' : Stash} {sizes : List ℕ}
    (h : sizeArgs (a :: as) st = some (sizes, st')) :
    ∃ n st₁ ns, a.hotSizeWith st = some (n, st₁) ∧ sizeArgs as st₁ = some (ns, st') ∧ sizes = n :: ns := by
  simp only [sizeArgs, Option.bind_eq_some_iff, Option.map_eq_some_iff] at h
  obtain ⟨⟨n, st₁⟩, hn, ⟨ns, st₂⟩, hns, he⟩ := h
  obtain ⟨rfl, rfl⟩ := Prod.mk.inj he
  exact ⟨n, st₁, ns, hn, hns, rfl⟩

lemma hotSizeWith_room {a : HotArg} {n : ℕ} {st st' : Stash} (h : a.hotSizeWith st = some (n, st')) :
    SlotRoom (a, n) := by
  intro st₁ c hc
  cases a with
  | pod bytes => simp [HotArg.content] at hc
  | str s => obtain ⟨rfl, -⟩ := Prod.mk.inj (Option.some.inj h); simp [strHotSize]
  | string s => obtain ⟨rfl, -⟩ := Prod.mk.inj (Option.some.inj h); simp [strHotSize]
  | fallback text =>
    simp only [HotArg.hotSizeWith, fallbackHotSizeWith] at h
    split at h
    · simp at h
    · obtain ⟨rfl, -⟩ := Prod.mk.inj (Option.some.inj h)
      simp

lemma sizeArgs_room {args : List HotArg} {st st' : Stash} {sizes : List ℕ}
    (h : sizeArgs args st = some (sizes, st')) : ∀ p ∈ args.zip sizes, SlotRoom p := by
  induction args generalizing st sizes with
  | nil => simp
  | cons a as ih =>
    obtain ⟨n, st₁, ns, hn, hns, rfl⟩ := sizeArgs_cons h
    intro p hp
    rcases List.mem_cons.mp hp with rfl | hp
    · exact hotSizeWith_room hn
    · exact ih hns p hp

lemma writePrefix_stored {b₁ b₂ b₃ tb : Bytes} {n : ℕ} (h₂ : writeAt b₁ 4 (u16ToLe (UInt16.ofNat n)) = some b₂)
    (h₃ : writeAt b₂ 6 tb = some b₃) : Wrapped b₃ ⟨4, 2, n⟩ := by
  have hs := writeAt_slice h₂
  exact (wrapped_of_slice hs (ofLe_u16 n)).congr (writeAt_length h₃) (writeAt_take h₃ (le_refl 6)) (le_refl 6)

lemma encodeBlock_spec {line : UInt32} {target : String} {args : List (HotArg × ℕ)}
    (hroom : ∀ p ∈ args, SlotRoom p) {st st' : Stash} {claim payload : Bytes}
    (h : encodeBlock line target args st claim = (st', some payload)) :
    ∀ f ∈ payloadFields target args st, Wrapped payload f := by
  simp only [encodeBlock] at h
  cases hp : prefixEncode line target claim with
  | none => simp [hp] at h
  | some buf =>
    simp only [hp] at h
    obtain ⟨hl, ht, hfs⟩ := encodeArgs_spec hroom h
    simp only [prefixEncode, Option.bind_eq_bind, Option.bind_eq_some_iff] at hp
    obtain ⟨b₁, -, b₂, h₂, h₃⟩ := hp
    have hw := writePrefix_stored h₂ h₃
    intro f hf
    rcases List.mem_cons.mp hf with rfl | hf
    · exact hw.congr hl ht (Nat.le_add_right 6 _)
    · exact hfs f hf

lemma logImplRecord_stored {header : RecordHeader} {line : UInt32} {target message : String}
    {claim record : Bytes} (h : logImplRecord header line target message claim = some record) :
    (utf8 target).length ≤ 65535 ∧ Wrapped record (.shift headerSize ⟨4, 2, (utf8 target).length⟩) := by
  obtain ⟨region, payload, n, hw, rfl⟩ := logImplRecord_eq_some h
  simp only [writeStandardPayload] at hw
  split_ifs at hw with ht
  simp only [Option.bind_eq_bind, Option.bind_eq_some_iff] at hw
  obtain ⟨b₁, -, b₂, h₂, b₃, h₃, b₄, h₄, he⟩ := hw
  obtain ⟨rfl, -⟩ := Prod.mk.inj (Option.some.inj he)
  refine ⟨ht, ?_⟩
  have hs := (writePrefix_stored h₂ h₃).congr (writeAt_length h₄) (writeAt_take h₄ (le_refl _))
    (Nat.le_add_right 6 _)
  rwa [Wrapped, ← header.bytes_length, stored_shift]

lemma archiveWrite_stored {ts : UInt64} {tag payload claim record : Bytes}
    (h : archiveWrite ts tag payload claim = some record) :
    Wrapped record ⟨8 + tag.length, 4, payload.length⟩ := by
  simp only [archiveWrite, Option.bind_eq_bind, Option.bind_eq_some_iff] at h
  obtain ⟨b₁, -, b₂, -, b₃, h₃, h₄⟩ := h
  have hs := writeAt_slice h₃
  exact (wrapped_of_slice hs (ofLe_u32 _)).congr (writeAt_length h₄) (writeAt_take h₄ (le_refl _)) (le_refl _)

lemma committed_wrapped {w : Write} {record : Bytes} (h : w.committed = some record) :
    ∀ f ∈ w.fields, Wrapped record f := by
  cases w with
  | hot header line target args st claim =>
    obtain ⟨⟨sizes, st₁⟩, hs, hr⟩ := Option.bind_eq_some_iff.mp h
    obtain ⟨region, payload, he, rfl⟩ := hotSubmitRecord_eq_some (Prod.ext rfl hr)
    have hfs := encodeBlock_spec (sizeArgs_room hs) he
    simp only [Write.fields, hs, Option.toList_some, List.flatMap_singleton, List.forall_mem_map]
    intro f hf
    rw [Wrapped, ← header.bytes_length, stored_shift]
    exact hfs f hf
  | bridge header line target message claim =>
    simpa [Write.fields] using (logImplRecord_stored h).2
  | archive ts tag payload claim => simpa [Write.fields] using archiveWrite_stored h

lemma argFields_lt_iff {args : List HotArg} {sizes : List ℕ} (hl : args.length = sizes.length) (off : ℕ)
    (st : Stash) : (∀ f ∈ argFields (args.zip sizes) off st, f.actual < 256 ^ f.width) ↔
      ∀ c ∈ argContents args st, c.length < 2 ^ 32 := by
  induction args generalizing sizes off st with
  | nil => simp [argFields, argContents]
  | cons a as ih =>
    cases sizes with
    | nil => simp at hl
    | cons n ns =>
      have hh := ih (by simpa using hl) (off + n) (a.afterEncode st)
      simp only [List.zip_cons_cons, argFields, argContents, List.forall_mem_append, hh]
      cases a.content st <;> simp

lemma sizeArgs_length {args : List HotArg} {st st' : Stash} {sizes : List ℕ}
    (h : sizeArgs args st = some (sizes, st')) : args.length = sizes.length := by
  induction args generalizing st sizes with
  | nil => simp [sizeArgs] at h; simp [h.1]
  | cons a as ih =>
    obtain ⟨n, st₁, ns, -, hns, rfl⟩ := sizeArgs_cons h
    simp [ih hns]

lemma argContents_own {st : Stash} {q : TextQueue} (h : st.Represents q) {args : List HotArg}
    {more : List String} (hq : q.unread = stashTexts args ++ more) :
    (∀ c ∈ argContents args st, c.length < 2 ^ 32) ↔ ∀ a ∈ args, a.Fits := by
  induction args generalizing st q with
  | nil => simp [argContents]
  | cons a as ih =>
    have hq₁ := unread_skip_texts hq
    simp only [stashTexts, List.flatMap_cons, List.append_assoc] at hq
    obtain ⟨st', he, hr⟩ := a.hotEncode_eq h hq (List.replicate a.encoded.length 0) (by simp)
    obtain ⟨rfl, -⟩ := hotEncode_spec he
    simp only [argContents, List.forall_mem_append, ih hr hq₁, List.forall_mem_cons]
    refine and_congr_left' ?_
    cases a with
    | pod bytes => simp [HotArg.content, HotArg.Fits]
    | str s => simp [HotArg.content, HotArg.Fits]
    | string s => simp [HotArg.content, HotArg.Fits]
    | fallback text => simp [HotArg.content, HotArg.Fits, nextContent_eq h, hq, HotArg.texts]

theorem hot_fits_iff {st : Stash} (h : st.Cleared) (header : RecordHeader) (line : UInt32) (target : String)
    (args : List HotArg) (claim : Bytes) : (Write.hot header line target args st claim).Fits ↔
      (utf8 target).length < 2 ^ 16 ∧ ∀ a ∈ args, a.Fits := by
  obtain ⟨st₁, q, hs, hr, hq⟩ := sizeArgs_cleared h args
  have hown := argContents_own hr hq
  simp only [Write.Fits, hs, Option.some.injEq, forall_eq', hown]

theorem committed_lengths_faithful_iff (w : Write) (record : Bytes) (h : w.committed = some record) :
    Faithful record w.fields ↔ w.Fits := by
  rw [faithful_iff (committed_wrapped h)]
  cases w with
  | hot header line target args st claim =>
    obtain ⟨⟨sizes, st₁⟩, hs, -⟩ := Option.bind_eq_some_iff.mp h
    have hf := argFields_lt_iff (sizeArgs_length hs) (6 + (utf8 target).length) st₁
    simp only [Write.fields, Write.Fits, hs, Option.toList_some, List.flatMap_singleton, List.forall_mem_map,
      payloadFields, List.forall_mem_cons, LengthField.shift, hf, Option.some.injEq, forall_eq']
    norm_num
  | bridge header line target message claim =>
    have ht := (logImplRecord_stored h).1
    simp [Write.fields, Write.Fits, LengthField.shift]
    omega
  | archive ts tag payload claim => simp [Write.fields, Write.Fits]

theorem committed_lengths_faithful_iff_mixed :
    ∃ record, (Write.hot ⟨1, 2, 3⟩ 5 "a" [.str "bc", .fallback "d"] {} (List.replicate 42 0)).committed =
        some record ∧
      (Faithful record (Write.hot ⟨1, 2, 3⟩ 5 "a" [.str "bc", .fallback "d"] {} (List.replicate 42 0)).fields ↔
        (Write.hot ⟨1, 2, 3⟩ 5 "a" [.str "bc", .fallback "d"] {} (List.replicate 42 0)).Fits) :=
  ⟨_, rfl, committed_lengths_faithful_iff _ _ rfl⟩

lemma not_faithful_of_long (header : RecordHeader) (line : UInt32) {target : String}
    (ht : 65536 ≤ (utf8 target).length) :
    ∃ claim record, (Write.hot header line target [] {} claim).committed = some record ∧
      ¬ Faithful record (Write.hot header line target [] {} claim).fields := by
  obtain ⟨claim, hlen⟩ : ∃ claim : Bytes, claim.length = headerSize + totalSize target [] :=
    ⟨List.replicate _ 0, List.length_replicate⟩
  have hq : TextQueue.unread ⟨[], 0⟩ = stashTexts [] ++ [] := rfl
  obtain ⟨st', he, -⟩ := hotSubmitRecord_eq cleared_initial hq header line target hlen
  have hc : (Write.hot header line target [] {} claim).committed =
      some (header.bytes ++ hotPayload line target []) :=
    congrArg Prod.snd he
  refine ⟨_, _, hc, fun hf => ?_⟩
  have hlt := (faithful_iff (committed_wrapped hc)).mp hf (.shift headerSize ⟨4, 2, (utf8 target).length⟩)
    (by simp [Write.fields, sizeArgs, payloadFields])
  simp only [LengthField.shift] at hlt
  omega

lemma utf8_replicate_length (n : ℕ) : (utf8 (String.ofList (List.replicate n 'a'))).length = n := by
  induction n with
  | zero => rfl
  | succ n ih =>
    have ha : (utf8 (String.ofList ['a'])).length = 1 := by decide
    rw [List.replicate_succ, ← List.singleton_append, String.ofList_append, utf8_append, List.length_append,
      ih, ha, Nat.add_comm]

def longTarget : String := String.ofList (List.replicate 65536 'a')

theorem longTarget_not_faithful :
    ∃ claim record, (Write.hot ⟨0, 0, 3⟩ 1 longTarget [] {} claim).committed = some record ∧
      ¬ Faithful record (Write.hot ⟨0, 0, 3⟩ 1 longTarget [] {} claim).fields :=
  not_faithful_of_long _ _ (utf8_replicate_length 65536).ge

end InqJet
