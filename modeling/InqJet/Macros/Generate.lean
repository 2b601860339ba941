import InqJet.Macros.FormatString
import InqJet.Pod.HotArg
import InqJet.Record

/-! The code a log macro expands to: the sizing pass, the encode closure on the
producer and the decoding part of the generated formatter. -/

namespace InqJet

open ByteCodec

/-- The extra bound on a decoded type; `Debug` comes with `HotDecode`. -/
def extraTraitBound (ft : FormatTrait) : Option FormatTrait := if ft = .debug then none else some ft

structure Expansion where
  closureFmts : List (List Char)
  bounds : List (Option FormatTrait)

def closureFmt (p : PlaceholderInfo) : List Char := '{' :: p.inner ++ ['}']

theorem closure_format_stands_alone {fmt : List Char} {ps : List PlaceholderInfo}
    (h : parseFormatPlaceholders fmt = .ok ps) :
    ∀ p ∈ ps, parseFormatPlaceholders (closureFmt p) = .ok [p] := by
  intro p hp
  obtain ⟨hclose, hinfo⟩ := parse_infos h p hp
  have hopen : (p.inner ++ ['}']).head? ≠ some '{' := by
    rcases (placeholderInfo_ok hinfo).2 with hi | hi <;> simp [hi]
  calc parseFormatPlaceholders (closureFmt p)
      = scan (some []) (p.inner ++ ['}']) := scan_open hopen
    _ = (placeholderInfo ([] ++ p.inner)).bind fun p => (scan none []).map fun ps => p :: ps :=
        scan_collect hclose [] []
    _ = .ok [p] := by rw [List.nil_append, hinfo]; rfl

theorem closure_format_stands_alone_hex :
    parseFormatPlaceholders (closureFmt ⟨.lowerHex, ":#010x".toList⟩) =
      .ok [⟨.lowerHex, ":#010x".toList⟩] := by
  have hparse : parseFormatPlaceholders "{} and {:#010x}".toList =
      .ok [⟨.display, []⟩, ⟨.lowerHex, ":#010x".toList⟩] := by decide
  apply closure_format_stands_alone hparse
  simp

def generate (fmtStr : List Char) (n : ℕ) : Except String Expansion :=
  (parseFormatPlaceholders fmtStr).bind fun placeholders =>
    if placeholders.length ≠ n then
      .error ("format string expects " ++ toString placeholders.length ++ " arguments but " ++
        toString n ++ " were provided")
    else .ok ⟨placeholders.map closureFmt, placeholders.map fun p => extraTraitBound p.formatTrait⟩

/-- `let __sN = (&HotArg(__vN)).hot_size_with(..)`, one argument after the other. -/
def sizeArgs : List HotArg → Stash → Option (List ℕ × Stash)
  | [], st => some ([], st)
  | a :: as, st =>
    (a.hotSizeWith st).bind fun p => (sizeArgs as p.2).map fun r => (p.1 :: r.1, r.2)

def prefixSize (target : String) : ℕ := 4 + 2 + (utf8 target).length

def totalSize (target : String) (sizes : List ℕ) : ℕ := prefixSize target + sizes.sum

def prefixEncode (line : UInt32) (target : String) (buf : Bytes) : Option Bytes := do
  let tb := utf8 target
  let buf ← writeAt buf 0 (u32ToLe line)
  let buf ← writeAt buf 4 (u16ToLe (UInt16.ofNat tb.length))
  writeAt buf 6 tb

def encodeArgs : List (HotArg × ℕ) → ℕ → Stash → Bytes → Stash × Option Bytes
  | [], _, st, buf => (st, some buf)
  | (a, size) :: as, off, st, buf =>
    match slice buf off buf.length with
    | none => (st, none)
    | some region =>
      match a.hotEncode st region with
      | (st, none) => (st, none)
      | (st, some region) => encodeArgs as (off + size) st (buf.take off ++ region)

def encodeBlock (line : UInt32) (target : String) (args : List (HotArg × ℕ)) (st : Stash) (buf : Bytes) :
    Stash × Option Bytes :=
  match prefixEncode line target buf with
  | none => (st, none)
  | some buf => encodeArgs args (6 + (utf8 target).length) st buf

def decodeArgs : List Witness → ℕ → Bytes → Option (List Decoded × ℕ)
  | [], off, _ => some ([], off)
  | w :: ws, off, payload => do
    let region ← slice payload off payload.length
    let (d, n) ← hotDecode w region
    let (ds, off) ← decodeArgs ws (off + n) payload
    some (d :: ds, off)

def decodePayload (ws : List Witness) (payload : Bytes) : Option (UInt32 × String × List Decoded × ℕ) := do
  let line ← slice payload 0 4
  let tl ← slice payload 4 6
  let tl := (u16FromLe tl).toNat
  let tb ← slice payload 6 (6 + tl)
  let target ← fromUtf8 tb
  let (ds, off) ← decodeArgs ws (6 + tl) payload
  some (u32FromLe line, target, ds, off)

def sized (args : List HotArg) : List (HotArg × ℕ) := args.map fun a => (a, a.encoded.length)

def stashTexts (args : List HotArg) : List String := args.flatMap HotArg.texts

def encodedArgs (args : List HotArg) : Bytes := args.flatMap HotArg.encoded

lemma prefixEncode_eq (line : UInt32) (target : String) {buf : Bytes}
    (h : 6 + (utf8 target).length ≤ buf.length) :
    prefixEncode line target buf = some (payloadPrefix line target ++ buf.drop (6 + (utf8 target).length)) :=
  writePrefix_eq line target h

lemma sizeArgs_eq {st : Stash} {q : TextQueue} (h : st.Represents q) (args : List HotArg) :
    ∃ st', sizeArgs args st = some (args.map fun a => a.encoded.length, st') ∧
      st'.Represents (q.push (stashTexts args)) := by
  induction args generalizing st q with
  | nil => exact ⟨st, rfl, by simpa [stashTexts] using h⟩
  | cons a as ih =>
    obtain ⟨st₁, hs, hr⟩ := a.hotSizeWith_eq h
    obtain ⟨st₂, hss, hr'⟩ := ih hr
    exact ⟨st₂, by simp [sizeArgs, hs, hss], by simpa [stashTexts] using hr'⟩

lemma sizeArgs_cleared {st : Stash} (h : st.Cleared) (args : List HotArg) :
    ∃ st' q, sizeArgs args st = some (args.map fun a => a.encoded.length, st') ∧
      st'.Represents q ∧ q.unread = stashTexts args ++ [] := by
  obtain ⟨st', hs, hr⟩ := sizeArgs_eq h args
  exact ⟨st', _, hs, hr, by simp [TextQueue.unread, TextQueue.push]⟩

lemma unread_skip_texts {q : TextQueue} {a : HotArg} {as : List HotArg} {more : List String}
    (h : q.unread = stashTexts (a :: as) ++ more) : (q.skip a.texts.length).unread = stashTexts as ++ more := by
  rw [TextQueue.unread_skip, h, stashTexts, List.flatMap_cons, List.append_assoc, List.drop_left]
  rfl

theorem encodeArgs_eq {st : Stash} {q : TextQueue} (h : st.Represents q) {args : List HotArg}
    {more : List String} (hq : q.unread = stashTexts args ++ more) {off : ℕ} (done rest : Bytes)
    (hoff : done.length = off) (hrest : (encodedArgs args).length ≤ rest.length) :
    ∃ st', encodeArgs (sized args) off st (done ++ rest) =
        (st', some (done ++ encodedArgs args ++ rest.drop (encodedArgs args).length)) ∧
      st'.Represents (q.skip (stashTexts args).length) := by
  induction args generalizing st q done rest off with
  | nil => exact ⟨st, by simp [sized, encodeArgs, encodedArgs], by simpa [stashTexts] using h⟩
  | cons a as ih =>
    have hq₁ := unread_skip_texts hq
    simp only [encodedArgs, stashTexts, List.flatMap_cons, List.length_append, List.append_assoc] at hrest hq
    obtain ⟨st₁, he, hr⟩ := a.hotEncode_eq h hq rest (by omega)
    have hdone : (done ++ a.encoded).length = off + a.encoded.length := by simp [hoff]
    obtain ⟨st₂, hes, hr₂⟩ := ih hr hq₁ (done ++ a.encoded) (rest.drop a.encoded.length) hdone
      (by simp only [encodedArgs, List.length_drop]; omega)
    refine ⟨st₂, ?_, by simpa [stashTexts] using hr₂⟩
    have htake : (done ++ rest).take off = done := by simp [← hoff]
    simp only [sized, List.map_cons, encodeArgs, slice_from hoff, he, htake, ← List.append_assoc]
    rw [show as.map (fun a => (a, a.encoded.length)) = sized as from rfl, hes]
    simp [encodedArgs, List.drop_drop, List.append_assoc]

lemma decodeArgs_eq {args : List HotArg} (hfit : ∀ a ∈ args, a.Fits) (done : Bytes) {off : ℕ}
    (hoff : done.length = off) :
    decodeArgs (args.map HotArg.hotWitness) off (done ++ encodedArgs args) =
      some (args.map HotArg.decoded, off + (encodedArgs args).length) := by
  induction args generalizing done off with
  | nil => simp [decodeArgs, encodedArgs]
  | cons a as ih =>
    have hd := HotArg.hotDecode_encoded (hfit a (by simp)) (encodedArgs as)
    have hdone : (done ++ a.encoded).length = off + a.encoded.length := by simp [hoff]
    have hrec := ih (fun b hb => hfit b (by simp [hb])) (done ++ a.encoded) hdone
    have hs := slice_from (a := done) (b := a.encoded ++ encodedArgs as) hoff
    have he : encodedArgs (a :: as) = a.encoded ++ encodedArgs as := rfl
    rw [List.append_assoc] at hrec
    rw [he, List.map_cons, decodeArgs, hs]
    simp [hd, hrec, Nat.add_assoc]

lemma hotEncode_stash (a : HotArg) (st : Stash) (buf : Bytes) :
    (a.hotEncode st buf).1 = { st with readIdx := st.readIdx + a.texts.length } := by
  cases a <;> rfl

lemma encodeArgs_stash (args : List (HotArg × ℕ)) (off : ℕ) (st : Stash) (buf : Bytes) :
    ∃ n ≤ (stashTexts (args.map Prod.fst)).length,
      (encodeArgs args off st buf).1 = { st with readIdx := st.readIdx + n } := by
  induction args generalizing off st buf with
  | nil => exact ⟨0, le_refl 0, rfl⟩
  | cons p as ih =>
    obtain ⟨a, size⟩ := p
    have hlen : (stashTexts (((a, size) :: as).map Prod.fst)).length =
        a.texts.length + (stashTexts (as.map Prod.fst)).length := by simp [stashTexts]
    rw [hlen, encodeArgs]
    cases hs : slice buf off buf.length with
    | none => exact ⟨0, Nat.zero_le _, rfl⟩
    | some region =>
      have hst := hotEncode_stash a st region
      cases he : a.hotEncode st region with
      | mk st₁ res =>
        rw [he] at hst
        obtain rfl : st₁ = _ := hst
        cases res with
        | none => exact ⟨a.texts.length, Nat.le_add_right _ _, by simp only [he]⟩
        | some region' =>
          obtain ⟨n, hn, hr⟩ := ih (off + size) { st with readIdx := st.readIdx + a.texts.length }
            (buf.take off ++ region')
          refine ⟨a.texts.length + n, Nat.add_le_add_left hn _, ?_⟩
          simp only [he, hr, Nat.add_assoc]

lemma encodeBlock_stash (line : UInt32) (target : String) (args : List (HotArg × ℕ)) (st : Stash) (buf : Bytes) :
    ∃ n ≤ (stashTexts (args.map Prod.fst)).length,
      (encodeBlock line target args st buf).1 = { st with readIdx := st.readIdx + n } := by
  rw [encodeBlock]
  cases prefixEncode line target buf with
  | none => exact ⟨0, Nat.zero_le _, rfl⟩
  | some buf => exact encodeArgs_stash args _ st buf

end InqJet
