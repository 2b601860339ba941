import InqJet.Pod.Stash

namespace InqJet

open ByteCodec

/-- An argument as method resolution sees it. A fallback argument stands for the text its
closure writes. -/
inductive HotArg
  | pod (bytes : Bytes)
  | str (s : String)
  | string (s : String)
  | fallback (text : String)
  deriving DecidableEq

inductive Witness
  | pod (size : ℕ)
  | string
  | preFormatted

inductive Decoded
  | pod (bytes : Bytes)
  | string (s : String)
  | preFormatted (s : String)
  deriving DecidableEq

def strHotSize (s : String) : ℕ := 4 + (utf8 s).length
def strHotEncode (s : String) (buf : Bytes) : Option Bytes := encodeBytes (utf8 s) buf

def HotArg.hotSizeWith (a : HotArg) (st : Stash) : Option (ℕ × Stash) :=
  match a with
  | .pod bytes => some (bytes.length, st)
  | .str s => some (strHotSize s, st)
  | .string s => some (strHotSize s, st)
  | .fallback text => fallbackHotSizeWith text st

/-- The unchecked copy of a Pod value has no result when it would leave `buf`. -/
def HotArg.hotEncode (a : HotArg) (st : Stash) (buf : Bytes) : Stash × Option Bytes :=
  match a with
  | .pod bytes => (st, writeAt buf 0 bytes)
  | .str s => (st, strHotEncode s buf)
  | .string s => (st, strHotEncode s buf)
  | .fallback _ => fallbackStashEncode st buf

def HotArg.hotWitness : HotArg → Witness
  | .pod bytes => .pod bytes.length
  | .str _ => .string
  | .string _ => .string
  | .fallback _ => .preFormatted

def podFromBytes (size : ℕ) (bytes : Bytes) : Option Bytes :=
  if size ≤ bytes.length then some (bytes.take size) else none

def bytesFromBuf (buf : Bytes) : Option (String × ℕ) := do
  let lenBytes ← slice buf 0 4
  let len := (u32FromLe lenBytes).toNat
  let bytes ← slice buf 4 (4 + len)
  let content ← fromUtf8 bytes
  some (content, 4 + len)

def hotDecode (w : Witness) (buf : Bytes) : Option (Decoded × ℕ) :=
  match w with
  | .pod size => (podFromBytes size buf).map fun bytes => (.pod bytes, size)
  | .string => (bytesFromBuf buf).map fun p => (.string p.1, p.2)
  | .preFormatted => (bytesFromBuf buf).map fun p => (.preFormatted p.1, p.2)

namespace HotArg

def texts : HotArg → List String
  | .fallback text => [text]
  | _ => []

def encoded : HotArg → Bytes
  | .pod bytes => bytes
  | .str s => prefixed (utf8 s)
  | .string s => prefixed (utf8 s)
  | .fallback text => prefixed (utf8 text)

def decoded : HotArg → Decoded
  | .pod bytes => .pod bytes
  | .str s => .string s
  | .string s => .string s
  | .fallback text => .preFormatted text

def Fits : HotArg → Prop
  | .pod _ => True
  | .str s => (utf8 s).length < 2 ^ 32
  | .string s => (utf8 s).length < 2 ^ 32
  | .fallback text => (utf8 text).length < 2 ^ 32

instance : DecidablePred Fits
  | .pod _ => inferInstanceAs (Decidable True)
  | .str s => inferInstanceAs (Decidable ((utf8 s).length < 2 ^ 32))
  | .string s => inferInstanceAs (Decidable ((utf8 s).length < 2 ^ 32))
  | .fallback text => inferInstanceAs (Decidable ((utf8 text).length < 2 ^ 32))

lemma hotSizeWith_eq {st : Stash} {q : TextQueue} (h : st.Represents q) (a : HotArg) :
    ∃ st', a.hotSizeWith st = some (a.encoded.length, st') ∧ st'.Represents (q.push a.texts) := by
  cases a with
  | pod bytes => exact ⟨st, rfl, by simpa [texts] using h⟩
  | str s => exact ⟨st, by simp [hotSizeWith, strHotSize, encoded], by simpa [texts] using h⟩
  | string s => exact ⟨st, by simp [hotSizeWith, strHotSize, encoded], by simpa [texts] using h⟩
  | fallback text => simpa [hotSizeWith, encoded, texts] using fallbackHotSizeWith_eq h text

lemma hotEncode_eq {st : Stash} {q : TextQueue} (h : st.Represents q) {a : HotArg} {more : List String}
    (hq : q.unread = a.texts ++ more) (buf : Bytes) (hb : a.encoded.length ≤ buf.length) :
    ∃ st', a.hotEncode st buf = (st', some (a.encoded ++ buf.drop a.encoded.length)) ∧
      st'.Represents (q.skip a.texts.length) := by
  cases a with
  | pod bytes =>
    have hw := writeAt_next (a := []) (b := buf) (s := bytes) (i := 0) rfl hb
    exact ⟨st, by simpa [hotEncode, encoded] using hw, by simpa [texts] using h⟩
  | str s =>
    have he := encodeBytes_eq (show 4 + (utf8 s).length ≤ buf.length by simpa [encoded] using hb)
    exact ⟨st, by simp [hotEncode, strHotEncode, encoded, he], by simpa [texts] using h⟩
  | string s =>
    have he := encodeBytes_eq (show 4 + (utf8 s).length ≤ buf.length by simpa [encoded] using hb)
    exact ⟨st, by simp [hotEncode, strHotEncode, encoded, he], by simpa [texts] using h⟩
  | fallback text =>
    obtain ⟨st', hst, hr⟩ := fallbackStashEncode_eq h hq buf
    have he := encodeBytes_eq (show 4 + (utf8 text).length ≤ buf.length by simpa [encoded] using hb)
    exact ⟨st', by simp [hotEncode, encoded, hst, he], hr⟩

lemma bytesFromBuf_prefixed {s : String} (h : (utf8 s).length < 2 ^ 32) (rest : Bytes) :
    bytesFromBuf (prefixed (utf8 s) ++ rest) = some (s, 4 + (utf8 s).length) := by
  have hl : slice (prefixed (utf8 s) ++ rest) 0 4 = some (u32ToLe (UInt32.ofNat (utf8 s).length)) := by
    have hh := slice_at (a := []) (b := u32ToLe (UInt32.ofNat (utf8 s).length)) (c := utf8 s ++ rest)
      (i := 0) (j := 4) rfl (by simp)
    simpa [prefixed, List.append_assoc] using hh
  have hn : (UInt32.ofNat (utf8 s).length).toNat = (utf8 s).length := by
    rw [UInt32.toNat_ofNat']
    omega
  have hc : slice (prefixed (utf8 s) ++ rest) 4 (4 + (utf8 s).length) = some (utf8 s) :=
    slice_at (a := u32ToLe (UInt32.ofNat (utf8 s).length)) (by simp) rfl
  simp only [bytesFromBuf, hl, hn, hc, Option.bind_eq_bind, Option.bind_some, u32FromLe_toLe,
    fromUtf8_utf8]

theorem hotDecode_encoded {a : HotArg} (h : a.Fits) (rest : Bytes) :
    hotDecode a.hotWitness (a.encoded ++ rest) = some (a.decoded, a.encoded.length) := by
  cases a with
  | pod bytes => simp [hotDecode, hotWitness, encoded, decoded, podFromBytes]
  | str s => simp [hotDecode, hotWitness, encoded, decoded, bytesFromBuf_prefixed h]
  | string s => simp [hotDecode, hotWitness, encoded, decoded, bytesFromBuf_prefixed h]
  | fallback text => simp [hotDecode, hotWitness, encoded, decoded, bytesFromBuf_prefixed h]

end HotArg

end InqJet
