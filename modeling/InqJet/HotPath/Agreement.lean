import InqJet.Format
import InqJet.HotPath.RoundTrip

namespace InqJet

open ByteCodec FormatGrammar

/-- A Pod type: its memory, and formatting, which does not tell a copied value from the original. -/
structure PodType where
  Val : Type
  size : ℕ
  toBytes : Val → Bytes
  ofBytes : Bytes → Val
  fmt : List Char → Val → String
  toBytes_length : ∀ v, (toBytes v).length = size
  fmt_copy : ∀ inner v, fmt inner (ofBytes (toBytes v)) = fmt inner v

/-- How `String` and `&str` are formatted under a spec: alike, but for `{:p}`. -/
structure StrFormat (lex : Lexicon) where
  fmtStr : List Char → String → String
  fmtString : List Char → String → String
  alike : ∀ (p : Placeholder lex) s, p.type ≠ .pointer → fmtStr p.inner s = fmtString p.inner s

/-- A type without an encoder of its own. A reference to a value formats like the value, but for `{:p}`. -/
structure FallbackType (lex : Lexicon) where
  Val : Type
  fmt : List Char → Val → String
  fmtRef : List Char → Val → String
  transparent : ∀ (p : Placeholder lex) v, p.type ≠ .pointer → fmtRef p.inner v = fmt p.inner v

variable {lex : Lexicon}

inductive Arg (lex : Lexicon)
  | pod (T : PodType) (v : T.Val)
  | str (s : String)
  | string (s : String)
  | fallback (T : FallbackType lex) (v : T.Val)

inductive DecodedType
  | pod (T : PodType)
  | string
  | preFormatted

inductive Value
  | pod (T : PodType) (v : T.Val)
  | string (s : String)
  | preFormatted (s : String)

def Arg.fmt (S : StrFormat lex) (inner : List Char) : Arg lex → String
  | .pod T v => T.fmt inner v
  | .str s => S.fmtStr inner s
  | .string s => S.fmtString inner s
  | .fallback T v => T.fmt inner v

/-- The formatting impls of `PreFormattedValue` ignore the spec. -/
def Value.fmt (S : StrFormat lex) (inner : List Char) : Value → String
  | .pod T v => T.fmt inner v
  | .string s => S.fmtString inner s
  | .preFormatted s => s

def DecodedType.witness : DecodedType → Witness
  | .pod T => .pod T.size
  | .string => .string
  | .preFormatted => .preFormatted

def DecodedType.value : DecodedType → Decoded → Option Value
  | .pod T, .pod bytes => some (.pod T (T.ofBytes bytes))
  | .string, .string s => some (.string s)
  | .preFormatted, .preFormatted s => some (.preFormatted s)
  | _, _ => none

def Arg.decodedType : Arg lex → DecodedType
  | .pod T _ => .pod T
  | .str _ => .string
  | .string _ => .string
  | .fallback _ _ => .preFormatted

/-- `write!(__stash, closure_fmt, __vN)`, where `__vN` is a reference to the argument. -/
def closureText (reader : Reader lex) (T : FallbackType lex) (v : T.Val) (fmt : List Char) : Option String :=
  (reader.read fmt).bind fun pieces => formatArgs T.fmtRef pieces [v]

def Arg.hotArg (reader : Reader lex) (fmt : List Char) : Arg lex → Option HotArg
  | .pod T v => some (.pod (T.toBytes v))
  | .str s => some (.str s)
  | .string s => some (.string s)
  | .fallback T v => (closureText reader T v fmt).map .fallback

def hotArgs (reader : Reader lex) : List (List Char) → List (Arg lex) → Option (List HotArg)
  | [], [] => some []
  | fmt :: fmts, a :: as => (a.hotArg reader fmt).bind fun h => (hotArgs reader fmts as).map fun hs => h :: hs
  | _, _ => none

def values : List DecodedType → List Decoded → Option (List Value)
  | [], [] => some []
  | t :: ts, d :: ds => (t.value d).bind fun v => (values ts ds).map fun vs => v :: vs
  | _, _ => none

def generatedFmt (reader : Reader lex) (S : StrFormat lex) (colored : Bool) (fmtStr : List Char)
    (types : List DecodedType) : FormatFn := fun ctx => do
  let (line, target, ds, _) ← decodePayload (types.map DecodedType.witness) ctx.payload
  let pieces ← reader.read fmtStr
  let message ← (values types ds).bind fun vs => formatArgs (Value.fmt S) pieces vs
  some (writeLogPrefix colored ctx.timestampNs ctx.level target line ++ (utf8 message ++ utf8 "\n"))

structure LogCall (lex : Lexicon) where
  level : UInt8
  timestampNs : UInt64
  line : UInt32
  target : String
  fmtStr : List Char
  args : List (Arg lex)

/-- The hot macro on the producer, then its formatter on the archiver. `claim n` is what the ring
hands out for `n` payload bytes. -/
def LogCall.hotOutput (c : LogCall lex) (reader : Reader lex) (S : StrFormat lex) (colored : Bool)
    (claim : ℕ → Bytes) (st : Stash) : Option Bytes := do
  let expansion ← (generate c.fmtStr c.args.length).toOption
  let args ← hotArgs reader expansion.closureFmts c.args
  let (sizes, st) ← sizeArgs args st
  let payload ← (encodeBlock c.line c.target (args.zip sizes) st (claim (totalSize c.target sizes))).2
  generatedFmt reader S colored c.fmtStr (c.args.map Arg.decodedType) ⟨c.timestampNs, c.level, payload⟩

def LogCall.bridgeOutput (c : LogCall lex) (reader : Reader lex) (S : StrFormat lex) (colored : Bool)
    (claim : ℕ → Bytes) : Option Bytes := do
  let pieces ← reader.read c.fmtStr
  let message ← formatArgs (Arg.fmt S) pieces c.args
  let totalSize := standardRecordSize (utf8 c.target).length (utf8 message).length
  let (payload, _) ← writeStandardPayload (claim (totalSize - headerSize)) c.line c.target message
  standardFormatFn colored ⟨c.timestampNs, c.level, payload⟩

def Arg.Short (inner : List Char) : Arg lex → Prop
  | .pod _ _ => True
  | .str s => (utf8 s).length < 2 ^ 32
  | .string s => (utf8 s).length < 2 ^ 32
  | .fallback T v => (utf8 (T.fmt inner v)).length < 2 ^ 32

def Arg.encodedAs (inner : List Char) : Arg lex → HotArg
  | .pod T v => .pod (T.toBytes v)
  | .str s => .str s
  | .string s => .string s
  | .fallback T v => .fallback (T.fmt inner v)

def Arg.value (inner : List Char) : Arg lex → Value
  | .pod T v => .pod T (T.ofBytes (T.toBytes v))
  | .str s => .string s
  | .string s => .string s
  | .fallback T v => .preFormatted (T.fmt inner v)

lemma closureText_eq (reader : Reader lex) (T : FallbackType lex) (v : T.Val) {p : Placeholder lex}
    (hp : Positional p.inner) (ht : p.type ≠ .pointer) :
    closureText reader T v ('{' :: p.inner ++ ['}']) = some (T.fmt p.inner v) := by
  have ho : p.inner.head? ≠ some '{' := by rcases hp.2 with h | h <;> simp [h]
  obtain ⟨q, hq, hi⟩ := reader.read_braced p hp.1 ho
  rw [closureText, hq, Option.bind_some, formatArgs, formatArgs, Option.map_some, hi,
    T.transparent p v ht, String.append_empty]

lemma hotArgs_eq (reader : Reader lex) {pas : List (Placeholder lex × Arg lex)}
    (hpos : ∀ pa ∈ pas, Positional pa.1.inner) (hptr : ∀ pa ∈ pas, pa.1.type ≠ .pointer) :
    hotArgs reader (pas.map fun pa => '{' :: pa.1.inner ++ ['}']) (pas.map Prod.snd) =
      some (pas.map fun pa => pa.2.encodedAs pa.1.inner) := by
  induction pas with
  | nil => rfl
  | cons pa pas ih =>
    obtain ⟨p, a⟩ := pa
    simp only [List.forall_mem_cons] at hpos hptr
    have ha : a.hotArg reader ('{' :: p.inner ++ ['}']) = some (a.encodedAs p.inner) := by
      cases a with
      | fallback T v => rw [Arg.hotArg, closureText_eq reader T v hpos.1 hptr.1]; rfl
      | _ => rfl
    rw [List.map_cons, List.map_cons, hotArgs, ha, ih hpos.2 hptr.2]
    rfl

lemma witness_encodedAs (inner : List Char) (a : Arg lex) :
    (a.encodedAs inner).hotWitness = a.decodedType.witness := by
  cases a with
  | pod T v => simp [Arg.encodedAs, HotArg.hotWitness, Arg.decodedType, DecodedType.witness, T.toBytes_length]
  | _ => rfl

lemma fits_encodedAs {inner : List Char} {a : Arg lex} (h : a.Short inner) : (a.encodedAs inner).Fits := by
  cases a <;> exact h

lemma values_eq (pas : List (Placeholder lex × Arg lex)) :
    values (pas.map fun pa => pa.2.decodedType) (pas.map fun pa => (pa.2.encodedAs pa.1.inner).decoded) =
      some (pas.map fun pa => pa.2.value pa.1.inner) := by
  induction pas with
  | nil => rfl
  | cons pa pas ih =>
    have hv : pa.2.decodedType.value (pa.2.encodedAs pa.1.inner).decoded = some (pa.2.value pa.1.inner) := by
      cases pa.2 <;> rfl
    rw [List.map_cons, List.map_cons, values, hv, ih]
    rfl

lemma value_fmt (S : StrFormat lex) {p : Placeholder lex} (ht : p.type ≠ .pointer) (a : Arg lex) :
    (a.value p.inner).fmt S p.inner = a.fmt S p.inner := by
  cases a with
  | pod T v => exact T.fmt_copy _ _
  | str s => exact (S.alike p s ht).symm
  | _ => rfl

lemma generate_ok {fmtStr : List Char} {infos : List PlaceholderInfo} {n : ℕ}
    (h : parseFormatPlaceholders fmtStr = .ok infos) (hn : infos.length = n) :
    ∃ bounds, (generate fmtStr n).toOption = some ⟨infos.map closureFmt, bounds⟩ :=
  ⟨infos.map fun p => extraTraitBound p.formatTrait, by simp [generate, h, hn, Except.bind, Except.toOption]⟩

lemma bridgeOutput_eq {c : LogCall lex} {reader : Reader lex} {S : StrFormat lex} {pieces : List (Piece lex)}
    {message : String} {claim : ℕ → Bytes} (colored : Bool) (hclaim : ∀ n, (claim n).length = n)
    (ht : (utf8 c.target).length ≤ 65535) (hread : reader.read c.fmtStr = some pieces)
    (hm : formatArgs (Arg.fmt S) pieces c.args = some message) :
    c.bridgeOutput reader S colored claim =
      some (writeLogPrefix colored c.timestampNs c.level c.target c.line ++ (utf8 message ++ utf8 "\n")) := by
  have hlen := hclaim (standardRecordSize (utf8 c.target).length (utf8 message).length - headerSize)
  have hsize : standardRecordSize (utf8 c.target).length (utf8 message).length - headerSize =
      6 + (utf8 c.target).length + (utf8 message).length := by
    simp only [standardRecordSize]
    omega
  have hw := writeStandardPayload_eq c.line ht (hlen.trans hsize).ge
  rw [List.drop_eq_nil_of_le (by omega), List.append_nil] at hw
  simp only [LogCall.bridgeOutput, hread, hm, hw, Option.bind_eq_bind, Option.bind_some]
  exact standardFormatFn_eq colored c.timestampNs c.level c.line message ht

theorem hot_path_agrees_with_bridge (reader : Reader lex) (S : StrFormat lex) (colored : Bool)
    (c : LogCall lex) (claim claim' : ℕ → Bytes) (st : Stash) (pieces : List (Piece lex))
    (infos : List PlaceholderInfo) (hclaim : ∀ n, (claim n).length = n) (hclaim' : ∀ n, (claim' n).length = n)
    (hst : st.Cleared) (ht : (utf8 c.target).length ≤ 65535) (hread : reader.read c.fmtStr = some pieces)
    (hparse : parseFormatPlaceholders c.fmtStr = .ok infos)
    (hinner : infos.map PlaceholderInfo.inner = (placeholders pieces).map Placeholder.inner)
    (hargs : c.args.length = infos.length) (hptr : ∀ p ∈ placeholders pieces, p.type ≠ .pointer)
    (hshort : ∀ pa ∈ (placeholders pieces).zip c.args, pa.2.Short pa.1.inner) :
    ∃ out, c.hotOutput reader S colored claim st = some out ∧
      c.bridgeOutput reader S colored claim' = some out := by
  have hlen : c.args.length = (placeholders pieces).length := by
    simpa only [List.length_map, hargs] using congrArg List.length hinner
  obtain ⟨message, hm⟩ := formatArgs_some (Arg.fmt S) hlen
  refine ⟨_, ?_, bridgeOutput_eq colored hclaim' ht hread hm⟩
  let pas := (placeholders pieces).zip c.args
  have hfst : pas.map Prod.fst = placeholders pieces := List.map_fst_zip hlen.ge
  have hsnd : pas.map Prod.snd = c.args := List.map_snd_zip hlen.le
  have hfmts : infos.map closureFmt = pas.map fun pa => '{' :: pa.1.inner ++ ['}'] := by
    calc infos.map closureFmt
      _ = (infos.map PlaceholderInfo.inner).map fun inner => '{' :: inner ++ ['}'] := by
        rw [List.map_map]; rfl
      _ = (pas.map Prod.fst).map fun p => '{' :: p.inner ++ ['}'] := by
        rw [hinner, hfst, List.map_map]; rfl
      _ = pas.map fun pa => '{' :: pa.1.inner ++ ['}'] := List.map_map
  have hmem (pa) (hpa : pa ∈ pas) : pa.1 ∈ placeholders pieces := hfst ▸ List.mem_map_of_mem hpa
  have hpos (pa) (hpa : pa ∈ pas) : Positional pa.1.inner := by
    have hi : pa.1.inner ∈ infos.map PlaceholderInfo.inner := hinner ▸ List.mem_map_of_mem (hmem pa hpa)
    obtain ⟨info, hinfo, he⟩ := List.mem_map.mp hi
    exact he ▸ parse_positional hparse info hinfo
  let hots := pas.map fun pa => pa.2.encodedAs pa.1.inner
  have hhots : hotArgs reader (infos.map closureFmt) c.args = some hots := by
    rw [hfmts, ← hsnd]
    exact hotArgs_eq reader hpos fun pa hpa => hptr _ (hmem pa hpa)
  have hfit : ∀ a ∈ hots, a.Fits :=
    List.forall_mem_map.mpr fun pa hpa => fits_encodedAs (hshort pa hpa)
  have hwit : (c.args.map Arg.decodedType).map DecodedType.witness = hots.map HotArg.hotWitness := by
    simp only [hots, ← hsnd, List.map_map]
    exact List.map_congr_left fun pa _ => (witness_encodedAs pa.1.inner pa.2).symm
  have hvals : values (c.args.map Arg.decodedType) (hots.map HotArg.decoded) =
      some (pas.map fun pa => pa.2.value pa.1.inner) := by
    have hh := values_eq pas
    simpa only [hots, ← hsnd, List.map_map, Function.comp_def] using hh
  have hmessage : formatArgs (Value.fmt S) pieces (pas.map fun pa => pa.2.value pa.1.inner) = some message :=
    (formatArgs_congr (fun p a => a.value p.inner) hlen fun p hp a => value_fmt S (hptr p hp) a).trans hm
  obtain ⟨bounds, hgen⟩ := generate_ok hparse hargs.symm
  obtain ⟨sizes, st₁, hs, -, he⟩ := hotPayload_encoded hst c.line c.target hots
  have hd := decodePayload_eq c.line ht hfit
  simp only [LogCall.hotOutput, hgen, hhots, hs, he _ (hclaim _), Option.bind_eq_bind, Option.bind_some,
    generatedFmt, hwit, hd, hread, hvals, hmessage]

def u8Type : PodType where
  Val := UInt8
  size := 1
  toBytes v := [v]
  ofBytes bytes := bytes.headD 0
  fmt _ v := toString v.toNat
  toBytes_length _ := rfl
  fmt_copy _ _ := rfl

def vecType : FallbackType ascii := ⟨List ℕ, fun _ v => toString v, fun _ v => toString v, fun _ _ _ => rfl⟩

def strFormat : StrFormat ascii := ⟨fun _ s => s, fun _ s => s, fun _ _ _ => rfl⟩

def mixedPieces : List (Piece ascii) :=
  let plain : Placeholder ascii := ⟨none, none, [], nofun⟩
  let debug : Placeholder ascii := ⟨none, some ⟨none, none, false, false, none, none, .debug⟩, [], nofun⟩
  [.arg plain, .literal ':', .arg plain, .literal ' ', .arg debug]

def mixedCall : LogCall ascii where
  level := 3
  timestampNs := 1705329045123456789
  line := 42
  target := "app"
  fmtStr := "{}:{} {:?}".toList
  args := [.str "port", .pod u8Type (80 : UInt8), .fallback vecType ([1, 2] : List ℕ)]

theorem hot_path_agrees_with_bridge_mixed :
    ∃ out, mixedCall.hotOutput (.preferring mixedPieces) strFormat true (List.replicate · 0) {} = some out ∧
      mixedCall.bridgeOutput (.preferring mixedPieces) strFormat true (List.replicate · 0) = some out :=
  hot_path_agrees_with_bridge (.preferring mixedPieces) strFormat true mixedCall _ _ {} mixedPieces
    [⟨.display, []⟩, ⟨.display, []⟩, ⟨.debug, [':', '?']⟩] (fun _ => List.length_replicate)
    (fun _ => List.length_replicate) cleared_initial (by decide) (Reader.preferring_read mixedPieces) rfl rfl rfl
    (by simp [mixedPieces, placeholders, Placeholder.type])
    (by simp [mixedPieces, placeholders, mixedCall, Arg.Short]; decide)

end InqJet
