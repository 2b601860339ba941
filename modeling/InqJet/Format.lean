import InqJet.Record

namespace InqJet

open ByteCodec

def reset : Bytes := utf8 "\x1b[0m"
def gray : Bytes := utf8 "\x1b[90m"

def levelColor (level : UInt8) : Bytes :=
  match level with
  | 1 => utf8 "\x1b[31m"
  | 2 => utf8 "\x1b[33m"
  | 3 => utf8 "\x1b[32m"
  | 4 => utf8 "\x1b[36m"
  | _ => gray

def levelStr (level : UInt8) : Bytes :=
  match level with
  | 1 => utf8 "ERROR"
  | 2 => utf8 "WARN"
  | 3 => utf8 "INFO"
  | 4 => utf8 "DEBUG"
  | 5 => utf8 "TRACE"
  | _ => utf8 "?????"

def decimal (n : ℕ) : Bytes := (Nat.toDigits 10 n).map fun c => UInt8.ofNat c.toNat

def zeroPad (w n : ℕ) : Bytes := List.replicate (w - (decimal n).length) 48 ++ decimal n

/-- `{:0w}` of a signed integer: the zeros stand behind the sign. -/
def zeroPadInt (w : ℕ) (n : ℤ) : Bytes :=
  if n < 0 then 45 :: zeroPad (w - 1) n.natAbs else zeroPad w n.natAbs

/-- `as i32` and `as u32` keep the low 32 bits. -/
def asI32 (n : ℤ) : ℤ := Int.bmod n (2 ^ 32)
def asU32 (n : ℤ) : ℕ := (n % 2 ^ 32).toNat

def civilFromDays (days : ℤ) : ℤ × ℕ × ℕ :=
  let z := days + 719468
  let era := (if z ≥ 0 then z else z - 146096).tdiv 146097
  let doe := asU32 (z - era * 146097)
  let yoe := (doe - doe / 1460 + doe / 36524 - doe / 146096) / 365
  let y := (yoe : ℤ) + era * 400
  let doy := doe - (365 * yoe + yoe / 4 - yoe / 100)
  let mp := (5 * doy + 2) / 153
  let d := doy - (153 * mp + 2) / 5 + 1
  let m := if mp < 10 then mp + 3 else mp - 9
  let y := if m ≤ 2 then y + 1 else y
  (y, m, d)

def formatTimestamp (nanos : UInt64) : Bytes :=
  let totalSecs : ℤ := (nanos.toNat / 1000000000 : ℕ)
  let subsecNanos := nanos.toNat % 1000000000
  let days := asI32 (totalSecs / 86400)
  let secs := asU32 (totalSecs % 86400)
  let (year, month, day) := civilFromDays days
  let hour := secs / 3600
  let min := secs % 3600 / 60
  let sec := secs % 60
  zeroPadInt 4 year ++ utf8 "-" ++ zeroPad 2 month ++ utf8 "-" ++ zeroPad 2 day ++ utf8 "T" ++
    zeroPad 2 hour ++ utf8 ":" ++ zeroPad 2 min ++ utf8 ":" ++ zeroPad 2 sec ++ utf8 "." ++
    zeroPad 9 subsecNanos ++ utf8 "Z"

def writePrefixInner (timestampNs : UInt64) (level : UInt8) (target : String) (line : UInt32)
    (colored : Bool) : Bytes :=
  if colored then
    gray ++ formatTimestamp timestampNs ++ reset ++
      utf8 " " ++ levelColor level ++ (utf8 "[" ++ levelStr level ++ utf8 "]") ++ reset ++
      utf8 " " ++ gray ++
      (if line > 0 then utf8 target ++ utf8 ":" ++ decimal line.toNat else utf8 target) ++ reset ++
      utf8 " "
  else
    formatTimestamp timestampNs ++
      (if line > 0 then
        utf8 " [" ++ levelStr level ++ utf8 "] " ++ utf8 target ++ utf8 ":" ++ decimal line.toNat ++ utf8 " "
      else utf8 " [" ++ levelStr level ++ utf8 "] " ++ utf8 target ++ utf8 " ")

/-- The colour flag stands for the value of `COLOR_ENABLED` when the record is formatted. -/
def writeLogPrefix (colored : Bool) (timestampNs : UInt64) (level : UInt8) (target : String)
    (line : UInt32) : Bytes :=
  writePrefixInner timestampNs level target line colored

def formatRecord (timestampNs : UInt64) (level : UInt8) (payload : Bytes) (colored : Bool) :
    Option Bytes := do
  let (line, target, message) ← readStandardPayload payload
  some (writePrefixInner timestampNs level target line colored ++ (utf8 message ++ utf8 "\n"))

def standardFormatFn (colored : Bool) : FormatFn :=
  fun ctx => formatRecord ctx.timestampNs ctx.level ctx.payload colored

lemma standardFormatFn_eq (colored : Bool) (timestampNs : UInt64) (level : UInt8) (line : UInt32)
    {target : String} (message : String) (ht : (utf8 target).length ≤ 65535) :
    standardFormatFn colored ⟨timestampNs, level, payloadPrefix line target ++ utf8 message⟩ =
      some (writeLogPrefix colored timestampNs level target line ++ (utf8 message ++ utf8 "\n")) := by
  simp only [standardFormatFn, formatRecord, readStandardPayload_eq line message ht,
    Option.bind_eq_bind, Option.bind_some]
  rfl

example : formatTimestamp 1705329045123456789 = utf8 "2024-01-15T14:30:45.123456789Z" := by decide +kernel

end InqJet
