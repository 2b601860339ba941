import InqJet.Lib.FormatGrammar

namespace InqJet

inductive FormatTrait
  | display
  | debug
  | lowerHex
  | upperHex
  | octal
  | binary
  | lowerExp
  | upperExp
  | pointer
  deriving DecidableEq

structure PlaceholderInfo where
  formatTrait : FormatTrait
  inner : List Char
  deriving DecidableEq

def formatTraitFromSpec (spec : List Char) : FormatTrait :=
  match spec.getLast? with
  | some '?' => .debug
  | some 'x' => .lowerHex
  | some 'X' => .upperHex
  | some 'o' => .octal
  | some 'b' => .binary
  | some 'e' => .lowerExp
  | some 'E' => .upperExp
  | some 'p' => .pointer
  | _ => .display

def placeholderInfo (inner : List Char) : Except String PlaceholderInfo :=
  let argPart := inner.takeWhile (· ≠ ':')
  let spec := inner.dropWhile (· ≠ ':')
  if argPart = [] then .ok ⟨formatTraitFromSpec spec, inner⟩
  else if argPart.all Char.isDigit then
    .error ("explicit indices (" ++ String.ofList ('{' :: inner ++ ['}']) ++
      ") not supported in hot-path logging; use positional arguments")
  else
    .error ("named arguments (" ++ String.ofList ('{' :: inner ++ ['}']) ++
      ") not supported in hot-path logging; use positional arguments")

/-- The scanner over the rest of the string; inside a placeholder it carries the text collected so far. -/
def scan : Option (List Char) → List Char → Except String (List PlaceholderInfo)
  | none, [] => .ok []
  | none, '{' :: '{' :: cs => scan none cs
  | none, '}' :: '}' :: cs => scan none cs
  | none, c :: cs => scan (if c = '{' then some [] else none) cs
  | some inner, [] => (placeholderInfo inner).map fun p => [p]
  | some inner, c :: cs =>
    if c = '}' then
      (placeholderInfo inner).bind fun p => (scan none cs).map fun ps => p :: ps
    else scan (some (inner ++ [c])) cs

def parseFormatPlaceholders (fmt : List Char) : Except String (List PlaceholderInfo) := scan none fmt

def Positional (inner : List Char) : Prop := '}' ∉ inner ∧ (inner = [] ∨ inner.head? = some ':')

lemma placeholderInfo_ok {inner : List Char} {p : PlaceholderInfo} (h : placeholderInfo inner = .ok p) :
    p = ⟨formatTraitFromSpec inner, inner⟩ ∧ (inner = [] ∨ inner.head? = some ':') := by
  have hs : inner.takeWhile (· ≠ ':') = [] → inner.dropWhile (· ≠ ':') = inner ∧
      (inner = [] ∨ inner.head? = some ':') := by
    intro ht
    cases inner with
    | nil => simp
    | cons c cs => by_cases hc : c = ':' <;> simp_all
  simp only [placeholderInfo] at h
  split_ifs at h with ht
  · obtain ⟨hd, hh⟩ := hs ht
    rw [hd] at h
    exact ⟨(Except.ok.inj h).symm, hh⟩

lemma scan_open {cs : List Char} (h : cs.head? ≠ some '{') : scan none ('{' :: cs) = scan (some []) cs := by
  cases cs with
  | nil => rfl
  | cons c cs =>
    have hc : c ≠ '{' := by simpa using h
    simp [scan, hc]

lemma scan_collect {cs : List Char} (h : '}' ∉ cs) (inner rest : List Char) :
    scan (some inner) (cs ++ '}' :: rest) =
      (placeholderInfo (inner ++ cs)).bind fun p => (scan none rest).map fun ps => p :: ps := by
  induction cs generalizing inner with
  | nil => simp [scan]
  | cons c cs ih =>
    simp only [List.mem_cons, not_or] at h
    rw [List.cons_append, scan, if_neg (Ne.symm h.1), ih h.2, List.append_assoc, List.singleton_append]

lemma scan_infos {st : Option (List Char)} {cs : List Char} {ps : List PlaceholderInfo}
    (hst : ∀ inner, st = some inner → '}' ∉ inner) (h : scan st cs = .ok ps) :
    ∀ p ∈ ps, '}' ∉ p.inner ∧ placeholderInfo p.inner = .ok p := by
  have hone {inner : List Char} {p : PlaceholderInfo} (hi : '}' ∉ inner)
      (hp : placeholderInfo inner = .ok p) : '}' ∉ p.inner ∧ placeholderInfo p.inner = .ok p := by
    have hinner : p.inner = inner := by rw [(placeholderInfo_ok hp).1]
    rw [hinner]
    exact ⟨hi, hp⟩
  induction st, cs using scan.induct generalizing ps with
  | case1 => simp_all [scan]
  | case2 cs ih => exact ih (by simp) (by simpa [scan] using h)
  | case3 cs ih => exact ih (by simp) (by simpa [scan] using h)
  | case4 c cs hl hr ih =>
    refine ih ?_ (by simpa [scan] using h)
    intro inner hi
    split_ifs at hi
    obtain rfl := Option.some.inj hi
    simp
  | case5 inner =>
    simp only [scan] at h
    cases hp : placeholderInfo inner with
    | error e => simp [hp, Except.map] at h
    | ok p =>
      simp only [hp, Except.map, Except.ok.injEq] at h
      subst h
      simpa using hone (hst inner rfl) hp
  | case6 inner cs ih =>
    simp only [scan, if_true] at h
    cases hp : placeholderInfo inner with
    | error e => simp [hp, Except.bind] at h
    | ok p =>
      cases hs : scan none cs with
      | error e => simp [hp, hs, Except.bind, Except.map] at h
      | ok qs =>
        simp only [hp, hs, Except.bind, Except.map, Except.ok.injEq] at h
        subst h
        intro q hq
        rcases List.mem_cons.mp hq with rfl | hq
        · exact hone (hst inner rfl) hp
        · exact ih (by simp) hs q hq
  | case7 inner c cs hc ih =>
    refine ih ?_ (by simpa [scan, hc] using h)
    intro inner' hi
    obtain rfl := Option.some.inj hi
    simpa [Ne.symm hc] using hst inner rfl

lemma parse_infos {fmt : List Char} {ps : List PlaceholderInfo} (h : parseFormatPlaceholders fmt = .ok ps) :
    ∀ p ∈ ps, '}' ∉ p.inner ∧ placeholderInfo p.inner = .ok p :=
  scan_infos (by simp) h

theorem parse_positional {fmt : List Char} {ps : List PlaceholderInfo}
    (h : parseFormatPlaceholders fmt = .ok ps) : ∀ p ∈ ps, Positional p.inner :=
  fun p hp => ⟨(parse_infos h p hp).1, (placeholderInfo_ok (parse_infos h p hp).2).2⟩

example : (parseFormatPlaceholders "{} {:?} {{}} {:#010x}".toList).toOption =
    some [⟨.display, []⟩, ⟨.debug, [':', '?']⟩, ⟨.lowerHex, ":#010x".toList⟩] := by decide

end InqJet
