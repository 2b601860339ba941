import InqJet.HotPath.RoundTrip

/-! Log calls made while other log calls evaluate their target and arguments: whose texts
end up in whose record. -/

namespace InqJet

open ByteCodec

/-- Calls in sequence. `inner` are the calls made while the first one evaluates its target and
argument expressions; `granted` says whether its encode closure is run. -/
inductive Calls
  | done
  | call (inner : Calls) (line : UInt32) (target : String) (args : List HotArg) (granted : Bool)
      (rest : Calls)

structure Encoding where
  line : UInt32
  target : String
  args : List HotArg
  sizes : List ℕ
  before : Stash
  atEncode : Stash

def Encoding.execute (e : Encoding) : Stash × Option Bytes :=
  encodeBlock e.line e.target (e.args.zip e.sizes) e.atEncode
    (List.replicate (totalSize e.target e.sizes) 0)

abbrev Trace := List Encoding × Option Stash

def Trace.andThen (r : Trace) (k : Stash → Trace) : Trace :=
  match r.2 with
  | none => (r.1, none)
  | some st => (r.1 ++ (k st).1, (k st).2)

def submitArgs (line : UInt32) (target : String) (args : List HotArg) (granted : Bool) (st : Stash) : Trace :=
  match sizeArgs args st with
  | none => ([], none)
  | some (sizes, st₁) =>
    if granted then
      let e : Encoding := ⟨line, target, args, sizes, st, st₁⟩
      ([e], e.execute.2.map fun _ => e.execute.1)
    else ([], some st₁)

def Calls.run : Calls → Stash → Trace
  | .done, st => ([], some st)
  | .call inner line target args granted rest, st =>
    match clearFor args st with
    | .panicked _ => ([], none)
    | .done st =>
      ((inner.run st).andThen (submitArgs line target args granted)).andThen rest.run

def stashIndices : List HotArg → ℕ → List ℕ
  | [], _ => []
  | .fallback _ :: as, i => i :: stashIndices as (i + 1)
  | _ :: as, i => stashIndices as i

/-- Only the call's own texts are read, and each fills the slot its own `hot_size_with` asked for. -/
structure Encoding.Isolated (e : Encoding) : Prop where
  reads_own : stashIndices e.args e.atEncode.readIdx = stashIndices e.args e.before.offsets.length
  slots : ∃ payload, e.execute.2 = some payload ∧
    ∀ as text bs, e.args = as ++ .fallback text :: bs →
      e.sizes[as.length]? = some (4 + (utf8 text).length) ∧
      slice payload (prefixSize e.target + (e.sizes.take as.length).sum)
        (prefixSize e.target + (e.sizes.take as.length).sum + (4 + (utf8 text).length)) =
        some (prefixed (utf8 text))

/-- How many stashed texts are left unread when `d` were unread before: a call with arguments
clears, and a call that is not encoded leaves all its own. -/
def Calls.pending : Calls → ℕ → ℕ
  | .done, d => d
  | .call inner _ _ args granted rest, d =>
    let d₁ := inner.pending (if args = [] then d else 0)
    rest.pending (if granted then d₁ else d₁ + (stashTexts args).length)

def Calls.Drained : Calls → ℕ → Prop
  | .done, _ => True
  | .call inner _ _ args granted rest, d =>
    let d₀ := if args = [] then d else 0
    let d₁ := inner.pending d₀
    inner.Drained d₀ ∧ (granted = true → stashTexts args ≠ [] → d₁ = 0) ∧
      rest.Drained (if granted then d₁ else d₁ + (stashTexts args).length)

lemma stashIndices_eq_iff (args : List HotArg) (i j : ℕ) :
    stashIndices args i = stashIndices args j ↔ stashTexts args = [] ∨ i = j := by
  induction args generalizing i j with
  | nil => simp [stashIndices, stashTexts]
  | cons a as ih =>
    cases a with
    | fallback text =>
      have hh := ih (i + 1) (j + 1)
      simp [stashIndices, stashTexts, HotArg.texts]
      rintro rfl
      rfl
    | pod bytes => simpa [stashIndices, stashTexts, HotArg.texts] using ih i j
    | str s => simpa [stashIndices, stashTexts, HotArg.texts] using ih i j
    | string s => simpa [stashIndices, stashTexts, HotArg.texts] using ih i j

lemma reads_own_iff {st st₁ : Stash} {q : TextQueue} {args : List HotArg} (h : st.Represents q)
    (h₁ : st₁.Represents (q.push (stashTexts args))) :
    stashIndices args st₁.readIdx = stashIndices args st.offsets.length ↔
      (stashTexts args ≠ [] → q.unread.length = 0) := by
  have hr := h.inRange
  rw [stashIndices_eq_iff, h₁.readIdx, h.offsets_length, or_iff_not_imp_left]
  apply imp_congr_right
  intro _
  simp only [TextQueue.push, TextQueue.unread, List.length_drop]
  omega

lemma clearFor_represents {st : Stash} {q : TextQueue} (h : st.Represents q) (args : List HotArg) :
    ∃ st' q', clearFor args st = .done st' ∧ st'.Represents q' ∧
      q'.unread.length = if args = [] then q.unread.length else 0 := by
  cases args with
  | nil => exact ⟨st, q, rfl, h, rfl⟩
  | cons a as =>
    obtain ⟨st', hc, hr⟩ := clear_done h.free h.flag
    exact ⟨st', ⟨[], 0⟩, hc, hr, by simp [TextQueue.unread]⟩

lemma hotPayload_slot (line : UInt32) (target : String) (as bs : List HotArg) (a : HotArg) :
    let off := prefixSize target + ((as.map fun a => a.encoded.length).sum)
    slice (hotPayload line target (as ++ a :: bs)) off (off + a.encoded.length) = some a.encoded := by
  have he : hotPayload line target (as ++ a :: bs) =
      (payloadPrefix line target ++ encodedArgs as) ++ a.encoded ++ encodedArgs bs := by
    simp [hotPayload, encodedArgs, List.append_assoc]
  rw [he]
  exact slice_at (by simp [prefixSize, encodedArgs]) rfl

lemma isolated_of_unread {st₁ st₂ : Stash} {q : TextQueue} (line : UInt32) (target : String)
    {args : List HotArg} {more : List String} (h₂ : st₂.Represents q)
    (hq : q.unread = stashTexts args ++ more)
    (hown : stashIndices args st₂.readIdx = stashIndices args st₁.offsets.length) :
    let e : Encoding := ⟨line, target, args, args.map fun a => a.encoded.length, st₁, st₂⟩
    e.Isolated ∧ ∃ st₃ payload, e.execute = (st₃, some payload) ∧
      st₃.Represents (q.skip (stashTexts args).length) := by
  intro e
  obtain ⟨st₃, he, hr⟩ := encodeBlock_eq h₂ hq line target
    (List.replicate (totalSize target (args.map fun a => a.encoded.length)) 0) (by simp)
  have hx : e.execute = (st₃, some (hotPayload line target args)) := by
    rw [Encoding.execute, ← he, ← zip_sizes]
  refine ⟨⟨hown, hotPayload line target args, by rw [hx], ?_⟩, st₃, _, hx, hr⟩
  rintro as text bs (rfl : args = _)
  have hs := hotPayload_slot line target as bs (.fallback text)
  refine ⟨by simp [e, HotArg.encoded], ?_⟩
  simpa [e, HotArg.encoded, List.take_append_of_le_length] using hs

def Trace.Meets (r : Trace) (ok : Prop) (d : ℕ) : Prop :=
  ((∀ e ∈ r.1, e.Isolated) ↔ ok) ∧
    (ok → ∃ st q, r.2 = some st ∧ st.Represents q ∧ q.unread.length = d)

lemma Trace.Meets.andThen {r : Trace} {k : Stash → Trace} {ok ok' : Prop} {d d' : ℕ} (h : r.Meets ok d)
    (hk : ∀ st q, st.Represents q → q.unread.length = d → (k st).Meets ok' d') :
    (r.andThen k).Meets (ok ∧ ok') d' := by
  by_cases hok : ok
  · obtain ⟨st, q, hst, hq, hd⟩ := h.2 hok
    obtain ⟨hiff, hrun⟩ := hk st q hq hd
    simp only [Trace.andThen, hst]
    refine ⟨?_, fun ho => hrun ho.2⟩
    simp only [List.forall_mem_append, hiff, h.1]
  · have hsub : ∀ e ∈ r.1, e ∈ (r.andThen k).1 := by
      intro e he
      simp only [Trace.andThen]
      split <;> simp [he]
    refine ⟨⟨fun ha => ?_, fun ho => (hok ho.1).elim⟩, fun ho => (hok ho.1).elim⟩
    exact (hok (h.1.mp fun e he => ha e (hsub e he))).elim

lemma submitArgs_meets {st : Stash} {q : TextQueue} (h : st.Represents q) (line : UInt32) (target : String)
    (args : List HotArg) (granted : Bool) :
    (submitArgs line target args granted st).Meets
      (granted = true → stashTexts args ≠ [] → q.unread.length = 0)
      (if granted then q.unread.length else q.unread.length + (stashTexts args).length) := by
  obtain ⟨st₁, hs, h₁⟩ := sizeArgs_eq h args
  have hunread := TextQueue.unread_push h.inRange (stashTexts args)
  cases granted with
  | false =>
    simp only [submitArgs, hs]
    exact ⟨by simp, fun _ => ⟨st₁, _, by simp, h₁, by simp [hunread]⟩⟩
  | true =>
    by_cases hfresh : stashTexts args ≠ [] → q.unread.length = 0
    · obtain ⟨more, hq⟩ : ∃ more, (q.push (stashTexts args)).unread = stashTexts args ++ more := by
        by_cases ht : stashTexts args = []
        · exact ⟨_, by rw [ht]; rfl⟩
        · exact ⟨[], by rw [hunread, List.eq_nil_of_length_eq_zero (hfresh ht)]; simp⟩
      have hown := (reads_own_iff h h₁).mpr hfresh
      obtain ⟨hiso, st₂, payload, hx, h₂⟩ := isolated_of_unread line target h₁ hq hown
      simp only [submitArgs, hs, hx]
      refine ⟨by simpa [hiso] using hfresh, fun _ => ⟨st₂, _, by simp, h₂, ?_⟩⟩
      rw [TextQueue.unread_skip, hunread]
      simp
    · simp only [submitArgs, hs, if_true, forall_const]
      refine ⟨⟨fun ha => ?_, fun ho => (hfresh ho).elim⟩, fun ho => (hfresh ho).elim⟩
      exact (reads_own_iff h h₁).mp (ha _ (List.mem_singleton_self _)).reads_own

lemma run_meets (c : Calls) {st : Stash} {q : TextQueue} (h : st.Represents q) :
    (c.run st).Meets (c.Drained q.unread.length) (c.pending q.unread.length) := by
  induction c generalizing st q with
  | done => exact ⟨by simp [Calls.run, Calls.Drained], fun _ => ⟨st, q, rfl, h, rfl⟩⟩
  | call inner line target args granted rest ihi ihr =>
    obtain ⟨st₀, q₀, hc, h₀, hd₀⟩ := clearFor_represents h args
    have hi := ihi h₀
    rw [hd₀] at hi
    have hs := hi.andThen fun st₁ q₁ h₁ hd₁ => hd₁ ▸ submitArgs_meets h₁ line target args granted
    have hr := hs.andThen fun st₂ q₂ h₂ hd₂ => hd₂ ▸ ihr h₂
    simp only [Calls.run, Calls.Drained, Calls.pending, hc]
    simpa only [and_assoc] using hr

theorem calls_isolated_iff (c : Calls) : (∀ e ∈ (c.run {}).1, e.Isolated) ↔ c.Drained 0 :=
  (run_meets c cleared_initial).1

def droppedInner : Calls :=
  .call (.call .done 1 "app" [.fallback "[1]"] false .done) 2 "app" [.fallback "[2]"] true .done

-- the texts have the same length, so nothing panics: the outer record carries the inner text
example : ((droppedInner.run {}).1.map fun e => e.execute.2) =
    [some (hotPayload 2 "app" [.fallback "[1]"])] := by decide

theorem droppedInner_not_isolated : ¬ ∀ e ∈ (droppedInner.run {}).1, e.Isolated := by
  have hrun : ((droppedInner.run {}).1.map fun e =>
      (stashIndices e.args e.atEncode.readIdx, stashIndices e.args e.before.offsets.length)) =
      [([0], [1])] := by decide
  intro h
  obtain ⟨e, he, hi⟩ := List.mem_map.mp (hrun ▸ List.mem_singleton_self (([0] : List ℕ), ([1] : List ℕ)))
  simp only [Prod.mk.injEq] at hi
  have ho := (h e he).reads_own
  rw [hi.1, hi.2] at ho
  exact absurd ho (by decide)

end InqJet
