import InqJet.Logger.Reentrancy
import InqJet.Logger.Unwinding

namespace InqJet

open ByteCodec Runs Segments

def Stash.released (st : Stash) : Stash := { st with borrowed := false }

def Stash.Unread (st : Stash) (texts : List String) : Prop := ∃ q, st.released.Represents q ∧ q.unread = texts

namespace Frame

def Argless : Frame → Prop
  | .evaluating _ _ todo => todo = []
  | .sizing _ _ todo done => todo = [] ∧ done = []
  | .stashing .. => False
  | .hotClaim _ _ done => done = []
  | _ => True

def Holds (st : Stash) : Frame → Prop
  | .sizing _ _ _ done => done = sized (done.map Prod.fst) ∧
      (stashTexts (done.map Prod.fst) ≠ [] → st.Unread (stashTexts (done.map Prod.fst)))
  | .stashing _ _ _ done start own => done = sized (done.map Prod.fst) ∧
      st.Unread (stashTexts (done.map Prod.fst) ++ [own]) ∧ start + (utf8 own).length = (utf8 st.buf).length
  | .hotClaim _ _ done => done = sized (done.map Prod.fst) ∧
      (stashTexts (done.map Prod.fst) ≠ [] → st.Unread (stashTexts (done.map Prod.fst)))
  | _ => True

end Frame

namespace Thread

variable {mode : BackpressureMode}

def FindsUnread (s : Thread) : Action → Prop
  | .sizeArg => match s.frames with
    | .sizing _ _ (.fallback :: _) done :: _ =>
      stashTexts (done.map Prod.fst) = [] ∧ s.stash.readIdx < s.stash.offsets.length
    | _ => False
  | _ => False

instance (s : Thread) : DecidablePred (FindsUnread s) := fun a => by
  unfold FindsUnread
  split
  · split <;> infer_instance
  · infer_instance

def KeepsApart (s : Thread) (a : Action) : Prop := ¬ LogsWhileStashing s a ∧ ¬ FindsUnread s a

instance (s : Thread) : DecidablePred (KeepsApart s) := fun _ => inferInstanceAs (Decidable (_ ∧ _))

def EncodesOwn (mode : BackpressureMode) (s : Thread) : Prop :=
  ∀ line target done fs, s.frames = .hotClaim line target done :: fs → s.panicking = false →
    ∃ t, step mode s .granted = some t ∧ t.panicking = false ∧
      t.committed = s.committed ++ [.hot (hotPayload line target (done.map Prod.fst))]

structure TextInv (s : Thread) : Prop where
  flag : FlagInv s
  laid : ∃ texts, s.stash.Unread texts
  above : s.frames.Pairwise fun f g => g.holdsStash = true → f.Argless
  holds : ∀ f ∈ s.frames, f.Holds s.stash

end Thread

lemma released_of_free {st : Stash} (h : st.borrowed = false) : st.released = st := by rw [Stash.released, ← h]

lemma Stash.Unread.congr {st st' : Stash} {texts : List String} (h : st.Unread texts)
    (he : st'.released = st.released) : st'.Unread texts := by
  unfold Stash.Unread
  rw [he]
  exact h

lemma Stash.Unread.nil {st : Stash} {texts : List String} (h : st.Unread texts)
    (hr : ¬ st.readIdx < st.offsets.length) : st.Unread [] := by
  obtain ⟨q, hq, -⟩ := h
  have hl := hq.offsets_length
  have hi := hq.readIdx
  refine ⟨q, hq, List.drop_eq_nil_of_le ?_⟩
  simp only [Stash.released] at hl hi
  omega

lemma Stash.Cleared.unread {st : Stash} (h : st.Cleared) : st.Unread [] := by
  exact ⟨⟨[], 0⟩, by rwa [released_of_free h.free], rfl⟩

lemma Stash.Unread.opened {st st' : Stash} {texts : List String} (h : st.Unread texts)
    (ho : st.openFallback = .done st') : st'.Unread (texts ++ [""]) ∧ st'.buf = st.buf := by
  obtain ⟨q, hq, rfl⟩ := h
  simp only [Stash.openFallback] at ho
  split_ifs at ho with hb
  obtain rfl := Outcome.done.inj ho
  refine ⟨⟨q.push [""], ⟨rfl, ?_, ?_, hq.readIdx, ?_, ?_⟩, TextQueue.unread_push hq.inRange [""]⟩, rfl⟩
  · simpa [TextQueue.push, Stash.released] using hq.bytes
  · have hoff := hq.offsets
    have hbytes := hq.bytes
    simp only [Stash.released] at hoff hbytes ⊢
    simp [hoff, hbytes, TextQueue.push, starts_append, starts]
  · have hr := hq.inRange
    simp [TextQueue.push]
    omega
  · rintro ⟨⟩

lemma Stash.Unread.write {st : Stash} {texts : List String} {own : String} (h : st.Unread (texts ++ [own]))
    (text : String) : (st.write text).Unread (texts ++ [own ++ text]) := by
  obtain ⟨q, hq, hu⟩ := h
  have hsplit : q.texts = q.texts.take q.read ++ (texts ++ [own]) := by
    rw [← hu, TextQueue.unread, List.take_append_drop]
  have hr := hq.inRange
  have hlen : (q.texts.take q.read).length = q.read := List.length_take_of_le hr
  generalize q.texts.take q.read = before at hsplit hlen
  have hbytes := hq.bytes
  have hoff := hq.offsets
  have hdirty : st.dirty = true := by
    by_contra hd
    have hz := (hq.flag (by simpa [Stash.released] using hd)).2.1
    rw [hoff, hsplit] at hz
    simp [starts_append, starts] at hz
  simp only [Stash.released, hsplit] at hbytes hoff
  refine ⟨⟨before ++ (texts ++ [own ++ text]), q.read⟩, ⟨rfl, ?_, ?_, hq.readIdx, ?_, ?_⟩, ?_⟩
  · simp [Stash.write, Stash.released, hbytes]
  · simp [Stash.write, Stash.released, hoff, starts_append, starts]
  · simp [← hlen]
  · simp [Stash.FlagSound, Stash.write, Stash.released, hdirty]
  · simp [TextQueue.unread, ← hlen]

lemma stashTexts_append (as bs : List HotArg) : stashTexts (as ++ bs) = stashTexts as ++ stashTexts bs :=
  List.flatMap_append

lemma encodeArgs_textless (st st' : Stash) {args : List (HotArg × ℕ)} (h : stashTexts (args.map Prod.fst) = [])
    (off : ℕ) (buf : Bytes) : (encodeArgs args off st buf).2 = (encodeArgs args off st' buf).2 := by
  induction args generalizing off buf with
  | nil => rfl
  | cons p as ih =>
    obtain ⟨a, size⟩ := p
    obtain ⟨ha, has⟩ : a.texts = [] ∧ stashTexts (as.map Prod.fst) = [] := by
      simpa only [List.map_cons, stashTexts, List.flatMap_cons, List.append_eq_nil_iff] using h
    have hsame (st : Stash) (region : Bytes) : a.hotEncode st region = (st, (a.hotEncode st' region).2) := by
      cases a with
      | fallback text => cases ha
      | _ => rfl
    simp only [encodeArgs]
    cases slice buf off buf.length with
    | none => rfl
    | some region =>
      simp only
      rw [hsame st, hsame st']
      cases (a.hotEncode st' region).2 with
      | none => rfl
      | some region' => exact ih has _ _

lemma encodeBlock_textless (st st' : Stash) {args : List (HotArg × ℕ)}
    (h : stashTexts (args.map Prod.fst) = []) (line : UInt32) (target : String) (buf : Bytes) :
    (encodeBlock line target args st buf).2 = (encodeBlock line target args st' buf).2 := by
  simp only [encodeBlock]
  cases prefixEncode line target buf with
  | none => rfl
  | some buf => exact encodeArgs_textless st st' h _ _

lemma Stash.Unread.encode {st : Stash} {args : List HotArg} (hfree : stashTexts args ≠ [] → st.borrowed = false)
    (h : stashTexts args ≠ [] → st.Unread (stashTexts args)) (line : UInt32) (target : String) {claim : Bytes}
    (hc : claim.length = totalSize target (args.map fun a => a.encoded.length)) :
    ∃ st', encodeBlock line target (sized args) st claim = (st', some (hotPayload line target args)) ∧
      (stashTexts args = [] ∧ st' = st ∨ stashTexts args ≠ [] ∧ st'.Unread []) := by
  have hfst : (sized args).map Prod.fst = args := by simp [sized, Function.comp_def]
  by_cases ht : stashTexts args = []
  · have hq : (⟨[], 0⟩ : TextQueue).unread = stashTexts args ++ [] := by rw [ht]; rfl
    obtain ⟨st', he, -⟩ := encodeBlock_eq cleared_initial hq line target claim hc
    obtain ⟨n, hn, hst⟩ := encodeBlock_stash line target (sized args) st claim
    have htexts : stashTexts ((sized args).map Prod.fst) = [] := by rw [hfst, ht]
    have hp := encodeBlock_textless st {} htexts line target claim
    rw [htexts] at hn
    obtain rfl : n = 0 := by simpa using hn
    exact ⟨st, Prod.ext hst (by rw [hp, he]), .inl ⟨ht, rfl⟩⟩
  · obtain ⟨q, hq, hu⟩ := h ht
    rw [released_of_free (hfree ht)] at hq
    obtain ⟨st', he, hr⟩ := encodeBlock_eq hq (hu.trans (List.append_nil _).symm) line target claim hc
    refine ⟨st', he, .inr ⟨ht, q.skip (stashTexts args).length, ?_, ?_⟩⟩
    · rwa [released_of_free hr.free]
    · rw [TextQueue.unread_skip, hu, List.drop_length]

namespace Thread

variable {mode : BackpressureMode}

lemma holds_of_idle {f : Frame} (hu : f.runsUserCode = true) (hn : ¬ f.holdsStash = true) (st : Stash) :
    f.Holds st := by
  cases f with
  | evaluating => trivial
  | bridgeFmt => trivial
  | stashing => exact (hn rfl).elim
  | _ => cases hu

lemma holds_congr {st st' : Stash} {f : Frame} (h : f.Holds st) (he : st'.released = st.released) :
    f.Holds st' := by
  have hbuf : st.released.buf = st'.released.buf := by rw [he]
  cases f with
  | sizing => exact ⟨h.1, fun ht => (h.2 ht).congr he⟩
  | stashing => exact ⟨h.1, h.2.1.congr he, h.2.2.trans (congrArg (fun buf => (utf8 buf).length) hbuf)⟩
  | hotClaim => exact ⟨h.1, fun ht => (h.2 ht).congr he⟩
  | _ => trivial

lemma FrameInv.borrowed_of_mem {s : Thread} (hs : FrameInv s) {f : Frame} (hf : f ∈ s.frames)
    (hh : f.holdsStash = true) : s.stash.borrowed = true := by
  by_contra hb
  have hcount := hs.stash
  rw [Bool.eq_false_iff.mpr hb] at hcount
  exact List.countP_eq_zero.mp hcount f hf hh

lemma FrameInv.free_of_idle {s : Thread} (hs : FrameInv s) (hn : ∀ f ∈ s.frames, ¬ f.holdsStash = true) :
    s.stash.borrowed = false := by
  have hcount := hs.stash
  rw [List.countP_eq_zero.mpr hn] at hcount
  exact Bool.toNat_eq_zero.mp hcount.symm

lemma TextInv.idle {s : Thread} (hs : TextInv s) {f : Frame} {fs : List Frame} (hf : s.frames = f :: fs)
    (ha : ¬ f.Argless) : ∀ g ∈ fs, g.runsUserCode = true ∧ ¬ g.holdsStash = true := by
  have ho := hs.flag.frames.outer
  have habove := hs.above
  rw [hf] at ho habove
  exact fun g hg => ⟨ho g hg, fun hh => ha ((List.pairwise_cons.mp habove).1 g hg hh)⟩

lemma TextInv.free {s : Thread} (hs : TextInv s) {f : Frame} {fs : List Frame} (hf : s.frames = f :: fs)
    (ha : ¬ f.Argless) (hn : ¬ f.holdsStash = true) : s.stash.borrowed = false := by
  apply hs.flag.frames.free_of_idle
  rw [hf]
  exact List.forall_mem_cons.mpr ⟨hn, fun g hg => (hs.idle hf ha g hg).2⟩

lemma TextInv.setTop {s t : Thread} (hs : TextInv s) (hi : FlagInv t) (hst : t.stash.released = s.stash.released)
    {f f' : Frame} {fs : List Frame} (hf : s.frames = f :: fs) (ht : t.frames = f' :: fs)
    (ha : f.Argless → f'.Argless) (hh : f.Holds t.stash → f'.Holds t.stash) : TextInv t := by
  have habove := hs.above
  have hholds := hs.holds
  rw [hf, List.pairwise_cons] at habove
  rw [hf, List.forall_mem_cons] at hholds
  refine ⟨hi, hs.laid.imp fun _ hu => hu.congr hst, ?_, ?_⟩
  · rw [ht]
    exact List.pairwise_cons.mpr ⟨fun g hg hgh => ha (habove.1 g hg hgh), habove.2⟩
  · rw [ht]
    exact List.forall_mem_cons.mpr ⟨hh (holds_congr hholds.1 hst), fun g hg => holds_congr (hholds.2 g hg) hst⟩

lemma TextInv.push {s t : Thread} (hs : TextInv s) (hi : FlagInv t) (hst : t.stash = s.stash) {f : Frame}
    (ht : t.frames = f :: s.frames) (ha : s.stash.borrowed = true → f.Argless) (hh : f.Holds s.stash) :
    TextInv t := by
  refine ⟨hi, hst ▸ hs.laid, ?_, ?_⟩
  · rw [ht]
    exact List.pairwise_cons.mpr ⟨fun g hg hgh => ha (hs.flag.frames.borrowed_of_mem hg hgh), hs.above⟩
  · rw [ht, hst]
    exact List.forall_mem_cons.mpr ⟨hh, hs.holds⟩

lemma TextInv.pop {s t : Thread} (hs : TextInv s) (hi : FlagInv t) (hst : t.stash.released = s.stash.released)
    (ht : t.frames = s.frames.tail) : TextInv t := by
  refine ⟨hi, hs.laid.imp fun _ hu => hu.congr hst, ?_, ?_⟩
  · rw [ht]
    exact hs.above.tail
  · rw [ht]
    exact fun f hf => holds_congr (hs.holds f (List.mem_of_mem_tail hf)) hst

lemma TextInv.rewrite {t : Thread} (hi : FlagInv t) {texts : List String} (hu : t.stash.Unread texts) {f : Frame}
    {fs : List Frame} (ht : t.frames = f :: fs) (hidle : ∀ g ∈ fs, g.runsUserCode = true ∧ ¬ g.holdsStash = true)
    (habove : fs.Pairwise fun f g => g.holdsStash = true → f.Argless) (hh : f.Holds t.stash) : TextInv t := by
  refine ⟨hi, ⟨texts, hu⟩, ?_, ?_⟩
  · rw [ht]
    exact List.pairwise_cons.mpr ⟨fun g hg hgh => ((hidle g hg).2 hgh).elim, habove⟩
  · rw [ht]
    exact List.forall_mem_cons.mpr ⟨hh, fun g hg => holds_of_idle (hidle g hg).1 (hidle g hg).2 _⟩

lemma pop_released (s : Thread) : s.pop.stash.released = s.stash.released := by
  unfold pop
  split <;> rfl

lemma TextInv.left {s : Thread} (hs : TextInv s) (hi : FlagInv s.pop) : TextInv s.pop :=
  hs.pop hi (pop_released s) (pop_frames s)

lemma TextInv.flagged {s t : Thread} (hs : TextInv s) (hi : FlagInv t) (hst : t.stash = s.stash)
    (hf : t.frames = s.frames) : TextInv t :=
  ⟨hi, hst ▸ hs.laid, hf ▸ hs.above, by rw [hf, hst]; exact hs.holds⟩

lemma TextInv.hotLog {s : Thread} (hs : TextInv s) (hu : s.inUserCode = true) (line : UInt32) (target : String)
    (args : List Pending) (hl : ¬ LogsWhileStashing s (.hotLog line target args))
    (hi : FlagInv (hotLogStep s line target args)) : TextInv (hotLogStep s line target args) := by
  cases args with
  | nil => exact hs.push hi rfl rfl (fun _ => rfl) trivial
  | cons a as =>
    have hb : s.stash.borrowed = false := Bool.eq_false_iff.mpr hl
    obtain ⟨st, hc, hclear⟩ := clear_done hb hs.flag.sound
    have he : hotLogStep s line target (a :: as) =
        { s with stash := st }.push (.evaluating line target (a :: as)) := by
      simp only [hotLogStep, clearFor, hc]
    rw [he] at hi ⊢
    have hidle (g : Frame) (hg : g ∈ s.frames) : g.runsUserCode = true ∧ ¬ g.holdsStash = true := by
      refine ⟨hs.flag.frames.all_user hu g hg, fun hh => ?_⟩
      rw [hs.flag.frames.borrowed_of_mem hg hh] at hb
      cases hb
    exact TextInv.rewrite hi hclear.unread rfl hidle hs.above trivial

lemma hotSizeWith_textless {a : HotArg} (h : a.texts = []) (st : Stash) :
    a.hotSizeWith st = some (a.encoded.length, st) := by
  cases a with
  | fallback text => cases h
  | pod bytes => rfl
  | str s => simp [HotArg.hotSizeWith, strHotSize, HotArg.encoded]
  | string s => simp [HotArg.hotSizeWith, strHotSize, HotArg.encoded]

lemma sized_snoc {done : List (HotArg × ℕ)} (h : done = sized (done.map Prod.fst)) (a : HotArg) :
    done ++ [(a, a.encoded.length)] = sized ((done ++ [(a, a.encoded.length)]).map Prod.fst) := by
  rw [List.map_append, sized, List.map_append]
  exact congrArg (· ++ [(a, a.encoded.length)]) h

lemma TextInv.sizeArg {s t : Thread} (hs : TextInv s) (hu : ¬ FindsUnread s .sizeArg) (hi : FlagInv t)
    (h : sizeArgStep s = some t) : TextInv t := by
  unfold sizeArgStep at h
  split at h
  case h_1 line target a ha todo done fs hf =>
    rw [hotSizeWith_textless ha] at h
    obtain rfl := Option.some.inj h
    refine hs.setTop hi rfl hf (setTop_frames hf _) (by rintro ⟨⟨⟩, -⟩) fun hh => ?_
    have htexts : stashTexts ((done ++ [(a, a.encoded.length)]).map Prod.fst) = stashTexts (done.map Prod.fst) := by
      rw [List.map_append, stashTexts_append]
      simp [stashTexts, ha]
    exact ⟨sized_snoc hh.1 a, by rw [htexts]; exact hh.2⟩
  case h_2 line target todo done fs hf =>
    have hargs : ¬ (Frame.sizing line target (.fallback :: todo) done).Argless := by rintro ⟨⟨⟩, -⟩
    have hb := hs.free hf hargs (by rintro ⟨⟩)
    split at h
    case h_1 ho => simp [Stash.openFallback, hb] at ho
    case h_2 st ho =>
      obtain rfl := Option.some.inj h
      have hh := hs.holds (.sizing line target (.fallback :: todo) done) (by rw [hf]; exact List.mem_cons_self)
      have hown : s.stash.Unread (stashTexts (done.map Prod.fst)) := by
        by_cases ht : stashTexts (done.map Prod.fst) = []
        · obtain ⟨texts, hl⟩ := hs.laid
          rw [ht]
          refine hl.nil fun hr => hu ?_
          simp only [FindsUnread, hf]
          exact ⟨ht, hr⟩
        · exact hh.2 ht
      obtain ⟨hopen, hbuf⟩ := hown.opened ho
      have habove := hs.above
      rw [hf] at habove
      refine TextInv.rewrite hi hopen (setTop_frames hf _) (hs.idle hf hargs) habove.tail ⟨hh.1, hopen, ?_⟩
      simp only [utf8_empty, List.length_nil, Nat.add_zero]
      exact congrArg (fun buf => (utf8 buf).length) hbuf.symm
  case h_3 => cases h

lemma TextInv.write {s t : Thread} {text : String} (hs : TextInv s) (hi : FlagInv t)
    (h : writeStep s text = some t) : TextInv t := by
  unfold writeStep at h
  split at h
  case h_1 line target todo done start own fs hf =>
    obtain rfl := Option.some.inj h
    obtain ⟨hsized, hunread, hstart⟩ := hs.holds (.stashing line target todo done start own)
      (by rw [hf]; exact List.mem_cons_self)
    have hwritten := hunread.write text
    have habove := hs.above
    rw [hf] at habove
    refine TextInv.rewrite hi hwritten (setTop_frames hf _) (hs.idle hf id) habove.tail ⟨hsized, hwritten, ?_⟩
    simp only [Thread.setTop, Stash.write, utf8_append, List.length_append]
    omega
  case h_2 hf =>
    obtain rfl := Option.some.inj h
    exact hs.setTop hi rfl hf (setTop_frames hf _) (fun _ => trivial) (fun _ => trivial)
  case h_3 => cases h

lemma TextInv.formatted {s t : Thread} (hs : TextInv s) (hi : FlagInv t) (h : formattedStep s = some t) :
    TextInv t := by
  unfold formattedStep at h
  split at h
  case h_1 line target todo done start own fs hf =>
    obtain rfl := Option.some.inj h
    refine hs.setTop hi rfl hf (setTop_frames hf _) False.elim ?_
    rintro ⟨hsized, hunread, hstart⟩
    have hsize : 4 + ((utf8 s.stash.buf).length - start) = (HotArg.fallback own).encoded.length := by
      simp only [Thread.setTop] at hstart
      simp only [HotArg.encoded, prefixed_length]
      omega
    rw [hsize]
    refine ⟨sized_snoc hsized (.fallback own), fun _ => ?_⟩
    rw [List.map_append, stashTexts_append]
    exact hunread
  case h_2 hf =>
    obtain rfl := Option.some.inj h
    exact hs.setTop hi rfl hf (setTop_frames hf _) (fun _ => trivial) (fun _ => trivial)
  case h_3 => cases h

lemma TextInv.submit {s t : Thread} {ready : Bool} (hs : TextInv s) (hi : FlagInv t)
    (h : submitStep s ready = some t) : TextInv t := by
  unfold submitStep at h
  split at h
  case h_1 hf =>
    split_ifs at h
    · exact Option.some.inj h ▸ hs.left (Option.some.inj h ▸ hi)
    · obtain rfl := Option.some.inj h
      exact hs.pop hi (pop_released s) (pop_frames s)
    · obtain rfl := Option.some.inj h
      exact hs.setTop hi rfl hf (setTop_frames hf _) And.right id
  case h_2 => cases h

lemma TextInv.granted {s : Thread} (hs : TextInv s) {line : UInt32} {target : String} {done : List (HotArg × ℕ)}
    {fs : List Frame} (hf : s.frames = .hotClaim line target done :: fs) :
    ∃ st, grantedStep s = some { { s with stash := st }.pop with
        committed := s.committed ++ [.hot (hotPayload line target (done.map Prod.fst))] } ∧
      (stashTexts (done.map Prod.fst) = [] ∧ st = s.stash ∨
        stashTexts (done.map Prod.fst) ≠ [] ∧ st.Unread []) := by
  obtain ⟨hsized, hunread⟩ := hs.holds (.hotClaim line target done) (by rw [hf]; exact List.mem_cons_self)
  have hfree (ht : stashTexts (done.map Prod.fst) ≠ []) : s.stash.borrowed = false := by
    refine hs.free hf (fun ha => ht ?_) (by rintro ⟨⟩)
    rw [show done = [] from ha]
    rfl
  have hsizes : done.map Prod.snd = (done.map Prod.fst).map fun a => a.encoded.length := by
    conv_lhs => rw [hsized]
    simp [sized]
  have hclaim : (List.replicate (totalSize target (done.map Prod.snd)) (0 : UInt8)).length =
      totalSize target ((done.map Prod.fst).map fun a => a.encoded.length) := by
    rw [List.length_replicate, hsizes]
  obtain ⟨st, he, hst⟩ := Stash.Unread.encode hfree hunread line target hclaim
  refine ⟨st, ?_, hst⟩
  rw [← hsized] at he
  simp only [grantedStep, hf, he]

lemma TextInv.grant {s t : Thread} (hs : TextInv s) (hi : FlagInv t) (h : grantedStep s = some t) :
    TextInv t := by
  cases hf : s.frames with
  | nil => simp [grantedStep, hf] at h
  | cons f fs =>
    cases f with
    | hotClaim line target done =>
      obtain ⟨st, hg, hst⟩ := hs.granted hf
      obtain rfl := Option.some.inj (hg.symm.trans h)
      rcases hst with ⟨-, rfl⟩ | ⟨ht, hread⟩
      · exact hs.pop hi (pop_released s) (pop_frames s)
      · have hargs : ¬ (Frame.hotClaim line target done).Argless := by
          rintro rfl
          exact ht rfl
        have hidle := hs.idle hf hargs
        have habove := hs.above
        have hfs : Thread.frames { s with stash := st }.pop = fs := by rw [pop_frames, hf]; rfl
        rw [hf] at habove
        refine ⟨hi, ⟨[], hread.congr (pop_released _)⟩, ?_, ?_⟩
        · exact hfs ▸ habove.tail
        · rw [hfs]
          exact fun g hg => holds_of_idle (hidle g hg).1 (hidle g hg).2 _
    | bridgeClaim line target own =>
      simp only [grantedStep, hf] at h
      split at h <;> obtain rfl := Option.some.inj h <;> exact hs.pop hi (pop_released s) (pop_frames s)
    | _ => simp [grantedStep, hf] at h

lemma TextInv.full {s t : Thread} {running : Bool} (hs : TextInv s) (hi : FlagInv t)
    (h : fullStep mode s running = some t) : TextInv t := by
  have hcases : t = s.pop ∨ t = s := by
    unfold fullStep at h
    split at h
    · split_ifs at h
      · exact .inl (Option.some.inj h).symm
      · exact .inr (Option.some.inj h).symm
    · split_ifs at h
      · exact .inl (Option.some.inj h).symm
      · exact .inr (Option.some.inj h).symm
    · cases h
  rcases hcases with rfl | rfl
  · exact hs.left hi
  · exact hs

lemma TextInv.unwinding {s t : Thread} {a : Action} (hs : TextInv s) (hi : FlagInv t)
    (h : unwindingStep s a = some t) : TextInv t := by
  unfold unwindingStep at h
  split at h
  case h_1 =>
    split_ifs at h
    obtain rfl := Option.some.inj h
    exact hs.left hi
  case h_2 =>
    split_ifs at h
    obtain rfl := Option.some.inj h
    exact hs.flagged hi rfl rfl
  case h_3 => cases h

lemma TextInv.calling {s t : Thread} {a : Action} (hs : TextInv s) (hk : KeepsApart s a) (hi : FlagInv t)
    (h : callingStep s mode a = some t) : TextInv t := by
  cases a with
  | hotLog line target args =>
    obtain ⟨hu, he⟩ := Option.ite_none_right_eq_some.mp h
    obtain rfl := Option.some.inj he
    exact hs.hotLog hu line target args hk.1 hi
  | evaluated =>
    simp only [callingStep] at h
    split at h
    case h_1 hf =>
      obtain rfl := Option.some.inj h
      exact hs.setTop hi rfl hf (setTop_frames hf _) (fun ha => ⟨ha, rfl⟩) fun _ => ⟨rfl, fun ht => (ht rfl).elim⟩
    case h_2 => cases h
  | sizeArg => exact hs.sizeArg hk.2 hi h
  | write text => exact hs.write hi h
  | formatted => exact hs.formatted hi h
  | submit ready => exact hs.submit hi h
  | logImpl line target ready =>
    obtain ⟨-, he⟩ := Option.ite_none_right_eq_some.mp h
    obtain rfl := Option.some.inj he
    unfold logImplStep at hi ⊢
    split_ifs at hi ⊢
    · exact hs
    · exact hs.flagged hi rfl rfl
    · exact hs.push hi rfl rfl (fun _ => trivial) trivial
  | granted => exact hs.grant hi h
  | full running => exact hs.full hi h
  | panic =>
    obtain ⟨-, he⟩ := Option.ite_none_right_eq_some.mp h
    obtain rfl := Option.some.inj he
    exact hs.flagged hi rfl rfl
  | unwind => cases h
  | caught => cases h

lemma TextInv.step {s t : Thread} {a : Action} (hs : TextInv s) (hk : KeepsApart s a)
    (h : step mode s a = some t) : TextInv t := by
  have hi : FlagInv t := hs.flag.turn hk.1 (step_turn h)
  unfold Thread.step at h
  split_ifs at h
  · exact hs.unwinding hi h
  · exact hs.calling hk hi h

lemma TextInv.encodesOwn {s : Thread} (hs : TextInv s) : EncodesOwn mode s := by
  intro line target done fs hf hp
  obtain ⟨st, hg, -⟩ := hs.granted hf
  refine ⟨_, (if_neg (by simp [hp])).trans hg, ?_, rfl⟩
  simp only [Thread.pop, hf]
  exact hp

/-- Calls may nest in each other's expressions and formatting, be discarded, unwind and be caught: as long as no
call meets texts that another one has left unread, every hot record carries the texts of its own arguments. -/
theorem hot_records_carry_own_texts (mode : BackpressureMode) (t : Thread) (tr : List (Thread × Action))
    (h : Run (step mode) {} tr t) (hk : Along KeepsApart tr) : Throughout (EncodesOwn mode) tr t := by
  have hinit : TextInv {} := ⟨flagInv_initial, ⟨[], cleared_initial.unread⟩, .nil, List.forall_mem_nil _⟩
  have hinv := h.guarded (fun _ _ _ hs hk ha => TextInv.step hs hk ha) hinit hk
  exact hinv.imp fun _ => TextInv.encodesOwn

def bridgeInsideArgument : List Action :=
  panickingArgument ++ [.hotLog 2 "app" [.fallback], .evaluated, .sizeArg, .write "a", .logImpl 3 "dep" true,
    .write "in", .formatted, .granted, .write "b", .formatted, .submit true]

theorem hot_records_carry_own_texts_bridge : ∃ t tr, Run (step .drop) {} tr t ∧
    t.committed.length = 1 ∧ t.frames.length = 1 ∧ Throughout (EncodesOwn .drop) tr t := by
  have hrun : (exec (onlyIf (step .drop) KeepsApart) {} bridgeInsideArgument).map (fun s =>
      (s.committed.length, s.frames.length)) = some (1, 1) := by decide
  obtain ⟨t, tr, ht, hk, hv⟩ := run_of_exec_onlyIf hrun
  simp only [Prod.mk.injEq] at hv
  exact ⟨t, tr, ht, hv.1, hv.2, hot_records_carry_own_texts .drop t tr ht hk⟩

end Thread

end InqJet
