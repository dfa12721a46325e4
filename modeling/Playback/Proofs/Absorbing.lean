import Playback.Proofs.Causes
/-!
# Failures that are got over

A sample of a color that fails counts as a miss, an attempt to read that fails as nothing read, and
a delivery that fails as none. What comes of these actions is told by the calls that succeeded, and
only an abort can make them fail.
-/

namespace Playback.Proofs.Absorbing

open Effects Footprints Performing Moves Causes

variable {σ α β : Type} [Desk σ]

/-- What comes of the action is told by the entries it adds, and only an abort can make it fail. -/
def Tells (good : σ → Prop) (x : Action (Stage σ) α) (told : List Entry → α) : Prop :=
  ∀ s, good s.desk → ∃ r t news, x s = (r, t) ∧ Adds s t news ∧ good t.desk ∧
    (∀ a, r = .ok a → a = told news) ∧ ∀ f, r = .error f → f.isCancelled = true ∧ t.aborted = true

section Parts

variable {good : σ → Prop} {x : Action (Stage σ) α} {told : List Entry → α}

omit [Desk σ] in
theorem tells_pure {a : α} (h : told [] = a) : Tells good (pure a : Action (Stage σ) α) told := by
  intro s hgood
  refine ⟨.ok a, s, [], rfl, adds_of_journal_eq rfl, hgood, ?_, by rintro f ⟨⟩⟩
  rintro b ⟨⟩
  exact h.symm

omit [Desk σ] in
theorem Tells.bind (hx : Tells good x told) {f : α → Action (Stage σ) β}
    (next : α → List Entry → β) {whole : List Entry → β} (hf : ∀ a, Tells good (f a) (next a))
    (hwhole : ∀ old new, whole (old ++ new) = next (told old) new) :
    Tells good (x >>= f) whole := by
  intro s hgood
  obtain ⟨r, t, old, hrun, hadds, hkept, hok, herror⟩ := hx s hgood
  cases r with
  | error g =>
    rw [Action.bind_of_error hrun]
    refine ⟨.error g, t, old, rfl, hadds, hkept, by rintro b ⟨⟩, ?_⟩
    rintro f ⟨⟩
    exact herror g rfl
  | ok a =>
    obtain ⟨r, u, new, hnext, haddsu, hkeptu, hoku, herroru⟩ := hf a t hkept
    rw [Action.bind_of_ok hrun, hnext]
    refine ⟨r, u, old ++ new, rfl, hadds.trans haddsu, hkeptu, fun b hb => ?_, herroru⟩
    rw [hwhole, ← hok a rfl]
    exact hoku b hb

omit [Desk σ] in
theorem Tells.map (hx : Tells good x told) (g : α → β) :
    Tells good (do return g (← x)) fun news => g (told news) := by
  intro s hgood
  obtain ⟨r, t, news, hrun, hadds, hkept, hok, herror⟩ := hx s hgood
  cases r with
  | error f =>
    rw [Action.bind_of_error hrun]
    refine ⟨.error f, t, news, rfl, hadds, hkept, by rintro b ⟨⟩, ?_⟩
    rintro f ⟨⟩
    exact herror f rfl
  | ok a =>
    rw [Action.bind_of_ok hrun]
    refine ⟨.ok (g a), t, news, rfl, hadds, hkept, ?_, by rintro f ⟨⟩⟩
    rintro b ⟨⟩
    rw [hok a rfl]

theorem Tells.afterPause (hneverCancels : NeverCancels good) (hx : Tells good x told) (span : Nat)
    (htold : ∀ pause news, (∀ entry ∈ pause, Within waits entry) →
      told (pause ++ news) = told news) :
    Tells good (do Stage.pause span; x) told := by
  intro s hgood
  obtain ⟨r, t, pause, hpause, hadds, hwaits, haborts⟩ := pause_cases span s
  have hwaiting : Waiting (Dues good fun _ _ => True) := waiting_dues hneverCancels
  have hkept := (obeys_pause hwaiting span s hgood).1
  rw [hpause] at hkept
  cases r with
  | error f =>
    rw [Action.bind_of_error hpause]
    refine ⟨.error f, t, pause, rfl, hadds, hkept, by rintro b ⟨⟩, ?_⟩
    rintro f ⟨⟩
    exact haborts f rfl
  | ok _ =>
    obtain ⟨r, u, news, hrun, haddsu, hkeptu, hok, herror⟩ := hx t hkept
    rw [Action.bind_of_ok hpause, hrun]
    refine ⟨r, u, pause ++ news, rfl, hadds.trans haddsu, hkeptu, fun a ha => ?_, herror⟩
    rw [htold pause news hwaits]
    exact hok a ha

end Parts

variable {good : σ → Prop}

/-! ## Waiting for a color -/

section Colors

variable (w : ColorWait) (point : Point) (expected : Color)

def shows : Entry → Bool
  | .called (.pixel _) (.ok observed) => w.tolerance.accepts observed expected
  | _ => false

omit [Desk σ] in
theorem shows_of_waits {entry : Entry} (h : Within waits entry) :
    shows w expected entry = false := by
  refine h.cases (fun c _ hc => ?_) fun _ _ => rfl
  cases c <;> first | rfl | cases hc

variable (hneverCancels : NeverCancels good)

include hneverCancels

theorem tells_sample :
    Tells good (w.sample point expected) fun news => news.any (shows w expected) := by
  intro s hgood
  obtain ⟨outcome, t, hcall, hadds⟩ := call_made (c := .pixel point) rfl s
  have hkept := good_of_call hneverCancels hgood hcall
  unfold ColorWait.sample
  rw [Action.bind_of_ok (attempt_eq hcall)]
  cases outcome with
  | ok observed =>
    refine ⟨_, t, _, rfl, hadds, hkept, ?_, by rintro f ⟨⟩⟩
    rintro b ⟨⟩
    simp [shows]
  | error f =>
    refine ⟨_, t, _, rfl, hadds, hkept, ?_, by rintro f ⟨⟩⟩
    rintro b ⟨⟩
    simp [shows]

theorem tells_sampling (more : Nat) :
    Tells good (w.sampling point expected more) fun news => news.any (shows w expected) := by
  -- on the samples that are left; the pauses between them show nothing
  induction more with
  | zero => exact tells_sample w point expected hneverCancels
  | succ more ih =>
    unfold ColorWait.sampling
    refine (tells_sample w point expected hneverCancels).bind
      (fun seen news => seen || news.any (shows w expected)) (fun seen => ?_)
      fun old new => List.any_append
    cases seen with
    | true => exact tells_pure rfl
    | false =>
      refine ih.afterPause hneverCancels w.interval fun pause news hwaits => ?_
      have hnone : pause.any (shows w expected) = false := by
        refine List.any_eq_false.2 fun entry hentry => ?_
        rw [shows_of_waits w expected (hwaits entry hentry)]
        exact Bool.false_ne_true
      rw [List.any_append, hnone]
      rfl

end Colors

/-! ## Reading a text -/

section Texts

/-- A text that was recognized, without the blanks around it, unless nothing else is in it. -/
def legible : Entry → Option String
  | .called (.recognize ..) (.ok text) => if Text.blank text then none else some (Text.trim text)
  | _ => none

def firstText (news : List Entry) : Option String := news.findSome? legible

omit [Desk σ] in
theorem firstText_append (old new : List Entry) :
    firstText (old ++ new) = (firstText old).or (firstText new) :=
  List.findSome?_append

theorem firstText_eq_none {kind : Call → Bool} {news : List Entry}
    (h : ∀ entry ∈ news, Within kind entry)
    (hkind : ∀ picture mode, kind (.recognize picture mode) = false) : firstText news = none := by
  refine List.findSome?_eq_none_iff.2 fun entry hentry => ?_
  have hwithin := h entry hentry
  unfold legible
  split
  · rw [Within, hkind] at hwithin
    cases hwithin
  · rfl

variable (hneverCancels : NeverCancels good) (r : TextReader) (label : ReadLabel)

include hneverCancels

theorem keep_made (stage : String) (picture : Image) {s : Stage σ} (hgood : good s.desk) :
    ∃ t news, r.keep stage label picture s = (.ok (), t) ∧ Adds s t news ∧ good t.desk ∧
      firstText news = none := by
  unfold TextReader.keep
  rcases r.captureDir with - | dir
  · exact ⟨s, [], rfl, adds_of_journal_eq rfl, hgood, rfl⟩
  rcases TextReader.captureFile? label with - | file
  · exact ⟨s, [], rfl, adds_of_journal_eq rfl, hgood, rfl⟩
  let c : Call := .keep (Path.join (Path.join dir stage) label.app) file picture
  have hcall : Stage.call c s = (.ok (), s.afterCall c) := rfl
  exact ⟨_, _, hcall, adds_cons (journal_afterCall s c), good_of_call hneverCancels hgood hcall,
    rfl⟩

theorem readOnce_cases (region : Region) {s : Stage σ} (hgood : good s.desk) :
    ∃ outcome t news, r.readOnce region label s = (outcome, t) ∧ Adds s t news ∧ good t.desk ∧
      firstText news = match outcome with
        | .ok text => if Text.blank text then none else some (Text.trim text)
        | .error _ => none := by
  unfold TextReader.readOnce
  by_cases hregion : region.isEmpty = true
  · rw [if_pos hregion]
    exact ⟨_, s, [], rfl, adds_of_journal_eq rfl, hgood, rfl⟩
  rw [if_neg hregion]
  obtain ⟨captured, t, hcapture, haddst⟩ := call_made (c := .screenshot region) rfl s
  have hkeptt := good_of_call hneverCancels hgood hcapture
  cases captured with
  | error f =>
    rw [Action.bind_of_error hcapture]
    exact ⟨_, t, _, rfl, haddst, hkeptt, rfl⟩
  | ok raw =>
    obtain ⟨u, old, hraw, haddsu, hkeptu, hold⟩ := keep_made hneverCancels r label "read" raw hkeptt
    obtain ⟨v, new, htreated, haddsv, hkeptv, hnew⟩ :=
      keep_made hneverCancels r label "treated" raw.sharpened hkeptu
    have hbefore := haddst.trans (haddsu.trans haddsv)
    have hnothing : firstText (.called (.screenshot region) (.ok raw) :: (old ++ new)) = none := by
      rw [← List.singleton_append, firstText_append, firstText_append, hold, hnew]
      rfl
    rw [Action.bind_of_ok hcapture, Action.bind_of_ok hraw, Action.bind_of_ok htreated]
    rcases call_cases (.recognize raw.sharpened r.mode) v with
      ⟨hcut, -, -⟩ | ⟨outcome, w, hcall, haddsw⟩
    · rw [hcut]
      exact ⟨_, v, _, rfl, hbefore, hkeptv, hnothing⟩
    · rw [hcall]
      refine ⟨outcome, w, _, rfl, hbefore.trans haddsw, good_of_call hneverCancels hkeptv hcall, ?_⟩
      rw [firstText_append, List.singleton_append, hnothing]
      cases outcome with
      | error f => rfl
      | ok text =>
        show firstText [.called (.recognize raw.sharpened r.mode) (.ok text)] = _
        unfold firstText
        rw [List.findSome?_singleton]
        rfl

theorem aborted_of_readOnce (region : Region) {s t : Stage σ} {f : Fault} (hgood : good s.desk)
    (hread : r.readOnce region label s = (.error f, t)) (hf : f.isCancelled = true) :
    t.aborted = true := by
  have hplaying : Playing (Dues good fun f _ => f.isCancelled = false) :=
    playing_dues hneverCancels (fun _ _ _ _ hf => hf) fun _ _ => isCancelled_of_refusal
  have hdues := (obeys_readOnce hplaying.toActing r region label s).2
  rw [hread] at hdues
  rcases (hdues f rfl hf hgood).2 f rfl with haborted | hnot
  · exact haborted.2
  · rw [hf] at hnot
    cases hnot

theorem tells_attemptRead (region : Region) :
    Tells good (r.attemptRead region label) firstText := by
  intro s hgood
  obtain ⟨outcome, t, news, hread, hadds, hkept, htext⟩ :=
    readOnce_cases hneverCancels r label region hgood
  unfold TextReader.attemptRead
  rw [Action.bind_of_ok (attempt_eq hread)]
  cases outcome with
  | ok text =>
    refine ⟨_, t, news, rfl, hadds, hkept, ?_, by rintro f ⟨⟩⟩
    rintro found ⟨⟩
    exact htext.symm
  | error f =>
    dsimp only
    by_cases hf : f.isCancelled = true
    · rw [if_pos hf]
      refine ⟨.error f, t, news, rfl, hadds, hkept, by rintro found ⟨⟩, ?_⟩
      rintro g ⟨⟩
      exact ⟨hf, aborted_of_readOnce hneverCancels r label region hgood hread hf⟩
    · rw [if_neg hf]
      refine ⟨.ok none, t, news, rfl, hadds, hkept, ?_, by rintro g ⟨⟩⟩
      rintro found ⟨⟩
      exact htext.symm

theorem tells_reading (region : Region) (more : Nat) :
    Tells good (r.reading region label more) fun news => (firstText news).getD "" := by
  induction more with
  | zero =>
    unfold TextReader.reading
    exact (tells_attemptRead hneverCancels r label region).map (·.getD "")
  | succ more ih =>
    unfold TextReader.reading
    refine (tells_attemptRead hneverCancels r label region).bind
      (fun found news => (found.or (firstText news)).getD "") (fun found => ?_)
      fun old new => by rw [firstText_append]
    cases found with
    | some text => exact tells_pure rfl
    | none =>
      refine ih.afterPause hneverCancels r.retryDelay fun pause news hwaits => ?_
      rw [firstText_append, firstText_eq_none hwaits fun _ _ => rfl]
      rfl

end Texts

/-! ## Delivering the results -/

theorem deliver_ok (e : Setup) (s : Memory × Stage σ) :
    ∃ t, e.deliver s = (.ok (), (s.1, t)) := by
  have hgets : Action.gets (fun s : Memory × Stage σ => s.1.results e.config.catalog e.today) s =
      (.ok (s.1.results e.config.catalog e.today), s) := rfl
  unfold Setup.deliver
  rw [Action.bind_of_ok hgets]
  split
  · exact ⟨s.2, rfl⟩
  · exact ⟨_, rfl⟩

/-! ## What an engine gets over -/

/-- The failures that do not matter, and those that end a command. -/
structure Absorbs (e : Setup) (good : σ → Prop) : Prop where
  sampled : ∀ (w : ColorWait) point expected,
    Tells good (w.wait point expected) fun news => news.any (shows w expected)
  read : ∀ (r : TextReader) region label,
    Tells good (r.read region label) fun news => (firstText news).getD ""
  delivered : ∀ s : Memory × Stage σ, ∃ t, e.deliver s = (.ok (), (s.1, t))
  performed : ∀ c (s : Memory × Stage σ) f, good s.2.desk → (e.perform c s).1 = .error f →
    Due (CommandCause e c) f (e.perform c s).2.2

theorem absorbs_of_neverCancels (hneverCancels : NeverCancels good) (e : Setup) :
    Absorbs e good where
  sampled w point expected := tells_sampling w point expected hneverCancels _
  read r region label := tells_reading hneverCancels r label region _
  delivered := deliver_ok e
  performed c s f hgood hf := (dues_perform hneverCancels e c s hgood).2 f (faultOf_eq_some.2 hf)

end Playback.Proofs.Absorbing
