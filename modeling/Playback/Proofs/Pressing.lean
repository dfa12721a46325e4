import Playback.Proofs.Career
import Playback.Proofs.Running
import Playback.Proofs.Story
/-!
# The button is let go of

A drag presses the button, moves the pointer, pauses and lets go. Each of these steps can put an end
to the command, and nothing lets go of the button then. So it stays pressed exactly after a drag
that was broken off in its midst, by a refused move or by an abort. Over a career, commands are
dispatched with the button pressed only once such a search has failed.
-/

namespace Playback.Proofs.Pressing

open Effects Footprints Launching Performing Moves Running

variable {σ : Type}

/-! ## The button -/

def grip (held : Bool) : Entry → Bool
  | .called .press (.ok ()) => true
  | .called .release _ => false
  | _ => held

/-- Whether the button was pressed and no call to let go of it has been made since. -/
def held (news : List Entry) : Bool := news.foldl grip false

def handsOff : Call → Bool
  | .press => false
  | .release => false
  | _ => true

theorem grip_of_handsOff {news : List Entry} (h : ∀ entry ∈ news, Within handsOff entry)
    (start : Bool) : news.foldl grip start = start := by
  refine Story.foldl_of_unchanged (fun entry hentry before => ?_) start
  refine (h entry hentry).cases (fun c _ hc => ?_) fun _ _ => rfl
  cases c <;> first | rfl | cases hc

theorem held_append_of_released {old : List Entry} (h : held old = false) (new : List Entry) :
    held (old ++ new) = held new := by
  rw [held, List.foldl_append, ← held, h, held]

theorem held_of_handsOff {news : List Entry} (h : ∀ entry ∈ news, Within handsOff entry) :
    held news = false :=
  grip_of_handsOff h false

theorem held_of_release (before : List Entry) (outcome : Except Fault Unit) :
    held (before ++ [.called .release outcome]) = false := by
  rw [held, List.foldl_append]
  rfl

/-! ## Drags -/

/-- What a drag does after pressing the button, if it is broken off. -/
inductive Broken (f : Fault) (aborted : Bool) : List Entry → Prop
  | refused {target : Point} {travel : Nat} :
      Broken f aborted [.called (.move target travel) (.error f)]
  | cut {middle : List Entry} (hmiddle : ∀ entry ∈ middle, Within handsOff entry)
      (hf : f.isCancelled = true) (haborted : aborted = true) : Broken f aborted middle

/-- The entries end in the midst of a drag. -/
def Torn (f : Fault) (aborted : Bool) (news : List Entry) : Prop :=
  ∃ before middle, news = before ++ .called .press (.ok ()) :: middle ∧ Broken f aborted middle

theorem Broken.handsOff {f : Fault} {aborted : Bool} {middle : List Entry}
    (h : Broken f aborted middle) : ∀ entry ∈ middle, Within handsOff entry := by
  cases h with
  | refused =>
    intro entry hentry
    rw [List.mem_singleton.1 hentry]
    rfl
  | cut hmiddle => exact hmiddle

theorem held_of_torn {f : Fault} {aborted : Bool} {news : List Entry} (h : Torn f aborted news) :
    held news = true := by
  obtain ⟨before, middle, rfl, hbroken⟩ := h
  rw [held, List.foldl_append, List.foldl_cons, grip_of_handsOff hbroken.handsOff]
  rfl

def Dragging : Effect σ := fun s o t =>
  ∃ news, Adds s t news ∧ (held news = false ∨ ∃ f, o = some f ∧ Torn f t.aborted news)

theorem composable_dragging : Composable (Dragging (σ := σ)) where
  refl s := ⟨[], adds_of_journal_eq rfl, .inl rfl⟩
  trans := by
    rintro s t u o ⟨old, hold, hreleased | ⟨f, ⟨⟩, -⟩⟩ ⟨new, hnew, hcases⟩
    refine ⟨old ++ new, hold.trans hnew, hcases.imp (fun h => ?_) ?_⟩
    · rw [held_append_of_released hreleased, h]
    · rintro ⟨f, hf, before, middle, rfl, hbroken⟩
      exact ⟨f, hf, old ++ before, middle, by simp, hbroken⟩

theorem dragging_of_trails {own : Fault → Prop} {s t : Stage σ} {o : Option Fault}
    (h : Trails handsOff own s o t) : Dragging s o t := by
  obtain ⟨news, hadds, hoff, -⟩ := h
  exact ⟨news, hadds, .inl (held_of_handsOff hoff)⟩

theorem handsOff_of_needs (c : Call) (h : needs c = true) : handsOff c = true := by
  cases c <;> first | rfl | cases h

theorem handsOff_of_tries (c : Call) (h : tries c = true) : handsOff c = true := by
  cases c <;> first | rfl | cases h

variable [Desk σ]

theorem playing_handsOff : Playing (Trails (σ := σ) handsOff fun _ => True) :=
  playing_trails (fun _ _ => trivial) (fun _ => rfl) handsOff_of_needs handsOff_of_tries

theorem playing_dragging : Playing (Dragging (σ := σ)) :=
  playing_handsOff.mono composable_dragging dragging_of_trails fun _ h => h

def dragOn (e : Setup) (finish : Point) : Action (Stage σ) Unit := do
  Stage.call (.move finish e.config.dragTravel)
  Stage.pause e.config.dragSettle
  Stage.call .release

theorem handsOff_of_waits {entry : Entry} (h : Within waits entry) : Within handsOff entry := by
  refine h.cases (fun c _ hc => ?_) fun _ _ => trivial
  cases c <;> first | rfl | cases hc

theorem dragOn_cases (e : Setup) (finish : Point) (s : Stage σ) :
    ∃ r t news, dragOn e finish s = (r, t) ∧ Adds s t news ∧
      ((∃ middle outcome, news = middle ++ [.called .release outcome]) ∨
        ∃ f, r = .error f ∧ Broken f t.aborted news) := by
  unfold dragOn
  rcases call_cases (.move finish e.config.dragTravel) s with
    ⟨hmove, -, haborted⟩ | ⟨reply, t, hmove, hadds⟩
  · refine ⟨_, s, [], Action.bind_of_error hmove, adds_of_journal_eq rfl, .inr ⟨_, rfl, ?_⟩⟩
    exact .cut (by simp) (isCancelled_abortFault _) haborted
  cases reply with
  | error f =>
    exact ⟨_, t, _, Action.bind_of_error hmove, hadds, .inr ⟨f, rfl, .refused⟩⟩
  | ok _ =>
    rw [Action.bind_of_ok hmove]
    obtain ⟨r, u, waiting, hpause, haddsu, hwaits, haborts⟩ := pause_cases e.config.dragSettle t
    have hmiddle : ∀ entry ∈ .called (.move finish e.config.dragTravel) (.ok ()) :: waiting,
        Within handsOff entry :=
      List.forall_mem_cons.2 ⟨rfl, fun entry hentry => handsOff_of_waits (hwaits entry hentry)⟩
    cases r with
    | error f =>
      obtain ⟨hf, haborted⟩ := haborts f rfl
      exact ⟨_, u, _, Action.bind_of_error hpause, hadds.trans haddsu,
        .inr ⟨f, rfl, .cut hmiddle hf haborted⟩⟩
    | ok _ =>
      rw [Action.bind_of_ok hpause]
      rcases call_cases .release u with ⟨hrelease, -, haborted⟩ | ⟨outcome, v, hrelease, haddsv⟩
      · exact ⟨_, u, _, hrelease, hadds.trans haddsu,
          .inr ⟨_, rfl, .cut hmiddle (isCancelled_abortFault _) haborted⟩⟩
      · exact ⟨_, v, _, hrelease, (hadds.trans haddsu).trans haddsv, .inl ⟨_, outcome, rfl⟩⟩

theorem dragging_dragPoints (e : Setup) (start finish : Point) :
    Obeys Dragging (e.dragPoints start finish : Action (Stage σ) Unit) := by
  have hsplit : (e.dragPoints start finish : Action (Stage σ) Unit) = (do
      Stage.call (.move start e.config.pointerTravel)
      Stage.call .press
      dragOn e finish) := rfl
  rw [hsplit]
  refine (playing_dragging.needed (.move start _) rfl).bind composable_dragging fun _ => ?_
  intro s
  rcases call_cases .press s with ⟨hpress, -, -⟩ | ⟨reply, t, hpress, hadds⟩
  · rw [Action.bind_of_error hpress]
    exact ⟨[], adds_of_journal_eq rfl, .inl rfl⟩
  cases reply with
  | error f =>
    rw [Action.bind_of_error hpress]
    exact ⟨_, hadds, .inl rfl⟩
  | ok _ =>
    rw [Action.bind_of_ok hpress]
    obtain ⟨r, u, news, hdrag, haddsu, hcases⟩ := dragOn_cases e finish t
    rw [hdrag]
    refine ⟨_, hadds.trans haddsu, ?_⟩
    rcases hcases with ⟨middle, outcome, rfl⟩ | ⟨f, rfl, hbroken⟩
    · left
      rw [← List.append_assoc]
      exact held_of_release _ outcome
    · exact .inr ⟨f, rfl, [], news, rfl, hbroken⟩

/-! ## Commands -/

theorem dragging_perform (e : Setup) (c : Command) :
    Obeys Dragging (e.perform c : Action (Memory × Stage σ) Unit) := by
  refine obeys_perform playing_dragging e c ?_ ?_ ?_
  · exact fun _ _ _ _ _ => ⟨[], adds_of_journal_eq rfl, .inl rfl⟩
  · exact fun _ _ => dragging_dragPoints e
  · intro _ _ results s
    have htries : Obeys (Lenient (Trails handsOff fun _ => True))
        (Stage.call (.deliver results) : Action (Stage σ) Unit) := tries_call (fun _ => trivial) rfl
    obtain ⟨hnone, hcancelled⟩ := htries s
    exact ⟨dragging_of_trails hnone, fun f hf hf' => dragging_of_trails (hcancelled f hf hf')⟩

theorem handsOff_perform (e : Setup) (c : Command) (hc : ∀ spec, c ≠ .scroll spec) :
    Obeys (Trails handsOff fun _ => True) (e.perform c : Action (Memory × Stage σ) Unit) := by
  refine obeys_perform playing_handsOff e c ?_ ?_ ?_
  · exact fun _ _ _ _ _ => trails_nil rfl fun _ _ => trivial
  · exact fun spec hspec => absurd hspec (hc spec)
  · exact fun _ _ _ => tries_call (fun _ => trivial) rfl

/-- The button is pressed after a command only if it is a search that failed in the midst of a drag.
-/
theorem torn_of_held {e : Setup} {c : Command} {s : Memory × Stage σ} {work : List Entry}
    (hadds : Adds s.2 (e.perform c s).2.2 work) (hheld : held work = true) :
    (∃ spec, c = .scroll spec) ∧ ∃ f, (e.perform c s).1 = .error f ∧
      Torn f (e.perform c s).2.2.aborted work := by
  constructor
  · by_contra hnone
    obtain ⟨news, hnews, hoff, -⟩ := handsOff_perform e c (fun spec h => hnone ⟨spec, h⟩) s
    rw [hadds.unique hnews, held_of_handsOff hoff] at hheld
    cases hheld
  · obtain ⟨news, hnews, hreleased | ⟨f, hf, htorn⟩⟩ := dragging_perform e c s
    · rw [hadds.unique hnews, hreleased] at hheld
      cases hheld
    · rw [hadds.unique hnews]
      exact ⟨f, faultOf_eq_some.1 hf, htorn⟩

/-! ## Runs -/

def SearchLeftPressed (news : List Entry) : Prop :=
  ∃ older app spec f newer, news =
    older ++ .noted app (.performed (.scroll spec) (.error f)) :: newer ∧ held older = true

/-- No command is dispatched with the button pressed, unless a search failed before, and nothing
else leaves it pressed. -/
structure Handed (news : List Entry) : Prop where
  dispatched : ∀ before app c after, news = before ++ .noted app (.dispatched c) :: after →
    held before = true → SearchLeftPressed before
  held : held news = true → SearchLeftPressed news

theorem SearchLeftPressed.append {old : List Entry} (h : SearchLeftPressed old) (new : List Entry) :
    SearchLeftPressed (old ++ new) := by
  obtain ⟨older, app, spec, f, newer, rfl, hheld⟩ := h
  exact ⟨older, app, spec, f, newer ++ new, by simp, hheld⟩

theorem SearchLeftPressed.after {old new : List Entry} (h : SearchLeftPressed new)
    (hold : Pressing.held old = false) : SearchLeftPressed (old ++ new) := by
  obtain ⟨older, app, spec, f, newer, rfl, hheld⟩ := h
  refine ⟨old ++ older, app, spec, f, newer, by simp, ?_⟩
  rw [held_append_of_released hold, hheld]

theorem searchLeftPressed_append {old new : List Entry}
    (hold : Pressing.held old = true → SearchLeftPressed old)
    (hnew : Pressing.held new = true → SearchLeftPressed new)
    (h : Pressing.held (old ++ new) = true) : SearchLeftPressed (old ++ new) := by
  cases hheld : Pressing.held old with
  | true => exact (hold hheld).append new
  | false =>
    rw [held_append_of_released hheld] at h
    exact (hnew h).after hheld

theorem Handed.append {old new : List Entry} (hold : Handed old) (hnew : Handed new) :
    Handed (old ++ new) where
  dispatched before app c after hsplit hheld := by
    -- the dispatch is in the new part, or in the old one unless it opens the new one
    rcases List.append_eq_append_iff.1 hsplit with ⟨middle, rfl, hmiddle⟩ | ⟨middle, hmiddle, hrest⟩
    · exact searchLeftPressed_append hold.held (hnew.dispatched middle app c after hmiddle) hheld
    · cases middle with
      | nil =>
        rw [List.append_nil] at hmiddle
        subst hmiddle
        exact hold.held hheld
      | cons entry middle =>
        rw [List.cons_append, List.cons.injEq] at hrest
        obtain ⟨rfl, -⟩ := hrest
        exact hold.dispatched before app c middle hmiddle hheld
  held := searchLeftPressed_append hold.held hnew.held

theorem handed_of_handsOff {news : List Entry} (h : ∀ entry ∈ news, Within handsOff entry) :
    Handed news where
  dispatched before app c after hsplit := by
    have hdispatched : Within handsOff (.noted app (.dispatched c)) := by
      apply h
      rw [hsplit]
      simp
    exact hdispatched.elim
  held hheld := by
    rw [held_of_handsOff h] at hheld
    cases hheld

theorem handed_note (app : String) (n : Note) : Handed [.noted app n] where
  dispatched before who c after hsplit hheld := by
    cases before with
    | nil => cases hheld
    | cons entry before => simp at hsplit
  held hheld := by cases hheld

/-- The entries added are handed on from command to command. -/
def Hands : Effect σ := fun s _ t => ∃ news, Adds s t news ∧ Handed news

omit [Desk σ] in
theorem composable_hands : Composable (Hands (σ := σ)) where
  refl _ := ⟨[], adds_of_journal_eq rfl, handed_of_handsOff (by simp)⟩
  trans := by
    rintro s t u o ⟨old, hold, hhanded⟩ ⟨new, hnew, hhanded'⟩
    exact ⟨old ++ new, hold.trans hnew, hhanded.append hhanded'⟩

omit [Desk σ] in
theorem hands_of_trails {own : Fault → Prop} {s t : Stage σ} {o : Option Fault}
    (h : Trails handsOff own s o t) : Hands s o t := by
  obtain ⟨news, hadds, hoff, -⟩ := h
  exact ⟨news, hadds, handed_of_handsOff hoff⟩

theorem hands_call {c : Call} (hc : handsOff c = true) :
    Obeys Hands (Stage.call c : Action (Stage σ) c.Reply) := by
  have hcall : Obeys (Trails handsOff fun _ => True) (Stage.call c : Action (Stage σ) c.Reply) :=
    trails_call (fun _ => trivial) hc
  exact hcall.mono fun _ _ _ => hands_of_trails

theorem restarting_hands (e : Setup) : Restarting e (Hands (σ := σ)) where
  toComposable := composable_hands
  running := playing_handsOff.running.mono fun _ _ _ => hands_of_trails
  wait _ := hands_call rfl
  look := (hands_call (c := .isOpen e.app) rfl).lenient id
  launch := hands_call rfl
  invalidate s := ⟨[], adds_of_journal_eq (journal_invalidateFront e.app s),
    handed_of_handsOff (by simp)⟩
  missing := composable_hands.refl
  close := ((hands_call (c := .close e.app) rfl).lenient id).attempt
  terminate := hands_call rfl
  survived := composable_hands.refl

theorem handed_of_dispatch {e : Setup} {c : Command} {s t : Session σ}
    {outcome : Except Fault Unit} (hdispatch : e.dispatch c s = (.ok outcome, t)) :
    ∃ news, Adds s t news ∧ Handed news := by
  obtain ⟨-, work, hadds, hperforms⟩ := performs_of_dispatch e hdispatch
  obtain ⟨memory, stage, hperform, hstage⟩ := perform_of_dispatch hdispatch
  let begun := s.stage.record (noted e (.dispatched c))
  have hwork : Adds begun stage work := by
    have hjournal : t.stage.journal = _ := hadds
    rw [hstage] at hjournal
    simpa [Stage.record, journal, Adds, begun] using hjournal
  -- a command dispatches no other, and what it leaves pressed is told by its outcome
  have hrest : Handed (work ++ [noted e (.performed c outcome)]) := by
    refine ⟨fun before app d after hsplit => ?_, fun hheld => ?_⟩
    · obtain ⟨kind, hcalls⟩ := within_of_performs hperforms
      have hmem : .noted app (.dispatched d) ∈ work ++ [noted e (.performed c outcome)] := by
        rw [hsplit]
        simp
      rcases List.mem_append.1 hmem with hin | hlast
      · exact (hcalls _ hin).elim
      · cases List.mem_singleton.1 hlast
    · have hpressed : held work = true := by
        rw [held, List.foldl_append] at hheld
        exact hheld
      have hwork' : Adds begun (e.perform c (s.engine.memory, begun)).2.2 work := by
        rw [hperform]
        exact hwork
      have htorn := torn_of_held hwork' hpressed
      rw [hperform] at htorn
      obtain ⟨⟨spec, rfl⟩, f, rfl, -⟩ := htorn
      exact ⟨work, e.app, spec, f, [], rfl, hpressed⟩
  exact ⟨_, hadds, (handed_note e.app (.dispatched c)).append hrest⟩

theorem working_hands (e : Setup) : Working e (Hands (σ := σ)) where
  toRestarting := restarting_hands e
  note _ n := ⟨_, adds_cons rfl, handed_note e.app n⟩
  signal := hands_call rfl
  dispatches _ _ _ _ hdispatch :=
    ⟨handed_of_dispatch hdispatch, fun _ _ _ => handed_of_dispatch hdispatch⟩

theorem handed_career (app : String) (config : Config) (turns : List (Career.Turn σ)) :
    Handed (Career.career app config turns).story := by
  have hserve : ∀ (e : Setup) (request : Career.Request),
      Obeys Hands (Career.serve e request : Action (Session σ) Unit) := by
    intro e request
    cases request with
    | add job => exact obeys_add (working_hands e).toManaging job
    | next => exact obeys_next (working_hands e).toManaging
    | run => exact obeys_run (working_hands e)
  induction turns using List.reverseRecOn with
  | nil =>
    show Handed []
    exact handed_of_handsOff (by simp)
  | append_singleton turns turn ih =>
    let past := Career.career app config turns
    obtain ⟨news, hadds, hhanded⟩ := hserve (turn.setting.setup app config) turn.request
      ⟨past.engine, turn.stage⟩
    have hstory : (Career.career app config (turns ++ [turn])).story = past.story ++ news := by
      rw [← Career.since_of_adds hadds, Career.career, List.foldl_append]
      rfl
    rw [hstory]
    exact ih.append hhanded

/-- Whatever comes of a command, the button is still pressed after it exactly if a search failed in
the midst of a drag: by a refused move, or by an abort. In a whole career no command is dispatched
with the button pressed, unless such a search came before. -/
theorem held_iff_torn (app : String) (config : Config) (turns : List (Career.Turn σ)) :
    Handed (Career.career app config turns).story ∧
      ∀ (e : Setup) (c : Command) (s : Memory × Stage σ),
        held (Career.since s.2 (e.perform c s).2.2) = true ↔
          (∃ spec, c = .scroll spec) ∧ ∃ f, (e.perform c s).1 = .error f ∧
            Torn f (e.perform c s).2.2.aborted (Career.since s.2 (e.perform c s).2.2) := by
  refine ⟨handed_career app config turns, fun e c s => ⟨fun hheld => ?_, ?_⟩⟩
  · obtain ⟨news, hadds, -⟩ := dragging_perform e c s
    have hsince : Career.since s.2 (e.perform c s).2.2 = news := Career.since_of_adds hadds
    rw [hsince] at hheld ⊢
    exact torn_of_held hadds hheld
  · rintro ⟨-, f, -, htorn⟩
    exact held_of_torn htorn

/-! ## A drag that is broken off -/

def wholeWindow : ScrollSpec :=
  let diagonal : Area := ⟨⟨.zero false, .zero false⟩, ⟨.ofNat 1, .ofNat 1⟩⟩
  ⟨timenow, diagonal, diagonal, [], none⟩

/-- Two readings show a text that is no day, and the second move is refused. -/
def pointerLost : Stage Rehearsal :=
  let s := Career.stageWith true true
  { s with desk := { s.desk with
      textScript := ["total", "total"]
      hooks := [⟨"move", 2, .fail (.platform "pointer gone")⟩] } }

/-- Whatever comes of a search, the button is not pressed after it. -/
def AlwaysReleased (σ : Type) [Desk σ] : Prop :=
  ∀ (e : Setup) (spec : ScrollSpec) (s : Memory × Stage σ),
    held (Career.since s.2 (e.perform (.scroll spec) s).2.2) = false

theorem held_pointerLost :
    held (Career.since pointerLost ((Career.bare.setup "app" Career.hasty).perform
      (.scroll wholeWindow) (.fresh, pointerLost)).2.2) = true := by
  decide +kernel

theorem pressed_after_search : ¬ AlwaysReleased Rehearsal := by
  intro hall
  have hreleased := hall (Career.bare.setup "app" Career.hasty) wholeWindow (.fresh, pointerLost)
  rw [held_pointerLost] at hreleased
  cases hreleased

end Playback.Proofs.Pressing
