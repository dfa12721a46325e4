import Mathlib.Data.List.Induction
import Playback.Proofs.Arranging
import Playback.Proofs.Career
/-!
# Who is in front

Applications register their windows, get the input and are started, in whatever order. The arbiter
only remembers whom it brought to the front last, and spares that application the work the next
time. What was done to the windows meanwhile is told by the story: what it says of an application
that is granted the input, and of the other ones at that moment.
-/

namespace Playback.Proofs.Foreground

open Effects Footprints Launching Moves Arranging

variable {σ : Type}

/-- What is asked of the arbiter, and what the engines do to their applications on their own. -/
inductive Deed where
  | register (app : String)
  | acquire (app : String)
  | invalidate (app : String)
  | start (e : Setup)
  | restart (e : Setup)

/-- What happens to windows: one becomes known, or a call is made by the arbiter or an engine. -/
inductive Event where
  | registered (app : String)
  | arranged (entry : Entry)
  | started (entry : Entry)

/-- A deed and the stage that it meets, apart from what the arbiter remembers. -/
structure Turn (σ : Type) where
  deed : Deed
  stage : Stage σ

/-- What the arbiter remembers, and what has happened to windows, the earliest first. -/
structure Past where
  windows : Dict Unit
  front : Option String
  story : List Event

namespace Deed

def announces : Deed → List Event
  | register app => [.registered app]
  | _ => []

def event : Deed → Entry → Event
  | acquire _ => .arranged
  | _ => .started

def action [Desk σ] : Deed → Action (Stage σ) Unit
  | register app => .modify (Arbiter.register app)
  | acquire app => do let _ ← Arbiter.acquire app
  | invalidate app => .modify (Arbiter.invalidateFront app)
  | start e => e.ensureOpen
  | restart e => e.relaunch

end Deed

namespace Past

def fresh : Past := ⟨.empty, none, []⟩

def onStage (p : Past) (s : Stage σ) : Stage σ := { s with windows := p.windows, front := p.front }

variable [Desk σ]

def outcome (p : Past) (deed : Deed) (stage : Stage σ) : Except Fault Unit :=
  (deed.action (p.onStage stage)).1

/-- As a rewriting step it keeps a deed from being carried out by definition. -/
theorem outcome_eq (p : Past) (deed : Deed) (stage : Stage σ) :
    p.outcome deed stage = (deed.action (p.onStage stage)).1 := rfl

def news (p : Past) (deed : Deed) (stage : Stage σ) : List Event :=
  deed.announces ++
    (Career.since (p.onStage stage) (deed.action (p.onStage stage)).2).map deed.event

def after (p : Past) (deed : Deed) (stage : Stage σ) : Past :=
  let t := (deed.action (p.onStage stage)).2
  ⟨t.windows, t.front, p.story ++ p.news deed stage⟩

def turn (p : Past) (turn : Turn σ) : Past := p.after turn.deed turn.stage

end Past

/-! ## What happens to a window -/

inductive Touch where
  | registered
  | launched
  | closed
  | minimized
  | focused
  deriving DecidableEq, Repr, Inhabited

/-- What an event means to the window of an application; calls that failed mean nothing, but a start
that failed may still bring the window up. -/
def Event.touch (app : String) : Event → Option Touch
  | .registered who => if who = app then some .registered else none
  | .started (.called (.launch who _) _) => if who = app then some .launched else none
  | .arranged (.called (.isOpen who) (.ok false)) => if who = app then some .closed else none
  | .arranged (.called (.minimize who) (.ok ())) => if who = app then some .minimized else none
  | .arranged (.called (.focus who) (.ok ())) => if who = app then some .focused else none
  | _ => none

def touches (app : String) (story : List Event) : List Touch := story.filterMap (Event.touch app)

def Touch.handles : Touch → Bool
  | registered => true
  | minimized => true
  | focused => true
  | _ => false

def lastHandling (app : String) (story : List Event) : Option Touch :=
  ((touches app story).filter Touch.handles).getLast?

def Touch.away : Touch → Bool
  | minimized => true
  | closed => true
  | _ => false

theorem touches_append (app : String) (old new : List Event) :
    touches app (old ++ new) = touches app old ++ touches app new :=
  List.filterMap_append

theorem lastHandling_append (app : String) (old new : List Event) :
    lastHandling app (old ++ new) = (lastHandling app new).or (lastHandling app old) := by
  rw [lastHandling, touches_append, List.filter_append, List.getLast?_append]
  rfl

theorem lastHandling_of_untouched {app : String} {new : List Event} (h : touches app new = [])
    (old : List Event) : lastHandling app (old ++ new) = lastHandling app old := by
  rw [lastHandling_append, lastHandling, h]
  rfl

theorem touches_of_forall {app : String} {news : List Event}
    (h : ∀ event ∈ news, event.touch app = none) : touches app news = [] :=
  List.filterMap_eq_nil_iff.2 h

theorem mem_touches_of_lastHandling {app : String} {story : List Event} {touch : Touch}
    (h : lastHandling app story = some touch) :
    touch ∈ touches app story ∧ touch.handles = true :=
  List.mem_filter.1 (List.mem_of_getLast? h)

def arranged (entries : List Entry) : List Event := entries.map .arranged

theorem arranged_append (old new : List Entry) :
    arranged (old ++ new) = arranged old ++ arranged new :=
  List.map_append

theorem touches_waiting {waiting : List Entry} (app : String)
    (h : ∀ entry ∈ waiting, Within waits entry) : touches app (arranged waiting) = [] := by
  apply touches_of_forall
  intro event hevent
  obtain ⟨entry, hentry, rfl⟩ := List.mem_map.1 hevent
  refine (h entry hentry).cases (fun c _ hc => ?_) fun _ _ => rfl
  cases c <;> first | rfl | cases hc

theorem touches_closed (app who : String) (news : List Entry) :
    touches app (arranged (.called (.isOpen who) (.ok false) :: news)) =
      (if who = app then [.closed] else []) ++ touches app (arranged news) := by
  by_cases h : who = app <;> simp [touches, arranged, Event.touch, h]

theorem touches_minimized (app who : String) (reply : Except Fault Unit) (news : List Entry) :
    touches app (arranged
        (.called (.isOpen who) (.ok true) :: .called (.minimize who) reply :: news)) =
      (if who = app ∧ reply = .ok () then [.minimized] else []) ++ touches app (arranged news) := by
  have hlook : Event.touch app (.arranged (.called (.isOpen who) (.ok true))) = none := rfl
  have hreply : Event.touch app (.arranged (.called (.minimize who) reply)) =
      if who = app ∧ reply = .ok () then some .minimized else none := by
    cases reply <;> by_cases h : who = app <;> simp [Event.touch, h]
  by_cases h : who = app ∧ reply = .ok ()
  · rw [if_pos h] at hreply ⊢
    simp [touches, arranged, hlook, hreply]
  · rw [if_neg h] at hreply ⊢
    simp [touches, arranged, hlook, hreply]

theorem touches_focus (app : String) (reply : Except Fault Unit) :
    touches app (arranged [.called (.focus app) reply]) =
      if reply = .ok () then [.focused] else [] := by
  cases reply <;> simp [touches, arranged, Event.touch]

theorem touches_focus_of_ne {app who : String} (h : who ≠ app) (reply : Except Fault Unit) :
    touches app (arranged [.called (.focus who) reply]) = [] := by
  cases reply <;> simp [touches, arranged, Event.touch, h]

section Clearing

variable {apps : List String} {clearing : List Entry} {app : String}

theorem away_of_mem_touches {touch : Touch} (h : Clears apps clearing)
    (htouch : touch ∈ touches app (arranged clearing)) : app ∈ apps ∧ touch.away = true := by
  induction h with
  | done => simp [arranged, touches] at htouch
  | @closed who rest news _ ih =>
    rw [touches_closed, List.mem_append] at htouch
    rcases htouch with hfirst | hlater
    · split at hfirst
      · rename_i hwho
        rw [List.mem_singleton.1 hfirst]
        exact ⟨List.mem_cons.2 (.inl hwho.symm), rfl⟩
      · cases hfirst
    · exact (ih hlater).imp_left (List.mem_cons_of_mem _)
  | @minimized who rest news reply _ ih =>
    rw [touches_minimized, List.mem_append] at htouch
    rcases htouch with hfirst | hlater
    · split at hfirst
      · rename_i hwho
        rw [List.mem_singleton.1 hfirst]
        exact ⟨List.mem_cons.2 (.inl hwho.1.symm), rfl⟩
      · cases hfirst
    · exact (ih hlater).imp_left (List.mem_cons_of_mem _)

theorem touches_clearing_of_notMem (h : Clears apps clearing) (happ : app ∉ apps) :
    touches app (arranged clearing) = [] :=
  List.eq_nil_iff_forall_not_mem.2 fun _ htouch => happ (away_of_mem_touches h htouch).1

theorem lastHandling_clearing (h : Clears apps clearing) :
    lastHandling app (arranged clearing) = none ∨
      lastHandling app (arranged clearing) = some .minimized := by
  cases hlast : lastHandling app (arranged clearing) with
  | none => exact .inl rfl
  | some touch =>
    obtain ⟨htouch, hhandles⟩ := mem_touches_of_lastHandling hlast
    have haway := (away_of_mem_touches h htouch).2
    cases touch with
    | minimized => exact .inr rfl
    | registered => exact absurd haway (by decide)
    | focused => exact absurd haway (by decide)
    | launched => exact absurd haway (by decide)
    | closed => exact absurd hhandles (by decide)

end Clearing

section Acquiring

variable {who app : String} {windows : Dict Unit} {front front' : Option String}
  {entries : List Entry} {r : Except Fault Lease}

theorem touches_acquired {waiting news : List Entry}
    (hwaiting : ∀ entry ∈ waiting, Within waits entry) (app : String) :
    touches app (arranged (waiting ++ news)) = touches app (arranged news) := by
  rw [arranged_append, touches_append, touches_waiting app hwaiting, List.nil_append]

theorem front_of_granted {lease : Lease}
    (h : Acquires app windows front entries (.ok lease) front') : front' = some app := by
  generalize hr : (.ok lease : Except Fault Lease) = r at h
  cases h with
  | refused => cases hr
  | locked _ _ hfronts =>
    cases hfronts with
    | unfocused => cases hr
    | already => rfl
    | focused => rfl
    | windowless => rfl

/-- What an acquisition does to the window of the application that is in front afterwards: it
focuses it, or the application was there before. -/
theorem handling_of_acquires (h : Acquires who windows front entries r front')
    (hfront' : front' = some app) (hwindow : windows.contains app = true) :
    lastHandling app (arranged entries) = some .focused ∨
      front = some app ∧ (lastHandling app (arranged entries) = none ∨
        who ≠ app ∧ lastHandling app (arranged entries) = some .minimized ∧
          ∃ f, .called (.focus who) (.error f) ∈ entries) := by
  subst hfront'
  cases h with
  | refused hwaiting =>
    refine .inr ⟨rfl, .inl ?_⟩
    rw [lastHandling, touches_waiting app hwaiting]
    rfl
  | @locked _ waiting news r lease hwaiting hfronts =>
    have hsame : lastHandling app (arranged (waiting ++ news)) =
        lastHandling app (arranged news) := by
      rw [lastHandling, touches_acquired hwaiting, lastHandling]
    rw [hsame]
    cases hfronts with
    | already => exact .inr ⟨rfl, .inl rfl⟩
    | @unfocused _ clearing f hfront _ hclears =>
      have hne : who ≠ app := fun heq => hfront (heq ▸ rfl)
      rw [arranged_append, lastHandling_of_untouched (touches_focus_of_ne hne (.error f))]
      refine .inr ⟨rfl, (lastHandling_clearing hclears).imp_right fun hminimized => ?_⟩
      exact ⟨hne, hminimized, f, by simp⟩
    | focused hfront _ hclears =>
      left
      rw [arranged_append, lastHandling_append, lastHandling, touches_focus]
      rfl
    | windowless _ hnone =>
      rw [hwindow] at hnone
      cases hnone

end Acquiring

/-! ## Turns -/

variable [Desk σ]

def arbitration (turns : List (Turn σ)) : Past := turns.foldl Past.turn .fresh

theorem arbitration_append (turns : List (Turn σ)) (turn : Turn σ) :
    arbitration (turns ++ [turn]) = (arbitration turns).turn turn := by
  rw [arbitration, List.foldl_append]
  rfl

/-- The ways a turn can go. -/
inductive TurnCases (p : Past) : Deed → List Event → Past → Prop
  | registered (app : String) :
      TurnCases p (.register app) [.registered app]
        ⟨p.windows.insert app (), p.front, p.story ++ [.registered app]⟩
  | acquired {app : String} {entries : List Entry} {r : Except Fault Lease}
      {front : Option String} (h : Acquires app p.windows p.front entries r front) :
      TurnCases p (.acquire app) (arranged entries) ⟨p.windows, front, p.story ++ arranged entries⟩
  | receded {deed : Deed} {entries : List Entry} {front : Option String}
      (hfront : front = p.front ∨ front = none) :
      TurnCases p deed (entries.map .started) ⟨p.windows, front, p.story ++ entries.map .started⟩

theorem acquires_after (p : Past) (app : String) (stage : Stage σ) :
    ∃ r entries front, p.outcome (.acquire app) stage = r.map (fun _ => ()) ∧
      p.news (.acquire app) stage = arranged entries ∧
      p.after (.acquire app) stage = ⟨p.windows, front, p.story ++ arranged entries⟩ ∧
      Acquires app p.windows p.front entries r front := by
  obtain ⟨r, t, entries, hacquire, hadds, hwindows, hacquires⟩ :=
    acquires_acquire app (p.onStage stage)
  have hwindows : t.windows = p.windows := hwindows
  have haction : (Deed.acquire app).action (p.onStage stage) = (r.map fun _ => (), t) := by
    have hbind : (Deed.acquire app).action (p.onStage stage) =
        (do let _ ← Arbiter.acquire app) (p.onStage stage) := rfl
    rw [hbind]
    cases r with
    | ok lease =>
      rw [Action.bind_of_ok hacquire]
      rfl
    | error f =>
      rw [Action.bind_of_error hacquire]
      rfl
  have hnews : p.news (.acquire app) stage = arranged entries := by
    simp only [Past.news, haction, Career.since_of_adds hadds]
    rfl
  refine ⟨r, entries, t.front, ?_, hnews, ?_, hacquires⟩
  · rw [Past.outcome_eq, haction]
  · simp only [Past.after, haction, hnews, hwindows]

theorem turnCases_of_receding (p : Past) {deed : Deed} (stage : Stage σ)
    (hevent : ∀ entries : List Entry,
      deed.announces ++ entries.map deed.event = entries.map .started)
    (hreceding : Obeys Receding (deed.action : Action (Stage σ) Unit))
    (hadds : ∀ s : Stage σ, ∃ entries, Adds s (deed.action s).2 entries) :
    TurnCases p deed (p.news deed stage) (p.after deed stage) := by
  obtain ⟨entries, hentries⟩ := hadds (p.onStage stage)
  obtain ⟨hwindows, hfront⟩ := hreceding (p.onStage stage)
  have hwindows : (deed.action (p.onStage stage)).2.windows = p.windows := hwindows
  have hnews : p.news deed stage = entries.map .started := by
    simp only [Past.news, Career.since_of_adds hentries, hevent]
  have hafter : p.after deed stage = ⟨p.windows, (deed.action (p.onStage stage)).2.front,
      p.story ++ entries.map .started⟩ := by
    simp only [Past.after, hnews, hwindows]
  rw [hnews, hafter]
  exact .receded hfront

theorem turnCases_after (p : Past) (deed : Deed) (stage : Stage σ) :
    TurnCases p deed (p.news deed stage) (p.after deed stage) := by
  cases deed with
  | register app =>
    have hadds : Adds (p.onStage stage) (Arbiter.register app (p.onStage stage)) [] :=
      adds_of_journal_eq rfl
    have hnews : p.news (.register app) stage = [.registered app] := by
      show [Event.registered app] ++ (Career.since _ (Arbiter.register app _)).map _ = _
      rw [Career.since_of_adds hadds]
      rfl
    have hafter : p.after (.register app) stage =
        ⟨p.windows.insert app (), p.front, p.story ++ [.registered app]⟩ := by
      simp only [Past.after, hnews]
      rfl
    rw [hnews, hafter]
    exact .registered app
  | acquire app =>
    obtain ⟨r, entries, front, -, hnews, hafter, h⟩ := acquires_after p app stage
    rw [hnews, hafter]
    exact .acquired h
  | invalidate app =>
    refine turnCases_of_receding p stage (fun _ => rfl) ?_ fun s => ⟨[], ?_⟩
    · exact obeys_modify fun s => receding_invalidateFront app s none
    · exact adds_of_journal_eq (journal_invalidateFront app s)
  | start e =>
    refine turnCases_of_receding p stage (fun _ => rfl) ?_ fun s => ?_
    · exact obeys_ensureOpen (restarting_receding e).toStarting
    · exact (footprint_ensureOpen e s).imp fun _ h => h.adds
  | restart e =>
    refine turnCases_of_receding p stage (fun _ => rfl) ?_ fun s => ?_
    · exact obeys_relaunch (restarting_receding e)
    · exact (footprint_relaunch e s).imp fun _ h => h.adds

/-! ## The application that is granted the input -/

def Met (app : String) (turns : List (Turn σ)) (kind : Past → Turn σ → Prop) : Prop :=
  ∃ older turn newer, turns = older ++ turn :: newer ∧ (arbitration older).front = some app ∧
    kind (arbitration older) turn

/-- The application is minimized for another one, which then cannot be focused. -/
def MinimizedInVain (app : String) (p : Past) (turn : Turn σ) : Prop :=
  ∃ other f, other ≠ app ∧ turn.deed = .acquire other ∧
    .arranged (.called (.focus other) (.error f)) ∈ p.news turn.deed turn.stage ∧
    .minimized ∈ touches app (p.news turn.deed turn.stage)

/-- What the arbiter did last to the window of an application that it takes to be in front, though
it did not focus the window after that. -/
inductive Mistaken (app : String) (turns : List (Turn σ)) : Option Touch → Prop
  | minimizedInVain (h : Met app turns (MinimizedInVain app)) : Mistaken app turns (some .minimized)
  | unseen (h : Met app turns fun _ turn => turn.deed = .register app) :
      Mistaken app turns (some .registered)

section Turns

variable {app : String} {turns : List (Turn σ)} {turn : Turn σ} {kind : Past → Turn σ → Prop}

theorem Met.later (h : Met app turns kind) (turn : Turn σ) : Met app (turns ++ [turn]) kind := by
  obtain ⟨older, met, newer, rfl, hfront, hkind⟩ := h
  exact ⟨older, met, newer ++ [turn], by simp, hfront, hkind⟩

theorem met_now (hfront : (arbitration turns).front = some app)
    (hkind : kind (arbitration turns) turn) : Met app (turns ++ [turn]) kind :=
  ⟨turns, turn, [], rfl, hfront, hkind⟩

theorem Mistaken.later {touch : Option Touch} (h : Mistaken app turns touch) (turn : Turn σ) :
    Mistaken app (turns ++ [turn]) touch := by
  cases h with
  | minimizedInVain h => exact .minimizedInVain (h.later turn)
  | unseen h => exact .unseen (h.later turn)

end Turns

omit [Desk σ] in
theorem contains_of_insert {windows : Dict Unit} {app who : String}
    (h : (windows.insert who ()).contains app = true) :
    who = app ∨ windows.contains app = true := by
  obtain ⟨entry, hentry, hname⟩ := List.any_eq_true.1 h
  rcases Dict.mem_insertEntry hentry with rfl | hold
  · exact .inl (eq_of_beq hname)
  · exact .inr (List.any_eq_true.2 ⟨entry, hold, hname⟩)

theorem launched_of_started {app : String} {entries : List Entry} {touch : Touch}
    (h : touch ∈ touches app (entries.map .started)) : touch = .launched := by
  obtain ⟨event, hevent, hmeans⟩ := List.mem_filterMap.1 h
  obtain ⟨entry, -, rfl⟩ := List.mem_map.1 hevent
  unfold Event.touch at hmeans
  split at hmeans <;> simp_all

theorem lastHandling_started (app : String) (entries : List Entry) :
    lastHandling app (entries.map .started) = none := by
  cases hlast : lastHandling app (entries.map .started) with
  | none => rfl
  | some touch =>
    obtain ⟨htouch, hhandles⟩ := mem_touches_of_lastHandling hlast
    rw [launched_of_started htouch] at hhandles
    cases hhandles

theorem focused_or_mistaken (turns : List (Turn σ)) {app : String}
    (hfront : (arbitration turns).front = some app)
    (hwindow : (arbitration turns).windows.contains app = true) :
    lastHandling app (arbitration turns).story = some .focused ∨
      Mistaken app turns (lastHandling app (arbitration turns).story) := by
  -- by the turns up to the last one, after which the application is in front anew or still
  induction turns using List.reverseRecOn with
  | nil => cases hfront
  | append_singleton turns turn ih =>
    have hcases := turnCases_after (arbitration turns) turn.deed turn.stage
    have hlater := fun hfront hwindow =>
      (ih hfront hwindow).imp_right fun h => h.later turn
    rw [arbitration_append, Past.turn] at hfront hwindow ⊢
    generalize hq : (arbitration turns).after turn.deed turn.stage = q at hcases hfront hwindow ⊢
    generalize hnews : (arbitration turns).news turn.deed turn.stage = news at hcases
    generalize hdeed : turn.deed = deed at hcases
    cases hcases with
    | registered who =>
      dsimp only at hfront hwindow ⊢
      by_cases hwho : who = app
      · subst hwho
        have hlast : lastHandling who ((arbitration turns).story ++ [.registered who]) =
            some .registered := by
          rw [lastHandling_append]
          simp [lastHandling, touches, Event.touch, Touch.handles]
        rw [hlast]
        exact .inr (.unseen (met_now hfront hdeed))
      · rw [lastHandling_of_untouched (by simp [touches, Event.touch, hwho])]
        exact hlater hfront ((contains_of_insert hwindow).resolve_left hwho)
    | @receded _ entries front hgone =>
      dsimp only at hfront hwindow ⊢
      rw [lastHandling_append, lastHandling_started]
      refine hlater ?_ hwindow
      rcases hgone with rfl | rfl
      · exact hfront
      · cases hfront
    | @acquired who entries r front hacquires =>
      dsimp only at hfront hwindow ⊢
      rw [lastHandling_append]
      rcases handling_of_acquires hacquires hfront hwindow with
        hfocused | ⟨hbefore, hnone | ⟨hne, hminimized, f, hrefused⟩⟩
      · rw [hfocused]
        exact .inl rfl
      · rw [hnone]
        exact hlater hbefore hwindow
      -- the focus failed, and so the front is still that of the application that was minimized
      · have hminimizedInVain : MinimizedInVain app (arbitration turns) turn := by
          refine ⟨who, f, hne, hdeed, ?_, ?_⟩
          · rw [hnews]
            exact List.mem_map_of_mem hrefused
          · rw [hnews]
            exact (mem_touches_of_lastHandling hminimized).1
        rw [hminimized]
        exact .inr (.minimizedInVain (met_now hbefore hminimizedInVain))

/-- The arbiter focused the window of an application that is granted the input after it minimized
it, unless it took the application to be in front and spared itself the work: then the last thing
done to the window was minimizing it for another application that could not be focused, or making it
known. -/
theorem focused_or_mistaken_of_granted (turns : List (Turn σ)) (app : String) (stage : Stage σ)
    (hwindow : (arbitration turns).windows.contains app = true)
    (hgranted : (arbitration turns).outcome (.acquire app) stage = .ok ()) :
    lastHandling app (arbitration (turns ++ [⟨.acquire app, stage⟩])).story = some .focused ∨
      (arbitration turns).front = some app ∧
        Mistaken app turns
          (lastHandling app (arbitration (turns ++ [⟨.acquire app, stage⟩])).story) := by
  obtain ⟨r, entries, front, houtcome, -, hafter, hacquires⟩ :=
    acquires_after (arbitration turns) app stage
  rw [hgranted] at houtcome
  cases r with
  | error f => cases houtcome
  | ok lease =>
    rw [arbitration_append, Past.turn, hafter]
    dsimp only
    rw [lastHandling_append]
    rcases handling_of_acquires hacquires (front_of_granted hacquires) hwindow with
      hfocused | ⟨hbefore, hnone | ⟨hne, -⟩⟩
    · rw [hfocused]
      exact .inl rfl
    · rw [hnone]
      exact (focused_or_mistaken turns hbefore hwindow).imp_right fun h => ⟨hbefore, h⟩
    · exact absurd rfl hne

/-! ## A window that is left minimized -/

def desktop (second : Bool) (hooks : List Hook) : Stage Rehearsal :=
  .fresh { Rehearsal.blank with
    windows := .ofList [("one", .scripted ⟨⟨0, 0, 1000, 1000⟩, true, 0, false, false, false, 0⟩),
      ("two", .scripted ⟨⟨0, 0, 1000, 1000⟩, second, 0, false, false, false, 0⟩)]
    hooks } (.free 30000 1 60000)

def firstInFront (second : Bool) : List (Turn Rehearsal) :=
  [⟨.register "one", desktop second []⟩, ⟨.register "two", desktop second []⟩,
    ⟨.acquire "one", desktop second []⟩]

/-- Then the second one cannot be focused. -/
def secondRefused : List (Turn Rehearsal) :=
  firstInFront true ++
    [⟨.acquire "two", desktop true [⟨"focus", 0, .fail (.platform "focus refused")⟩]⟩]

theorem secondRefused_facts :
    (arbitration secondRefused).windows.contains "one" = true ∧
      (arbitration secondRefused).outcome (.acquire "one") (desktop true []) = .ok () ∧
      lastHandling "one"
        (arbitration (secondRefused ++ [⟨.acquire "one", desktop true []⟩])).story =
          some .minimized := by
  decide +kernel

theorem mistaken_secondRefused :
    (arbitration secondRefused).windows.contains "one" = true ∧
      (arbitration secondRefused).outcome (.acquire "one") (desktop true []) = .ok () ∧
      (arbitration secondRefused).front = some "one" ∧
      Mistaken "one" secondRefused (some .minimized) := by
  obtain ⟨hwindow, hgranted, hlast⟩ := secondRefused_facts
  have h := focused_or_mistaken_of_granted secondRefused "one" (desktop true []) hwindow hgranted
  rw [hlast] at h
  exact ⟨hwindow, hgranted, h.resolve_left (by decide)⟩

/-- No application is granted the input with its window left minimized. -/
def NeverLeftMinimized (σ : Type) [Desk σ] : Prop :=
  ∀ (turns : List (Turn σ)) (app : String) (stage : Stage σ),
    (arbitration turns).windows.contains app = true →
      (arbitration turns).outcome (.acquire app) stage = .ok () →
        lastHandling app (arbitration (turns ++ [⟨.acquire app, stage⟩])).story ≠ some .minimized

theorem granted_leftMinimized : ¬ NeverLeftMinimized Rehearsal := by
  intro hall
  obtain ⟨hwindow, hgranted, hlast⟩ := secondRefused_facts
  exact hall secondRefused "one" (desktop true []) hwindow hgranted hlast

end Playback.Proofs.Foreground
