import Playback.Proofs.Foreground
/-!
# What covers the application in front

An application that is granted the input should be the only visible one. The windows of the others
come up in two ways, by the arbiter and by the starts of their engines, of which the arbiter only
learns if they concern the application that it takes to be in front.
-/

namespace Playback.Proofs.Covering

open Footprints Moves Arranging Foreground

variable {σ : Type}

/-! ## What happened to a window last -/

def lastTouch (app : String) (story : List Event) : Option Touch := (touches app story).getLast?

theorem lastTouch_append (app : String) (old new : List Event) :
    lastTouch app (old ++ new) = (lastTouch app new).or (lastTouch app old) := by
  rw [lastTouch, touches_append, List.getLast?_append]
  rfl

theorem lastTouch_of_untouched {app : String} {new : List Event} (h : touches app new = [])
    (old : List Event) : lastTouch app (old ++ new) = lastTouch app old := by
  rw [lastTouch_append, lastTouch, h]
  rfl

theorem mem_touches_of_lastTouch {app : String} {story : List Event} {touch : Touch}
    (h : lastTouch app story = some touch) : touch ∈ touches app story :=
  List.mem_of_getLast? h

/-- The window was put away after it last came up. -/
def Away (app : String) (story : List Event) : Prop :=
  ∃ touch, lastTouch app story = some touch ∧ touch.away = true

theorem Away.after {app : String} {new : List Event} (h : Away app new) (old : List Event) :
    Away app (old ++ new) := by
  obtain ⟨touch, htouch, haway⟩ := h
  refine ⟨touch, ?_, haway⟩
  rw [lastTouch_append, htouch]
  rfl

section Clearing

variable {apps : List String} {clearing : List Entry} {app : String}

/-- No call to minimize the window failed. -/
def Yields (app : String) (story : List Event) : Prop :=
  ∀ f, .arranged (.called (.minimize app) (.error f)) ∉ story

theorem Yields.append {old new : List Event} (h : Yields app (old ++ new)) :
    Yields app old ∧ Yields app new :=
  ⟨fun f hf => h f (List.mem_append_left _ hf), fun f hf => h f (List.mem_append_right _ hf)⟩

theorem touches_of_clears (h : Clears apps clearing) (happ : app ∈ apps)
    (hyields : Yields app (arranged clearing)) : touches app (arranged clearing) ≠ [] := by
  induction h with
  | done => cases happ
  | @closed who rest news _ ih =>
    have hlater : Yields app (arranged news) := fun f hf => hyields f (List.mem_cons_of_mem _ hf)
    rw [touches_closed]
    rcases List.mem_cons.1 happ with rfl | hmem
    · simp
    · exact List.append_ne_nil_of_right_ne_nil _ (ih hmem hlater)
  | @minimized who rest news reply _ ih =>
    have hlater : Yields app (arranged news) := fun f hf =>
      hyields f (List.mem_cons_of_mem _ (List.mem_cons_of_mem _ hf))
    rw [touches_minimized]
    rcases List.mem_cons.1 happ with rfl | hmem
    · cases reply with
      | ok _ => simp
      | error f => exact absurd (by simp [arranged]) (hyields f)
    · exact List.append_ne_nil_of_right_ne_nil _ (ih hmem hlater)

theorem away_of_clears (h : Clears apps clearing) (happ : app ∈ apps)
    (hyields : Yields app (arranged clearing)) :
    Away app (arranged clearing) := by
  have hsome := touches_of_clears h happ hyields
  exact ⟨_, List.getLast?_eq_some_getLast hsome, (away_of_mem_touches h (List.getLast_mem hsome)).2⟩

end Clearing

/-! ## What an acquisition does to the others -/

theorem mem_others {app other : String} {windows : Dict Unit} (hne : other ≠ app)
    (h : windows.contains other = true) : other ∈ others app windows := by
  obtain ⟨entry, hentry, heq⟩ := List.any_eq_true.1 h
  refine List.mem_filter.2 ⟨?_, bne_iff_ne.2 hne⟩
  exact List.mem_map.2 ⟨entry, hentry, eq_of_beq heq⟩

theorem notMem_others (app : String) (windows : Dict Unit) : app ∉ others app windows :=
  fun h => bne_iff_ne.1 (List.mem_filter.1 h).2 rfl

theorem touch_of_acquires {who app other : String} {windows : Dict Unit}
    {front front' : Option String} {entries : List Entry} {r : Except Fault Lease}
    (h : Acquires who windows front entries r front') (hfront' : front' = some app)
    (hne : other ≠ app) (hwindow : windows.contains other = true)
    (hyields : Yields other (arranged entries)) :
    Away other (arranged entries) ∨ front = some app ∧ touches other (arranged entries) = [] := by
  subst hfront'
  cases h with
  | refused hwaiting => exact .inr ⟨rfl, touches_waiting other hwaiting⟩
  | @locked _ waiting news r lease hwaiting hfronts =>
    rw [arranged_append] at hyields
    have hyields := hyields.append.2
    rw [Away, lastTouch, touches_acquired hwaiting]
    cases hfronts with
    | already => exact .inr ⟨rfl, rfl⟩
    | @unfocused _ clearing f hfront _ hclears =>
      rw [arranged_append] at hyields ⊢
      have hfocus : touches other (arranged [.called (.focus who) (.error f)]) = [] := by
        simp [touches, arranged, Event.touch]
      rw [touches_append, hfocus, List.append_nil]
      by_cases hwho : other = who
      · refine .inr ⟨rfl, touches_clearing_of_notMem hclears ?_⟩
        rw [hwho]
        exact notMem_others who windows
      · exact .inl (away_of_clears hclears (mem_others hwho hwindow) hyields.append.1)
    | focused hfront _ hclears =>
      rw [arranged_append] at hyields ⊢
      rw [touches_append, touches_focus_of_ne hne.symm, List.append_nil]
      exact .inl (away_of_clears hclears (mem_others hne hwindow) hyields.append.1)
    | windowless _ _ hclears =>
      exact .inl (away_of_clears hclears (mem_others hne hwindow) hyields)

/-! ## When an application is granted the input -/

variable [Desk σ]

/-- What happened last to the window of another application than the one in front that was not put
away. -/
inductive Overlooked (app other : String) (turns : List (Turn σ)) : Option Touch → Prop
  | launched
      (h : Met app turns fun p turn => .launched ∈ touches other (p.news turn.deed turn.stage)) :
      Overlooked app other turns (some .launched)
  | registered (h : Met app turns fun _ turn => turn.deed = .register other) :
      Overlooked app other turns (some .registered)

theorem Overlooked.later {app other : String} {turns : List (Turn σ)} {touch : Option Touch}
    (h : Overlooked app other turns touch) (turn : Turn σ) :
    Overlooked app other (turns ++ [turn]) touch := by
  cases h with
  | launched h => exact .launched (h.later turn)
  | registered h => exact .registered (h.later turn)

theorem away_or_overlooked (turns : List (Turn σ)) {app other : String}
    (hfront : (arbitration turns).front = some app) (hne : other ≠ app)
    (hwindow : (arbitration turns).windows.contains other = true)
    (hyields : Yields other (arbitration turns).story) :
    Away other (arbitration turns).story ∨
      Overlooked app other turns (lastTouch other (arbitration turns).story) := by
  -- by the turns, as in `focused_or_mistaken`; a start that leaves the front alone is the exception
  induction turns using List.reverseRecOn with
  | nil => cases hfront
  | append_singleton turns turn ih =>
    have hcases := turnCases_after (arbitration turns) turn.deed turn.stage
    have hlater := fun hfront hwindow hyields =>
      (ih hfront hwindow hyields).imp_right fun h => h.later turn
    rw [arbitration_append, Past.turn] at hfront hwindow hyields ⊢
    generalize hq : (arbitration turns).after turn.deed turn.stage = q
      at hcases hfront hwindow hyields ⊢
    generalize hnews : (arbitration turns).news turn.deed turn.stage = news at hcases
    generalize hdeed : turn.deed = deed at hcases
    cases hcases with
    | registered who =>
      dsimp only at hfront hwindow hyields ⊢
      by_cases hwho : who = other
      · subst hwho
        have hlast : lastTouch who ((arbitration turns).story ++ [.registered who]) =
            some .registered := by
          rw [lastTouch_append]
          simp [lastTouch, touches, Event.touch]
        rw [hlast]
        exact .inr (.registered (met_now hfront hdeed))
      · have hnone : touches other [.registered who] = [] := by simp [touches, Event.touch, hwho]
        have hsame := lastTouch_of_untouched hnone (arbitration turns).story
        rw [Away, hsame]
        exact hlater hfront ((contains_of_insert hwindow).resolve_left hwho) hyields.append.1
    | @receded _ entries front hgone =>
      dsimp only at hfront hwindow hyields ⊢
      have hbefore : (arbitration turns).front = some app := by
        rcases hgone with rfl | rfl
        · exact hfront
        · cases hfront
      cases hlast : lastTouch other (entries.map .started) with
      | none =>
        have hsame : lastTouch other ((arbitration turns).story ++ entries.map .started) =
            lastTouch other (arbitration turns).story := by
          rw [lastTouch_append, hlast]
          rfl
        rw [Away, hsame]
        exact hlater hbefore hwindow hyields.append.1
      | some touch =>
        have htouch := mem_touches_of_lastTouch hlast
        obtain rfl := launched_of_started htouch
        rw [lastTouch_append, hlast]
        refine .inr (.launched (met_now hbefore ?_))
        rw [hnews]
        exact htouch
    | @acquired who entries r front hacquires =>
      dsimp only at hfront hwindow hyields ⊢
      rcases touch_of_acquires hacquires hfront hne hwindow hyields.append.2 with
        haway | ⟨hbefore, hnone⟩
      · exact .inl (haway.after _)
      · rw [Away, lastTouch_of_untouched hnone]
        exact hlater hbefore hwindow hyields.append.1

/-- When an application is granted the input, every other window that yields was put away after it
last came up, unless the arbiter took the application to be in front and spared itself the work:
then the other window came up, or became known, while the application had the front. -/
theorem away_or_overlooked_of_granted (turns : List (Turn σ)) (app : String) (stage : Stage σ)
    (hgranted : (arbitration turns).outcome (.acquire app) stage = .ok ()) (other : String)
    (hne : other ≠ app) (hwindow : (arbitration turns).windows.contains other = true)
    (hyields : Yields other (arbitration (turns ++ [⟨.acquire app, stage⟩])).story) :
    Away other (arbitration (turns ++ [⟨.acquire app, stage⟩])).story ∨
      (arbitration turns).front = some app ∧
        Overlooked app other turns
          (lastTouch other (arbitration (turns ++ [⟨.acquire app, stage⟩])).story) := by
  obtain ⟨r, entries, front, houtcome, -, hafter, hacquires⟩ :=
    acquires_after (arbitration turns) app stage
  rw [hgranted] at houtcome
  cases r with
  | error f => cases houtcome
  | ok lease =>
    rw [arbitration_append, Past.turn, hafter] at hyields ⊢
    dsimp only at hyields ⊢
    rcases touch_of_acquires hacquires (front_of_granted hacquires) hne hwindow hyields.append.2
      with haway | ⟨hbefore, hnone⟩
    · exact .inl (haway.after _)
    · rw [Away, lastTouch_of_untouched hnone]
      exact (away_or_overlooked turns hbefore hne hwindow hyields.append.1).imp_right
        fun h => ⟨hbefore, h⟩

/-! ## A window that covers the one in front -/

def succeeds : Event → Bool
  | .arranged (.called _ outcome) => outcome.isOk
  | .started (.called _ outcome) => outcome.isOk
  | _ => true

theorem yields_of_succeeds {story : List Event} (h : story.all succeeds = true) (app : String) :
    Yields app story := by
  intro f hf
  cases List.all_eq_true.1 h _ hf

/-- The second application is started while the first one is in front. -/
def secondStarted : List (Turn Rehearsal) :=
  firstInFront false ++ [⟨.start (Career.bare.setup "two" Career.hasty), desktop false []⟩]

theorem secondStarted_facts :
    (arbitration secondStarted).windows.contains "two" = true ∧
      (arbitration secondStarted).outcome (.acquire "one") (desktop true []) = .ok () ∧
      (Stage.isOpen "two" (desktop true [])).1 = true ∧
      (arbitration (secondStarted ++ [⟨.acquire "one", desktop true []⟩])).story.all succeeds =
        true ∧
      lastTouch "two" (arbitration (secondStarted ++ [⟨.acquire "one", desktop true []⟩])).story =
        some .launched := by
  decide +kernel

theorem not_away_of_launched {app : String} {story : List Event}
    (h : lastTouch app story = some .launched) : ¬ Away app story := by
  rintro ⟨touch, htouch, haway⟩
  rw [h] at htouch
  cases htouch
  cases haway

theorem overlooked_secondStarted :
    (arbitration secondStarted).outcome (.acquire "one") (desktop true []) = .ok () ∧
      (arbitration secondStarted).windows.contains "two" = true ∧
      Yields "two" (arbitration (secondStarted ++ [⟨.acquire "one", desktop true []⟩])).story ∧
      (arbitration secondStarted).front = some "one" ∧
      Overlooked "one" "two" secondStarted (some .launched) := by
  obtain ⟨hwindow, hgranted, -, hsucceeds, hlast⟩ := secondStarted_facts
  have hyields := yields_of_succeeds hsucceeds "two"
  have h := away_or_overlooked_of_granted secondStarted "one" (desktop true []) hgranted "two"
    (by decide) hwindow hyields
  rw [hlast] at h
  exact ⟨hgranted, hwindow, hyields, h.resolve_left (not_away_of_launched hlast)⟩

/-- As long as no call to a window fails, every open window other than that of the application that
is granted the input was put away after it last came up. -/
def AlwaysAlone (σ : Type) [Desk σ] : Prop :=
  ∀ (turns : List (Turn σ)) (app other : String) (stage : Stage σ),
    (arbitration turns).outcome (.acquire app) stage = .ok () →
      (arbitration (turns ++ [⟨.acquire app, stage⟩])).story.all succeeds = true →
        other ≠ app → (arbitration turns).windows.contains other = true →
          (Stage.isOpen other stage).1 = true →
            Away other (arbitration (turns ++ [⟨.acquire app, stage⟩])).story

theorem granted_covered : ¬ AlwaysAlone Rehearsal := by
  intro hall
  obtain ⟨hwindow, hgranted, hopen, hsucceeds, hlast⟩ := secondStarted_facts
  exact not_away_of_launched hlast (hall secondStarted "one" "two" (desktop true []) hgranted
    hsucceeds (by decide) hwindow hopen)

end Playback.Proofs.Covering
