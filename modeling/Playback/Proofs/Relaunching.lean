import Playback.Proofs.Launching
import Playback.Proofs.Traces
/-!
# Launching anew

An application that is started anew is asked to close, and ended if it stays open. Each wait for its
window looks at once and goes on until it sees what it wants or until a look comes to its end after
the deadline; that look is the last one that counts. Whatever the window shows and however long the
calls take, the application is started only after it was seen closed, and at most once.
-/

namespace Playback.Proofs.Relaunching

open Effects Footprints Launching Traces

/-! ## Waits -/

/-- The calls of a wait for the window to be open, or closed, as wanted, and what came of it. -/
inductive Watches (app : String) (wanted : Bool) (deadline : Nat) :
    List Step → Except Fault Bool → Prop
  | seen {look : Step} (hlook : look.Sees app wanted) :
    Watches app wanted deadline [look] (.ok true)
  | late {look : Step} (hlook : look.Sees app (!wanted)) (hlate : deadline ≤ look.finish) :
    Watches app wanted deadline [look] (.ok false)
  | cut {look : Step} {pauses : List Step} {f : Fault} (hlook : look.Sees app (!wanted))
    (hearly : look.finish < deadline) (hpauses : ∀ pause ∈ pauses, pause.Waits)
    (hf : f.isCancelled = true) : Watches app wanted deadline (look :: pauses) (.error f)
  | again {look pause : Step} {steps : List Step} {r : Except Fault Bool}
    (hlook : look.Sees app (!wanted)) (hearly : look.finish < deadline) (hpause : pause.Waits)
    (rest : Watches app wanted deadline steps r) :
    Watches app wanted deadline (look :: pause :: steps) r

/-- All looks saw something else than wanted, and the last one ended after the deadline. -/
def Expired (app : String) (wanted : Bool) (deadline : Nat) (steps : List Step) : Prop :=
  (∀ step ∈ steps, ¬step.Sees app wanted) ∧
    ∃ step ∈ steps, step.Sees app (!wanted) ∧ deadline ≤ step.finish

def Looked (app : String) (steps : List Step) : Prop :=
  ∃ look rest b, steps = look :: rest ∧ look.Sees app b

def Idle (app : String) (steps : List Step) : Prop :=
  ∀ step ∈ steps, (∃ b, step.Sees app b) ∨ step.Waits

section Waits

variable {app : String} {wanted : Bool} {deadline : Nat} {steps : List Step}
variable {r : Except Fault Bool}

theorem not_sees_of_not {look : Step} (h : look.Sees app (!wanted)) : ¬look.Sees app wanted := by
  intro h'
  have heq := h.unique h'
  cases wanted <;> cases heq

theorem Watches.looked (h : Watches app wanted deadline steps r) : Looked app steps := by
  cases h with
  | seen hlook => exact ⟨_, _, _, rfl, hlook⟩
  | late hlook => exact ⟨_, _, _, rfl, hlook⟩
  | cut hlook => exact ⟨_, _, _, rfl, hlook⟩
  | again hlook => exact ⟨_, _, _, rfl, hlook⟩

theorem Watches.idle (h : Watches app wanted deadline steps r) : Idle app steps := by
  induction h with
  | seen hlook => exact List.forall_mem_singleton.2 (.inl ⟨_, hlook⟩)
  | late hlook => exact List.forall_mem_singleton.2 (.inl ⟨_, hlook⟩)
  | cut hlook _ hpauses =>
    exact List.forall_mem_cons.2 ⟨.inl ⟨_, hlook⟩, fun pause hpause => .inr (hpauses pause hpause)⟩
  | again hlook _ hpause _ ih =>
    exact List.forall_mem_cons.2 ⟨.inl ⟨_, hlook⟩, List.forall_mem_cons.2 ⟨.inr hpause, ih⟩⟩

theorem Watches.seen_iff (h : Watches app wanted deadline steps r) :
    r = .ok true ↔ ∃ step ∈ steps, step.Sees app wanted := by
  induction h with
  | seen hlook => simpa using hlook
  | late hlook => simpa using not_sees_of_not hlook
  | cut hlook _ hpauses =>
    simp only [List.mem_cons, exists_eq_or_imp, not_sees_of_not hlook, false_or, reduceCtorEq,
      false_iff]
    rintro ⟨pause, hpause, hsees⟩
    exact (hpauses pause hpause).not_sees hsees
  | again hlook _ hpause _ ih =>
    simp only [List.mem_cons, exists_eq_or_imp, not_sees_of_not hlook, hpause.not_sees, false_or,
      ih]

theorem expired_cons {look : Step} (hlook : look.Sees app (!wanted)) :
    Expired app wanted deadline (look :: steps) ↔
      (∀ step ∈ steps, ¬step.Sees app wanted) ∧
        (deadline ≤ look.finish ∨
          ∃ step ∈ steps, step.Sees app (!wanted) ∧ deadline ≤ step.finish) := by
  simp only [Expired, List.mem_cons, forall_eq_or_imp, exists_eq_or_imp, not_sees_of_not hlook,
    not_false_eq_true, true_and, hlook]

theorem Watches.expired_iff (h : Watches app wanted deadline steps r) :
    r = .ok false ↔ Expired app wanted deadline steps := by
  induction h with
  | seen hlook => simp [Expired, hlook]
  | late hlook hlate => simp [expired_cons hlook, hlate]
  | cut hlook hearly hpauses =>
    rw [expired_cons hlook]
    simp only [reduceCtorEq, false_iff, not_and, not_or, Nat.not_le, hearly, true_and]
    rintro - ⟨pause, hpause, hsees, -⟩
    exact (hpauses pause hpause).not_sees hsees
  | again hlook hearly hpause _ ih =>
    rw [expired_cons hlook, ih, Expired]
    simp only [List.mem_cons, forall_eq_or_imp, exists_eq_or_imp, hpause.not_sees,
      not_false_eq_true, true_and, Nat.not_le.2 hearly, false_and, false_or]

theorem Watches.cancelled {f : Fault} (h : Watches app wanted deadline steps (.error f)) :
    f.isCancelled = true := by
  generalize hr : Except.error f = r at h
  induction h with
  | seen => cases hr
  | late => cases hr
  | cut _ _ _ hf =>
    cases hr
    exact hf
  | again _ _ _ _ ih => exact ih hr

variable {σ : Type} [Desk σ] {s t : Stage σ} {e : Setup}

theorem awaitWindow_traced (h : e.awaitWindow wanted deadline s = (r, t)) :
    ∃ steps, Traced s steps t ∧ Watches e.app wanted deadline steps r ∧
      ∀ f, r = .error f → t.aborted = true := by
  have hother : ∀ {seen : Bool}, ¬seen = wanted → seen = !wanted := fun hseen =>
    Bool.eq_not_of_ne hseen
  -- one look in each case; the last two also pause, and the last one starts over
  fun_induction Setup.awaitWindow e wanted deadline s with
  | case1 s u hl =>
    obtain ⟨rfl, hsees⟩ := isOpen_traced hl
    cases h
    exact ⟨_, traced_call _ s, .seen hsees, by rintro f ⟨⟩⟩
  | case2 s seen u hl hseen hlate =>
    obtain ⟨rfl, hsees⟩ := isOpen_traced hl
    rw [hother hseen] at hsees
    cases h
    exact ⟨_, traced_call _ s, .late hsees hlate, by rintro f ⟨⟩⟩
  | case3 s seen u hl hseen hlate f v hp =>
    obtain ⟨rfl, hsees⟩ := isOpen_traced hl
    rw [hother hseen] at hsees
    obtain ⟨pauses, htraced, hpauses, -⟩ := pause_traced hp
    obtain ⟨hcancelled, haborted⟩ := pause_error hp
    cases h
    exact ⟨_, .call _ htraced, .cut hsees (Nat.not_le.1 hlate) hpauses hcancelled,
      fun _ _ => haborted⟩
  | case4 s seen u hl hseen hlate v hp _ ih =>
    obtain ⟨rfl, hsees⟩ := isOpen_traced hl
    rw [hother hseen] at hsees
    obtain ⟨pauses, htraced, hpauses, hlength⟩ := pause_traced hp
    obtain ⟨pause, rfl⟩ := List.length_eq_one_iff.1 (hlength rfl)
    obtain ⟨steps, hrest, hwatches, haborted⟩ := ih h
    exact ⟨_, .call _ (htraced.trans hrest), .again hsees (Nat.not_le.1 hlate)
      (hpauses pause (List.mem_singleton_self _)) hwatches, haborted⟩

theorem windowBecomes_traced {timeout : Nat} (h : e.windowBecomes wanted timeout s = (r, t)) :
    ∃ steps, Traced s steps t ∧
      Watches e.app wanted (s.clock + nanoseconds timeout) steps r ∧
        ∀ f, r = .error f → t.aborted = true :=
  awaitWindow_traced h

end Waits

/-! ## Ending the application and starting it -/

inductive Ends (e : Setup) (ending : Step) : List Step → Except Fault Unit → Prop
  | refused {f : Fault} (hending : ending.entry = .called (.terminate e.app) (.error f)) :
    Ends e ending [] (.error f)
  | gone {second : List Step} (hending : ending.entry = .called (.terminate e.app) (.ok ()))
    (hsecond : Watches e.app false (ending.finish + nanoseconds e.config.closeTimeout) second
      (.ok true)) : Ends e ending second (.ok ())
  | survived {second : List Step} (hending : ending.entry = .called (.terminate e.app) (.ok ()))
    (hsecond : Watches e.app false (ending.finish + nanoseconds e.config.closeTimeout) second
      (.ok false)) : Ends e ending second (.error (survivedFault e))
  | cut {second : List Step} {f : Fault}
    (hending : ending.entry = .called (.terminate e.app) (.ok ()))
    (hsecond : Watches e.app false (ending.finish + nanoseconds e.config.closeTimeout) second
      (.error f)) : Ends e ending second (.error f)

inductive Opens (e : Setup) : List Step → Except Fault Unit → Prop
  | already {look : Step} (hlook : look.Sees e.app true) : Opens e [look] (.ok ())
  | refused {look launch : Step} {f : Fault} (hlook : look.Sees e.app false)
    (hlaunch : launch.entry = .called (.launch e.app e.launcher) (.error f)) :
    Opens e [look, launch] (.error f)
  | missing {look launch : Step} {third : List Step} (hlook : look.Sees e.app false)
    (hlaunch : launch.entry = .called (.launch e.app e.launcher) (.ok ()))
    (hthird : Watches e.app true (launch.finish + nanoseconds e.config.openTimeout) third
      (.ok false)) : Opens e (look :: launch :: third) (.error e.missingFault)
  | cut {look launch : Step} {third : List Step} {f : Fault} (hlook : look.Sees e.app false)
    (hlaunch : launch.entry = .called (.launch e.app e.launcher) (.ok ()))
    (hthird : Watches e.app true (launch.finish + nanoseconds e.config.openTimeout) third
      (.error f)) : Opens e (look :: launch :: third) (.error f)
  | shown {look launch : Step} {third pauses : List Step} {r : Except Fault Unit}
    (hlook : look.Sees e.app false)
    (hlaunch : launch.entry = .called (.launch e.app e.launcher) (.ok ()))
    (hthird : Watches e.app true (launch.finish + nanoseconds e.config.openTimeout) third
      (.ok true)) (hpauses : ∀ pause ∈ pauses, pause.Waits)
    (hr : ∀ f, r = .error f → f.isCancelled = true) :
    Opens e (look :: launch :: (third ++ pauses)) r

section Runs

variable {σ : Type} [Desk σ] {s t : Stage σ} {e : Setup} {r : Except Fault Unit}

theorem terminate_traced (h : e.terminate s = (r, t)) :
    ∃ ending second, Traced s (ending :: second) t ∧ Ends e ending second r := by
  unfold Setup.terminate at h
  rcases Action.bind_cases h with ⟨f, hcall, rfl⟩ | ⟨_, u, hcall, h⟩
  · obtain ⟨rfl, hentry⟩ := made_traced rfl hcall
    exact ⟨_, [], traced_call _ s, .refused hentry⟩
  · obtain ⟨rfl, hentry⟩ := made_traced rfl hcall
    rcases Action.bind_cases h with ⟨f, hwait, rfl⟩ | ⟨gone, u, hwait, h⟩
    · obtain ⟨second, htraced, hwatches, -⟩ := windowBecomes_traced hwait
      exact ⟨_, second, .call _ htraced, .cut hentry hwatches⟩
    · obtain ⟨second, htraced, hwatches, -⟩ := windowBecomes_traced hwait
      cases gone with
      | true =>
        cases h
        exact ⟨_, second, .call _ htraced, .gone hentry hwatches⟩
      | false =>
        cases h
        exact ⟨_, second, .call _ htraced, .survived hentry hwatches⟩

theorem traced_invalidateFront (app : String) (s : Stage σ) :
    Traced s [] (Arbiter.invalidateFront app s) := by
  unfold Arbiter.invalidateFront
  split
  · exact .refocus none (.done _)
  · exact .done s

theorem start_traced {look : Step} (hlook : look.Sees e.app false) (h : e.start s = (r, t)) :
    ∃ steps, Traced s steps t ∧ Opens e (look :: steps) r := by
  unfold Setup.start at h
  rcases Action.bind_cases h with ⟨f, hcall, rfl⟩ | ⟨_, u, hcall, h⟩
  · obtain ⟨rfl, hentry⟩ := made_traced rfl hcall
    exact ⟨_, traced_call _ s, .refused hlook hentry⟩
  · obtain ⟨rfl, hentry⟩ := made_traced rfl hcall
    rcases Action.bind_cases h with ⟨f, hwait, rfl⟩ | ⟨shown, u, hwait, h⟩
    · obtain ⟨third, htraced, hwatches, -⟩ := windowBecomes_traced hwait
      exact ⟨_, .call _ htraced, .cut hlook hentry hwatches⟩
    · obtain ⟨third, htraced, hwatches, -⟩ := windowBecomes_traced hwait
      cases shown with
      | false =>
        cases h
        exact ⟨_, .call _ htraced, .missing hlook hentry hwatches⟩
      | true =>
        rcases Action.bind_cases h with ⟨f, hpause, rfl⟩ | ⟨_, v, hpause, h⟩
        · obtain ⟨pauses, hlast, hpauses, -⟩ := pause_traced hpause
          refine ⟨_, .call _ (htraced.trans hlast), .shown hlook hentry hwatches hpauses ?_⟩
          rintro _ ⟨⟩
          exact (pause_error hpause).1
        · obtain ⟨pauses, hlast, hpauses, -⟩ := pause_traced hpause
          cases h
          refine ⟨_, .call _ (htraced.trans ?_), .shown hlook hentry hwatches hpauses
            fun _ h => nomatch h⟩
          simpa using hlast.trans (traced_invalidateFront e.app v)

theorem ensureOpen_traced (h : e.ensureOpen s = (r, t)) :
    ∃ opening, Traced s opening t ∧ Opens e opening r := by
  unfold Setup.ensureOpen at h
  rcases hl : Stage.isOpen e.app s with ⟨seen, u⟩
  obtain ⟨rfl, hsees⟩ := isOpen_traced hl
  rcases Action.bind_cases h with ⟨f, hlook, rfl⟩ | ⟨b, u, hlook, h⟩
  · simp only [hl] at hlook
    cases hlook
  · simp only [hl] at hlook
    cases hlook
    cases seen with
    | true =>
      cases h
      exact ⟨_, traced_call _ s, .already hsees⟩
    | false =>
      obtain ⟨steps, htraced, hopens⟩ := start_traced hsees h
      exact ⟨_, .call _ htraced, hopens⟩

end Runs

/-! ## The parts of a restart -/

/-- The calls of a restart: the request to close, the first wait, the request to end the process and
the second wait, and what is done to show the window again. -/
structure Parts where
  closing : Step
  first : List Step
  ending : Option Step
  second : List Step
  opening : List Step

def Parts.steps (p : Parts) : List Step :=
  p.closing :: (p.first ++ (p.ending.toList ++ (p.second ++ p.opening)))

def firstDeadline (e : Setup) (closing : Step) : Nat :=
  closing.finish + nanoseconds e.config.closeTimeout

/-- What the calls of a restart are, what came of it, and whether an abort was requested. -/
inductive Relaunches (e : Setup) (aborted : Bool) : Parts → Except Fault Unit → Prop
  | cut {closing : Step} {first : List Step} {f : Fault} (hclosing : closing.Asks (.close e.app))
    (hfirst : Watches e.app false (firstDeadline e closing) first (.error f))
    (haborted : aborted = true) : Relaunches e aborted ⟨closing, first, none, [], []⟩ (.error f)
  | closed {closing : Step} {first opening : List Step} {r : Except Fault Unit}
    (hclosing : closing.Asks (.close e.app))
    (hfirst : Watches e.app false (firstDeadline e closing) first (.ok true))
    (hopening : Opens e opening r) : Relaunches e aborted ⟨closing, first, none, [], opening⟩ r
  | lost {closing ending : Step} {first second : List Step} {f : Fault}
    (hclosing : closing.Asks (.close e.app))
    (hfirst : Watches e.app false (firstDeadline e closing) first (.ok false))
    (hending : Ends e ending second (.error f)) :
    Relaunches e aborted ⟨closing, first, some ending, second, []⟩ (.error f)
  | ended {closing ending : Step} {first second opening : List Step} {r : Except Fault Unit}
    (hclosing : closing.Asks (.close e.app))
    (hfirst : Watches e.app false (firstDeadline e closing) first (.ok false))
    (hending : Ends e ending second (.ok ())) (hopening : Opens e opening r) :
    Relaunches e aborted ⟨closing, first, some ending, second, opening⟩ r

theorem relaunch_traced {σ : Type} [Desk σ] {s t : Stage σ} {e : Setup} {r : Except Fault Unit}
    (h : e.relaunch s = (r, t)) :
    ∃ p : Parts, Traced s p.steps t ∧ Relaunches e t.aborted p r := by
  unfold Setup.relaunch at h
  rcases hclose : Stage.call (.close e.app) s with ⟨outcome, u⟩
  obtain ⟨rfl, hentry⟩ := made_traced rfl hclose
  have hattempt : (Stage.call (.close e.app)).attempt s =
      (.ok outcome, s.afterCall (.close e.app)) := by
    simp only [Action.attempt, hclose]
  rw [Action.bind_of_ok hattempt] at h
  -- what came of the request to close is not looked at from here on
  have hclosing : (stepOf (.close e.app) s).Asks (.close e.app) := ⟨_, hentry⟩
  rcases Action.bind_cases h with ⟨f, hwait, rfl⟩ | ⟨gone, u, hwait, h⟩
  · obtain ⟨first, htraced, hwatches, haborted⟩ := windowBecomes_traced hwait
    refine ⟨_, ?_, .cut hclosing hwatches (haborted f rfl)⟩
    simpa [Parts.steps] using Traced.call _ htraced
  · obtain ⟨first, htraced, hwatches, -⟩ := windowBecomes_traced hwait
    cases gone with
    | true =>
      obtain ⟨opening, hopening, hopens⟩ := ensureOpen_traced h
      refine ⟨_, ?_, .closed hclosing hwatches hopens⟩
      simpa [Parts.steps] using
        Traced.call _ (htraced.trans ((traced_invalidateFront e.app u).trans hopening))
    | false =>
      rcases Action.bind_cases h with ⟨f, hterminate, rfl⟩ | ⟨_, v, hterminate, h⟩
      · obtain ⟨ending, second, hsecond, hends⟩ := terminate_traced hterminate
        refine ⟨_, ?_, .lost hclosing hwatches hends⟩
        simpa [Parts.steps] using Traced.call _ (htraced.trans hsecond)
      · obtain ⟨ending, second, hsecond, hends⟩ := terminate_traced hterminate
        obtain ⟨opening, hopening, hopens⟩ := ensureOpen_traced h
        refine ⟨_, ?_, .ended hclosing hwatches hends hopens⟩
        simpa [Parts.steps] using Traced.call _
          (htraced.trans (hsecond.trans ((traced_invalidateFront e.app v).trans hopening)))

/-! ## What a restart does -/

def isTerminate : Call → Bool
  | .terminate _ => true
  | _ => false

def isLaunch : Call → Bool
  | .launch .. => true
  | _ => false

/-- Where a failure comes from: an abort, a window that stays open or does not show up, or the call
that ends the process or the one that starts it. It is never that of the request to close. -/
def Blames (e : Setup) (p : Parts) (f : Fault) : Prop :=
  f.isCancelled = true ∨ f = survivedFault e ∨ f = e.missingFault ∨
    ∃ step ∈ p.steps, step.entry = .called (.terminate e.app) (.error f) ∨
      step.entry = .called (.launch e.app e.launcher) (.error f)

/-- What the calls of a restart have to do with what came of it. -/
structure Restarts (e : Setup) (p : Parts) (r : Except Fault Unit) (aborted : Bool) : Prop where
  asked : p.closing.Asks (.close e.app)
  /-- Whatever comes of the request to close, the window is waited for. -/
  first : ∃ result, Watches e.app false (firstDeadline e p.closing) p.first result
  looked_first : Looked e.app p.first
  /-- The process is ended exactly if all looks of the first wait, up to one that is over after the
  deadline, saw the window open. -/
  ending_iff : p.ending.isSome ↔ Expired e.app false (firstDeadline e p.closing) p.first
  /-- Without an abort, this is so if none of them saw it closed. -/
  ending_iff_open : aborted = false →
    (p.ending.isSome ↔ ∀ step ∈ p.first, ¬step.Sees e.app false)
  terminates : p.steps.filter (·.ofKind isTerminate) = p.ending.toList
  second : ∀ ending ∈ p.ending, ∃ result, Ends e ending p.second result
  looked_second : ∀ ending ∈ p.ending,
    ending.entry = .called (.terminate e.app) (.ok ()) → Looked e.app p.second
  survived : ∀ ending ∈ p.ending,
    Expired e.app false (ending.finish + nanoseconds e.config.closeTimeout) p.second →
      r = .error (survivedFault e) ∧ p.steps.filter (·.ofKind isLaunch) = []
  opening : p.opening = [] ∨ Opens e p.opening r
  looked_third : ∀ before launch third, p.opening = before ++ launch :: third →
    launch.entry = .called (.launch e.app e.launcher) (.ok ()) → Looked e.app third
  launches : (p.steps.filter (·.ofKind isLaunch)).length ≤ 1
  reopened : r = .ok () →
    (∃ closed ∈ p.first ++ p.second, closed.Sees e.app false) ∧
      ∃ opened ∈ p.opening, opened.Sees e.app true
  faults : ∀ f, r = .error f → Blames e p f

section Restarts

variable {e : Setup} {p : Parts} {r : Except Fault Unit} {aborted : Bool}
variable {ending : Step} {first second opening : List Step} {kind : Call → Bool}

theorem Idle.append {app : String} {steps pauses : List Step} (h : Idle app steps)
    (hpauses : ∀ pause ∈ pauses, pause.Waits) : Idle app (steps ++ pauses) := by
  intro step hstep
  rcases List.mem_append.1 hstep with hstep | hstep
  · exact h step hstep
  · exact .inr (hpauses step hstep)

theorem Idle.filter_eq_nil {app : String} {steps : List Step} (h : Idle app steps)
    (hlook : kind (.isOpen app) = false) (hwait : ∀ span, kind (.wait span) = false) :
    steps.filter (·.ofKind kind) = [] := by
  rw [List.filter_eq_nil_iff]
  intro step hstep
  rcases h step hstep with ⟨b, hsees⟩ | ⟨span, hwaits⟩
  · rw [Step.ofKind_of_asks (Step.asks_of_sees hsees), hlook]
    exact Bool.false_ne_true
  · rw [Step.ofKind_of_asks hwaits, hwait]
    exact Bool.false_ne_true

theorem Ends.asks (h : Ends e ending second r) : ending.Asks (.terminate e.app) := by
  cases h with
  | refused hending => exact ⟨_, hending⟩
  | gone hending => exact ⟨_, hending⟩
  | survived hending => exact ⟨_, hending⟩
  | cut hending => exact ⟨_, hending⟩

theorem Ends.idle (h : Ends e ending second r) : Idle e.app second := by
  cases h with
  | refused => exact List.forall_mem_nil _
  | gone _ hsecond => exact hsecond.idle
  | survived _ hsecond => exact hsecond.idle
  | cut _ hsecond => exact hsecond.idle

theorem Ends.closed (h : Ends e ending second (.ok ())) :
    ∃ step ∈ second, step.Sees e.app false := by
  cases h with
  | gone _ hsecond => exact hsecond.seen_iff.1 rfl

theorem Ends.expired (h : Ends e ending second r)
    (hexpired : Expired e.app false (ending.finish + nanoseconds e.config.closeTimeout) second) :
    r = .error (survivedFault e) := by
  cases h with
  | refused =>
    obtain ⟨step, hstep, -⟩ := hexpired.2
    exact absurd hstep List.not_mem_nil
  | gone _ hsecond => cases hsecond.expired_iff.2 hexpired
  | survived => rfl
  | cut _ hsecond => cases hsecond.expired_iff.2 hexpired

theorem Opens.opened (h : Opens e opening (.ok ())) : ∃ step ∈ opening, step.Sees e.app true := by
  cases h with
  | already hlook => exact ⟨_, List.mem_singleton_self _, hlook⟩
  | shown _ _ hthird =>
    obtain ⟨step, hstep, hsees⟩ := hthird.seen_iff.1 rfl
    exact ⟨step, by simp [hstep], hsees⟩

theorem Ends.fault {f : Fault} (h : Ends e ending second (.error f)) :
    f.isCancelled = true ∨ f = survivedFault e ∨
      ending.entry = .called (.terminate e.app) (.error f) := by
  cases h with
  | refused hending => exact .inr (.inr hending)
  | survived => exact .inr (.inl rfl)
  | cut _ hsecond => exact .inl hsecond.cancelled

theorem Opens.fault {f : Fault} (h : Opens e opening (.error f)) :
    f.isCancelled = true ∨ f = e.missingFault ∨
      ∃ step ∈ opening, step.entry = .called (.launch e.app e.launcher) (.error f) := by
  cases h with
  | refused _ hlaunch => exact .inr (.inr ⟨_, by simp, hlaunch⟩)
  | missing => exact .inr (.inl rfl)
  | cut _ _ hthird => exact .inl hthird.cancelled
  | shown _ _ _ _ hr => exact .inl (hr f rfl)

theorem Opens.blames {f : Fault} (h : Opens e p.opening (.error f)) : Blames e p f := by
  rcases h.fault with hcancelled | hmissing | ⟨step, hstep, hentry⟩
  · exact .inl hcancelled
  · exact .inr (.inr (.inl hmissing))
  · exact .inr (.inr (.inr ⟨step, by simp [Parts.steps, hstep], .inr hentry⟩))

theorem Ends.looked (h : Ends e ending second r)
    (hending : ending.entry = .called (.terminate e.app) (.ok ())) : Looked e.app second := by
  cases h with
  | refused hrefused =>
    rw [hrefused] at hending
    cases hending
  | gone _ hsecond => exact hsecond.looked
  | survived _ hsecond => exact hsecond.looked
  | cut _ hsecond => exact hsecond.looked

theorem Opens.shape (h : Opens e opening r) :
    Idle e.app opening ∨ ∃ look launch rest, opening = look :: launch :: rest ∧
      (∃ b, look.Sees e.app b) ∧ launch.Asks (.launch e.app e.launcher) ∧ Idle e.app rest := by
  cases h with
  | already hlook => exact .inl (List.forall_mem_singleton.2 (.inl ⟨_, hlook⟩))
  | refused hlook hlaunch =>
    exact .inr ⟨_, _, [], rfl, ⟨_, hlook⟩, ⟨_, hlaunch⟩, List.forall_mem_nil _⟩
  | missing hlook hlaunch hthird =>
    exact .inr ⟨_, _, _, rfl, ⟨_, hlook⟩, ⟨_, hlaunch⟩, hthird.idle⟩
  | cut hlook hlaunch hthird =>
    exact .inr ⟨_, _, _, rfl, ⟨_, hlook⟩, ⟨_, hlaunch⟩, hthird.idle⟩
  | shown hlook hlaunch hthird hpauses =>
    exact .inr ⟨_, _, _, rfl, ⟨_, hlook⟩, ⟨_, hlaunch⟩, hthird.idle.append hpauses⟩

theorem Opens.filter_terminates (h : Opens e opening r) :
    opening.filter (·.ofKind isTerminate) = [] := by
  rcases h.shape with hidle | ⟨look, launch, rest, rfl, ⟨b, hlook⟩, hlaunch, hidle⟩
  · exact hidle.filter_eq_nil rfl fun _ => rfl
  · rw [List.filter_cons, Step.ofKind_of_asks (Step.asks_of_sees hlook), List.filter_cons,
      Step.ofKind_of_asks hlaunch, hidle.filter_eq_nil rfl fun _ => rfl]
    rfl

theorem Opens.filter_launches (h : Opens e opening r) :
    (opening.filter (·.ofKind isLaunch)).length ≤ 1 := by
  rcases h.shape with hidle | ⟨look, launch, rest, rfl, ⟨b, hlook⟩, hlaunch, hidle⟩
  · rw [hidle.filter_eq_nil rfl fun _ => rfl]
    exact Nat.zero_le 1
  · rw [List.filter_cons, Step.ofKind_of_asks (Step.asks_of_sees hlook), List.filter_cons,
      Step.ofKind_of_asks hlaunch, hidle.filter_eq_nil rfl fun _ => rfl]
    exact Nat.le_refl 1

theorem Idle.not_launch {steps : List Step} {launch : Step} (h : Idle e.app steps)
    (hlaunch : launch.Asks (.launch e.app e.launcher)) : launch ∉ steps := by
  intro hmem
  have hkind : launch.ofKind isLaunch = true := Step.ofKind_of_asks hlaunch
  have hnone : steps.filter (·.ofKind isLaunch) = [] := h.filter_eq_nil rfl fun _ => rfl
  rw [List.filter_eq_nil_iff] at hnone
  exact hnone launch hmem hkind

theorem after_launch {before third rest : List Step} {look launch launch' : Step} {b : Bool}
    (hlook : look.Sees e.app b) (hrest : Idle e.app rest)
    (hlaunch : launch.Asks (.launch e.app e.launcher))
    (h : look :: launch' :: rest = before ++ launch :: third) :
    launch' = launch ∧ rest = third := by
  match before with
  | [] =>
    obtain ⟨rfl, -⟩ := List.cons.inj h
    exact absurd hlook (Step.not_sees_of_asks hlaunch nofun)
  | [_] =>
    obtain ⟨-, h⟩ := List.cons.inj h
    exact List.cons.inj h
  | _ :: _ :: before =>
    obtain ⟨-, h⟩ := List.cons.inj h
    obtain ⟨-, rfl⟩ := List.cons.inj h
    exact absurd (by simp) (hrest.not_launch hlaunch)

theorem Opens.looked (h : Opens e opening r) {before third : List Step} {launch : Step}
    (hopening : opening = before ++ launch :: third)
    (hlaunch : launch.entry = .called (.launch e.app e.launcher) (.ok ())) :
    Looked e.app third := by
  have hasks : launch.Asks (.launch e.app e.launcher) := ⟨_, hlaunch⟩
  cases h with
  | already hlook =>
    have hidle : Idle e.app [_] := List.forall_mem_singleton.2 (.inl ⟨_, hlook⟩)
    rw [hopening] at hidle
    exact absurd (by simp) (hidle.not_launch hasks)
  | refused hlook hrefused =>
    obtain ⟨rfl, -⟩ := after_launch hlook (List.forall_mem_nil _) hasks hopening
    rw [hrefused] at hlaunch
    cases hlaunch
  | missing hlook _ hthird =>
    obtain ⟨-, rfl⟩ := after_launch hlook hthird.idle hasks hopening
    exact hthird.looked
  | cut hlook _ hthird =>
    obtain ⟨-, rfl⟩ := after_launch hlook hthird.idle hasks hopening
    exact hthird.looked
  | shown hlook _ hthird hpauses =>
    obtain ⟨-, rfl⟩ := after_launch hlook (hthird.idle.append hpauses) hasks hopening
    obtain ⟨first, rest, b, rfl, hsees⟩ := hthird.looked
    exact ⟨first, _, b, rfl, hsees⟩

theorem filter_steps {closing : Step} {ended : Option Step}
    (hclosing : closing.Asks (.close e.app)) (hclose : kind (.close e.app) = false)
    (hfirst : Idle e.app first) (hsecond : Idle e.app second)
    (hlook : kind (.isOpen e.app) = false) (hwait : ∀ span, kind (.wait span) = false) :
    (Parts.steps ⟨closing, first, ended, second, opening⟩).filter (·.ofKind kind) =
      ended.toList.filter (·.ofKind kind) ++ opening.filter (·.ofKind kind) := by
  rw [Parts.steps, List.filter_cons, Step.ofKind_of_asks hclosing, hclose]
  simp only [List.filter_append, hfirst.filter_eq_nil hlook hwait,
    hsecond.filter_eq_nil hlook hwait, List.nil_append, Bool.false_eq_true, if_false]

/-! ### Way by way -/

section Ways

variable {closing : Step} {f : Fault} (hclosing : closing.Asks (.close e.app))

include hclosing

theorem restarts_cut
    (hfirst : Watches e.app false (firstDeadline e closing) first (.error f)) :
    Restarts e ⟨closing, first, none, [], []⟩ (.error f) true where
  asked := hclosing
  first := ⟨_, hfirst⟩
  looked_first := hfirst.looked
  ending_iff := by
    rw [← hfirst.expired_iff]
    simp
  ending_iff_open h := nomatch h
  terminates := filter_steps hclosing rfl hfirst.idle (List.forall_mem_nil _) rfl
    fun _ => rfl
  second _ h := nomatch h
  looked_second _ h := nomatch h
  survived _ h := nomatch h
  opening := .inl rfl
  looked_third _ _ _ h := by simp at h
  launches := by
    rw [filter_steps hclosing rfl hfirst.idle (List.forall_mem_nil _) rfl
      fun _ => rfl]
    exact Nat.zero_le 1
  reopened h := nomatch h
  faults := by
    rintro _ ⟨⟩
    exact .inl hfirst.cancelled

theorem restarts_closed (hfirst : Watches e.app false (firstDeadline e closing) first (.ok true))
    (hopening : Opens e opening r) :
    Restarts e ⟨closing, first, none, [], opening⟩ r aborted where
  asked := hclosing
  first := ⟨_, hfirst⟩
  looked_first := hfirst.looked
  ending_iff := by
    rw [← hfirst.expired_iff]
    simp
  ending_iff_open _ := by
    obtain ⟨step, hstep, hsees⟩ := hfirst.seen_iff.1 rfl
    simpa using ⟨step, hstep, hsees⟩
  terminates := by
    rw [filter_steps hclosing rfl hfirst.idle (List.forall_mem_nil _) rfl
      fun _ => rfl]
    exact hopening.filter_terminates
  second _ h := nomatch h
  looked_second _ h := nomatch h
  survived _ h := nomatch h
  opening := .inr hopening
  looked_third _ _ _ := hopening.looked
  launches := by
    rw [filter_steps hclosing rfl hfirst.idle (List.forall_mem_nil _) rfl
      fun _ => rfl]
    exact hopening.filter_launches
  reopened := by
    rintro rfl
    obtain ⟨step, hstep, hsees⟩ := hfirst.seen_iff.1 rfl
    exact ⟨⟨step, by simpa using hstep, hsees⟩, hopening.opened⟩
  faults := by
    rintro f rfl
    exact hopening.blames

variable (hfirst : Watches e.app false (firstDeadline e closing) first (.ok false))

include hfirst

theorem restarts_lost (hending : Ends e ending second (.error f)) :
    Restarts e ⟨closing, first, some ending, second, []⟩ (.error f) aborted where
  asked := hclosing
  first := ⟨_, hfirst⟩
  looked_first := hfirst.looked
  ending_iff := by simpa using hfirst.expired_iff.1 rfl
  ending_iff_open _ := by simpa using (hfirst.expired_iff.1 rfl).1
  terminates := by
    rw [filter_steps hclosing rfl hfirst.idle hending.idle rfl fun _ => rfl]
    simp [Step.ofKind_of_asks hending.asks, isTerminate]
  second := by
    rintro _ ⟨⟩
    exact ⟨_, hending⟩
  looked_second := by
    rintro _ ⟨⟩
    exact hending.looked
  survived := by
    rintro _ ⟨⟩ hexpired
    refine ⟨hending.expired hexpired, ?_⟩
    rw [filter_steps hclosing rfl hfirst.idle hending.idle rfl fun _ => rfl]
    simp [Step.ofKind_of_asks hending.asks, isLaunch]
  opening := .inl rfl
  looked_third _ _ _ h := by simp at h
  launches := by
    rw [filter_steps hclosing rfl hfirst.idle hending.idle rfl fun _ => rfl]
    simp [Step.ofKind_of_asks hending.asks, isLaunch]
  reopened h := nomatch h
  faults := by
    rintro _ ⟨⟩
    rcases hending.fault with hcancelled | hsurvived | hentry
    · exact .inl hcancelled
    · exact .inr (.inl hsurvived)
    · exact .inr (.inr (.inr ⟨ending, by simp [Parts.steps], .inl hentry⟩))

theorem restarts_ended (hending : Ends e ending second (.ok ())) (hopening : Opens e opening r) :
    Restarts e ⟨closing, first, some ending, second, opening⟩ r aborted where
  asked := hclosing
  first := ⟨_, hfirst⟩
  looked_first := hfirst.looked
  ending_iff := by simpa using hfirst.expired_iff.1 rfl
  ending_iff_open _ := by simpa using (hfirst.expired_iff.1 rfl).1
  terminates := by
    rw [filter_steps hclosing rfl hfirst.idle hending.idle rfl fun _ => rfl,
      hopening.filter_terminates]
    simp [Step.ofKind_of_asks hending.asks, isTerminate]
  second := by
    rintro _ ⟨⟩
    exact ⟨_, hending⟩
  looked_second := by
    rintro _ ⟨⟩
    exact hending.looked
  survived := by
    rintro _ ⟨⟩ hexpired
    cases hending.expired hexpired
  opening := .inr hopening
  looked_third _ _ _ := hopening.looked
  launches := by
    rw [filter_steps hclosing rfl hfirst.idle hending.idle rfl fun _ => rfl]
    simpa [Step.ofKind_of_asks hending.asks, isLaunch] using hopening.filter_launches
  reopened := by
    rintro rfl
    obtain ⟨step, hstep, hsees⟩ := hending.closed
    exact ⟨⟨step, by simp [hstep], hsees⟩, hopening.opened⟩
  faults := by
    rintro f rfl
    exact hopening.blames

end Ways

theorem restarts_of_relaunches (h : Relaunches e aborted p r) : Restarts e p r aborted := by
  cases h with
  | cut hclosing hfirst haborted =>
    rw [haborted]
    exact restarts_cut hclosing hfirst
  | closed hclosing hfirst hopening => exact restarts_closed hclosing hfirst hopening
  | lost hclosing hfirst hending => exact restarts_lost hclosing hfirst hending
  | ended hclosing hfirst hending hopening =>
    exact restarts_ended hclosing hfirst hending hopening

end Restarts

/-- Starting the application anew, on any desk and from any stage. -/
theorem relaunch_restarts {σ : Type} [Desk σ] (e : Setup) (s : Stage σ) :
    ∃ p : Parts, Traced s p.steps (e.relaunch s).2 ∧
      Adds s (e.relaunch s).2 (p.steps.map Step.entry) ∧
      (p.steps.Pairwise fun a b => a.finish ≤ b.start) ∧
      Restarts e p (e.relaunch s).1 (e.relaunch s).2.aborted := by
  rcases hrun : e.relaunch s with ⟨r, t⟩
  obtain ⟨p, htraced, hrelaunches⟩ := relaunch_traced hrun
  exact ⟨p, htraced, htraced.adds, htraced.ordered.2.2, restarts_of_relaunches hrelaunches⟩

end Playback.Proofs.Relaunching
