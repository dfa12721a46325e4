import Playback.Proofs.Career
import Playback.Proofs.Running
/-!
# The causes of failures

What an engine asks for may be refused at any time. As long as no refusal poses as a cancellation, a
command fails after an abort only, or on its own account, or with a call that it cannot do without;
and the application is not started or ended for a reason of its own. Samples of a color, attempts to
read and deliveries may fail without anything failing with them.
-/

namespace Playback.Proofs.Causes

open Effects Footprints Launching Performing Moves Running

variable {σ : Type}

def manages : Call → Bool
  | .launch .. => true
  | .terminate _ => true
  | .close _ => true
  | _ => false

/-- As long as the desk is in a good state, it stays in one, and no call that it refuses poses as a
cancelled one, those aside that start or end the application: it tells of an abort then. -/
structure NeverCancels [Desk σ] (good : σ → Prop) : Prop where
  keeps : ∀ c d, good d → good (Desk.respond c d).2
  uncancelled : ∀ c d f, good d → manages c = false → (Desk.respond c d).1.outcome = .error f →
    f.isCancelled = true → (Desk.respond c d).1.abort ≠ .none

abbrev Cause := Fault → List Entry → Prop

/-- A failure is due to an abort, or it has such a cause. -/
def Due (cause : Cause) (f : Fault) (s : Stage σ) : Prop :=
  f.isCancelled = true ∧ s.aborted = true ∨ cause f s.journal

def Dues (good : σ → Prop) (cause : Cause) : Effect σ := fun s o t =>
  good s.desk → good t.desk ∧ ∀ f, o = some f → Due cause f t

section Effects

variable {good : σ → Prop} {cause : Cause}

theorem composable_dues : Composable (Dues good cause) where
  refl _ hgood := ⟨hgood, by rintro f ⟨⟩⟩
  trans hst htu hgood := htu (hst hgood).1

theorem dues_of_desk_eq {s t : Stage σ} (h : t.desk = s.desk) : Dues good cause s none t :=
  fun hgood => ⟨h ▸ hgood, by rintro f ⟨⟩⟩

theorem dues_of_cause {s : Stage σ} {f : Fault} (h : cause f s.journal) :
    Dues good cause s (some f) s :=
  fun hgood => ⟨hgood, by rintro g ⟨⟩; exact .inr h⟩

theorem dues_ensureRunning :
    Obeys (Dues good cause) (Stage.ensureRunning : Action (Stage σ) Unit) := by
  intro s
  unfold Stage.ensureRunning
  split
  · rename_i haborted
    exact fun hgood => ⟨hgood, by rintro f ⟨⟩; exact .inl ⟨rfl, haborted⟩⟩
  · exact dues_of_desk_eq rfl

variable [Desk σ] (hneverCancels : NeverCancels good)

include hneverCancels

theorem good_call (c : Call) {s : Stage σ} (hgood : good s.desk) :
    good (Stage.call c s).2.desk := by
  unfold Stage.call
  split
  · exact hgood
  · obtain ⟨clock, lock, rivals, h⟩ := afterCall_eq s c
    rw [h]
    exact hneverCancels.keeps c s.desk hgood

theorem good_of_call {c : Call} {s t : Stage σ} {r : Except Fault c.Reply} (hgood : good s.desk)
    (hcall : Stage.call c s = (r, t)) : good t.desk := by
  have hkept := good_call hneverCancels c hgood
  rwa [hcall] at hkept

theorem aborted_of_call {c : Call} {s t : Stage σ} {f : Fault} (hgood : good s.desk)
    (hc : manages c = false) (hcall : Stage.call c s = (.error f, t))
    (hf : f.isCancelled = true) : t.aborted = true := by
  rcases call_error hcall with ⟨-, haborted⟩ | ⟨-, hrefused, ht, -⟩
  · exact haborted
  · obtain ⟨clock, lock, rivals, h⟩ := afterCall_eq s c
    have habort := hneverCancels.uncancelled c s.desk f hgood hc hrefused hf
    rw [ht, h]
    simp [habort]

theorem dues_call {c : Call}
    (hcause : ∀ f rest, (manages c = false → f.isCancelled = false) →
      cause f (.called c (.error f) :: rest)) :
    Obeys (Dues good cause) (Stage.call c : Action (Stage σ) c.Reply) := by
  intro s hgood
  refine ⟨good_call hneverCancels c hgood, fun f hf => ?_⟩
  rcases hcall : Stage.call c s with ⟨r, t⟩
  rw [hcall] at hf
  obtain rfl := faultOf_eq_some.1 hf
  by_cases hposes : manages c = false ∧ f.isCancelled = true
  · exact .inl ⟨hposes.2, aborted_of_call hneverCancels hgood hposes.1 hcall hposes.2⟩
  -- the call was not made at all, or its refusal is the last entry
  rcases call_error hcall with haborted | ⟨-, -, -, hadds⟩
  · exact .inl haborted
  · have hjournal : t.journal = .called c (.error f) :: s.journal := hadds
    right
    show cause f t.journal
    rw [hjournal]
    exact hcause f _ fun hc => Bool.eq_false_iff.2 fun hf => hposes ⟨hc, hf⟩

theorem dues_tried {c : Call} (hc : manages c = false) :
    Obeys (Lenient (Dues good cause)) (Stage.call c : Action (Stage σ) c.Reply) := by
  intro s
  refine ⟨fun hgood => ⟨good_call hneverCancels c hgood, by rintro f ⟨⟩⟩,
    fun f hf hcancelled hgood => ?_⟩
  refine ⟨good_call hneverCancels c hgood, fun g hg => ?_⟩
  rw [hf] at hg
  obtain rfl := Option.some.inj hg
  rcases hcall : Stage.call c s with ⟨r, t⟩
  rw [hcall] at hf
  obtain rfl := faultOf_eq_some.1 hf
  exact .inl ⟨hcancelled, aborted_of_call hneverCancels hgood hc hcall hcancelled⟩

theorem waiting_dues : Waiting (Dues good cause) where
  toComposable := composable_dues
  running := dues_ensureRunning
  wait span := by
    intro s hgood
    refine ⟨good_call hneverCancels _ hgood, fun f hf => .inl ?_⟩
    exact (waiting_aborts (σ := σ)).wait span s f hf

end Effects

/-! ## Commands -/

def vital : Call → Bool
  | .press => true
  | .release => true
  | c => needs c

/-- Why a command fails without an abort. -/
inductive CommandCause (e : Setup) (c : Command) : Cause
  | refusal {f : Fault} {journal : List Entry} (hf : Refusal f) : CommandCause e c f journal
  | unseen {p : Position} {expected : Color} {point : Point} {journal : List Entry}
      (hc : c = .color p expected) : CommandCause e c (e.colorFault expected point) journal
  | refused {call : Call} {f : Fault} {rest : List Entry} (hvital : vital call = true)
      (hf : f.isCancelled = false) : CommandCause e c f (.called call (.error f) :: rest)

theorem isCancelled_of_refusal {f : Fault} (h : Refusal f) : f.isCancelled = false := by
  cases f <;> first | rfl | exact h.elim

theorem CommandCause.isCancelled {e : Setup} {c : Command} {f : Fault} {journal : List Entry}
    (h : CommandCause e c f journal) : f.isCancelled = false := by
  cases h with
  | refusal hf => exact isCancelled_of_refusal hf
  | unseen => rfl
  | refused _ hf => exact hf

theorem vital_of_needs {c : Call} (h : needs c = true) : vital c = true := by
  cases c <;> first | exact h | rfl

theorem manages_of_vital {c : Call} (h : vital c = true) : manages c = false := by
  cases c <;> first | rfl | cases h

theorem manages_of_tries {c : Call} (h : tries c = true) : manages c = false := by
  cases c <;> first | rfl | cases h

section Engines

variable [Desk σ] {good : σ → Prop} (hneverCancels : NeverCancels good) (e : Setup)

include hneverCancels

section Playing

variable {cause : Cause} (hvital : ∀ call f rest, vital call = true → f.isCancelled = false →
  cause f (.called call (.error f) :: rest))

include hvital

omit e in
theorem dues_vital {call : Call} (hcall : vital call = true) :
    Obeys (Dues good cause) (Stage.call call : Action (Stage σ) call.Reply) :=
  dues_call hneverCancels fun f rest hf => hvital call f rest hcall (hf (manages_of_vital hcall))

omit e in
theorem playing_dues (hrefusal : ∀ f journal, Refusal f → cause f journal) :
    Playing (Dues good cause) where
  toLocking := .of_relocked (waiting_dues hneverCancels) (fun _ h => h) fun f hf s =>
    dues_of_cause (hrefusal f s.journal hf)
  needed _ hcall := dues_vital hneverCancels hvital (vital_of_needs hcall)
  tried _ hcall := dues_tried hneverCancels (manages_of_tries hcall)
  shown _ _ := dues_of_desk_eq rfl
  fronted _ _ := dues_of_desk_eq rfl

end Playing

/-- A command fails after an abort, on its own account, or with a call it cannot do without. -/
theorem dues_perform (c : Command) :
    Obeys (Dues good (CommandCause e c)) (e.perform c : Action (Memory × Stage σ) Unit) := by
  have hvital : ∀ call f rest, vital call = true → f.isCancelled = false →
      CommandCause e c f (.called call (.error f) :: rest) := fun _ _ _ => .refused
  have hplaying := playing_dues hneverCancels hvital fun _ _ => .refusal
  refine obeys_perform hplaying e c ?_ ?_ ?_
  · exact fun p expected hc point s => dues_of_cause (.unseen hc)
  · exact fun _ _ => obeys_dragPoints hplaying.toActing e (dues_vital hneverCancels hvital rfl)
      (dues_vital hneverCancels hvital rfl)
  · exact fun _ _ _ => dues_tried hneverCancels rfl

/-! ## Runs -/

inductive StartCause (e : Setup) : Cause
  | unlaunched {f : Fault} {rest : List Entry} :
      StartCause e f (.called (.launch e.app e.launcher) (.error f) :: rest)
  | missing {journal : List Entry} : StartCause e e.missingFault journal
  | unended {f : Fault} {rest : List Entry} :
      StartCause e f (.called (.terminate e.app) (.error f) :: rest)
  | survived {journal : List Entry} : StartCause e (survivedFault e) journal

theorem restarting_dues : Restarting e (Dues good (StartCause e)) where
  toWaiting := waiting_dues hneverCancels
  look := dues_tried hneverCancels rfl
  launch := dues_call hneverCancels fun _ _ _ => .unlaunched
  invalidate s := by
    refine dues_of_desk_eq ?_
    unfold Arbiter.invalidateFront
    split <;> rfl
  missing _ := dues_of_cause .missing
  close s hgood := ⟨good_call hneverCancels (.close e.app) hgood, by rintro f ⟨⟩⟩
  terminate := dues_call hneverCancels fun _ _ _ => .unended
  survived _ := dues_of_cause .survived

theorem working_dues : Working e (Dues good (StartCause e)) where
  toRestarting := restarting_dues hneverCancels e
  note _ _ := dues_of_desk_eq rfl
  signal s hgood := ⟨good_call hneverCancels _ hgood, by rintro f ⟨⟩⟩
  dispatches c s t outcome hdispatch := by
    obtain ⟨memory, stage, hperform, hstage⟩ := perform_of_dispatch hdispatch
    have hdues := dues_perform hneverCancels e c
      (s.engine.memory, s.stage.record (noted e (.dispatched c)))
    rw [hperform] at hdues
    rw [hstage]
    refine ⟨fun hgood => ⟨(hdues hgood).1, by rintro f ⟨⟩⟩, fun f hf hcancelled hgood => ?_⟩
    obtain ⟨hkept, hdue⟩ := hdues hgood
    refine ⟨hkept, fun g hg => ?_⟩
    obtain rfl := Option.some.inj hg
    rcases hdue f (faultOf_eq_some.2 hf) with haborted | hcause
    · exact .inl haborted
    · rw [hcause.isCancelled] at hcancelled
      cases hcancelled

/-- What a run is stopped by is an abort, or the application cannot be started or ended. -/
theorem due_of_run {s : Session σ} (hgood : good s.stage.desk) {f : Fault}
    (h : (e.run s).1 = .error f) : Due (StartCause e) f (e.run s).2.stage :=
  (obeys_run (working_dues hneverCancels e) s hgood).2 f (faultOf_eq_some.2 h)

end Engines

/-! ## Rehearsals -/

structure ScriptsNoCancel (r : Rehearsal) : Prop where
  hooks : ∀ hook ∈ r.hooks, ∀ f, hook.mishap = .fail f → f.isCancelled = false
  undeliverable : ∀ f, r.undeliverable = some f → f.isCancelled = false

/-- An answer of a rehearsal that keeps what is made to fail, and that poses as cancelled only with
an abort. -/
structure CancelsByAbort {α : Type} (r : Rehearsal) (answer : Response α × Rehearsal) : Prop where
  hooks : answer.2.hooks = r.hooks
  undeliverable : answer.2.undeliverable = r.undeliverable
  uncancelled : ∀ f, answer.1.outcome = .error f → f.isCancelled = true → answer.1.abort ≠ .none

theorem mem_of_mishaps {ms : List Mishap} {f : Fault} (h : (Rehearsal.mishaps ms).1 = some f) :
    .fail f ∈ ms := by
  induction ms with
  | nil => cases h
  | cons m rest ih =>
    cases m with
    | fail g =>
      cases h
      exact List.mem_cons_self
    | abort => exact List.mem_cons_of_mem _ (ih h)
    | stall => cases h
    | steal => exact List.mem_cons_of_mem _ (ih h)

section Rehearsals

variable {α : Type} {r : Rehearsal}

def Uncancelled (outcome : Except Fault α) : Prop := ∀ f, outcome = .error f → f.isCancelled = false

theorem uncancelled_ok (a : α) : Uncancelled (.ok a) := by rintro f ⟨⟩

theorem cancelsByAbort_of_uncancelled {response : Response α} {r' : Rehearsal}
    (h : Uncancelled response.outcome) (hhooks : r'.hooks = r.hooks)
    (hundeliverable : r'.undeliverable = r.undeliverable) :
    CancelsByAbort r (response, r') := by
  refine ⟨hhooks, hundeliverable, fun f hf hcancelled => ?_⟩
  rw [h f hf] at hcancelled
  cases hcancelled

theorem cancelsByAbort_logged {kind : String} {c : Call}
    {act : Rehearsal → Except Fault α × Rehearsal} (h : ScriptsNoCancel r)
    (houtcome : ∀ r, Uncancelled (act r).1)
    (hact : ∀ r, (act r).2.hooks = r.hooks ∧ (act r).2.undeliverable = r.undeliverable) :
    CancelsByAbort r (r.logged kind c act) := by
  unfold Rehearsal.logged
  dsimp only
  -- a hook makes the call fail, it stalls the call, or the script is played
  split
  · rename_i f hfailure
    obtain ⟨hook, hhook, hmishap⟩ := List.mem_map.1 (mem_of_mishaps hfailure)
    refine cancelsByAbort_of_uncancelled ?_ rfl rfl
    rintro g ⟨⟩
    exact h.hooks hook (List.mem_filter.1 hhook).1 f hmishap
  · split
    · exact ⟨rfl, rfl, fun _ _ _ => AbortRequest.noConfusion⟩
    · exact ⟨(hact _).1, (hact _).2, fun _ _ _ => AbortRequest.noConfusion⟩
  · exact cancelsByAbort_of_uncancelled (houtcome _) (hact _).1 (hact _).2

theorem cancelsByAbort_onWindow {app kind : String} {c : Call}
    {scripted : ScriptedWindow → ScriptedWindow}
    {fixed : FixedWindow → Except Fault Unit × FixedWindow} (h : ScriptsNoCancel r)
    (hfixed : ∀ w, Uncancelled (fixed w).1) :
      CancelsByAbort r (r.onWindow app kind c scripted fixed) := by
  unfold Rehearsal.onWindow
  split
  · exact cancelsByAbort_of_uncancelled (hfixed _) rfl rfl
  · exact cancelsByAbort_logged h (fun _ => uncancelled_ok ()) fun _ => ⟨rfl, rfl⟩
  · exact cancelsByAbort_logged h (fun _ => uncancelled_ok ()) fun _ => ⟨rfl, rfl⟩

theorem cancelsByAbort_done (h : ScriptsNoCancel r) (kind : String) (c : Call) (a : α) :
    CancelsByAbort r (r.logged kind c fun r => (.ok a, r)) :=
  cancelsByAbort_logged h (fun _ => uncancelled_ok a) fun _ => ⟨rfl, rfl⟩

theorem uncancelled_clientRect (app : String) (r : Rehearsal) : Uncancelled (r.clientRect app) := by
  unfold Rehearsal.clientRect FixedWindow.clientRect
  intro f hf
  split at hf
  · split at hf <;> cases hf
    rfl
  · split at hf <;> cases hf
    rfl
  · cases hf
    rfl

theorem uncancelled_close (w : FixedWindow) : Uncancelled w.close.1 := by
  unfold FixedWindow.close
  split <;> rintro f ⟨⟩
  rfl

theorem uncancelled_launch (w : FixedWindow) (l : Launchers) (launcher : String) :
    Uncancelled (w.launch l launcher).1 := by
  have hstart : Uncancelled (l.start launcher) := by
    unfold Launchers.start
    intro f hf
    split at hf
    · cases hf
      rfl
    · split at hf <;> cases hf
      rfl
  unfold FixedWindow.launch
  split
  · exact uncancelled_ok ()
  · rename_i f hf
    rintro g ⟨⟩
    exact hstart f hf

theorem cancelsByAbort_respond (h : ScriptsNoCancel r) (c : Call) :
    CancelsByAbort r (Rehearsal.respond c r) := by
  have hfixed : ∀ w : FixedWindow, Uncancelled ((.ok (), w) : Except Fault Unit × FixedWindow).1 :=
    fun _ => uncancelled_ok ()
  cases c with
  | pixel point =>
    simp only [Rehearsal.respond]
    refine cancelsByAbort_logged h (fun r => ?_) fun r => ?_
    · unfold Rehearsal.samplePixel
      split <;> exact uncancelled_ok _
    · unfold Rehearsal.samplePixel
      split <;> exact ⟨rfl, rfl⟩
  | screenshot region =>
    simp only [Rehearsal.respond]
    exact cancelsByAbort_logged h (fun _ => uncancelled_ok _) fun _ => ⟨rfl, rfl⟩
  | recognize picture mode =>
    simp only [Rehearsal.respond]
    split
    · refine cancelsByAbort_logged h (fun r => ?_) fun r => ?_
      · unfold Rehearsal.readText
        split <;> exact uncancelled_ok _
      · unfold Rehearsal.readText
        split <;> exact ⟨rfl, rfl⟩
    · exact cancelsByAbort_of_uncancelled (by rintro f ⟨⟩; rfl) rfl rfl
  | keep folder file picture =>
    refine cancelsByAbort_of_uncancelled (uncancelled_ok ()) ?_ ?_
    · unfold Rehearsal.keepPicture
      split <;> rfl
    · unfold Rehearsal.keepPicture
      split <;> rfl
  | isOpen app =>
    simp only [Rehearsal.respond, Rehearsal.lookAtWindow]
    split <;> exact cancelsByAbort_of_uncancelled (uncancelled_ok _) rfl rfl
  | clientRect app => exact cancelsByAbort_of_uncancelled (uncancelled_clientRect app r) rfl rfl
  | focus app => exact cancelsByAbort_onWindow h hfixed
  | minimize app => exact cancelsByAbort_onWindow h hfixed
  | close app => exact cancelsByAbort_onWindow h uncancelled_close
  | terminate app => exact cancelsByAbort_onWindow h uncancelled_close
  | launch app launcher =>
    exact cancelsByAbort_onWindow h fun w => uncancelled_launch w r.launchers launcher
  | deliver results =>
    simp only [Rehearsal.respond]
    split
    · rename_i f hf
      refine cancelsByAbort_of_uncancelled ?_ rfl rfl
      rintro g ⟨⟩
      exact h.undeliverable f hf
    · split
      · exact cancelsByAbort_done h _ _ ()
      · exact cancelsByAbort_of_uncancelled (uncancelled_ok ()) rfl rfl
  | signal app =>
    simp only [Rehearsal.respond]
    split
    · exact cancelsByAbort_done h _ _ ()
    · exact cancelsByAbort_of_uncancelled (uncancelled_ok ()) rfl rfl
  | wait span => exact cancelsByAbort_of_uncancelled (uncancelled_ok ()) rfl rfl
  | _ => exact cancelsByAbort_done h _ _ ()

end Rehearsals

theorem neverCancels_scriptsNoCancel : NeverCancels ScriptsNoCancel where
  keeps c r h := by
    have hanswer := cancelsByAbort_respond h c
    exact ⟨hanswer.hooks ▸ h.hooks, hanswer.undeliverable ▸ h.undeliverable⟩
  uncancelled c r f h _ := (cancelsByAbort_respond h c).uncancelled f

end Playback.Proofs.Causes
