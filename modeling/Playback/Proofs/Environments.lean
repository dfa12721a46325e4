import Playback.Proofs.Namespaces
import Playback.Proofs.Receiver
/-!
# Engines in another environment

An engine looks into its environment for the secrets it types and for nothing else. So it does the
same in any two environments that agree on the variables of its own application, whatever names its
recordings give to secrets.
-/

namespace Playback.Proofs.Environments

open Career Names Namespaces Receiver

variable {σ : Type}

def moved (e : Setup) (env : Dict String) : Setup := { e with env }

/-! ## What has nothing to do with the environment -/

section Anywhere

variable (e : Setup) (env : Dict String)

theorem config_moved : (moved e env).config = e.config := rfl

theorem today_moved : (moved e env).today = e.today := rfl

theorem loadAll_moved (recordings : List Recording) :
    (moved e env).loadAll recordings = e.loadAll recordings := by
  induction recordings with
  | nil => rfl
  | cons r rest ih =>
    simp only [Setup.loadAll, ih]
    rfl

theorem expand_moved : (moved e env).expand = e.expand := by
  funext history job
  simp only [Setup.expand, loadAll_moved]
  rfl

theorem noteDropped_moved (dropped : List (Job × Fault)) :
    ((moved e env).noteDropped dropped : Action (Session σ) Unit) = e.noteDropped dropped := by
  induction dropped with
  | nil => rfl
  | cons d rest ih =>
    simp only [Setup.noteDropped, ih]
    rfl

variable [Desk σ]

theorem awaitWindow_moved (wanted : Bool) (deadline : Nat) (s : Stage σ) :
    (moved e env).awaitWindow wanted deadline s = e.awaitWindow wanted deadline s := by
  fun_induction Setup.awaitWindow e wanted deadline s with
  | case1 s t hlook =>
    rw [awaitWindow_eq]
    simp only [moved, hlook, if_true]
  | case2 s seen t hlook hseen hlate =>
    rw [awaitWindow_eq]
    simp only [moved, hlook, if_neg hseen, if_pos hlate]
  | case3 s seen t hlook hseen hlate f u hpause =>
    rw [awaitWindow_eq]
    simp only [moved, hlook, if_neg hseen, if_neg hlate, hpause]
  | case4 s seen t hlook hseen hlate u hpause _ ih =>
    rw [awaitWindow_eq]
    simp only [moved, hlook, if_neg hseen, if_neg hlate, hpause]
    exact ih

theorem windowBecomes_moved (wanted : Bool) (timeout : Nat) :
    ((moved e env).windowBecomes wanted timeout : Action (Stage σ) Bool) =
      e.windowBecomes wanted timeout :=
  funext fun s => awaitWindow_moved e env wanted _ s

theorem ensureOpen_moved :
    ((moved e env).ensureOpen : Action (Stage σ) Unit) = e.ensureOpen := by
  simp only [Setup.ensureOpen, Setup.start, windowBecomes_moved]
  rfl

theorem relaunch_moved : ((moved e env).relaunch : Action (Stage σ) Unit) = e.relaunch := by
  simp only [Setup.relaunch, Setup.terminate, windowBecomes_moved, ensureOpen_moved]
  rfl

theorem next_moved : ((moved e env).next : Action (Session σ) Unit) = e.next := by
  simp only [Setup.next, expand_moved, noteDropped_moved, ensureOpen_moved]
  rfl

theorem giveUp_moved (f : Fault) :
    ((moved e env).giveUp f : Action (Session σ) Unit) = e.giveUp f := by
  simp only [Setup.giveUp, next_moved]
  rfl

theorem beginAgain_moved : ((moved e env).beginAgain : Action (Session σ) Unit) = e.beginAgain := by
  simp only [Setup.beginAgain, relaunch_moved, next_moved]
  rfl

theorem recover_moved (f : Fault) :
    ((moved e env).recover f : Action (Session σ) Unit) = e.recover f := by
  have hretry : ((moved e env).retry f : Action (Session σ) Unit) = e.retry f := by
    funext s
    simp only [Setup.retry, giveUp_moved, beginAgain_moved]
    rfl
  simp only [Setup.recover, hretry, giveUp_moved]

theorem follow_moved (c : Command) (outcome : Except Fault Unit) :
    ((moved e env).follow c outcome : Action (Session σ) Unit) = e.follow c outcome := by
  cases outcome with
  | error f => exact recover_moved e env f
  | ok _ =>
    cases c with
    | webhook _ =>
      simp only [Setup.follow, Setup.proceed, Setup.retire, next_moved]
      rfl
    | _ => rfl

theorem surface_moved (operation : String) (lease : Lease) :
    ((moved e env).surface operation lease : Surface (Stage σ)) = e.surface operation lease := rfl

theorem scroll_moved (spec : ScrollSpec) (lease : Lease) :
    ((moved e env).scroll spec lease : Action (Memory × Stage σ) Unit) = e.scroll spec lease := by
  funext s
  simp only [Setup.scroll, surface_moved, config_moved, today_moved]

end Anywhere

/-! ## Secrets -/

section Agreeing

variable [Desk σ] {e : Setup} {env : Dict String} (h : AgreeFor e.app e.env env)

include h

omit [Desk σ] in
theorem typedText_moved (q : Question) (text : WriteText) :
    (moved e env).typedText q text = e.typedText q text := by
  cases text with
  | secret name => exact (resolve_congr h name).symm
  | _ => rfl

theorem use_moved (lease : Lease) (c : Command) :
    ((moved e env).use lease c : Action (Memory × Stage σ) Unit) = e.use lease c := by
  cases c with
  | write text =>
    simp only [Setup.use, typedText_moved h]
    rfl
  | scroll spec => simp only [Setup.use, scroll_moved]
  | _ => rfl

theorem perform_moved (c : Command) :
    ((moved e env).perform c : Action (Memory × Stage σ) Unit) = e.perform c := by
  cases c with
  | paramChange params => rfl
  | webhook params => rfl
  | _ =>
    simp only [Setup.perform, use_moved h]
    rfl

theorem step_moved (c : Command) :
    ((moved e env).step c : Action (Session σ) Unit) = e.step c := by
  simp only [Setup.step, Setup.dispatch, perform_moved h, follow_moved]
  rfl

theorem performAll_moved (s : Session σ) : (moved e env).performAll s = e.performAll s := by
  fun_induction e.performAll s with
  | case1 s hnone => exact performAll_nil _ hnone
  | case2 s c commands hcommands f t hstep =>
    rw [performAll_cons _ hcommands, step_moved h, pop, hstep]
  | case3 s c commands hcommands t hstep hnone =>
    rw [performAll_cons _ hcommands, step_moved h, pop, hstep]
    exact performAll_nil _ hnone
  | case4 s c commands hcommands t hstep hmore _ ih =>
    rw [performAll_cons _ hcommands, step_moved h, pop, hstep]
    exact ih

/-- Nothing that is asked of an engine tells the two environments apart. -/
theorem serve_moved (request : Request) :
    (serve (moved e env) request : Action (Session σ) Unit) = serve e request := by
  cases request with
  | add job =>
    simp only [serve, Setup.add, next_moved]
    rfl
  | next => exact next_moved e env
  | run =>
    have hall : ((moved e env).performAll : Action (Session σ) Unit) = e.performAll :=
      funext (performAll_moved h)
    simp only [serve, Setup.run, hall, next_moved, ensureOpen_moved]

end Agreeing

/-! ## The variables of an application -/

variable [Desk σ]

/-- A secret stands for its name after the stem of the application, or for the name as it is if that
belongs to the application already. So its variable belongs to the application, and stands for
itself. Whatever an engine is asked, it does the same in two environments that agree on the
variables of its application. -/
theorem secrets_kept_apart :
    (∀ app name v, StandsFor app name v ↔ Secret.variableName app name = v) ∧
    (∀ app name, Belongs app (Secret.variableName app name)) ∧
    (∀ app name, Secret.variableName app (Secret.variableName app name) =
      Secret.variableName app name) ∧
    ∀ (e : Setup) env, AgreeFor e.app e.env env →
      ∀ request, (serve (moved e env) request : Action (Session σ) Unit) = serve e request :=
  ⟨fun _ _ _ => standsFor_iff, belongs_variableName, variableName_variableName,
    fun _ _ h => serve_moved h⟩

def vault (rivalKey : String) : Dict String :=
  .ofList [("APP_KEY", "sesame"), ("RIVAL_KEY", rivalKey)]

def keeper : Setup := { bare with env := vault "first" }.setup "app" hasty

def typing : Session Rehearsal :=
  ⟨⟨{ Agenda.fresh with commands := [.write (.secret "KEY")] }, .fresh⟩, stageWith true true⟩

theorem agreeFor_vault (first second : String) : AgreeFor "app" (vault first) (vault second) := by
  intro v hv
  have hne : v ≠ "RIVAL_KEY" := by
    rintro rfl
    revert hv
    decide +kernel
  show (Dict.insert _ "RIVAL_KEY" first).get? v = (Dict.insert _ "RIVAL_KEY" second).get? v
  rw [get?_insert_of_ne _ hne, get?_insert_of_ne _ hne]

/-- The engine types its own secret, and the other application's makes no difference to it. -/
theorem rivalKey_unread :
    keeper.typedText .empty (.secret "KEY") = .ok "sesame" ∧
      (vault "first").get? "RIVAL_KEY" ≠ (vault "second").get? "RIVAL_KEY" ∧
      AgreeFor keeper.app keeper.env (vault "second") ∧
      serve (moved keeper (vault "second")) .run typing = serve keeper .run typing :=
  have hagree : AgreeFor keeper.app keeper.env (vault "second") := agreeFor_vault "first" "second"
  have hserve := secrets_kept_apart.2.2.2 keeper (vault "second") hagree .run
  ⟨by decide +kernel, by decide +kernel, hagree, congrFun hserve typing⟩

end Playback.Proofs.Environments
