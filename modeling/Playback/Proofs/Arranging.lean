import Playback.Arbiter
import Playback.Proofs.Moves
/-!
# What the arbiter does

Each way an acquisition can go, with the calls it makes and the application it leaves in front. The
windows that are known stay the same, and only an acquisition that goes through changes who is in
front. Starting an application does not change it either, unless for nobody being in front.
-/

namespace Playback.Proofs.Arranging

open Effects Footprints Launching Performing Moves

variable {σ : Type}

def Unmoved : Effect σ := fun s _ t => t.windows = s.windows ∧ t.front = s.front

def Receding : Effect σ := fun s _ t =>
  t.windows = s.windows ∧ (t.front = s.front ∨ t.front = none)

theorem composable_unmoved : Composable (Unmoved (σ := σ)) where
  refl _ := ⟨rfl, rfl⟩
  trans hst htu := ⟨htu.1.trans hst.1, htu.2.trans hst.2⟩

theorem composable_receding : Composable (Receding (σ := σ)) where
  refl _ := ⟨rfl, .inl rfl⟩
  trans hst htu := by
    refine ⟨htu.1.trans hst.1, ?_⟩
    rcases htu.2 with htu | htu
    · rw [htu]
      exact hst.2
    · exact .inr htu

theorem receding_invalidateFront (app : String) (s : Stage σ) (o : Option Fault) :
    Receding s o (Arbiter.invalidateFront app s) := by
  unfold Arbiter.invalidateFront
  split
  · exact ⟨rfl, .inr rfl⟩
  · exact ⟨rfl, .inl rfl⟩

variable [Desk σ]

theorem unmoved_call (c : Call) : Obeys Unmoved (Stage.call c : Action (Stage σ) c.Reply) := by
  intro s
  unfold Stage.call
  split
  · exact ⟨rfl, rfl⟩
  · obtain ⟨clock, lock, rivals, h⟩ := afterCall_eq s c
    rw [h]
    exact ⟨rfl, rfl⟩

theorem receding_call (c : Call) : Obeys Receding (Stage.call c : Action (Stage σ) c.Reply) :=
  (unmoved_call c).mono fun _ _ _ h => ⟨h.1, .inl h.2⟩

theorem locking_unmoved : Locking (Unmoved (σ := σ)) :=
  .of_relocked (waiting_of_calls composable_unmoved (fun _ _ => ⟨rfl, rfl⟩) unmoved_call)
    (fun _ h => h) fun _ _ _ => ⟨rfl, rfl⟩

theorem restarting_receding (e : Setup) : Restarting e (Receding (σ := σ)) :=
  restarting_of_calls composable_receding (fun _ _ => ⟨rfl, .inl rfl⟩) id receding_call
    fun s => receding_invalidateFront e.app s none

/-! ## Clearing the screen -/

/-- The calls that go to these windows: each is looked at and minimized if it is open. -/
inductive Clears : List String → List Entry → Prop
  | done : Clears [] []
  | closed {app : String} {rest : List String} {news : List Entry} (h : Clears rest news) :
      Clears (app :: rest) (.called (.isOpen app) (.ok false) :: news)
  | minimized {app : String} {rest : List String} {news : List Entry} (reply : Except Fault Unit)
      (h : Clears rest news) :
      Clears (app :: rest)
        (.called (.isOpen app) (.ok true) :: .called (.minimize app) reply :: news)

theorem look_eq (app : String) (s : Stage σ) :
    ∃ b t, Stage.isOpen app s = (b, t) ∧ Adds s t [.called (.isOpen app) (.ok b)] ∧
      Unmoved s none t := by
  obtain ⟨b, hb⟩ : ∃ b, (Call.isOpen app).settle (Desk.respond (.isOpen app) s.desk).1 = .ok b := by
    unfold Call.settle
    dsimp only
    split
    · exact ⟨_, rfl⟩
    · exact ⟨_, rfl⟩
  have hcall : Stage.call (.isOpen app) s = (.ok b, s.afterCall (.isOpen app)) := by
    rw [← hb]
    rfl
  have hunmoved := unmoved_call (.isOpen app) s
  rw [hcall] at hunmoved
  refine ⟨b, s.afterCall (.isOpen app), ?_, ?_, hunmoved⟩
  · simp only [Stage.isOpen, hcall]
  · have hjournal := journal_afterCall s (.isOpen app)
    rw [hb] at hjournal
    exact adds_cons hjournal

theorem minimizeAll_cons {app : String} {s t : Stage σ} {b : Bool}
    (hlook : Stage.isOpen app s = (b, t)) (rest : List String) :
    Arbiter.minimizeAll (app :: rest) s =
      if b then (do let _ ← (Stage.call (.minimize app)).attempt; Arbiter.minimizeAll rest) t
      else Arbiter.minimizeAll rest t := by
  let look : Action (Stage σ) Bool := fun s => (.ok (Stage.isOpen app s).1, (Stage.isOpen app s).2)
  have hstart : look s = (.ok b, t) := by
    simp only [look, hlook]
  have hcons : Arbiter.minimizeAll (app :: rest) s = (look >>= fun isOpen =>
      if isOpen then (do let _ ← (Stage.call (.minimize app)).attempt; Arbiter.minimizeAll rest)
      else Arbiter.minimizeAll rest) s := rfl
  rw [hcons, Action.bind_of_ok hstart]
  cases b <;> rfl

theorem clears_minimizeAll (apps : List String) (s : Stage σ) :
    ∃ t news, Arbiter.minimizeAll apps s = (.ok (), t) ∧ Adds s t news ∧ Unmoved s none t ∧
      Clears apps news := by
  have htrans := @(composable_unmoved (σ := σ)).trans
  induction apps generalizing s with
  | nil => exact ⟨s, [], rfl, adds_of_journal_eq rfl, ⟨rfl, rfl⟩, .done⟩
  | cons app rest ih =>
    obtain ⟨b, t, hlook, hadds, hunmoved⟩ := look_eq app s
    rw [minimizeAll_cons hlook]
    cases b with
    | false =>
      obtain ⟨u, news, hrest, haddsu, hunmovedu, hclears⟩ := ih t
      exact ⟨u, _, hrest, hadds.trans haddsu, htrans hunmoved hunmovedu, .closed hclears⟩
    | true =>
      obtain ⟨reply, u, hcall, haddsu⟩ := call_made (c := .minimize app) rfl t
      have hunmovedu : Unmoved t none u := obeys_of_eq (unmoved_call _) hcall
      obtain ⟨v, news, hrest, haddsv, hunmovedv, hclears⟩ := ih u
      rw [if_pos rfl, Action.bind_of_ok (attempt_eq hcall)]
      exact ⟨v, _, hrest, hadds.trans (haddsu.trans haddsv),
        htrans hunmoved (htrans hunmovedu hunmovedv), .minimized reply hclears⟩

/-! ## Bringing an application to the front -/

def others (app : String) (windows : Dict Unit) : List String :=
  windows.keys.filter (· != app)

/-- How the application is brought to the front, and who is there afterwards. -/
inductive Fronts (app : String) (windows : Dict Unit) :
    Option String → List Entry → Except Fault Unit → Option String → Prop
  | already : Fronts app windows (some app) [] (.ok ()) (some app)
  | unfocused {front : Option String} {clearing : List Entry} {f : Fault}
      (hfront : front ≠ some app) (hwindow : windows.contains app = true)
      (hclears : Clears (others app windows) clearing) :
      Fronts app windows front (clearing ++ [.called (.focus app) (.error f)]) (.error f) front
  | focused {front : Option String} {clearing : List Entry}
      (hfront : front ≠ some app) (hwindow : windows.contains app = true)
      (hclears : Clears (others app windows) clearing) :
      Fronts app windows front (clearing ++ [.called (.focus app) (.ok ())]) (.ok ()) (some app)
  | windowless {front : Option String} {clearing : List Entry}
      (hfront : front ≠ some app) (hwindow : windows.contains app = false)
      (hclears : Clears (others app windows) clearing) :
      Fronts app windows front clearing (.ok ()) (some app)

theorem fronts_bringToFront (app : String) (s : Stage σ) :
    ∃ r t news, Arbiter.bringToFront app s = (r, t) ∧ Adds s t news ∧ t.windows = s.windows ∧
      Fronts app s.windows s.front news r t.front := by
  have hfront : Action.gets Stage.front s = (.ok s.front, s) := rfl
  have hwindows : Action.gets Stage.windows s = (.ok s.windows, s) := rfl
  unfold Arbiter.bringToFront
  rw [Action.bind_of_ok hfront]
  by_cases hin : s.front = some app
  · refine ⟨.ok (), s, [], ?_, adds_of_journal_eq rfl, rfl, ?_⟩
    · rw [hin]
      simp [Action.pure_apply]
    · rw [hin]
      exact .already
  have hne : (s.front != some app) = true := bne_iff_ne.2 hin
  obtain ⟨t, clearing, hclear, hadds, ⟨hsame, hfrontt⟩, hclears⟩ :=
    clears_minimizeAll (s.windows.keys.filter (· != app)) s
  rw [if_pos hne, Action.bind_of_ok hwindows, Action.bind_of_ok hclear]
  cases hwindow : s.windows.contains app with
  | false =>
    rw [if_neg Bool.false_ne_true]
    exact ⟨.ok (), { t with front := some app }, clearing, rfl, hadds, hsame,
      .windowless hin hwindow hclears⟩
  | true =>
    obtain ⟨reply, u, hcall, haddsu⟩ := call_made (c := .focus app) rfl t
    obtain ⟨hsameu, hfrontu⟩ : Unmoved t none u := obeys_of_eq (unmoved_call _) hcall
    rw [if_pos rfl]
    cases reply with
    | error f =>
      rw [Action.bind_of_error hcall]
      refine ⟨.error f, u, _, rfl, hadds.trans haddsu, hsameu.trans hsame, ?_⟩
      rw [hfrontu.trans hfrontt]
      exact .unfocused hin hwindow hclears
    | ok _ =>
      rw [Action.bind_of_ok hcall]
      exact ⟨.ok (), { u with front := some app }, _, rfl, hadds.trans haddsu,
        hsameu.trans hsame, .focused hin hwindow hclears⟩

/-! ## Acquiring the input -/

/-- How an acquisition goes: the lock is not obtained, or the application is brought to the front
once the lock is there. -/
inductive Acquires (app : String) (windows : Dict Unit) :
    Option String → List Entry → Except Fault Lease → Option String → Prop
  | refused {front : Option String} {waiting : List Entry} {f : Fault}
      (hwaiting : ∀ entry ∈ waiting, Within waits entry) :
      Acquires app windows front waiting (.error f) front
  | locked {front front' : Option String} {waiting news : List Entry} {r : Except Fault Unit}
      (lease : Lease) (hwaiting : ∀ entry ∈ waiting, Within waits entry)
      (hfronts : Fronts app windows front news r front') :
      Acquires app windows front (waiting ++ news) (r.map fun _ => lease) front'

theorem acquires_acquire (app : String) (s : Stage σ) :
    ∃ r t news, Arbiter.acquire app s = (r, t) ∧ Adds s t news ∧ t.windows = s.windows ∧
      Acquires app s.windows s.front news r t.front := by
  have hlocking : Locking (Trails (σ := σ) waits fun _ => True) :=
    .of_relocked (waiting_trails (fun _ => trivial) fun _ => rfl) (fun _ h => h.keep rfl)
      fun _ _ _ => trails_nil rfl fun _ _ => trivial
  have hunmoved := obeys_acquireLock locking_unmoved app s
  obtain ⟨waiting, hadds, hwaiting, -⟩ := obeys_acquireLock hlocking app s
  unfold Arbiter.acquire
  rcases hlock : Arbiter.acquireLock app s with ⟨r, t⟩
  rw [hlock] at hunmoved hadds
  obtain ⟨hsame, hfront⟩ : t.windows = s.windows ∧ t.front = s.front := hunmoved
  cases r with
  | error f =>
    rw [Action.bind_of_error hlock]
    refine ⟨.error f, t, waiting, rfl, hadds, hsame, ?_⟩
    rw [hfront]
    exact .refused hwaiting
  | ok lease =>
    rw [Action.bind_of_ok hlock]
    obtain ⟨r, u, news, hbring, haddsu, hsameu, hfronts⟩ := fronts_bringToFront app t
    rw [hsame, hfront] at hfronts
    rw [Action.bind_of_ok (attempt_eq hbring)]
    cases r with
    | ok _ =>
      exact ⟨.ok lease, u, _, rfl, Adds.trans hadds haddsu, hsameu.trans hsame,
        .locked lease hwaiting hfronts⟩
    | error f =>
      exact ⟨.error f, u.dropLease lease, _, rfl, Adds.trans hadds haddsu, hsameu.trans hsame,
        .locked lease hwaiting hfronts⟩

end Playback.Proofs.Arranging
