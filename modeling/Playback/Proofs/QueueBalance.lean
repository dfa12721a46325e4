import Playback.Proofs.Career
import Playback.Proofs.Story
/-!
# The balance of a queue

The work of an engine takes jobs off the front of its queue and puts none there; a job that is added
stands behind the others. Nothing is assumed of the agenda, so this holds of an engine in any state.
-/

namespace Playback.Proofs.QueueBalance

open Footprints Launching Performing Moves Career Story

variable {σ : Type}

/-- If the entry is a note, it is one of the application. -/
def NotedBy (app : String) : Entry → Prop
  | .noted who _ => who = app
  | _ => True

/-- Only jobs at the front leave the queue, and none joins it. -/
structure Releases (e : Setup) (a : Agenda) (news : List Entry) (b : Agenda) : Prop where
  own : ∀ entry ∈ news, NotedBy e.app entry
  joined_eq : joined news = []
  settled : left news ++ b.pending = a.pending

section Agendas

variable {e : Setup} {a b c : Agenda} {news later : List Entry} {r outcome : Except Fault Unit}

theorem Releases.trans (h : Releases e a news b) (hlater : Releases e b later c) :
    Releases e a (news ++ later) c := by
  refine ⟨fun entry hentry => ?_, ?_, ?_⟩
  · exact (List.mem_append.1 hentry).elim (h.own entry) (hlater.own entry)
  · rw [joined_append, h.joined_eq, hlater.joined_eq, List.nil_append]
  · calc left (news ++ later) ++ c.pending
        = left news ++ (left later ++ c.pending) := by rw [left_append, List.append_assoc]
      _ = left news ++ b.pending := by rw [hlater.settled]
      _ = a.pending := h.settled

theorem Releases.congr {a' b' : Agenda} (h : Releases e a news b) (ha : a'.pending = a.pending)
    (hb : b'.pending = b.pending) : Releases e a' news b' :=
  ⟨h.own, h.joined_eq, by rw [ha, hb, h.settled]⟩

theorem releases_of_still (hown : ∀ entry ∈ news, NotedBy e.app entry)
    (hstill : ∀ entry ∈ news, Still entry) (hpending : b.pending = a.pending) :
    Releases e a news b :=
  ⟨hown, joined_of_still hstill, by rw [left_of_still hstill, List.nil_append, hpending]⟩

theorem releases_of_within {kind : Call → Bool} (h : ∀ entry ∈ news, Within kind entry)
    (hpending : b.pending = a.pending) : Releases e a news b := by
  refine releases_of_still (fun entry hentry => ?_) (fun entry hentry => ?_) hpending
  · exact (h entry hentry).cases (fun _ _ _ => trivial) fun _ _ => trivial
  · exact (h entry hentry).cases (fun _ _ _ => trivial) fun _ _ => trivial

theorem releases_note {n : Note} (hn : Still (noted e n)) (hpending : b.pending = a.pending) :
    Releases e a [noted e n] b :=
  releases_of_still (List.forall_mem_singleton.2 rfl) (List.forall_mem_singleton.2 hn) hpending

theorem releases_departure {n : Job → Note} (hjoined : ∀ job, joined [noted e (n job)] = [])
    (hleft : ∀ job, left [noted e (n job)] = [job]) (a : Agenda) :
    Releases e a (departure e n a.pending) a.dropFirst := by
  have hdrop : a.dropFirst.pending = a.pending.tail := rfl
  refine ⟨forall_mem_departure (P := NotedBy e.app) (fun _ => rfl) trivial a.pending, ?_, ?_⟩
  · refine filterMap_departure (fun job => ?_) rfl a.pending
    exact List.filterMap_eq_nil_iff.1 (hjoined job) _ (List.mem_singleton_self _)
  · rw [hdrop]
    match a.pending with
    | [] => rfl
    | [job] =>
      show left ([noted e (n job)] ++ [signalled e]) ++ [] = [job]
      rw [List.append_nil, left_append, hleft]
      rfl
    | job :: next :: rest => exact congrArg (· ++ next :: rest) (hleft job)

theorem releases_of_advances (h : Advances e a news r b) : Releases e a news b := by
  induction h with
  | idle => exact releases_of_still (by simp) (by simp) rfl
  | @found a job _ x _ _ _ _ hopening =>
    have hexpanded : Releases e a [noted e (.expanded job x.commands)] a :=
      releases_note trivial rfl
    exact hexpanded.trans (releases_of_within hopening rfl)
  | dropped _ _ _ ih => exact (releases_departure (fun _ => rfl) (fun _ => rfl) _).trans ih

theorem releases_of_follows {command : Command} (h : Follows e command a outcome news r b) :
    Releases e a news b := by
  have hretrying : Releases e a [noted e (.retrying (a.retries + 1))] a.beginAgain :=
    releases_note trivial rfl
  cases h with
  | onward => exact releases_of_still (by simp) (by simp) rfl
  | retired _ hnext =>
    have hnext : Releases e a.dropFirst _ b := (releases_of_advances hnext).congr rfl rfl
    exact (releases_departure (fun _ => rfl) (fun _ => rfl) a).trans hnext
  | cut => exact releases_of_still (by simp) (by simp) rfl
  | abandoned _ _ hnext =>
    exact (releases_departure (fun _ => rfl) (fun _ => rfl) a).trans (releases_of_advances hnext)
  | stuck _ _ hnews => exact hretrying.trans (releases_of_within hnews rfl)
  | begunAgain _ _ hrelaunch hnext =>
    have hrelaunched := hretrying.trans (releases_of_within hrelaunch rfl)
    exact hrelaunched.trans (releases_of_advances hnext)

theorem releases_of_steps {command : Command} (h : Steps e command a news r b) :
    Releases e a news b := by
  cases h with
  | refused => exact releases_of_still (by simp) (by simp) rfl
  | @performed _ _ _ outcome _ _ _ hwork hfollow hpause =>
    obtain ⟨kind, hwithin⟩ := within_of_performs hwork
    have hdispatched : Releases e a [noted e (.dispatched command)] a := releases_note trivial rfl
    have hworked : Releases e a _ a := releases_of_within hwithin rfl
    have hperformed : Releases e a [noted e (.performed command outcome)] a :=
      releases_note trivial rfl
    have hfollowed := releases_of_follows hfollow
    have hpaused : Releases e b _ b := releases_of_within hpause rfl
    simpa using (hdispatched.trans hworked).trans (hperformed.trans (hfollowed.trans hpaused))

end Agendas

/-! ## Requests -/

section Sessions

variable [Desk σ] (e : Setup)

theorem releases_next (s : Session σ) :
    ∃ news, Adds s (e.next s).2 news ∧ Releases e s.agenda news (e.next s).2.agenda := by
  obtain ⟨news, hnews, hnext⟩ := realizes_next e s
  exact ⟨news, hnews, releases_of_advances hnext⟩

theorem releases_begin (s : Session σ) :
    ∃ news, Adds s (begin e s).2 news ∧ Releases e s.agenda news (begin e s).2.agenda := by
  unfold begin
  split
  · obtain ⟨r, t, opening, ht, hadds, hagenda, hopening, -⟩ :=
      adds_onStage (footprint_ensureOpen e) s
    rw [ht]
    exact ⟨opening, hadds, releases_of_within hopening (congrArg _ hagenda)⟩
  · split
    · exact releases_next e s
    · exact ⟨[], adds_of_journal_eq rfl, releases_of_still (by simp) (by simp) rfl⟩

theorem releases_step {s t : Session σ} {c : Command} {commands : List Command}
    {r : Except Fault Unit} (hstep : e.step c (pop s commands) = (r, t)) :
    ∃ news, Adds s t news ∧ Releases e s.agenda news t.agenda := by
  obtain ⟨news, hnews, hsteps⟩ := steps_of_pop e hstep
  exact ⟨news, hnews, (releases_of_steps hsteps).congr rfl rfl⟩

theorem releases_of_stands {s t : Session σ} (h : Stands e s t) :
    ∃ news, Adds s t news ∧ Releases e s.agenda news t.agenda := by
  induction h with
  | begun hbegin =>
    have h := releases_begin e s
    rwa [hbegin] at h
  | onward _ _ hstep ih =>
    obtain ⟨old, hold, hreleases⟩ := ih
    obtain ⟨news, hnews, hlater⟩ := releases_step e hstep
    exact ⟨_, hold.trans hnews, hreleases.trans hlater⟩

theorem releases_run (s : Session σ) :
    ∃ news, Adds s (e.run s).2 news ∧ Releases e s.agenda news (e.run s).2.agenda := by
  rcases run_cases e s with ⟨f, t, hbegin, hrun⟩ | ⟨t, u, c, commands, f, ht, -, hstep, hrun⟩ |
    ⟨t, ht, -, hrun⟩
  · rw [hrun, ← hbegin]
    exact releases_begin e s
  · obtain ⟨old, hold, hreleases⟩ := releases_of_stands e ht
    obtain ⟨news, hnews, hlater⟩ := releases_step e hstep
    rw [hrun]
    exact ⟨_, hold.trans hnews, hreleases.trans hlater⟩
  · obtain ⟨news, hnews, hreleases⟩ := releases_of_stands e ht
    rw [hrun]
    exact ⟨news, hnews, hreleases.congr rfl rfl⟩

/-- A job that is added joins the queue as the last one, before the engine does anything else. -/
theorem queued_of_add (job : Job) (s : Session σ) :
    ∃ news, Adds s (e.add job s).2 (noted e (.queued job) :: news) ∧
      Releases e (s.agenda.queue job) news (e.add job s).2.agenda := by
  have hadds : Adds s (joining e job s) [noted e (.queued job)] := adds_cons rfl
  rw [add_eq]
  split
  · obtain ⟨news, hnews, hreleases⟩ := releases_next e (joining e job s)
    exact ⟨news, hadds.trans hnews, hreleases⟩
  · exact ⟨[], hadds, releases_of_still (by simp) (by simp) rfl⟩

end Sessions

end Playback.Proofs.QueueBalance
