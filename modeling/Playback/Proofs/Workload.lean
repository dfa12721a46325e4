import Mathlib.Algebra.GroupWithZero.Nat
import Mathlib.Data.List.MinMax
import Mathlib.Order.Bounds.Basic
import Playback.Proofs.Accounts
import Playback.Proofs.Spelling
/-!
# The work of a run

A run refills the list it takes its commands from: with the commands of the next job, and with those
of the same job again after a timeout. It ends nevertheless. How many commands it may still perform
is at most the number of commands at hand, and for every job that waits the length of its longest
expansion, as often as the job may yet be expanded. Performing a command lowers that number, and
nothing raises it.
-/

namespace Playback.Proofs.Workload

open Footprints Launching Performing Moves Career Queue Story Retries Accounts Expanding Spelling
  Names

variable {σ : Type}

/-- How often a job may be expanded in one run. -/
def limit (config : Config) : Nat := max 1 config.maxRetries

theorem limit_pos (config : Config) : 0 < limit config := Nat.le_max_left 1 config.maxRetries

/-! ## The longest expansion -/

/-- How many commands a job has after these operations; none if it cannot be expanded. -/
def size (e : Setup) (job : Job) (history : List String) : Nat :=
  match e.expand history job with
  | .ok x => x.commands.length
  | .error _ => 0

/-- No operation, and each operation of the catalog. -/
def histories (e : Setup) : List (List String) :=
  [] :: e.config.catalog.operations.entries.map fun entry => [entry.1]

def longest (e : Setup) (job : Job) : Nat := ((histories e).map (size e job)).foldr max 0

section Sizes

variable {e : Setup} {job : Job} {history other : List String} {x : Expansion}

theorem size_of_expand (h : e.expand history job = .ok x) :
    size e job history = x.commands.length := by
  rw [size, h]

/-- An expansion depends on the history only through the screen that was reached. -/
theorem size_of_previousScreen (h : e.previousScreen? history = e.previousScreen? other) :
    size e job history = size e job other := by
  have hexpand : e.expand history job = e.expand other job := by
    unfold Setup.expand
    rw [h]
  rw [size, hexpand, size]

theorem exists_history (e : Setup) (history : List String) :
    ∃ known ∈ histories e, e.previousScreen? known = e.previousScreen? history := by
  cases hscreen : e.previousScreen? history with
  | none => exact ⟨[], List.mem_cons_self, rfl⟩
  | some screen =>
    obtain ⟨operation, -, hreached⟩ := Option.bind_eq_some_iff.1 hscreen
    obtain ⟨feature, hfeature, rfl⟩ := Option.map_eq_some_iff.1 hreached
    obtain ⟨name, -, hentry, hsame⟩ := spelling_of_get hfeature
    have htrim : Text.trim name = name := trim_of_sameName hsame (trim_trim operation)
    refine ⟨[name], ?_, ?_⟩
    · apply List.mem_cons_of_mem
      exact List.mem_map.2 ⟨(name, feature), get?_eq_some_iff.1 hentry, rfl⟩
    · show (e.config.catalog.get? name).map (·.screen) = some feature.screen
      rw [get_of_trimmed htrim hentry, Option.map_some]

theorem foldr_max_mem (ns : List Nat) : ns.foldr max 0 ∈ 0 :: ns := by
  induction ns with
  | nil => exact List.mem_cons_self
  | cons n ns ih =>
    rw [List.foldr_cons]
    rcases max_choice n (ns.foldr max 0) with h | h
    · rw [h]
      exact List.mem_cons_of_mem 0 List.mem_cons_self
    · rw [h]
      rcases List.mem_cons.1 ih with h0 | hmem
      · rw [h0]
        exact List.mem_cons_self
      · exact List.mem_cons_of_mem 0 (List.mem_cons_of_mem n hmem)

theorem size_le_longest (e : Setup) (job : Job) (history : List String) :
    size e job history ≤ longest e job := by
  obtain ⟨known, hknown, hscreen⟩ := exists_history e history
  rw [← size_of_previousScreen hscreen]
  exact List.le_max_of_le' 0 (List.mem_map_of_mem hknown) (Nat.le_refl _)

theorem longest_isGreatest (e : Setup) (job : Job) :
    IsGreatest (Set.range (size e job)) (longest e job) := by
  constructor
  · rcases List.mem_cons.1 (foldr_max_mem ((histories e).map (size e job))) with h0 | hmem
    · refine ⟨[], Nat.le_antisymm (size_le_longest e job []) ?_⟩
      rw [longest, h0]
      exact Nat.zero_le _
    · obtain ⟨history, -, hsize⟩ := List.mem_map.1 hmem
      exact ⟨history, hsize⟩
  · rintro n ⟨history, rfl⟩
    exact size_le_longest e job history

theorem length_le_longest (h : e.expand history job = .ok x) :
    x.commands.length ≤ longest e job := by
  rw [← size_of_expand h]
  exact size_le_longest e job history

theorem loadAll_setup {w v : Setting} (app : String) (config : Config) (h : w.files = v.files)
    (recordings : List Recording) :
    (w.setup app config).loadAll recordings = (v.setup app config).loadAll recordings := by
  induction recordings with
  | nil => rfl
  | cons r rest ih =>
    have hfirst : (w.setup app config).loadRecording r = (v.setup app config).loadRecording r :=
      congrArg (fun files => (w.setup app config).mappings.load files app r.kind r.name) h
    rw [Setup.loadAll, Setup.loadAll, hfirst, ih]

theorem expand_setup {w v : Setting} {app : String} {config : Config} (hfiles : w.files = v.files)
    (h : (w.setup app config).expand history job = .ok x) :
    ∃ y, (v.setup app config).expand history job = .ok y ∧
      y.commands.length = x.commands.length := by
  obtain ⟨hx, screen, lead, own, operation, hoperation, hscreen, hlead, hown, hcommands⟩ :=
    expand_eq_ok_iff.1 h
  rw [loadAll_setup app config hfiles] at hlead
  rw [← loadAll_singleton, loadAll_setup app config hfiles, loadAll_singleton] at hown
  let params := (v.setup app config).params job operation
  let commands : List Command := .paramChange params :: lead ++ own ++ [.webhook params]
  refine ⟨⟨x.operation, commands⟩, expand_eq_ok_iff.2 ?_, ?_⟩
  · exact ⟨hx, screen, lead, own, operation, hoperation, hscreen, hlead, hown, rfl⟩
  · rw [hcommands]
    simp [commands]

theorem length_le_longest_of_files {w v : Setting} {app : String} {config : Config}
    (hfiles : w.files = v.files) (h : (w.setup app config).expand history job = .ok x) :
    x.commands.length ≤ longest (v.setup app config) job := by
  obtain ⟨y, hy, hlength⟩ := expand_setup hfiles h
  rw [← hlength]
  exact length_le_longest hy

end Sizes

/-! ## Commands that may yet be performed -/

/-- What these jobs may take if each of them is expanded as often as it may be. -/
def fullBound (e : Setup) (jobs : List Job) : Nat :=
  (jobs.map fun job => limit e.config * longest e job).sum

/-- What these jobs may take if the first of them may be expanded so many times. -/
def jobsBound (e : Setup) (spare : Nat) : List Job → Nat
  | [] => 0
  | job :: rest => spare * longest e job + fullBound e rest

/-- What an agenda may take before the first job is expanded. -/
def unexpandedBound (e : Setup) (a : Agenda) : Nat :=
  jobsBound e (limit e.config - a.retries) a.pending

/-- What an agenda may take with the commands at hand. -/
def remainingBound (e : Setup) (a : Agenda) : Nat :=
  a.commands.length + jobsBound e (limit e.config - 1 - a.retries) a.pending

def isDispatch : Entry → Bool
  | .noted _ (.dispatched _) => true
  | _ => false

def dispatches (story : List Entry) : Nat := story.countP isDispatch

section Bounds

variable {e : Setup} {a b : Agenda} {c : Command} {news : List Entry}
variable {outcome r : Except Fault Unit}

theorem jobsBound_limit (e : Setup) (jobs : List Job) :
    jobsBound e (limit e.config) jobs = fullBound e jobs := by
  cases jobs with
  | nil => rfl
  | cons job rest => rfl

theorem jobsBound_mono (e : Setup) {n m : Nat} (h : n ≤ m) (jobs : List Job) :
    jobsBound e n jobs ≤ jobsBound e m jobs := by
  cases jobs with
  | nil => exact Nat.le_refl 0
  | cons job rest => exact Nat.add_le_add_right (Nat.mul_le_mul_right _ h) _

theorem fullBound_tail_le (e : Setup) (n : Nat) (jobs : List Job) :
    fullBound e jobs.tail ≤ jobsBound e n jobs := by
  cases jobs with
  | nil => exact Nat.le_refl 0
  | cons job rest => exact Nat.le_add_left _ _

theorem unexpandedBound_dropFirst (e : Setup) (a : Agenda) :
    unexpandedBound e a.dropFirst = fullBound e a.pending.tail :=
  jobsBound_limit e a.pending.tail

theorem remainingBound_of_advances (h : Advances e a news r b)
    (hretries : a.retries < limit e.config) :
    b.retries < limit e.config ∧ remainingBound e b ≤ unexpandedBound e a := by
  induction h with
  | @idle a hpending =>
    refine ⟨hretries, ?_⟩
    simp [remainingBound, unexpandedBound, hpending, jobsBound]
  | @found a job rest x opening r hpending hexpand _ _ =>
    refine ⟨hretries, ?_⟩
    have hspare : limit e.config - a.retries = limit e.config - 1 - a.retries + 1 := by omega
    have hlength := length_le_longest hexpand
    simp only [remainingBound, unexpandedBound, hpending, jobsBound, hspare, Nat.succ_mul]
    omega
  | @dropped a b job rest f news r hpending hexpand _ ih =>
    obtain ⟨hlt, hle⟩ := ih (limit_pos e.config)
    refine ⟨hlt, hle.trans ?_⟩
    rw [unexpandedBound_dropFirst]
    exact fullBound_tail_le e _ a.pending

theorem remainingBound_of_follows (h : Follows e c a outcome news r b)
    (hretries : a.retries < limit e.config) :
    b.retries < limit e.config ∧ remainingBound e b ≤ remainingBound e a := by
  have hrest : fullBound e a.pending.tail ≤ remainingBound e a :=
    (fullBound_tail_le e _ a.pending).trans (Nat.le_add_left _ _)
  have hcount : e.config.maxRetries ≤ limit e.config := Nat.le_max_right 1 _
  cases h with
  | onward => exact ⟨hretries, Nat.le_refl _⟩
  | cut => exact ⟨hretries, Nat.le_refl _⟩
  | retired _ hnext =>
    obtain ⟨hlt, hle⟩ := remainingBound_of_advances hnext (limit_pos e.config)
    exact ⟨hlt, (hle.trans_eq (unexpandedBound_dropFirst e a)).trans hrest⟩
  | abandoned _ _ hnext =>
    obtain ⟨hlt, hle⟩ := remainingBound_of_advances hnext (limit_pos e.config)
    exact ⟨hlt, (hle.trans_eq (unexpandedBound_dropFirst e a)).trans hrest⟩
  | stuck _ hlimit =>
    refine ⟨by simp only [Agenda.beginAgain]; omega, ?_⟩
    have hmono := jobsBound_mono e (n := limit e.config - 1 - (a.retries + 1))
      (m := limit e.config - 1 - a.retries) (by omega) a.pending
    simp only [remainingBound, Agenda.beginAgain, List.length_nil]
    omega
  | begunAgain _ hlimit _ hnext =>
    obtain ⟨hlt, hle⟩ := remainingBound_of_advances hnext (by simp only [Agenda.beginAgain]; omega)
    refine ⟨hlt, hle.trans ?_⟩
    have hspare : limit e.config - (a.retries + 1) = limit e.config - 1 - a.retries := by omega
    simp only [unexpandedBound, remainingBound, Agenda.beginAgain, hspare]
    omega

theorem remainingBound_pop {commands : List Command} (e : Setup) (h : a.commands = c :: commands) :
    remainingBound e a = remainingBound e { a with commands } + 1 := by
  simp only [remainingBound, h, List.length_cons]
  omega

theorem dispatches_append (old news : List Entry) :
    dispatches (old ++ news) = dispatches old + dispatches news :=
  List.countP_append

theorem dispatches_of_within {kind : Call → Bool} (h : ∀ entry ∈ news, Within kind entry) :
    dispatches news = 0 := by
  rw [dispatches, List.countP_eq_zero]
  intro entry hentry
  exact (h entry hentry).cases (fun _ _ _ => Bool.false_ne_true) fun _ _ => Bool.false_ne_true

theorem dispatches_departure {n : Job → Note} (hn : ∀ job, isDispatch (noted e (n job)) = false)
    (jobs : List Job) : dispatches (departure e n jobs) = 0 := by
  apply List.countP_eq_zero.2
  refine forall_mem_departure (fun job => ?_) Bool.false_ne_true jobs
  rw [hn job]
  exact Bool.false_ne_true

theorem dispatches_of_advances (h : Advances e a news r b) : dispatches news = 0 := by
  induction h with
  | idle => rfl
  | @found a job rest x opening r _ _ hopening _ =>
    have hopens := dispatches_of_within hopening
    simpa [dispatches, isDispatch, noted] using hopens
  | dropped _ _ _ ih =>
    rw [dispatches_append, ih, dispatches_departure (n := (.abandoned · _)) fun _ => rfl]

theorem dispatches_of_follows (h : Follows e c a outcome news r b) : dispatches news = 0 := by
  cases h with
  | onward => rfl
  | cut => rfl
  | retired _ hnext =>
    rw [dispatches_append, dispatches_of_advances hnext,
      dispatches_departure (n := .retired) fun _ => rfl]
  | abandoned _ _ hnext =>
    rw [dispatches_append, dispatches_of_advances hnext,
      dispatches_departure (n := (.abandoned · _)) fun _ => rfl]
  | stuck _ _ hrelaunch =>
    have hreopens := dispatches_of_within hrelaunch
    simpa [dispatches, isDispatch, noted] using hreopens
  | @begunAgain _ relaunch _ _ _ _ _ hrelaunch hnext =>
    have hreopens := dispatches_of_within hrelaunch
    rw [dispatches_append, dispatches_of_advances hnext]
    simpa [dispatches, isDispatch, noted] using hreopens

theorem remainingBound_of_steps {commands : List Command}
    (h : Steps e c { a with commands } news r b)
    (hcommands : a.commands = c :: commands) (hretries : a.retries < limit e.config) :
    b.retries < limit e.config ∧ remainingBound e b < remainingBound e a ∧
      dispatches news + remainingBound e b ≤ remainingBound e a := by
  rw [remainingBound_pop e hcommands]
  cases h with
  | refused => exact ⟨hretries, Nat.lt_succ_self _, by simp [dispatches]⟩
  | @performed work later pause outcome _ _ _ hwork hfollow hpause _ =>
    obtain ⟨hlt, hle⟩ := remainingBound_of_follows hfollow hretries
    obtain ⟨kind, hwithin⟩ := within_of_performs hwork
    have hone : dispatches (noted e (.dispatched c) :: work ++
        noted e (.performed c outcome) :: later ++ pause) = 1 := by
      have hcalls := dispatches_of_within hwithin
      have hafter := dispatches_of_follows hfollow
      have hwaits := dispatches_of_within hpause
      simp only [dispatches, List.countP_append, List.countP_cons, noted, isDispatch] at *
      simp [hcalls, hafter, hwaits]
    rw [hone]
    exact ⟨hlt, Nat.lt_succ_of_le hle, by omega⟩

end Bounds

/-! ## Expansions of a run -/

def tried (count : Nat) : Entry → Nat
  | .noted _ (.expanded ..) => count + 1
  | .noted _ (.retired _) => 0
  | .noted _ (.abandoned ..) => 0
  | _ => count

def tries (story : List Entry) : Nat := counted tried story

/-- Where a run began after `past`, only the job at the head of the queue is expanded, and it was
not expanded in this run as often as it may be. -/
def ExpansionAllowed (past : List Entry) (config : Config) (before : List Entry) (entry : Entry)
    (_ : List Entry) : Prop :=
  match entry with
  | .noted _ (.expanded job _) =>
    (waiting (past ++ before)).head? = some job ∧ tries before < limit config
  | _ => True

structure ExpandedWithin (e : Setup) (past own : List Entry) (a : Agenda) (count : Nat) : Prop where
  waiting_eq : waiting (past ++ own) = a.pending
  expansionAllowed : Throughout (ExpansionAllowed past e.config) [] own
  tries_le : tries own ≤ count

section ExpandedWithin

variable {e : Setup} {a b : Agenda} {c : Command} {past own news : List Entry} {count : Nat}
variable {outcome r : Except Fault Unit} {job : Job} {rest : List Job}

theorem stable_expansionAllowed (past : List Entry) (config : Config) :
    Stable (ExpansionAllowed past config) :=
  fun _ _ _ _ h => h

theorem tried_of_quiet {entry : Entry} (h : Quiet entry) (count : Nat) :
    tried count entry = count := by
  unfold Quiet Still at h
  unfold tried
  split <;> simp_all

theorem expansionAllowed_of_quiet {entry : Entry} (h : Quiet entry) (config : Config)
    (before after : List Entry) : ExpansionAllowed past config before entry after := by
  unfold ExpansionAllowed
  split
  · exact h.elim
  · trivial

theorem ExpandedWithin.quiet (h : ExpandedWithin e past own a count)
    (hnews : ∀ entry ∈ news, Quiet entry) : ExpandedWithin e past (own ++ news) a count := by
  refine ⟨?_, h.expansionAllowed.append (stable_expansionAllowed past e.config) ?_, ?_⟩
  · rw [← List.append_assoc, ← h.waiting_eq]
    exact waiting_append_of_still _ fun entry hentry => still_of_quiet (hnews entry hentry)
  · exact throughout_of_forall fun entry hentry =>
      expansionAllowed_of_quiet (hnews entry hentry) e.config
  · rw [tries, counted_append_of_unchanged own fun entry hentry =>
      tried_of_quiet (hnews entry hentry)]
    exact h.tries_le

theorem ExpandedWithin.expanded {commands : List Command} (h : ExpandedWithin e past own a count)
    (hpending : a.pending = job :: rest) (hcount : count < limit e.config)
    (hb : b.pending = a.pending) :
    ExpandedWithin e past (own ++ [noted e (.expanded job commands)]) b (count + 1) := by
  have hhead : (waiting (past ++ own)).head? = some job := by rw [h.waiting_eq, hpending]; rfl
  refine ⟨?_, h.expansionAllowed.append (stable_expansionAllowed past e.config) ?_, ?_⟩
  · rw [← List.append_assoc, waiting_append_singleton, h.waiting_eq, hb]
    rfl
  · exact throughout_cons ⟨hhead, h.tries_le.trans_lt hcount⟩ throughout_nil
  · rw [tries, counted_append_singleton]
    exact Nat.succ_le_succ h.tries_le

theorem ExpandedWithin.departure {n : Job → Note} (h : ExpandedWithin e past own a count)
    (hpending : a.pending = job :: rest) (hb : b.pending = rest)
    (hadvance : ∀ queue, advance queue (noted e (n job)) = queue.tail)
    (htried : ∀ count, tried count (noted e (n job)) = 0)
    (hnote : ∀ before after, ExpansionAllowed past e.config before (noted e (n job)) after) :
    ExpandedWithin e past (own ++ departure e n (job :: rest)) b 0 := by
  have hleft : ExpandedWithin e past (own ++ [noted e (n job)]) b 0 := by
    refine ⟨?_, h.expansionAllowed.append (stable_expansionAllowed past e.config) ?_, ?_⟩
    · rw [← List.append_assoc, waiting_append_singleton, hadvance, h.waiting_eq, hpending, hb,
        List.tail_cons]
    · exact throughout_cons (hnote _ _) throughout_nil
    · rw [tries, counted_append_singleton, htried]
  obtain ⟨signal, hsignal, hquiet⟩ := departure_quiet e n job rest
  rw [hsignal, List.append_cons]
  exact hleft.quiet hquiet

theorem ExpandedWithin.abandoned (h : ExpandedWithin e past own a count) (f : Fault)
    (hpending : a.pending = job :: rest) (hb : b.pending = rest) :
    ExpandedWithin e past (own ++ Moves.departure e (.abandoned · f) a.pending) b 0 := by
  rw [hpending]
  exact h.departure (n := (.abandoned · f)) hpending hb (fun _ => rfl) (fun _ => rfl)
    fun _ _ => trivial

theorem ExpandedWithin.retired (h : ExpandedWithin e past own a count)
    (hpending : a.pending = job :: rest) (hb : b.pending = rest) :
    ExpandedWithin e past (own ++ Moves.departure e .retired a.pending) b 0 := by
  rw [hpending]
  exact h.departure (n := .retired) hpending hb (fun _ => rfl) (fun _ => rfl) fun _ _ => trivial

theorem expandedWithin_of_advances (h : Advances e a news r b)
    (hretries : a.retries < limit e.config)
    (hwithin : ExpandedWithin e past own a a.retries) :
    ExpandedWithin e past (own ++ news) b (b.retries + 1) := by
  induction h generalizing own with
  | idle =>
    rw [List.append_nil]
    exact ⟨hwithin.waiting_eq, hwithin.expansionAllowed,
      Nat.le_succ_of_le hwithin.tries_le⟩
  | @found a job rest x opening r hpending _ hopening _ =>
    rw [List.append_cons]
    apply ExpandedWithin.quiet
    · exact hwithin.expanded hpending hretries rfl
    · exact fun entry hentry => quiet_of_within (hopening entry hentry)
  | @dropped a b job rest f news r hpending _ _ ih =>
    rw [← List.append_assoc]
    exact ih (limit_pos e.config)
      (hwithin.abandoned f hpending (pending_of_dropFirst hpending))

theorem expandedWithin_of_follows (h : Follows e c a outcome news r b)
    (hpending : a.pending = job :: rest)
    (hwithin : ExpandedWithin e past own a (a.retries + 1)) :
    ExpandedWithin e past (own ++ news) b (b.retries + 1) := by
  have hretrying : ∀ {relaunch : List Entry}, (∀ entry ∈ relaunch, Within reopens entry) →
      ∀ entry ∈ noted e (.retrying (a.retries + 1)) :: relaunch, Quiet entry := by
    intro relaunch hrelaunch entry hentry
    rcases List.mem_cons.1 hentry with rfl | hentry
    · trivial
    · exact quiet_of_within (hrelaunch entry hentry)
  cases h with
  | onward => rwa [List.append_nil]
  | cut => rwa [List.append_nil]
  | retired _ hnext =>
    rw [← List.append_assoc]
    exact expandedWithin_of_advances hnext (limit_pos e.config)
      (hwithin.retired hpending (pending_of_dropFirst hpending))
  | abandoned _ _ hnext =>
    rw [← List.append_assoc]
    exact expandedWithin_of_advances hnext (limit_pos e.config)
      (hwithin.abandoned _ hpending (pending_of_dropFirst hpending))
  | stuck _ _ hrelaunch =>
    -- the application does not come back, and nothing is expanded
    have hall := hwithin.quiet (hretrying hrelaunch)
    exact ⟨hall.waiting_eq, hall.expansionAllowed, Nat.le_succ_of_le hall.tries_le⟩
  | begunAgain _ hlimit hrelaunch hnext =>
    have hall := hwithin.quiet (hretrying hrelaunch)
    have hagain : a.beginAgain.retries < limit e.config := by
      have hcount : e.config.maxRetries ≤ limit e.config := Nat.le_max_right 1 _
      simp only [Agenda.beginAgain]
      omega
    rw [← List.append_assoc]
    exact expandedWithin_of_advances hnext hagain
      ⟨hall.waiting_eq, hall.expansionAllowed, hall.tries_le⟩

theorem expandedWithin_of_steps (h : Steps e c a news r b) (hpending : a.pending = job :: rest)
    (hwithin : ExpandedWithin e past own a (a.retries + 1)) :
    ExpandedWithin e past (own ++ news) b (b.retries + 1) := by
  cases h with
  | refused => rwa [List.append_nil]
  | @performed work later pause outcome _ _ _ hwork hfollow hpause _ =>
    let opening := noted e (.dispatched c) :: work ++ [noted e (.performed c outcome)]
    have hquiet : ∀ entry ∈ opening, Quiet entry := quiet_of_performs hwork
    have hdone := expandedWithin_of_follows hfollow hpending (hwithin.quiet hquiet)
    have hall := hdone.quiet fun entry hentry => quiet_of_within (hpause entry hentry)
    simpa [opening] using hall

end ExpandedWithin

/-! ## Runs -/

section Runs

variable [Desk σ] {app : String} {config : Config} {seen : List Setting} {w : Setting}
variable {jobs : List Job} {past : List Entry} {s t : Session σ}

/-- Where the recordings have been the same all along, the commands at hand are no more than those
of an expansion of the first job. -/
theorem remainingBound_le_fullBound {a : Agenda} (h : Orderly app config seen a past)
    (hfiles : ∀ v ∈ seen, v.files = w.files) (hcommands : a.commands ≠ []) :
    remainingBound (w.setup app config) a ≤ fullBound (w.setup app config) a.pending := by
  obtain ⟨job, rest, v, history, x, hpending, hv, hexpand, -, hsuffix, -⟩ := h.underway hcommands
  let e := w.setup app config
  have hlength : a.commands.length ≤ longest e job :=
    hsuffix.length_le.trans (length_le_longest_of_files (hfiles v hv) hexpand)
  have hspare : limit config - 1 - a.retries + 1 ≤ limit config := by
    have hpos := limit_pos config
    omega
  calc remainingBound e a
      = a.commands.length + (limit config - 1 - a.retries) * longest e job + fullBound e rest := by
        rw [remainingBound, hpending, jobsBound, ← Nat.add_assoc]
        rfl
    _ ≤ (limit config - 1 - a.retries + 1) * longest e job + fullBound e rest := by
        rw [Nat.succ_mul]
        omega
    _ ≤ limit config * longest e job + fullBound e rest := by
        exact Nat.add_le_add_right (Nat.mul_le_mul_right _ hspare) _
    _ = fullBound e a.pending := by
        rw [hpending]
        rfl

/-- What holds of a run between two commands: so many of the jobs' commands are still to come. -/
structure Budgeted (e : Setup) (past own : List Entry) (total : Nat) (a : Agenda) : Prop where
  expandedWithin : ExpandedWithin e past own a (a.retries + 1)
  retries_lt : a.retries < limit e.config
  bill : dispatches own + remainingBound e a ≤ total

theorem budgeted_begin (hcourse : Course app config seen jobs none s.agenda past)
    (hfiles : ∀ v ∈ seen, v.files = w.files) :
    ∃ own, Adds s (begin (w.setup app config) s).2 own ∧
      Budgeted (w.setup app config) past own (fullBound (w.setup app config) s.agenda.pending)
        (begin (w.setup app config) s).2.agenda := by
  let e := w.setup app config
  have horderly := (orderly_of_course hcourse).1
  have hretries : s.agenda.retries < limit e.config := horderly.retries_lt
  have hnone : ExpandedWithin e past [] s.agenda s.agenda.retries := by
    refine ⟨?_, throughout_nil, Nat.zero_le _⟩
    rw [List.append_nil]
    exact (settles_of_course hcourse).waiting_eq
  unfold begin
  by_cases hcommands : s.agenda.commands = []
  · rw [if_neg (by simp [hcommands])]
    by_cases hpending : s.agenda.pending = []
    · rw [if_neg (by simp [hpending])]
      refine ⟨[], adds_of_journal_eq rfl, ?_, hretries, ?_⟩
      · exact ⟨hnone.waiting_eq, throughout_nil, Nat.zero_le _⟩
      · simp [dispatches, remainingBound, hcommands, hpending, jobsBound]
    · rw [if_pos hpending]
      obtain ⟨news, hnews, hnext⟩ := realizes_next e s
      obtain ⟨hlt, hle⟩ := remainingBound_of_advances hnext hretries
      have hwithin := expandedWithin_of_advances hnext hretries hnone
      refine ⟨news, hnews, hwithin, hlt, ?_⟩
      calc dispatches news + remainingBound e (e.next s).2.agenda
          = remainingBound e (e.next s).2.agenda := by
            rw [dispatches_of_advances hnext, Nat.zero_add]
        _ ≤ jobsBound e (limit e.config - s.agenda.retries) s.agenda.pending := hle
        _ ≤ jobsBound e (limit e.config) s.agenda.pending := jobsBound_mono e (Nat.sub_le _ _) _
        _ = fullBound e s.agenda.pending := jobsBound_limit e s.agenda.pending
  · rw [if_pos hcommands]
    obtain ⟨r, t, opening, ht, hadds, hagenda, hopening, -⟩ :=
      adds_onStage (footprint_ensureOpen e) s
    rw [ht, hagenda]
    have hquiet := hnone.quiet fun entry hentry => quiet_of_within (hopening entry hentry)
    refine ⟨opening, hadds, ⟨hquiet.waiting_eq, hquiet.expansionAllowed, ?_⟩, hretries, ?_⟩
    · exact Nat.le_succ_of_le hquiet.tries_le
    · rw [dispatches_of_within hopening, Nat.zero_add]
      exact remainingBound_le_fullBound horderly hfiles hcommands

theorem budgeted_step {e : Setup} {own : List Entry} {total : Nat} {c : Command}
    {commands : List Command} {r : Except Fault Unit} {job : Job} {rest : List Job}
    (h : Budgeted e past own total s.agenda) (hcommands : s.agenda.commands = c :: commands)
    (hpending : s.agenda.pending = job :: rest) (hstep : e.step c (pop s commands) = (r, t)) :
    remainingBound e t.agenda < remainingBound e s.agenda ∧
      ∃ news, Adds s t news ∧ Budgeted e past (own ++ news) total t.agenda := by
  obtain ⟨news, hnews, hsteps⟩ := steps_of_pop e hstep
  obtain ⟨hlt, hless, hbill⟩ := remainingBound_of_steps hsteps hcommands h.retries_lt
  have hpop : ExpandedWithin e past own { s.agenda with commands } (s.agenda.retries + 1) :=
    ⟨h.expandedWithin.waiting_eq, h.expandedWithin.expansionAllowed, h.expandedWithin.tries_le⟩
  have hafter := expandedWithin_of_steps hsteps hpending hpop
  refine ⟨hless, news, hnews, hafter, hlt, ?_⟩
  have hbefore := h.bill
  rw [dispatches_append]
  omega

theorem exists_pending_of_stands {c : Command} {commands : List Command}
    (hcourse : Course app config seen jobs none s.agenda past) (hw : w ∈ seen)
    (ht : Stands (w.setup app config) s t) (hcommands : t.agenda.commands = c :: commands) :
    ∃ job rest, t.agenda.pending = job :: rest := by
  obtain ⟨news, -, hstands⟩ := course_stands hcourse hw ht
  exact List.exists_cons_of_ne_nil (pending_of_commands (orderly_of_course hstands).1 hcommands)

/-- By induction on the commands that were performed. -/
theorem budgeted_stands (hcourse : Course app config seen jobs none s.agenda past) (hw : w ∈ seen)
    (hfiles : ∀ v ∈ seen, v.files = w.files) (ht : Stands (w.setup app config) s t) :
    ∃ own, Adds s t own ∧ Budgeted (w.setup app config) past own
      (fullBound (w.setup app config) s.agenda.pending) t.agenda := by
  induction ht with
  | begun hbegin =>
    have hbudget := budgeted_begin hcourse hfiles
    rw [hbegin] at hbudget
    exact hbudget
  | onward ht hcommands hstep ih =>
    obtain ⟨own, hown, hbudget⟩ := ih
    obtain ⟨job, rest, hpending⟩ := exists_pending_of_stands hcourse hw ht hcommands
    obtain ⟨-, news, hnews, hafter⟩ := budgeted_step hbudget hcommands hpending hstep
    exact ⟨own ++ news, hown.trans hnews, hafter⟩

theorem performWithin_of_stands (hcourse : Course app config seen jobs none s.agenda past)
    (hw : w ∈ seen) (hfiles : ∀ v ∈ seen, v.files = w.files) (count : Nat)
    (ht : Stands (w.setup app config) s t)
    (hcount : remainingBound (w.setup app config) t.agenda < count) :
    performWithin (w.setup app config) count t = some ((w.setup app config).performAll t) := by
  induction count generalizing t with
  | zero => exact absurd hcount (Nat.not_lt_zero _)
  | succ count ih =>
    -- a command lowers the outlook, so that one less is enough for those behind it
    unfold performWithin
    cases hcommands : t.agenda.commands with
    | nil => rw [performAll_nil _ hcommands]
    | cons c commands =>
      obtain ⟨own, -, hbudget⟩ := budgeted_stands hcourse hw hfiles ht
      obtain ⟨job, rest, hpending⟩ := exists_pending_of_stands hcourse hw ht hcommands
      rw [performAll_cons _ hcommands]
      dsimp only
      cases hstep : (w.setup app config).step c (pop t commands) with
      | mk r u =>
        cases r with
        | error f => rfl
        | ok _ =>
          obtain ⟨hless, -⟩ := budgeted_step hbudget hcommands hpending hstep
          exact ih (ht.onward hcommands hstep) (by omega)

theorem runWithin_of_course (hcourse : Course app config seen jobs none s.agenda past)
    (hw : w ∈ seen) (hfiles : ∀ v ∈ seen, v.files = w.files) :
    runWithin (w.setup app config) (fullBound (w.setup app config) s.agenda.pending + 1) s =
      some ((w.setup app config).run s) := by
  rw [run_eq]
  unfold runWithin
  cases hbegin : begin (w.setup app config) s with
  | mk r t =>
    cases r with
    | error f => rw [Action.bind_of_error hbegin]
    | ok _ =>
      obtain ⟨own, -, hbudget⟩ := budgeted_stands hcourse hw hfiles (.begun hbegin)
      have hbill := hbudget.bill
      have hperform := performWithin_of_stands hcourse hw hfiles
        (fullBound (w.setup app config) s.agenda.pending + 1) (.begun hbegin) (by omega)
      rw [Action.bind_of_ok hbegin]
      dsimp only
      rw [hperform]
      cases hall : (w.setup app config).performAll t with
      | mk r u =>
        cases r with
        | error f => rw [Action.bind_of_error hall]
        | ok _ =>
          rw [Action.bind_of_ok hall]
          rfl

theorem budgeted_run (hcourse : Course app config seen jobs none s.agenda past) (hw : w ∈ seen)
    (hfiles : ∀ v ∈ seen, v.files = w.files) :
    ∃ own, Adds s ((w.setup app config).run s).2 own ∧
      Throughout (ExpansionAllowed past config) [] own ∧
      dispatches own ≤ fullBound (w.setup app config) s.agenda.pending := by
  rcases run_cases (w.setup app config) s with ⟨f, t, hbegin, hrun⟩ |
    ⟨t, u, c, commands, f, ht, hcommands, hstep, hrun⟩ | ⟨t, ht, -, hrun⟩
  · obtain ⟨own, hown, hbudget⟩ := budgeted_begin (w := w) hcourse hfiles
    rw [hbegin] at hown
    rw [hrun]
    exact ⟨own, hown, hbudget.expandedWithin.expansionAllowed,
      (Nat.le_add_right _ _).trans hbudget.bill⟩
  · obtain ⟨own, hown, hbudget⟩ := budgeted_stands hcourse hw hfiles ht
    obtain ⟨job, rest, hpending⟩ := exists_pending_of_stands hcourse hw ht hcommands
    obtain ⟨-, news, hnews, hafter⟩ := budgeted_step hbudget hcommands hpending hstep
    rw [hrun]
    exact ⟨own ++ news, hown.trans hnews, hafter.expandedWithin.expansionAllowed,
      (Nat.le_add_right _ _).trans hafter.bill⟩
  · obtain ⟨own, hown, hbudget⟩ := budgeted_stands hcourse hw hfiles ht
    rw [hrun]
    exact ⟨own, hown, hbudget.expandedWithin.expansionAllowed,
      (Nat.le_add_right _ _).trans hbudget.bill⟩

end Runs

/-- What a run at `s` keeps to, where `past` is the story before it and `total` is a number of
commands. -/
structure Bounded (e : Setup) [Desk σ] (past : List Entry) (s : Session σ) (total : Nat) :
    Prop where
  /-- It ends, and it does so before another command could be performed. -/
  ends : runWithin e (total + 1) s = some (e.run s)
  performed : dispatches (since s.stage (e.run s).2.stage) ≤ total
  /-- A job is expanded only at the head of the queue, and so often at most since it came there or
  since the run began. -/
  expanded : ∀ before job commands after,
    since s.stage (e.run s).2.stage = before ++ .noted e.app (.expanded job commands) :: after →
      (waiting (past ++ before)).head? = some job ∧ tries before < max 1 e.config.maxRetries

/-- As long as the recordings stay as they are, a run of an engine ends, whatever becomes of the
calls, and performs no more commands than its jobs have in their longest expansions, each as often
as it may be expanded. -/
theorem run_bounded [Desk σ] (app : String) (config : Config) (turns : List (Turn σ)) (w : Setting)
    (stage : Stage σ) (hfiles : ∀ turn ∈ turns, turn.setting.files = w.files) :
    Bounded (w.setup app config) (career app config turns).story
      ⟨(career app config turns).engine, stage⟩
      (fullBound (w.setup app config) (career app config turns).engine.agenda.pending) := by
  let s : Session σ := ⟨(career app config turns).engine, stage⟩
  have hcourse : Course app config (w :: turns.map (·.setting)) _ none s.agenda _ :=
    course_career app config turns fun turn hturn =>
      List.mem_cons_of_mem _ (List.mem_map_of_mem hturn)
  have hsame : ∀ v ∈ w :: turns.map (·.setting), v.files = w.files := by
    intro v hv
    rcases List.mem_cons.1 hv with rfl | hv
    · rfl
    · obtain ⟨turn, hturn, rfl⟩ := List.mem_map.1 hv
      exact hfiles turn hturn
  obtain ⟨own, hadds, hexpansionAllowed, hbill⟩ := budgeted_run hcourse List.mem_cons_self hsame
  have hown : since stage ((w.setup app config).run s).2.stage = own := since_of_adds hadds
  refine ⟨runWithin_of_course hcourse List.mem_cons_self hsame, ?_, ?_⟩
  · rw [hown]
    exact hbill
  · intro before job commands after hsplit
    rw [hown] at hsplit
    exact hexpansionAllowed before _ after hsplit

/-- The color is waited for twice: the job was expanded when it was added, and once more after the
first timeout. -/
theorem watch_workload :
    fullBound watching (career "app" hasty (errandAdded watchful)).engine.agenda.pending = 6 ∧
      (runWithin watching 7 watch).map (fun result =>
        dispatches (since (stageWith true true) result.2.stage)) = some 4 := by
  decide +kernel

theorem watch_bounded :
    (∀ turn ∈ errandAdded watchful, turn.setting.files = watchful.files) ∧
      Bounded watching (career "app" hasty (errandAdded watchful)).story watch 6 ∧
      dispatches (since (stageWith true true) (watching.run watch).2.stage) = 4 := by
  have hfiles : ∀ turn ∈ errandAdded watchful, turn.setting.files = watchful.files := by
    intro turn hturn
    rw [List.mem_singleton.1 hturn]
  obtain ⟨hfullBound, hrun⟩ := watch_workload
  have hbounded : Bounded watching (career "app" hasty (errandAdded watchful)).story watch
      (fullBound watching (career "app" hasty (errandAdded watchful)).engine.agenda.pending) :=
    run_bounded "app" hasty (errandAdded watchful) watchful (stageWith true true) hfiles
  rw [hfullBound] at hbounded
  rw [hbounded.ends, Option.map_some, Option.some.injEq] at hrun
  exact ⟨hfiles, hbounded, hrun⟩

end Playback.Proofs.Workload
