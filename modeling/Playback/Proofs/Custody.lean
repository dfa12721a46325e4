import Mathlib.Data.List.Induction
import Playback.Window.Fixed
/-!
# Custody of processes

A window at a fixed place watches the process that was started last, and no other. Opening it while
that process runs starts another one beside it: the first is let go of, and no call ever tells of it
or ends it again. As long as that does not happen, at most one process runs, the window is open
exactly while it does, and closing leaves none.
-/

namespace Playback.Proofs.Custody

variable {title : String} {rect : ClientRect} {w : FixedWindow}

/-! ## What happens to a window -/

inductive Event where
  | open (l : Launchers) (launcher : String)
  | close
  | terminate
  | ask
  | exit (i : Nat)

def ended (w : FixedWindow) (i : Nat) : FixedWindow :=
  if w.processes[i]? = some .running then { w with processes := w.processes.set i .ended } else w

def Event.apply (w : FixedWindow) : Event → FixedWindow
  | .open l launcher => (w.launch l launcher).2
  | .close => w.close.2
  | .terminate => w.terminate.2
  | .ask => w.isOpen.2
  | .exit i => ended w i

def run (title : String) (rect : ClientRect) (events : List Event) : FixedWindow :=
  events.foldl Event.apply (.fresh title rect)

theorem run_append (earlier later : List Event) :
    run title rect (earlier ++ later) = later.foldl Event.apply (run title rect earlier) :=
  List.foldl_append ..

theorem childEnds_eq_ended {i : Nat} (h : w.child = some i) : w.childEnds = ended w i := by
  have hstate : w.childState = w.processes[i]? := by rw [FixedWindow.childState, h]; rfl
  have hset : w.setChild .ended = { w with processes := w.processes.set i .ended } := by
    rw [FixedWindow.setChild, h]
  unfold FixedWindow.childEnds ended
  rw [hstate, hset]
  split
  · rename_i hrunning
    rw [if_pos hrunning]
  · rename_i hrunning
    rw [if_neg hrunning]

/-! ## The watched process -/

/-- A window watches nothing, and then the last process is not running; or it watches the last
process, whose end nobody asked for. -/
inductive Watching : FixedWindow → Prop
  | nothing {title : String} {rect : ClientRect} {processes : List ProcessState}
    (h : processes.getLast? ≠ some .running) : Watching ⟨title, rect, processes, none⟩
  | last {title : String} {rect : ClientRect} {processes : List ProcessState} {p : ProcessState}
    (h : p ≠ .reaped) : Watching ⟨title, rect, processes ++ [p], some processes.length⟩

section Last

variable {processes : List ProcessState} {p : ProcessState}

theorem childState_last :
    (FixedWindow.mk title rect (processes ++ [p]) (some processes.length)).childState = some p := by
  simp [FixedWindow.childState]

theorem setChild_last (q : ProcessState) :
    (FixedWindow.mk title rect (processes ++ [p]) (some processes.length)).setChild q =
      ⟨title, rect, processes ++ [q], some processes.length⟩ := by
  simp [FixedWindow.setChild]

theorem isOpen_last_running :
    (FixedWindow.mk title rect (processes ++ [.running]) (some processes.length)).isOpen =
      (true, ⟨title, rect, processes ++ [.running], some processes.length⟩) := by
  rw [FixedWindow.isOpen, childState_last]

theorem isOpen_last_ended :
    (FixedWindow.mk title rect (processes ++ [.ended]) (some processes.length)).isOpen =
      (false, ⟨title, rect, processes ++ [.reaped], none⟩) := by
  rw [FixedWindow.isOpen, childState_last, setChild_last]

theorem close_last (h : p ≠ .reaped) :
    (FixedWindow.mk title rect (processes ++ [p]) (some processes.length)).close =
      (.ok (), ⟨title, rect, processes ++ [.reaped], none⟩) := by
  rw [FixedWindow.close, childState_last]
  cases p with
  | running => rw [setChild_last]
  | ended => rw [setChild_last]
  | reaped => exact absurd rfl h

end Last

/-! ## What an event does -/

/-- What an event does to the processes: it starts one behind all others, it ends the one that it is
about or the last one, or it does nothing to them. -/
inductive Changes (event : Event) : List ProcessState → List ProcessState → Prop
  | starts {l : Launchers} {launcher : String} {processes : List ProcessState}
    (hevent : event = .open l launcher) (hstart : l.start launcher = .ok ()) :
    Changes event processes (processes ++ [.running])
  | ends {i : Nat} {q : ProcessState} {processes : List ProcessState}
    (hi : event = .exit i ∨ i + 1 = processes.length) (hq : q ≠ .running) :
    Changes event processes (processes.set i q)
  | spares {processes : List ProcessState} : Changes event processes processes

theorem running_of_set {processes : List ProcessState} {q : ProcessState} {i j : Nat}
    (hq : q ≠ .running) (h : (processes.set i q)[j]? = some .running) :
    i ≠ j ∧ processes[j]? = some .running := by
  have hne : i ≠ j := by
    rintro rfl
    obtain ⟨hlt, hget⟩ := List.getElem?_eq_some_iff.1 h
    rw [List.getElem_set_self] at hget
    exact hq hget
  rw [List.getElem?_set_ne hne] at h
  exact ⟨hne, h⟩

theorem changes_last {event : Event} {processes : List ProcessState} {p : ProcessState} :
    Changes event (processes ++ [p]) (processes ++ [.reaped]) := by
  have hset : (processes ++ [p]).set processes.length .reaped = processes ++ [.reaped] := by simp
  rw [← hset]
  exact .ends (.inr (by simp)) (by decide)

theorem watching_not_running {processes : List ProcessState} {p : ProcessState}
    (hp : p ≠ .running) : Watching ⟨title, rect, processes ++ [p], none⟩ := by
  refine .nothing fun h => ?_
  rw [List.getLast?_concat] at h
  exact hp (Option.some.inj h)

section Step

variable {event : Event}

theorem step_launch (h : Watching w) (l : Launchers) (launcher : String) :
    Watching (w.launch l launcher).2 ∧
      Changes (.open l launcher) w.processes (w.launch l launcher).2.processes := by
  unfold FixedWindow.launch
  split
  · rename_i hstart
    exact ⟨.last (by decide), .starts rfl hstart⟩
  · exact ⟨h, .spares⟩

theorem step_close (h : Watching w) :
    Watching w.close.2 ∧ Changes event w.processes w.close.2.processes := by
  cases h with
  | nothing hlast => exact ⟨.nothing hlast, .spares⟩
  | last hp =>
    rw [close_last hp]
    exact ⟨watching_not_running (by decide), changes_last⟩

theorem step_isOpen (h : Watching w) :
    Watching w.isOpen.2 ∧ Changes event w.processes w.isOpen.2.processes := by
  cases h with
  | nothing hlast => exact ⟨.nothing hlast, .spares⟩
  | @last _ _ processes p hp =>
    cases p with
    | running =>
      rw [isOpen_last_running]
      exact ⟨.last hp, .spares⟩
    | ended =>
      rw [isOpen_last_ended]
      exact ⟨watching_not_running (by decide), changes_last⟩
    | reaped => exact absurd rfl hp

theorem watching_ended (h : Watching w) (i : Nat) : Watching (ended w i) := by
  unfold ended
  split
  · cases h with
    | @nothing _ _ processes hlast =>
      refine .nothing fun hset => hlast ?_
      rw [List.getLast?_eq_getElem?, List.length_set] at hset
      rw [List.getLast?_eq_getElem?]
      exact (running_of_set (by decide) hset).2
    | @last _ _ processes p hp =>
      rw [List.set_append]
      split
      · have hlength : (processes.set i .ended).length = processes.length := List.length_set ..
        rw [← hlength]
        exact .last hp
      · cases i - processes.length with
        | zero => exact .last (by decide)
        | succ n => exact .last hp
  · exact h

theorem step_ended (h : Watching w) (i : Nat) :
    Watching (ended w i) ∧ Changes (.exit i) w.processes (ended w i).processes := by
  refine ⟨watching_ended h i, ?_⟩
  unfold ended
  split
  · exact .ends (.inl rfl) (by decide)
  · exact .spares

theorem step_apply (h : Watching w) (event : Event) :
    Watching (event.apply w) ∧ Changes event w.processes (event.apply w).processes := by
  cases event with
  | «open» l launcher => exact step_launch h l launcher
  | close => exact step_close h
  | terminate => exact step_close h
  | ask => exact step_isOpen h
  | exit i => exact step_ended h i

theorem watching_run (title : String) (rect : ClientRect) (events : List Event) :
    Watching (run title rect events) := by
  have hfold : ∀ w, Watching w → Watching (events.foldl Event.apply w) := by
    induction events with
    | nil => exact fun w h => h
    | cons event rest ih => exact fun w h => ih _ (step_apply h event).1
  exact hfold _ (.nothing (by simp))

end Step

/-! ## Processes that were let go of -/

/-- The process at this place is running, and another one was started after it. -/
def LetGo (processes : List ProcessState) (i : Nat) : Prop :=
  processes[i]? = some .running ∧ i + 1 ≠ processes.length

section LetGo

variable {event : Event} {processes processes' : List ProcessState} {p : ProcessState} {i : Nat}

theorem lt_length_of_running (h : processes[i]? = some .running) : i < processes.length :=
  (List.getElem?_eq_some_iff.1 h).1

theorem letGo_concat_iff : LetGo (processes ++ [p]) i ↔ processes[i]? = some .running := by
  unfold LetGo
  rw [List.length_append, List.length_singleton]
  constructor
  · rintro ⟨hi, hlength⟩
    have hlt := lt_length_of_running hi
    rw [List.length_append, List.length_singleton] at hlt
    rw [List.getElem?_append_left (by omega)] at hi
    exact hi
  · intro hi
    have hlt := lt_length_of_running hi
    rw [List.getElem?_append_left hlt]
    exact ⟨hi, by omega⟩

theorem running_concat_iff (hp : p ≠ .running) :
    (processes ++ [p])[i]? = some .running ↔ processes[i]? = some .running := by
  constructor
  · intro hi
    refine letGo_concat_iff.1 ⟨hi, fun hlength => ?_⟩
    rw [List.length_append, List.length_singleton] at hlength
    obtain rfl : i = processes.length := by omega
    rw [List.getElem?_concat_length] at hi
    exact hp (Option.some.inj hi)
  · exact fun hi => (letGo_concat_iff.2 hi).1

theorem Changes.letGo (h : Changes event processes processes') (hi : LetGo processes i)
    (hne : event ≠ .exit i) : LetGo processes' i := by
  cases h with
  | starts => exact letGo_concat_iff.2 hi.1
  | @ends j q _ hj hq =>
    have hother : j ≠ i := by
      rintro rfl
      exact hj.elim hne hi.2
    refine ⟨?_, ?_⟩
    · rw [List.getElem?_set_ne hother]
      exact hi.1
    · rw [List.length_set]
      exact hi.2
  | spares => exact hi

theorem Changes.letGo_cases (h : Changes event processes processes') (hi : LetGo processes' i) :
    LetGo processes i ∨ ∃ l launcher, event = .open l launcher ∧ l.start launcher = .ok () ∧
      processes[i]? = some .running := by
  cases h with
  | starts hevent hstart => exact .inr ⟨_, _, hevent, hstart, letGo_concat_iff.1 hi⟩
  | ends _ hq =>
    have hlength := hi.2
    rw [List.length_set] at hlength
    exact .inl ⟨(running_of_set hq hi.1).2, hlength⟩
  | spares => exact .inl hi

theorem letGo_run {earlier later : List Event} (hi : LetGo (run title rect earlier).processes i)
    (hlater : .exit i ∉ later) : LetGo (run title rect (earlier ++ later)).processes i := by
  rw [run_append]
  have hw := watching_run title rect earlier
  generalize run title rect earlier = w at hi hw ⊢
  induction later generalizing w with
  | nil => exact hi
  | cons event rest ih =>
    rw [List.mem_cons, not_or] at hlater
    obtain ⟨hnext, hchanges⟩ := step_apply hw event
    exact ih hlater.2 _ (hchanges.letGo hi (Ne.symm hlater.1)) hnext

end LetGo

/-! ## What the calls are about -/

structure ActsOnLast (w : FixedWindow) : Prop where
  told : w.isOpen.1 = true ↔ w.processes.getLast? = some .running
  closes : w.close.1 = .ok ()
  closed : ∀ i, w.close.2.processes[i]? = some .running ↔ LetGo w.processes i
  terminates : w.terminate.1 = .ok ()
  terminated : ∀ i, w.terminate.2.processes[i]? = some .running ↔ LetGo w.processes i

section Calls

theorem isOpen_iff_of_watching (h : Watching w) :
    w.isOpen.1 = true ↔ w.processes.getLast? = some .running := by
  cases h with
  | nothing hlast => exact iff_of_false Bool.false_ne_true hlast
  | @last _ _ processes p hp =>
    rw [List.getLast?_concat]
    cases p with
    | running => rw [isOpen_last_running]; exact iff_of_true rfl rfl
    | ended => rw [isOpen_last_ended]; exact iff_of_false Bool.false_ne_true (by decide)
    | reaped => exact absurd rfl hp

theorem close_ok_of_watching (h : Watching w) : w.close.1 = .ok () := by
  cases h with
  | nothing hlast => rfl
  | last hp => rw [close_last hp]

theorem running_close_iff (h : Watching w) (i : Nat) :
    w.close.2.processes[i]? = some .running ↔ LetGo w.processes i := by
  cases h with
  | @nothing _ _ processes hlast =>
    refine ⟨fun hi => ⟨hi, fun hlength => hlast ?_⟩, And.left⟩
    rw [List.getLast?_eq_getElem?, ← hlength]
    exact hi
  | last hp =>
    rw [close_last hp]
    exact (running_concat_iff (by decide)).trans letGo_concat_iff.symm

theorem actsOnLast_run (title : String) (rect : ClientRect) (events : List Event) :
    ActsOnLast (run title rect events) :=
  have h := watching_run title rect events
  { told := isOpen_iff_of_watching h
    closes := close_ok_of_watching h
    closed := running_close_iff h
    terminates := close_ok_of_watching h
    terminated := running_close_iff h }

end Calls

/-! ## Windows that own what they started -/

/-- At most one process runs, the window is open exactly while one does, and closing leaves none. -/
structure Owns (w : FixedWindow) : Prop where
  single : w.processes.count .running ≤ 1
  told : w.isOpen.1 = true ↔ .running ∈ w.processes
  closed : w.close.1 = .ok () → .running ∉ w.close.2.processes
  terminated : w.terminate.1 = .ok () → .running ∉ w.terminate.2.processes

/-- Some time on the way a process is started while one is running. -/
def Overlapping (title : String) (rect : ClientRect) (events : List Event) : Prop :=
  ∃ earlier l launcher, earlier ++ [.open l launcher] <+: events ∧ l.start launcher = .ok () ∧
    .running ∈ (run title rect earlier).processes

section Owns

variable {processes : List ProcessState} {events : List Event}

theorem count_running_le_one (h : ∀ i, ¬ LetGo processes i) : processes.count .running ≤ 1 := by
  obtain rfl | ⟨before, p, rfl⟩ := processes.eq_nil_or_concat
  · exact Nat.zero_le 1
  · rw [List.concat_eq_append] at h ⊢
    have hnone : before.count .running = 0 := by
      rw [List.count_eq_zero, List.mem_iff_getElem?]
      rintro ⟨i, hi⟩
      exact h i (letGo_concat_iff.2 hi)
    calc (before ++ [p]).count .running
        = before.count .running + [p].count .running := List.count_append
      _ = [p].count .running := by rw [hnone, Nat.zero_add]
      _ ≤ 1 := List.count_le_length

theorem running_last_iff (h : ∀ i, ¬ LetGo processes i) :
    processes.getLast? = some .running ↔ .running ∈ processes := by
  refine ⟨List.mem_of_getLast?, fun hmem => ?_⟩
  obtain ⟨i, hi⟩ := List.mem_iff_getElem?.1 hmem
  have hlast : i + 1 = processes.length := Decidable.not_not.1 fun hne => h i ⟨hi, hne⟩
  rw [List.getLast?_eq_getElem?, ← hlast]
  exact hi

theorem ActsOnLast.owns (hw : ActsOnLast w) (h : ∀ i, ¬ LetGo w.processes i) : Owns w where
  single := count_running_le_one h
  told := hw.told.trans (running_last_iff h)
  closed _ hmem := by
    obtain ⟨i, hi⟩ := List.mem_iff_getElem?.1 hmem
    exact h i ((hw.closed i).1 hi)
  terminated _ hmem := by
    obtain ⟨i, hi⟩ := List.mem_iff_getElem?.1 hmem
    exact h i ((hw.terminated i).1 hi)

theorem Overlapping.mono {more : List Event} (h : Overlapping title rect events)
    (hmore : events <+: more) : Overlapping title rect more := by
  obtain ⟨earlier, l, launcher, hprefix, hstart, hrunning⟩ := h
  exact ⟨earlier, l, launcher, hprefix.trans hmore, hstart, hrunning⟩

theorem overlapping_of_letGo {i : Nat} (h : LetGo (run title rect events).processes i) :
    Overlapping title rect events := by
  -- from the last event backwards: it let go of the process, or an earlier one did
  induction events using List.reverseRecOn with
  | nil => cases h.1
  | append_singleton earlier event ih =>
    rw [run_append] at h
    have hchanges := (step_apply (watching_run title rect earlier) event).2
    rcases hchanges.letGo_cases h with hbefore | ⟨l, launcher, rfl, hstart, hi⟩
    · exact (ih hbefore).mono (List.prefix_append earlier [event])
    · exact ⟨earlier, l, launcher, List.prefix_rfl, hstart, List.mem_of_getElem? hi⟩

theorem run_open {l : Launchers} {launcher : String} (earlier : List Event)
    (hstart : l.start launcher = .ok ()) :
    run title rect (earlier ++ [.open l launcher]) = (run title rect earlier).started := by
  rw [run_append]
  show ((run title rect earlier).launch l launcher).2 = _
  rw [FixedWindow.launch, hstart]

theorem not_owns_started (h : .running ∈ w.processes) : ¬ Owns w.started := by
  intro howns
  have hcount : w.started.processes.count .running = w.processes.count .running + 1 := by
    simp [FixedWindow.started]
  have hpos : 0 < w.processes.count .running := List.count_pos_iff.2 h
  have hsingle := howns.single
  omega

theorem owns_iff_not_overlapping (title : String) (rect : ClientRect) (events : List Event) :
    (∀ earlier, earlier <+: events → Owns (run title rect earlier)) ↔
      ¬ Overlapping title rect events := by
  constructor
  · rintro howns ⟨earlier, l, launcher, hprefix, hstart, hrunning⟩
    have hopened := howns _ hprefix
    rw [run_open earlier hstart] at hopened
    exact not_owns_started hrunning hopened
  · intro hno earlier hprefix
    refine (actsOnLast_run title rect earlier).owns fun i hi => hno ?_
    exact (overlapping_of_letGo hi).mono hprefix

end Owns

/-! ## All through a run -/

/-- All along, the calls are about the last process, what was let go of runs until it exits by
itself, and the window owns what it started unless two of its processes ever overlap. -/
structure Kept (title : String) (rect : ClientRect) (events : List Event) : Prop where
  actsOnLast : ∀ earlier, earlier <+: events → ActsOnLast (run title rect earlier)
  abandons : ∀ earlier later i, earlier ++ later = events →
    LetGo (run title rect earlier).processes i → .exit i ∉ later →
      LetGo (run title rect events).processes i
  owns : (∀ earlier, earlier <+: events → Owns (run title rect earlier)) ↔
    ¬ Overlapping title rect events

theorem kept_run (title : String) (rect : ClientRect) (events : List Event) :
    Kept title rect events where
  actsOnLast earlier _ := actsOnLast_run title rect earlier
  abandons := by
    rintro earlier later i rfl hi hlater
    exact letGo_run hi hlater
  owns := owns_iff_not_overlapping title rect events

section Reopened

def twoLaunchers : Launchers :=
  ⟨.ofList [("end.sh", .text "#!/bin/sh\nexit 0\n"),
    ("run.sh", .text "#!/bin/sh\nexec sleep 30\n")], ["run.sh", "end.sh"]⟩

/-- The second process has exited and the first one has not. -/
def reopened : List Event :=
  [.open twoLaunchers "./run.sh", .open twoLaunchers "./end.sh", .exit 1]

/-- The window says that it is closed while its first process runs, which closing does not end. -/
theorem reopened_not_owned :
    (run "pppoker" ⟨10, 20, 400, 700⟩ reopened).processes = [.running, .ended] ∧
      (run "pppoker" ⟨10, 20, 400, 700⟩ reopened).isOpen.1 = false ∧
      (run "pppoker" ⟨10, 20, 400, 700⟩ reopened).close.2.processes = [.running, .reaped] ∧
      ¬ Owns (run "pppoker" ⟨10, 20, 400, 700⟩ reopened) := by
  have hrun : run "pppoker" ⟨10, 20, 400, 700⟩ reopened =
      ⟨"pppoker", ⟨10, 20, 400, 700⟩, [.running, .ended], some 1⟩ := by decide +kernel
  rw [hrun]
  refine ⟨rfl, rfl, rfl, fun howns => ?_⟩
  exact Bool.false_ne_true (howns.told.2 (by decide))

end Reopened

end Playback.Proofs.Custody
