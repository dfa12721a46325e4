import Playback.Stage
/-!
# Stories

The entries of an engine's work, the earliest first, tell which jobs joined its queue, which left it
and which were waiting at any point. A statement about every entry of a story may speak of what came
before it and of what follows.
-/

namespace Playback.Proofs.Story

/-! ## Queues -/

/-- What an entry does to the queue. -/
def advance (queue : List Job) : Entry → List Job
  | .noted _ (.queued job) => queue ++ [job]
  | .noted _ (.retired _) => queue.tail
  | .noted _ (.abandoned ..) => queue.tail
  | _ => queue

/-- The jobs in the queue after a story. -/
def waiting (story : List Entry) : List Job := story.foldl advance []

def joined (story : List Entry) : List Job :=
  story.filterMap fun
    | .noted _ (.queued job) => some job
    | _ => none

def left (story : List Entry) : List Job :=
  story.filterMap fun
    | .noted _ (.retired job) => some job
    | .noted _ (.abandoned job _) => some job
    | _ => none

/-- Entries that leave the queue as it is. -/
def Still : Entry → Prop
  | .noted _ (.queued _) => False
  | .noted _ (.retired _) => False
  | .noted _ (.abandoned ..) => False
  | _ => True

def Quiet : Entry → Prop
  | .noted _ (.expanded ..) => False
  | entry => Still entry

theorem still_of_quiet {entry : Entry} (h : Quiet entry) : Still entry := by
  unfold Quiet at h
  split at h
  · exact h.elim
  · exact h

theorem foldl_of_unchanged {α : Type} {step : α → Entry → α} {news : List Entry}
    (h : ∀ entry ∈ news, ∀ count, step count entry = count) (start : α) :
    news.foldl step start = start := by
  induction news with
  | nil => rfl
  | cons entry rest ih =>
    rw [List.foldl_cons, h entry List.mem_cons_self]
    exact ih fun e he => h e (List.mem_cons_of_mem _ he)

theorem waiting_append_singleton (story : List Entry) (entry : Entry) :
    waiting (story ++ [entry]) = advance (waiting story) entry := by
  rw [waiting, List.foldl_append]
  rfl

theorem joined_append (old new : List Entry) : joined (old ++ new) = joined old ++ joined new :=
  List.filterMap_append

theorem left_append (old new : List Entry) : left (old ++ new) = left old ++ left new :=
  List.filterMap_append

theorem advance_of_still {entry : Entry} (h : Still entry) (queue : List Job) :
    advance queue entry = queue := by
  unfold Still at h
  unfold advance
  split <;> simp_all

theorem waiting_append_of_still (story : List Entry) {news : List Entry}
    (h : ∀ entry ∈ news, Still entry) : waiting (story ++ news) = waiting story := by
  rw [waiting, List.foldl_append]
  apply foldl_of_unchanged
  exact fun entry hentry => advance_of_still (h entry hentry)

theorem joined_of_still {news : List Entry} (h : ∀ entry ∈ news, Still entry) :
    joined news = [] := by
  unfold joined
  rw [List.filterMap_eq_nil_iff]
  intro entry hentry
  have hstill := h entry hentry
  unfold Still at hstill
  split <;> simp_all

theorem left_of_still {news : List Entry} (h : ∀ entry ∈ news, Still entry) : left news = [] := by
  unfold left
  rw [List.filterMap_eq_nil_iff]
  intro entry hentry
  have hstill := h entry hentry
  unfold Still at hstill
  split <;> simp_all

/-! ## Statements about every entry -/

/-- A statement about an entry, about what came before it and what follows. -/
abbrev Rule := List Entry → Entry → List Entry → Prop

/-- The rule holds of every entry that was added to a past. -/
def Throughout (rule : Rule) (past news : List Entry) : Prop :=
  ∀ before entry after, news = before ++ entry :: after → rule (past ++ before) entry after

/-- What follows later does not matter to the rule. -/
def Stable (rule : Rule) : Prop :=
  ∀ before entry after more, rule before entry after → rule before entry (after ++ more)

variable {rule : Rule} {past old new : List Entry}

theorem throughout_of_forall (h : ∀ entry ∈ new, ∀ before after, rule before entry after) :
    Throughout rule past new := by
  intro before entry after hnew
  apply h
  rw [hnew]
  simp

theorem throughout_nil : Throughout rule past [] := by
  intro before entry after h
  simp at h

theorem throughout_cons {entry : Entry} {rest : List Entry} (hfirst : rule past entry rest)
    (hrest : Throughout rule (past ++ [entry]) rest) : Throughout rule past (entry :: rest) := by
  intro before entry' after h
  cases before with
  | nil =>
    rw [List.nil_append, List.cons.injEq] at h
    obtain ⟨rfl, rfl⟩ := h
    rw [List.append_nil]
    exact hfirst
  | cons first before =>
    rw [List.cons_append, List.cons.injEq] at h
    obtain ⟨rfl, hafter⟩ := h
    rw [List.append_cons]
    exact hrest before entry' after hafter

theorem Throughout.append (hstable : Stable rule) (hold : Throughout rule past old)
    (hnew : Throughout rule (past ++ old) new) : Throughout rule past (old ++ new) := by
  induction old generalizing past with
  | nil =>
    rw [List.append_nil] at hnew
    exact hnew
  | cons entry rest ih =>
    have hfirst : rule past entry rest := by simpa using hold [] entry rest rfl
    have hrest : Throughout rule (past ++ [entry]) rest := by
      intro before entry' after h
      have hlater := hold (entry :: before) entry' after (by rw [h, List.cons_append])
      rwa [List.append_cons] at hlater
    rw [List.append_cons] at hnew
    exact throughout_cons (hstable _ _ _ _ hfirst) (ih hrest hnew)

end Playback.Proofs.Story
