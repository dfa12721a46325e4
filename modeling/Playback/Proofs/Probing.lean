import Mathlib.Data.List.Chain
import Playback.Scroll.Search
/-!
# The calls of a search

A search through a list is described by the calls it makes of the screen: the rows it reads page by
page, the drag between two pages, and the click that ends it where a row is due. The description
does not say how the search is carried out; on a screen that grants every call, whatever it shows,
the search makes such calls.
-/

namespace Playback.Proofs.Probing

/-! ## Searches side by side -/

/-- A relation between the steps of a search on one screen and on another. It holds of the calls of
the screens, of what is asked and noted of the question, and of sequences of related steps. -/
structure Parallel {τ υ : Type} (spec : ScrollSpec) (today : Day) (surface : Surface τ)
    (other : Surface υ)
    (P : (α : Type) → Action (Question × τ) α → Action (Question × υ) α → Prop) : Prop where
  done : ∀ {α : Type} (a : α), P α (pure a) (pure a)
  bind : ∀ {α β : Type} {x : Action (Question × τ) α} {y : Action (Question × υ) α}
    {f : α → Action (Question × τ) β} {g : α → Action (Question × υ) β},
    P α x y → (∀ a, P β (f a) (g a)) → P β (x >>= f) (y >>= g)
  asks : P String (.gets fun s => (s.1.getText? today spec.target).getD "")
    (.gets fun s => (s.1.getText? today spec.target).getD "")
  refuses : ∀ reference,
    P Day (Action.ofExcept (parseDay reference)) (Action.ofExcept (parseDay reference))
  judges : ∀ b, P Unit (ScrollSpec.note (·.set okAttribute (.bool b)))
    (ScrollSpec.note (·.set okAttribute (.bool b)))
  gathers : ∀ extra, spec.extra = some extra → ∀ text,
    P Unit (ScrollSpec.note (·.push extra.name (.text text)))
      (ScrollSpec.note (·.push extra.name (.text text)))
  reads : ∀ area, P String (surface.readArea area).onSnd (other.readArea area).onSnd
  clicks : ∀ position, P Unit (surface.clickAt position).onSnd (other.clickAt position).onSnd
  drags : ∀ start finish, P Unit (surface.drag start finish).onSnd (other.drag start finish).onSnd

namespace Parallel

variable {τ υ : Type} {spec : ScrollSpec} {today : Day} {surface : Surface τ} {other : Surface υ}
variable {P : (α : Type) → Action (Question × τ) α → Action (Question × υ) α → Prop}
variable (h : Parallel spec today surface other P) (reference : String)

include h

theorem probeRow (area : Area) :
    P _ (spec.probeRow surface reference area) (spec.probeRow other reference area) := by
  unfold ScrollSpec.probeRow
  refine h.bind (h.reads area) fun row => h.bind (h.judges _) fun _ => ?_
  cases hextra : spec.extra with
  | none => exact h.done _
  | some extra =>
    refine h.bind (h.reads _) fun reading => ?_
    exact h.bind (h.gathers extra hextra reading) fun _ => h.done _

theorem probeRows (areas : List Area) :
    P _ (spec.probeRows surface reference areas) (spec.probeRows other reference areas) := by
  induction areas with
  | nil => exact h.done none
  | cons area rest ih =>
    unfold ScrollSpec.probeRows
    refine h.bind (h.probeRow reference area) ?_
    rintro ⟨row, isMatch⟩
    dsimp only
    split
    · exact h.done _
    · exact ih

theorem probePage : P _ (spec.probePage surface reference) (spec.probePage other reference) := by
  unfold ScrollSpec.probePage
  refine h.bind (h.probeRow reference spec.base) ?_
  rintro ⟨first, isMatch⟩
  dsimp only
  split
  · exact h.done _
  · exact h.bind (h.probeRows reference _) fun found => h.done _

theorem pass (done : Nat) (previous : Option String) :
    P _ (spec.pass surface reference done previous) (spec.pass other reference done previous) := by
  unfold ScrollSpec.pass
  refine h.bind (h.probePage reference) ?_
  rintro ⟨first, found⟩
  dsimp only
  split
  · exact h.bind (h.clicks _) fun _ => h.done _
  · exact h.done _

theorem passes (left done : Nat) (previous : Option String) :
    P _ (spec.passes surface reference done previous left)
      (spec.passes other reference done previous left) := by
  induction left generalizing done previous with
  | zero =>
    unfold ScrollSpec.passes
    refine h.bind (h.pass reference done previous) fun probed => ?_
    split <;> exact h.done _
  | succ left ih =>
    unfold ScrollSpec.passes
    refine h.bind (h.pass reference done previous) fun probed => ?_
    split
    · exact h.done _
    · exact h.bind (h.drags _ _) fun _ => ih _ _

omit reference in
theorem search (maxPasses : Nat) :
    P _ (spec.search surface today maxPasses) (spec.search other today maxPasses) := by
  unfold ScrollSpec.search
  refine h.bind h.asks fun reference => h.bind (h.refuses reference) fun _ => ?_
  refine h.bind (h.reads spec.base) fun initial => ?_
  split
  · exact h.bind (h.judges false) fun _ => h.done _
  · exact h.passes reference _ _ _

end Parallel

/-! ## Calls -/

/-- A call of the screen and what came of it. -/
inductive Exchange where
  | read (area : Area) (result : Except Fault String)
  | click (position : Position) (result : Except Fault Unit)
  | drag (start finish : Position) (result : Except Fault Unit)

def Exchange.isDrag : Exchange → Bool
  | drag .. => true
  | _ => false

section Logging

variable {τ α β : Type}

def recorded (entry : Except Fault α → Exchange) (x : Action τ α) :
    Action (τ × List Exchange) α := fun s =>
  let (r, t) := x s.1
  (r, (t, s.2 ++ [entry r]))

/-- The same screen with a log of its calls in order. -/
def logged (surface : Surface τ) : Surface (τ × List Exchange) where
  readArea area := recorded (.read area) (surface.readArea area)
  clickAt position := recorded (.click position) (surface.clickAt position)
  drag start finish := recorded (.drag start finish) (surface.drag start finish)

/-- Every call succeeds; what a read shows is left open. -/
structure GrantsAll (surface : Surface τ) : Prop where
  readArea : ∀ area s, ∃ text t, surface.readArea area s = (.ok text, t)
  clickAt : ∀ position s, ∃ t, surface.clickAt position s = (.ok (), t)
  drag : ∀ start finish s, ∃ t, surface.drag start finish s = (.ok (), t)

theorem onSnd_recorded {entry : Except Fault α → Exchange} {x : Action τ α} {q : Question} {s t : τ}
    {l : List Exchange} {a : α} (h : x s = (.ok a, t)) :
    (recorded entry x).onSnd (q, (s, l)) = (.ok a, (q, (t, l ++ [entry (.ok a)]))) := by
  simp [Action.onSnd, recorded, h]

theorem read_logged {surface : Surface τ} {area : Area} {q : Question} {s t : τ} {text : String}
    (h : surface.readArea area s = (.ok text, t)) (l : List Exchange) :
    ((logged surface).readArea area).onSnd (q, (s, l)) =
      (.ok text, (q, (t, l ++ [.read area (.ok text)]))) := onSnd_recorded h

theorem click_logged {surface : Surface τ} {position : Position} {q : Question} {s t : τ}
    (h : surface.clickAt position s = (.ok (), t)) (l : List Exchange) :
    ((logged surface).clickAt position).onSnd (q, (s, l)) =
      (.ok (), (q, (t, l ++ [.click position (.ok ())]))) := onSnd_recorded h

theorem drag_logged {surface : Surface τ} {start finish : Position} {q : Question} {s t : τ}
    (h : surface.drag start finish s = (.ok (), t)) (l : List Exchange) :
    ((logged surface).drag start finish).onSnd (q, (s, l)) =
      (.ok (), (q, (t, l ++ [.drag start finish (.ok ())]))) := onSnd_recorded h

/-! ## A log does not disturb -/

def Tracks (x : Action (Question × τ) α) (y : Action (Question × (τ × List Exchange)) α) : Prop :=
  ∀ q s l, ∃ l', y (q, (s, l)) = ((x (q, s)).1, ((x (q, s)).2.1, ((x (q, s)).2.2, l')))

theorem Tracks.bind {x : Action (Question × τ) α} {y : Action (Question × (τ × List Exchange)) α}
    {f : α → Action (Question × τ) β} {g : α → Action (Question × (τ × List Exchange)) β}
    (hx : Tracks x y) (hf : ∀ a, Tracks (f a) (g a)) : Tracks (x >>= f) (y >>= g) := by
  intro q s l
  obtain ⟨l', hy⟩ := hx q s l
  cases hrun : x (q, s) with
  | mk r u =>
    rw [hrun] at hy
    cases r with
    | error e =>
      rw [Action.bind_of_error hrun, Action.bind_of_error hy]
      exact ⟨l', rfl⟩
    | ok a =>
      rw [Action.bind_of_ok hrun, Action.bind_of_ok hy]
      exact hf a u.1 u.2 l'

theorem tracks_pure (a : α) : Tracks (pure a : Action (Question × τ) α) (pure a) :=
  fun _ _ l => ⟨l, rfl⟩

theorem tracks_ofExcept (r : Except Fault α) :
    Tracks (Action.ofExcept r : Action (Question × τ) α) (Action.ofExcept r) :=
  fun _ _ l => ⟨l, rfl⟩

theorem tracks_gets (f : Question → α) :
    Tracks (.gets fun s => f s.1 : Action (Question × τ) α) (.gets fun s => f s.1) :=
  fun _ _ l => ⟨l, rfl⟩

theorem tracks_note (f : Question → Question) :
    Tracks (ScrollSpec.note f : Action (Question × τ) Unit) (ScrollSpec.note f) :=
  fun _ _ l => ⟨l, rfl⟩

theorem tracks_recorded (entry : Except Fault α → Exchange) (x : Action τ α) :
    Tracks (x.onSnd : Action (Question × τ) α) (recorded entry x).onSnd :=
  fun _ _ _ => ⟨_, rfl⟩

variable (spec : ScrollSpec) (surface : Surface τ) (today : Day)

theorem tracks_search (maxPasses : Nat) :
    Tracks (spec.search surface today maxPasses)
      (spec.search (logged surface) today maxPasses) := by
  have hparallel : Parallel spec today surface (logged surface) fun _ => Tracks :=
    { done := tracks_pure
      bind := Tracks.bind
      asks := tracks_gets fun q => (q.getText? today spec.target).getD ""
      refuses := fun _ => tracks_ofExcept _
      judges := fun _ => tracks_note _
      gathers := fun _ _ _ => tracks_note _
      reads := fun _ => tracks_recorded _ _
      clicks := fun _ => tracks_recorded _ _
      drags := fun _ _ => tracks_recorded _ _ }
  exact hparallel.search maxPasses

end Logging

/-! ## What a search calls -/

/-- A row that was looked at: its area, its text, and the reading beside it where one is wanted. -/
structure Row where
  area : Area
  text : String
  beside : String

section Description

variable (spec : ScrollSpec) (day : Day)

def rowAreas : List Area :=
  spec.base :: spec.anchors.map fun p =>
    ⟨⟨spec.base.start.x, p.y⟩, ⟨spec.base.finish.x, p.y + (spec.base.finish.y - spec.base.start.y)⟩⟩

/-- The text is a day at least a week before the given day. -/
def Due (text : String) : Prop := ∃ d, parseDay text = .ok d ∧ d.number + 7 ≤ day.number

def Row.calls (row : Row) : List Exchange :=
  .read row.area (.ok row.text) ::
    match spec.extra with
    | some extra => [.read (row.area.offsetBy extra.offset) (.ok row.beside)]
    | none => []

def pageCalls (page : List Row) : List Exchange := page.flatMap (Row.calls spec)

def turnCalls (page : List Row) : List Exchange :=
  pageCalls spec page ++ [.drag spec.drag.start spec.drag.finish (.ok ())]

def topText (page : List Row) : Option String := page.head?.map Row.text

/-- The rows at these areas were looked at in order and none is due. -/
structure NoneDue (areas : List Area) (page : List Row) : Prop where
  areas : page.map Row.area = areas
  notDue : ∀ row ∈ page, ¬Due day row.text

/-- The rows were looked at in order up to the first that is due, the one at `area`. -/
def FirstDue (areas : List Area) (page : List Row) (area : Area) : Prop :=
  ∃ before row, page = before ++ [row] ∧ row.area = area ∧ Due day row.text ∧
    (∀ r ∈ before, ¬Due day r.text) ∧ page.map Row.area <+: areas

/-- Pages without a row that is due, each with another text at its top than the one before. -/
structure Passed (pages : List (List Row)) : Prop where
  noneDue : ∀ page ∈ pages, NoneDue day (rowAreas spec) page
  moved : (pages.map topText).IsChain (· ≠ ·)

/-- The calls of a search and the outcome it reports. -/
inductive Searched (maxPasses : Nat) : List Exchange → ScrollOutcome → Prop
  | blank {text : String} (htext : Text.blank text = true) :
    Searched maxPasses [.read spec.base (.ok text)] (.exhausted 0)
  | found {text : String} {pages : List (List Row)} {page : List Row} {area : Area}
    (htext : Text.blank text = false) (hpages : Passed spec day pages)
    (hpasses : pages.length < max 1 maxPasses) (hpage : FirstDue day (rowAreas spec) page area) :
    Searched maxPasses
      (.read spec.base (.ok text) :: pages.flatMap (turnCalls spec) ++ pageCalls spec page ++
        [.click area.center (.ok ())])
      (.found area pages.length)
  | exhausted {text : String} {pages : List (List Row)} {page : List Row}
    (htext : Text.blank text = false) (hpages : Passed spec day pages)
    (hpasses : pages.length < max 1 maxPasses) (hpage : NoneDue day (rowAreas spec) page)
    (hsame : pages.getLast?.map topText = some (topText page)) :
    Searched maxPasses
      (.read spec.base (.ok text) :: pages.flatMap (turnCalls spec) ++ pageCalls spec page)
      (.exhausted pages.length)
  | passLimit {text : String} {pages : List (List Row)} {page : List Row}
    (htext : Text.blank text = false) (hpages : Passed spec day (pages ++ [page]))
    (hpasses : pages.length + 1 = max 1 maxPasses) :
    Searched maxPasses
      (.read spec.base (.ok text) :: pages.flatMap (turnCalls spec) ++ pageCalls spec page)
      (.passLimit pages.length)

end Description

section Counting

variable {spec : ScrollSpec} {day : Day}

theorem countP_isDrag_pageCalls (page : List Row) :
    (pageCalls spec page).countP Exchange.isDrag = 0 := by
  rw [pageCalls, List.countP_eq_zero]
  intro call hcall
  obtain ⟨row, -, hrow⟩ := List.mem_flatMap.1 hcall
  unfold Row.calls at hrow
  split at hrow
  · obtain rfl | rfl : call = _ ∨ call = _ := by simpa using hrow
    · simp [Exchange.isDrag]
    · simp [Exchange.isDrag]
  · obtain rfl : call = _ := by simpa using hrow
    simp [Exchange.isDrag]

theorem countP_isDrag_turns (pages : List (List Row)) :
    (pages.flatMap (turnCalls spec)).countP Exchange.isDrag = pages.length := by
  induction pages with
  | nil => rfl
  | cons page pages ih =>
    rw [List.flatMap_cons, List.countP_append, ih, turnCalls, List.countP_append,
      countP_isDrag_pageCalls, List.length_cons, Nat.zero_add, Nat.add_comm]
    rfl

theorem Searched.drags {maxPasses : Nat} {log : List Exchange} {outcome : ScrollOutcome}
    (h : Searched spec day maxPasses log outcome) :
    log.countP Exchange.isDrag = outcome.scrolls := by
  cases h with
  | blank htext => rfl
  | found htext hpages hpasses hpage =>
    simp [List.countP_append, countP_isDrag_turns, countP_isDrag_pageCalls, Exchange.isDrag,
      ScrollOutcome.scrolls]
  | exhausted htext hpages hpasses hpage hsame =>
    simp [List.countP_append, countP_isDrag_turns, countP_isDrag_pageCalls, Exchange.isDrag,
      ScrollOutcome.scrolls]
  | passLimit htext hpages hpasses =>
    simp [List.countP_append, countP_isDrag_turns, countP_isDrag_pageCalls, Exchange.isDrag,
      ScrollOutcome.scrolls]

end Counting

/-! ## A page -/

section Searching

variable {τ : Type} (spec : ScrollSpec) {surface : Surface τ} {reference : String} {day : Day}
variable (hgrantsAll : GrantsAll surface) (hday : parseDay reference = .ok day)

include hday in
theorem rowMatches_iff (row : String) :
    ScrollSpec.rowMatches reference row = true ↔ Due day row := by
  unfold ScrollSpec.rowMatches Due
  cases hrow : parseDay row with
  | error e => simp [evaluate, hday, hrow, bind, Except.bind]
  | ok d =>
    simp only [evaluate, hday, hrow, bind, Except.bind, decide_eq_true_eq, Except.ok.injEq,
      exists_eq_left']
    omega

omit hgrantsAll in
theorem note_run {σ : Type} (f : Question → Question) (q : Question) (s : σ) :
    ScrollSpec.note f (q, s) = (.ok (), (f q, s)) := rfl

include hgrantsAll

theorem probeRow_logged (reference : String) (area : Area) (q : Question) (s : τ)
    (l : List Exchange) :
    ∃ q' t, ∃ row : Row, row.area = area ∧
      spec.probeRow (logged surface) reference area (q, (s, l)) =
        (.ok (row.text, ScrollSpec.rowMatches reference row.text),
          (q', (t, l ++ row.calls spec))) := by
  obtain ⟨text, t, htext⟩ := hgrantsAll.readArea area s
  unfold ScrollSpec.probeRow
  cases hextra : spec.extra with
  | none =>
    refine ⟨q.set okAttribute (.bool (ScrollSpec.rowMatches reference text)), t, ⟨area, text, ""⟩,
      rfl, ?_⟩
    simp only [Row.calls, hextra]
    rw [Action.bind_of_ok (read_logged htext _), Action.bind_of_ok (note_run _ _ _)]
    rfl
  | some extra =>
    obtain ⟨reading, u, hreading⟩ := hgrantsAll.readArea (area.offsetBy extra.offset) t
    refine ⟨(q.set okAttribute (.bool (ScrollSpec.rowMatches reference text))).push extra.name
      (.text reading), u, ⟨area, text, reading⟩, rfl, ?_⟩
    simp only [Row.calls, hextra]
    rw [Action.bind_of_ok (read_logged htext _), Action.bind_of_ok (note_run _ _ _),
      Action.bind_of_ok (read_logged hreading _), Action.bind_of_ok (note_run _ _ _),
      List.append_assoc]
    rfl

def Probed (day : Day) (areas : List Area) (page : List Row) : Option Area → Prop
  | none => NoneDue day areas page
  | some area => FirstDue day areas page area

omit hgrantsAll in
theorem probed_cons {row : Row} {page : List Row} {areas : List Area} {found : Option Area}
    (hrow : ¬Due day row.text) (h : Probed day areas page found) :
    Probed day (row.area :: areas) (row :: page) found := by
  cases found with
  | none =>
    refine ⟨by rw [List.map_cons, h.areas], fun r hr => ?_⟩
    obtain rfl | hr := List.mem_cons.1 hr
    · exact hrow
    · exact h.notDue r hr
  | some area =>
    obtain ⟨before, last, rfl, hlast, hdue, hbefore, hareas⟩ := h
    refine ⟨row :: before, last, rfl, hlast, hdue, fun r hr => ?_, ?_⟩
    · obtain rfl | hr := List.mem_cons.1 hr
      · exact hrow
      · exact hbefore r hr
    · rw [List.map_cons]
      exact (List.prefix_cons_inj _).2 hareas

omit hgrantsAll in
theorem probed_here {row : Row} (areas : List Area) (hrow : Due day row.text) :
    Probed day (row.area :: areas) [row] (some row.area) :=
  ⟨[], row, rfl, rfl, hrow, fun _ hr => absurd hr List.not_mem_nil,
    (List.prefix_cons_inj _).2 List.nil_prefix⟩

include hday

theorem probeRows_logged (areas : List Area) (q : Question) (s : τ) (l : List Exchange) :
    ∃ q' t page found, Probed day areas page found ∧
      spec.probeRows (logged surface) reference areas (q, (s, l)) =
        (.ok found, (q', (t, l ++ pageCalls spec page))) := by
  induction areas generalizing q s l with
  | nil => exact ⟨q, s, [], none, ⟨rfl, fun _ hr => absurd hr List.not_mem_nil⟩, by
      rw [pageCalls, List.flatMap_nil, List.append_nil]; rfl⟩
  | cons area rest ih =>
    obtain ⟨q₁, s₁, row, rfl, hprobe⟩ :=
      probeRow_logged spec hgrantsAll reference area q s l
    unfold ScrollSpec.probeRows
    rw [Action.bind_of_ok hprobe]
    dsimp only
    by_cases hrow : Due day row.text
    · refine ⟨q₁, s₁, [row], _, probed_here rest hrow, ?_⟩
      rw [if_pos ((rowMatches_iff hday _).2 hrow), pageCalls, List.flatMap_singleton]
      rfl
    · obtain ⟨q₂, s₂, page, found, hpage, hrest⟩ := ih q₁ s₁ (l ++ row.calls spec)
      refine ⟨q₂, s₂, row :: page, found, probed_cons hrow hpage, ?_⟩
      rw [if_neg fun h => hrow ((rowMatches_iff hday _).1 h), hrest, pageCalls, pageCalls,
        List.flatMap_cons, List.append_assoc]

theorem probePage_logged (q : Question) (s : τ) (l : List Exchange) :
    ∃ q' t page found first, Probed day (rowAreas spec) page found ∧ topText page = some first ∧
      spec.probePage (logged surface) reference (q, (s, l)) =
        (.ok (first, found), (q', (t, l ++ pageCalls spec page))) := by
  obtain ⟨q₁, s₁, row, hrowArea, hprobe⟩ :=
    probeRow_logged spec hgrantsAll reference spec.base q s l
  have hareas : rowAreas spec = row.area :: spec.candidates.tail := by
    rw [hrowArea]
    rfl
  unfold ScrollSpec.probePage
  rw [Action.bind_of_ok hprobe]
  dsimp only
  by_cases hrow : Due day row.text
  · refine ⟨q₁, s₁, [row], some row.area, row.text, ?_, rfl, ?_⟩
    · rw [hareas]
      exact probed_here _ hrow
    · rw [if_pos ((rowMatches_iff hday _).2 hrow), pageCalls, List.flatMap_singleton, hrowArea]
      rfl
  · obtain ⟨q₂, s₂, page, found, hpage, hrest⟩ := probeRows_logged spec hgrantsAll hday
      spec.candidates.tail q₁ s₁ (l ++ row.calls spec)
    refine ⟨q₂, s₂, row :: page, found, row.text, ?_, rfl, ?_⟩
    · rw [hareas]
      exact probed_cons hrow hpage
    · rw [if_neg fun h => hrow ((rowMatches_iff hday _).1 h), Action.bind_of_ok hrest, pageCalls,
        pageCalls, List.flatMap_cons, List.append_assoc]
      rfl

/-! ## Page after page -/

omit hgrantsAll hday in
theorem passed_append {pages : List (List Row)} {page : List Row} {first : String}
    (hpages : Passed spec day pages) (hpage : NoneDue day (rowAreas spec) page)
    (hfirst : topText page = some first) (hmoved : pages.getLast?.bind topText ≠ some first) :
    Passed spec day (pages ++ [page]) := by
  refine ⟨fun p hp => ?_, ?_⟩
  · obtain hp | hp := List.mem_append.1 hp
    · exact hpages.noneDue p hp
    · rwa [List.mem_singleton.1 hp]
  · rw [List.map_append, List.isChain_append]
    refine ⟨hpages.moved, List.isChain_singleton _, ?_⟩
    intro above habove top htop heq
    rw [List.getLast?_map, Option.mem_def, Option.map_eq_some_iff] at habove
    obtain ⟨last, hlast, rfl⟩ := habove
    obtain rfl : topText page = top := by simpa using htop
    apply hmoved
    rw [hlast, Option.bind_some, heq, hfirst]

def soFar (spec : ScrollSpec) (text : String) (pages : List (List Row)) : List Exchange :=
  .read spec.base (.ok text) :: pages.flatMap (turnCalls spec)

theorem pass_logged {text : String} {pages : List (List Row)} {maxPasses : Nat}
    (htext : Text.blank text = false) (hpages : Passed spec day pages)
    (hpasses : pages.length < max 1 maxPasses) (q : Question) (s : τ) :
    ∃ q' t log result,
      spec.pass (logged surface) reference pages.length (pages.getLast?.bind topText)
        (q, (s, soFar spec text pages)) = (.ok result, (q', (t, log))) ∧
      ((∃ outcome, result = .inl outcome ∧ Searched spec day maxPasses log outcome) ∨
        ∃ page first, result = .inr first ∧ topText page = some first ∧
          Passed spec day (pages ++ [page]) ∧
          log = soFar spec text pages ++ pageCalls spec page) := by
  obtain ⟨q₁, s₁, page, found, first, hpage, hfirst, hprobe⟩ :=
    probePage_logged spec hgrantsAll hday q s (soFar spec text pages)
  unfold ScrollSpec.pass
  rw [Action.bind_of_ok hprobe]
  dsimp only
  cases found with
  | some area =>
    obtain ⟨t, hclick⟩ := hgrantsAll.clickAt area.center s₁
    refine ⟨q₁, t, _, .inl (.found area pages.length), ?_,
      .inl ⟨_, rfl, .found htext hpages hpasses hpage⟩⟩
    dsimp only
    rw [Action.bind_of_ok (click_logged hclick _)]
    rfl
  | none =>
    by_cases hsame : pages.getLast?.bind topText = some first
    · refine ⟨q₁, s₁, _, .inl (.exhausted pages.length), ?_,
        .inl ⟨_, rfl, .exhausted htext hpages hpasses hpage ?_⟩⟩
      · dsimp only
        rw [if_pos hsame]
        rfl
      · obtain ⟨last, hlast, htop⟩ := Option.bind_eq_some_iff.1 hsame
        rw [hlast, hfirst, Option.map_some, htop]
    · refine ⟨q₁, s₁, _, .inr first, ?_,
        .inr ⟨page, first, rfl, hfirst, passed_append spec hpages hpage hfirst hsame, rfl⟩⟩
      dsimp only
      rw [if_neg hsame]
      rfl

theorem passes_logged {text : String} {maxPasses : Nat} (htext : Text.blank text = false)
    (left : Nat) {pages : List (List Row)} (hpages : Passed spec day pages)
    (hpasses : pages.length + left + 1 = max 1 maxPasses) (q : Question) (s : τ) :
    ∃ q' t log outcome,
      spec.passes (logged surface) reference pages.length (pages.getLast?.bind topText) left
        (q, (s, soFar spec text pages)) = (.ok outcome, (q', (t, log))) ∧
      Searched spec day maxPasses log outcome := by
  have hmore : pages.length < max 1 maxPasses := by omega
  induction left generalizing pages q s with
  | zero =>
    obtain ⟨q₁, s₁, log, result, hpass, ⟨outcome, rfl, houtcome⟩ | hgoes⟩ :=
      pass_logged spec hgrantsAll hday htext hpages hmore q s
    · exact ⟨q₁, s₁, log, outcome, by rw [ScrollSpec.passes, Action.bind_of_ok hpass]; rfl,
        houtcome⟩
    · obtain ⟨page, first, rfl, -, hpassed, rfl⟩ := hgoes
      exact ⟨q₁, s₁, _, _, by rw [ScrollSpec.passes, Action.bind_of_ok hpass]; rfl,
        .passLimit htext hpassed hpasses⟩
  | succ left ih =>
    obtain ⟨q₁, s₁, log, result, hpass, ⟨outcome, rfl, houtcome⟩ | hgoes⟩ :=
      pass_logged spec hgrantsAll hday htext hpages hmore q s
    · exact ⟨q₁, s₁, log, outcome, by rw [ScrollSpec.passes, Action.bind_of_ok hpass]; rfl,
        houtcome⟩
    · obtain ⟨page, first, rfl, hfirst, hpassed, rfl⟩ := hgoes
      obtain ⟨t, hdrag⟩ := hgrantsAll.drag spec.drag.start spec.drag.finish s₁
      have hlog : soFar spec text pages ++ pageCalls spec page ++
            [.drag spec.drag.start spec.drag.finish (.ok ())] =
          soFar spec text (pages ++ [page]) := by
        simp [soFar, turnCalls]
      have hlength : (pages ++ [page]).length = pages.length + 1 := by simp
      have hlast : (pages ++ [page]).getLast?.bind topText = some first := by simp [hfirst]
      obtain ⟨q₂, s₂, log, outcome, hrest, houtcome⟩ := ih hpassed (by omega) q₁ t (by omega)
      refine ⟨q₂, s₂, log, outcome, ?_, houtcome⟩
      rw [hlength, hlast] at hrest
      rw [ScrollSpec.passes, Action.bind_of_ok hpass]
      dsimp only
      rw [Action.bind_of_ok (drag_logged hdrag _), hlog]
      exact hrest

end Searching

/-! ## A list of two pages -/

/-- A screen whose state is the page it shows: the drag turns to the second page, and there the
lower row, which begins at a quarter of the height, is due. -/
def twoPages : Surface Nat where
  readArea area := fun page =>
    let text :=
      if area.start.y = .ofRatio false 1 4 then (if page = 0 then "25/01/2024" else "02/01/2024")
      else (if page = 0 then "26.01.2024" else "unreadable")
    (.ok text, page)
  clickAt _ := fun page => (.ok (), page)
  drag _ _ := fun page => (.ok (), page + 1)

def twoRows : ScrollSpec :=
  let corner : Position := ⟨.zero false, .zero false⟩
  ⟨"Limit", ⟨corner, corner⟩, ⟨corner, corner⟩, [⟨.zero false, .ofRatio false 1 4⟩], none⟩

def limited : Question := Question.empty.set "Limit" (.text "09/01/2024")

theorem grantsAll_twoPages : GrantsAll twoPages where
  readArea _ s := ⟨_, s, rfl⟩
  clickAt _ s := ⟨s, rfl⟩
  drag _ _ s := ⟨s + 1, rfl⟩

def limit : Day := ⟨2024, 1, 9, by decide⟩

def lowerRow : Area := twoRows.base.withTop (.ofRatio false 1 4)

end Playback.Proofs.Probing
