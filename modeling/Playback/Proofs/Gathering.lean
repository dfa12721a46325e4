import Playback.Proofs.Calendar
import Playback.Proofs.Probing
import Playback.Proofs.ReadBack
/-!
# What a search gathers

A search adds each reading that it takes beside a row to one answer of the question, the one that is
kept under the first spelling of the extra name, and notes under `Ok` whether the row matched. Both
hold up to the call that fails, where one does, and nothing else of the question changes. The extra
name reads as what was gathered unless an earlier spelling eclipses it.
-/

namespace Playback.Proofs.Gathering

open Names Probing ReadBack

/-! ## Where answers are put -/

/-- The name that answers under this one are added to. -/
def place (q : Question) (name : String) : String := (first? q name).getD name

/-- What an answer becomes when the readings are added to it. -/
def grown (a : Option Answer) (readings : List Scalar) : Option Answer :=
  if readings = [] then a else some (.list (shown a ++ readings))

section Places

variable {q q' : Question} {name key : String} {a : Option Answer} {v : Scalar}
variable {xs ys : List Scalar}

@[simp] theorem grown_nil : grown a [] = a := rfl

theorem grown_of_ne (hxs : xs ≠ []) : grown a xs = some (.list (shown a ++ xs)) := if_neg hxs

theorem shown_grown : shown (grown a xs) = shown a ++ xs := by
  unfold grown
  split
  · rename_i hnil
    rw [hnil, List.append_nil]
  · rfl

theorem grown_grown : grown (grown a xs) ys = grown a (xs ++ ys) := by
  by_cases hys : ys = []
  · rw [hys, grown_nil, List.append_nil]
  · have hne : xs ++ ys ≠ [] := by simp [hys]
    rw [grown_of_ne hys, grown_of_ne hne, shown_grown, List.append_assoc]

theorem grown_ne {a : Answer} (hxs : xs ≠ []) : grown (some a) xs ≠ some a := by
  intro h
  have hlength := congrArg (fun b => (shown b).length) h
  rw [shown_grown, List.length_append] at hlength
  exact hxs (List.length_eq_zero_iff.1 (by omega))

theorem sameName_place (q : Question) (name : String) : Text.sameName (place q name) name := by
  unfold place
  cases hfirst : first? q name with
  | none => exact Text.sameName_refl name
  | some key => exact (exists_of_first hfirst).2.1

theorem push_eq (hname : isTimenow name = false) :
    q.push name v = ⟨q.attrs.insert (place q name)
      (.list (shown (q.attrs.get? (place q name)) ++ [v]))⟩ := by
  have hpush : ∀ a : Option Answer, (a.getD .empty).push v = .list (shown a ++ [v]) := by
    intro a
    cases a with
    | none => rfl
    | some a => rw [Option.getD_some, answer_push_eq]
  rw [Question.push, if_neg (by simp [hname])]
  exact congrArg (fun b => Question.mk (q.attrs.insert (place q name) b)) (hpush _)

theorem get?_push_place (hname : isTimenow name = false) :
    (q.push name v).attrs.get? (place q name) = grown (q.attrs.get? (place q name)) [v] := by
  rw [push_eq hname]
  exact get?_insert_self _ _ _

theorem get?_push_of_ne (hname : isTimenow name = false) (hne : key ≠ place q name) :
    (q.push name v).attrs.get? key = q.attrs.get? key := by
  rw [push_eq hname]
  exact get?_insert_of_ne _ hne _

theorem place_push (hname : isTimenow name = false) :
    place (q.push name v) name = place q name := by
  cases hfirst : first? q name with
  | some key =>
    rw [place, place, first_push v hname hfirst, hfirst]
  | none =>
    have hplace : place q name = name := by rw [place, hfirst, Option.getD_none]
    rw [hplace]
    cases hafter : first? (q.push name v) name with
    | none => rw [place, hafter, Option.getD_none]
    | some found =>
      rw [place, hafter, Option.getD_some]
      obtain ⟨-, hsame, a, ha⟩ := exists_of_first hafter
      by_contra hne
      rw [get?_push_of_ne hname (by rwa [hplace])] at ha
      exact List.find?_eq_none.1 hfirst found (mem_keys_iff.2 ⟨a, ha⟩) hsame

theorem set_ok (b : Bool) :
    q.set okAttribute (.bool b) = ⟨q.attrs.insert okAttribute (.bool b)⟩ := by
  rw [Question.set, if_neg (by decide +kernel)]

theorem place_set_ok (b : Bool) (hname : ¬Text.sameName name okAttribute) :
    place (q.set okAttribute (.bool b)) name = place q name := by
  have hpass : Text.sameName okAttribute name = false := by
    rw [Bool.eq_false_iff]
    exact fun h => hname (sameName_symm h)
  have hfirst : first? (q.set okAttribute (.bool b)) name = first? q name := by
    rw [set_ok]
    exact find_insertEntry hpass
  rw [place, place, hfirst]

theorem eclipsed_iff : Eclipsed q name ↔ name ∈ q.attrs.keys ∧ place q name ≠ name := by
  constructor
  · intro h
    obtain ⟨key, hfirst, hlt⟩ := first_of_eclipsed h
    refine ⟨h.1, ?_⟩
    rw [place, hfirst, Option.getD_some]
    rintro rfl
    exact String.lt_irrefl _ hlt
  · rintro ⟨hmem, hne⟩
    obtain ⟨a, ha⟩ := mem_keys_iff.1 hmem
    cases hfirst : first? q name with
    | none =>
      rw [place, hfirst, Option.getD_none] at hne
      exact absurd rfl hne
    | some key =>
      rw [place, hfirst, Option.getD_some] at hne
      exact eclipsed_of_first ha hfirst hne

theorem stored_eq_place (h : ¬Eclipsed q name) :
    q.stored? name = q.attrs.get? (place q name) := by
  cases hget : q.attrs.get? name with
  | some a =>
    have hplace : place q name = name := by
      by_contra hne
      exact h (eclipsed_iff.2 ⟨mem_keys_iff.2 ⟨a, hget⟩, hne⟩)
    rw [stored_of_get hget, hplace, hget]
  | none =>
    rw [stored_eq, hget, place]
    cases first? q name with
    | none => exact hget.symm
    | some key => rfl

end Places

/-! ## Gains -/

/-- The extra name is a spelling neither of `Ok` nor of `Timenow`. -/
def Apart (spec : ScrollSpec) : Prop :=
  ∀ extra, spec.extra = some extra →
    ¬Text.sameName extra.name okAttribute ∧ isTimenow extra.name = false

/-- The answers at the place of the extra name have gained the readings. All others are as they
were, the outcome aside. -/
structure Gains (spec : ScrollSpec) (readings : List Scalar) (q q' : Question) : Prop where
  placed : ∀ extra, spec.extra = some extra → place q' extra.name = place q extra.name
  gained : ∀ extra, spec.extra = some extra →
    q'.attrs.get? (place q extra.name) = grown (q.attrs.get? (place q extra.name)) readings
  others : ∀ key, key ≠ okAttribute →
    (∀ extra, spec.extra = some extra → key ≠ place q extra.name) →
      q'.attrs.get? key = q.attrs.get? key

section Gaining

variable {spec : ScrollSpec} {q q' q₁ q₂ : Question} {xs ys : List Scalar} {extra : ExtraRead}

theorem gains_refl (spec : ScrollSpec) (q : Question) : Gains spec [] q q :=
  ⟨fun _ _ => rfl, fun _ _ => rfl, fun _ _ _ => rfl⟩

theorem Gains.trans (h : Gains spec xs q q₁) (h' : Gains spec ys q₁ q₂) :
    Gains spec (xs ++ ys) q q₂ where
  placed extra hextra := (h'.placed extra hextra).trans (h.placed extra hextra)
  gained extra hextra := by
    have hlater := h'.gained extra hextra
    rw [h.placed extra hextra, h.gained extra hextra, grown_grown] at hlater
    exact hlater
  others key hok hkey := by
    have hkey' : ∀ extra, spec.extra = some extra → key ≠ place q₁ extra.name := by
      intro extra hextra
      rw [h.placed extra hextra]
      exact hkey extra hextra
    exact (h'.others key hok hkey').trans (h.others key hok hkey)

theorem place_ne_ok (hapart : Apart spec) (hextra : spec.extra = some extra) (q : Question) :
    place q extra.name ≠ okAttribute := by
  intro heq
  have hsame := sameName_place q extra.name
  rw [heq] at hsame
  exact (hapart extra hextra).1 (sameName_symm hsame)

theorem gains_set_ok (hapart : Apart spec) (q : Question) (b : Bool) :
    Gains spec [] q (q.set okAttribute (.bool b)) where
  placed extra hextra := place_set_ok b (hapart extra hextra).1
  gained extra hextra := by
    rw [set_ok]
    exact get?_insert_of_ne _ (place_ne_ok hapart hextra q) _
  others key hok _ := by
    rw [set_ok]
    exact get?_insert_of_ne _ hok _

theorem gains_push (hapart : Apart spec) (hextra : spec.extra = some extra) (q : Question)
    (v : Scalar) : Gains spec [v] q (q.push extra.name v) where
  placed other hother := by
    cases hextra.symm.trans hother
    exact place_push (hapart extra hextra).2
  gained other hother := by
    cases hextra.symm.trans hother
    exact get?_push_place (hapart extra hextra).2
  others key _ hkey := get?_push_of_ne (hapart extra hextra).2 (hkey extra hextra)

theorem Gains.own (hapart : Apart spec) (h : Gains spec xs q q') (hextra : spec.extra = some extra)
    (hne : place q extra.name ≠ extra.name) :
    q'.attrs.get? extra.name = q.attrs.get? extra.name := by
  apply h.others
  · intro heq
    apply (hapart extra hextra).1
    rw [heq]
    exact Text.sameName_refl _
  · intro other hother
    cases hextra.symm.trans hother
    exact hne.symm

theorem Gains.eclipsed_iff (hapart : Apart spec) (h : Gains spec xs q q')
    (hextra : spec.extra = some extra) : Eclipsed q' extra.name ↔ Eclipsed q extra.name := by
  rw [Gathering.eclipsed_iff, Gathering.eclipsed_iff, h.placed extra hextra]
  refine and_congr_left fun hne => ?_
  rw [mem_keys_iff, mem_keys_iff, h.own hapart hextra hne]

theorem Gains.stored (hapart : Apart spec) (h : Gains spec xs q q')
    (hextra : spec.extra = some extra) (hclear : ¬Eclipsed q extra.name) :
    q'.stored? extra.name = grown (q.stored? extra.name) xs := by
  have hclear' : ¬Eclipsed q' extra.name := fun h' =>
    hclear ((h.eclipsed_iff hapart hextra).1 h')
  rw [stored_eq_place hclear', stored_eq_place hclear, h.placed extra hextra,
    h.gained extra hextra]

theorem Gains.stored_eclipsed (hapart : Apart spec) (h : Gains spec xs q q')
    (hextra : spec.extra = some extra) (heclipsed : Eclipsed q extra.name) :
    ∃ a, q.stored? extra.name = some a ∧ q'.stored? extra.name = some a := by
  obtain ⟨hmem, hne⟩ := Gathering.eclipsed_iff.1 heclipsed
  obtain ⟨a, ha⟩ := mem_keys_iff.1 hmem
  exact ⟨a, stored_of_get ha, stored_of_get ((h.own hapart hextra hne).trans ha)⟩

theorem Gains.stored_iff (hapart : Apart spec) (h : Gains spec xs q q')
    (hextra : spec.extra = some extra) (hxs : xs ≠ []) :
    q'.stored? extra.name = grown (q.stored? extra.name) xs ↔ ¬Eclipsed q extra.name := by
  refine ⟨fun hread heclipsed => ?_, h.stored hapart hextra⟩
  obtain ⟨a, hbefore, hafter⟩ := h.stored_eclipsed hapart hextra heclipsed
  rw [hbefore, hafter] at hread
  exact grown_ne hxs hread.symm

end Gaining

/-! ## Probes -/

/-- A row that was read, what came of it, and what came of reading beside it where that was done. -/
structure Probe where
  area : Area
  row : Except Fault String
  beside : Option (Except Fault String)

def Probe.Fits (spec : ScrollSpec) (p : Probe) : Prop :=
  p.beside.isSome ↔ spec.extra.isSome ∧ ∃ text, p.row = .ok text

def Probe.reading? (p : Probe) : Option Scalar :=
  match p.beside with
  | some (.ok text) => some (.text text)
  | _ => none

def Probe.calls (spec : ScrollSpec) (p : Probe) : List Exchange :=
  .read p.area p.row ::
    match spec.extra, p.beside with
    | some extra, some result => [.read (p.area.offsetBy extra.offset) result]
    | _, _ => []

def readings (probes : List Probe) : List Scalar := probes.filterMap Probe.reading?

def areas (probes : List Probe) : List Area := probes.map Probe.area

def isRead : Exchange → Bool
  | .read .. => true
  | _ => false

/-- What happens from one point of a search to another: the rows that were probed, the calls for
them, and what the question has gained. -/
structure Span (spec : ScrollSpec) (probes : List Probe) (q q' : Question) (l l' : List Exchange) :
    Prop where
  fits : ∀ p ∈ probes, p.Fits spec
  calls : ∃ calls, l' = l ++ calls ∧ calls.filter isRead = probes.flatMap (Probe.calls spec)
  gains : Gains spec (readings probes) q q'

section Spanning

variable {spec : ScrollSpec} {ps ps' : List Probe} {q q₁ q₂ : Question} {l l₁ l₂ : List Exchange}

theorem span_refl (spec : ScrollSpec) (q : Question) (l : List Exchange) : Span spec [] q q l l :=
  ⟨List.forall_mem_nil _, ⟨[], (List.append_nil l).symm, rfl⟩, gains_refl spec q⟩

theorem Span.trans (h : Span spec ps q q₁ l l₁) (h' : Span spec ps' q₁ q₂ l₁ l₂) :
    Span spec (ps ++ ps') q q₂ l l₂ where
  fits p hp := by
    rcases List.mem_append.1 hp with hp | hp
    · exact h.fits p hp
    · exact h'.fits p hp
  calls := by
    obtain ⟨calls, rfl, hcalls⟩ := h.calls
    obtain ⟨calls', rfl, hcalls'⟩ := h'.calls
    refine ⟨calls ++ calls', List.append_assoc _ _ _, ?_⟩
    rw [List.filter_append, List.flatMap_append, hcalls, hcalls']
  gains := by
    rw [readings, List.filterMap_append]
    exact h.gains.trans h'.gains

theorem span_other (spec : ScrollSpec) (q : Question) (l : List Exchange) {call : Exchange}
    (hcall : isRead call = false) : Span spec [] q q l (l ++ [call]) :=
  ⟨List.forall_mem_nil _, ⟨[call], rfl, by simp [hcall]⟩, gains_refl spec q⟩

end Spanning

/-! ## Rows -/

section Searching

variable {τ : Type} {spec : ScrollSpec} {surface : Surface τ} {reference : String}
variable {q q' : Question} {s t : τ} {l l' : List Exchange}

theorem ok_of_push {extra : ExtraRead} (hapart : Apart spec) (hextra : spec.extra = some extra)
    (q : Question) (v : Scalar) :
    (q.push extra.name v).attrs.get? okAttribute = q.attrs.get? okAttribute :=
  get?_push_of_ne (hapart extra hextra).2 (place_ne_ok hapart hextra q).symm

theorem ok_of_set (q : Question) (b : Bool) :
    (q.set okAttribute (.bool b)).attrs.get? okAttribute = some (.bool b) := by
  rw [set_ok]
  exact get?_insert_self _ _ _

theorem recorded_inv {α : Type} {entry : Except Fault α → Exchange} {x : Action τ α}
    {r : Except Fault α} {u : Question × (τ × List Exchange)}
    (hrun : (recorded entry x).onSnd (q, (s, l)) = (r, u)) :
    ∃ t, u = (q, (t, l ++ [entry r])) := by
  cases hrun
  exact ⟨_, rfl⟩

theorem readings_single (p : Probe) : readings [p] = p.reading?.toList := by
  unfold readings
  cases hreading : p.reading? <;> simp [hreading]

theorem span_probe {p : Probe} (hfits : p.Fits spec) (hgains : Gains spec p.reading?.toList q q')
    (hlog : l' = l ++ p.calls spec) : Span spec [p] q q' l l' where
  fits := by simpa using hfits
  calls := by
    refine ⟨p.calls spec, hlog, ?_⟩
    rw [List.flatMap_singleton, List.filter_eq_self]
    unfold Probe.calls
    intro call hcall
    rcases List.mem_cons.1 hcall with rfl | hcall
    · rfl
    · split at hcall
      · rw [List.mem_singleton.1 hcall]
        rfl
      · cases hcall
  gains := by rwa [readings_single]

theorem probeRow_span (hapart : Apart spec) {area : Area} {r : Except Fault (String × Bool)}
    (hrun : spec.probeRow (logged surface) reference area (q, (s, l)) = (r, (q', (t, l')))) :
    ∃ p : Probe, p.area = area ∧ Span spec [p] q q' l l' ∧
      ∀ text isMatch, r = .ok (text, isMatch) →
        q'.attrs.get? okAttribute = some (.bool isMatch) := by
  unfold ScrollSpec.probeRow at hrun
  -- a failed read of the row, no reading beside it, a failed one, and one that is pushed
  rcases Action.bind_cases hrun with ⟨e, hread, rfl⟩ | ⟨text, u, hread, hrun⟩
  · obtain ⟨t₁, htail⟩ := recorded_inv hread
    cases htail
    refine ⟨⟨area, .error e, none⟩, rfl, span_probe ?_ (gains_refl spec q) ?_,
      fun _ _ h => nomatch h⟩
    · simp [Probe.Fits]
    · simp [Probe.calls]
  · obtain ⟨t₁, rfl⟩ := recorded_inv hread
    rw [Action.bind_of_ok (note_run _ _ _)] at hrun
    have hset := gains_set_ok hapart q (ScrollSpec.rowMatches reference text)
    cases hextra : spec.extra with
    | none =>
      simp only [hextra] at hrun
      cases hrun
      refine ⟨⟨area, .ok text, none⟩, rfl, span_probe ?_ hset ?_, ?_⟩
      · simp [Probe.Fits, hextra]
      · simp [Probe.calls, hextra]
      · intro _ _ heq
        cases heq
        exact ok_of_set _ _
    | some extra =>
      simp only [hextra] at hrun
      rcases Action.bind_cases hrun with ⟨e, hbeside, rfl⟩ | ⟨reading, u, hbeside, hrun⟩
      · obtain ⟨t₂, htail⟩ := recorded_inv hbeside
        cases htail
        refine ⟨⟨area, .ok text, some (.error e)⟩, rfl, span_probe ?_ hset ?_,
          fun _ _ h => nomatch h⟩
        · simp [Probe.Fits, hextra]
        · simp [Probe.calls, hextra]
      · obtain ⟨t₂, rfl⟩ := recorded_inv hbeside
        rw [Action.bind_of_ok (note_run _ _ _)] at hrun
        cases hrun
        refine ⟨⟨area, .ok text, some (.ok reading)⟩, rfl,
          span_probe ?_ (hset.trans (gains_push hapart hextra _ _)) ?_, ?_⟩
        · simp [Probe.Fits, hextra]
        · simp [Probe.calls, hextra]
        · intro _ _ heq
          cases heq
          rw [ok_of_push hapart hextra]
          exact ok_of_set _ _

/-- What is known once the rows at `due` were probed for one that matches. -/
structure Looked (due : List Area) (probes : List Probe) (r : Except Fault (Option Area))
    (q' : Question) : Prop where
  inOrder : areas probes <+: due
  through : r = .ok none → areas probes = due
  matched : ∀ area, r = .ok (some area) → (areas probes).getLast? = some area
  judged : ∀ found, r = .ok found → q'.attrs.get? okAttribute = some (.bool found.isSome)

theorem looked_cons {p : Probe} {ps : List Probe} {due : List Area} {r : Except Fault (Option Area)}
    (h : Looked due ps r q') : Looked (p.area :: due) (p :: ps) r q' where
  inOrder := (List.prefix_cons_inj _).2 h.inOrder
  through hr := congrArg (p.area :: ·) (h.through hr)
  matched area hr := by
    have hlast := h.matched area hr
    rw [areas, List.map_cons, List.getLast?_cons]
    rw [areas] at hlast
    rw [hlast, Option.getD_some]
  judged := h.judged

theorem looked_error (p : Probe) (due : List Area) (e : Fault) :
    Looked (p.area :: due) [p] (.error e) q' where
  inOrder := (List.prefix_cons_inj _).2 List.nil_prefix
  through h := nomatch h
  matched _ h := nomatch h
  judged _ h := nomatch h

theorem looked_found (p : Probe) (due : List Area)
    (hok : q'.attrs.get? okAttribute = some (.bool true)) :
    Looked (p.area :: due) [p] (.ok (some p.area)) q' where
  inOrder := (List.prefix_cons_inj _).2 List.nil_prefix
  through h := nomatch h
  matched := by
    rintro _ ⟨⟩
    rfl
  judged := by
    rintro _ ⟨⟩
    exact hok

theorem probeRows_span (hapart : Apart spec) {due : List Area} {r : Except Fault (Option Area)}
    (hok : q.attrs.get? okAttribute = some (.bool false))
    (hrun : spec.probeRows (logged surface) reference due (q, (s, l)) = (r, (q', (t, l')))) :
    ∃ ps, Span spec ps q q' l l' ∧ Looked due ps r q' := by
  induction due generalizing q s l with
  | nil =>
    cases hrun
    refine ⟨[], span_refl spec _ _, List.nil_prefix, fun _ => rfl, fun _ h => (nomatch h), ?_⟩
    rintro _ ⟨⟩
    exact hok
  | cons area rest ih =>
    unfold ScrollSpec.probeRows at hrun
    rcases Action.bind_cases hrun with ⟨e, hrow, rfl⟩ | ⟨⟨text, isMatch⟩, ⟨q₁, s₁, l₁⟩, hrow, hrun⟩
    · obtain ⟨p, rfl, hspan, -⟩ := probeRow_span hapart hrow
      exact ⟨[p], hspan, looked_error p rest e⟩
    · obtain ⟨p, rfl, hspan, hjudged⟩ := probeRow_span hapart hrow
      have hok₁ := hjudged text isMatch rfl
      dsimp only at hrun
      cases isMatch with
      | true =>
        cases hrun
        exact ⟨[p], hspan, looked_found p rest hok₁⟩
      | false =>
        obtain ⟨ps, hrest, hlooked⟩ := ih hok₁ hrun
        exact ⟨p :: ps, hspan.trans hrest, looked_cons hlooked⟩

theorem probePage_span (hapart : Apart spec) {r : Except Fault (String × Option Area)}
    (hrun : spec.probePage (logged surface) reference (q, (s, l)) = (r, (q', (t, l')))) :
    ∃ ps, Span spec ps q q' l l' ∧ Looked spec.candidates ps (r.map (·.2)) q' := by
  have hdue : spec.candidates = spec.base :: spec.candidates.tail := rfl
  rw [hdue]
  unfold ScrollSpec.probePage at hrun
  rcases Action.bind_cases hrun with ⟨e, hrow, rfl⟩ | ⟨⟨text, isMatch⟩, ⟨q₁, s₁, l₁⟩, hrow, hrun⟩
  · obtain ⟨p, harea, hspan, -⟩ := probeRow_span hapart hrow
    rw [← harea]
    exact ⟨[p], hspan, looked_error p _ e⟩
  · obtain ⟨p, harea, hspan, hjudged⟩ := probeRow_span hapart hrow
    have hok₁ := hjudged text isMatch rfl
    rw [← harea]
    dsimp only at hrun
    cases isMatch with
    | true =>
      cases hrun
      rw [← harea]
      exact ⟨[p], hspan, looked_found p _ hok₁⟩
    | false =>
      rcases Action.bind_cases hrun with ⟨e, hrows, rfl⟩ | ⟨found, u, hrows, hrun⟩
      · obtain ⟨ps, hrest, hlooked⟩ := probeRows_span hapart hok₁ hrows
        exact ⟨p :: ps, hspan.trans hrest, looked_cons hlooked⟩
      · cases hrun
        obtain ⟨ps, hrest, hlooked⟩ := probeRows_span hapart hok₁ hrows
        exact ⟨p :: ps, hspan.trans hrest, looked_cons hlooked⟩

/-! ## Passes -/

def isFound : ScrollOutcome → Bool
  | .found .. => true
  | _ => false

/-- What is known once a pass is over. -/
structure PassedOnce (spec : ScrollSpec) (probes : List Probe)
    (r : Except Fault (ScrollOutcome ⊕ String)) (q' : Question) : Prop where
  inOrder : areas probes <+: spec.candidates
  onward : ∀ first, r = .ok (.inr first) →
    areas probes = spec.candidates ∧ q'.attrs.get? okAttribute = some (.bool false)
  matched : ∀ area n, r = .ok (.inl (.found area n)) → (areas probes).getLast? = some area
  judged : ∀ outcome, r = .ok (.inl outcome) →
    q'.attrs.get? okAttribute = some (.bool (isFound outcome))

theorem passedOnce_error {ps : List Probe} (h : areas ps <+: spec.candidates) (e : Fault) :
    PassedOnce spec ps (.error e) q' where
  inOrder := h
  onward _ h := nomatch h
  matched _ _ h := nomatch h
  judged _ h := nomatch h

theorem pass_span (hapart : Apart spec) {done : Nat} {previous : Option String}
    {r : Except Fault (ScrollOutcome ⊕ String)}
    (hrun : spec.pass (logged surface) reference done previous (q, (s, l)) = (r, (q', (t, l')))) :
    ∃ ps, Span spec ps q q' l l' ∧ PassedOnce spec ps r q' := by
  unfold ScrollSpec.pass at hrun
  rcases Action.bind_cases hrun with ⟨e, hpage, rfl⟩ | ⟨⟨first, found⟩, ⟨q₁, s₁, l₁⟩, hpage, hrun⟩
  · obtain ⟨ps, hspan, hlooked⟩ := probePage_span hapart hpage
    exact ⟨ps, hspan, passedOnce_error hlooked.inOrder e⟩
  · obtain ⟨ps, hspan, hlooked⟩ := probePage_span hapart hpage
    have hok := hlooked.judged found rfl
    dsimp only at hrun
    cases found with
    | some area =>
      have hlast := hlooked.matched area rfl
      rcases Action.bind_cases hrun with ⟨e, hclick, rfl⟩ | ⟨_, u, hclick, hrun⟩
      · obtain ⟨t₁, htail⟩ := recorded_inv hclick
        cases htail
        refine ⟨ps, ?_, passedOnce_error hlooked.inOrder e⟩
        simpa using hspan.trans (span_other spec _ l₁ rfl)
      · obtain ⟨t₁, rfl⟩ := recorded_inv hclick
        cases hrun
        refine ⟨ps, ?_, hlooked.inOrder, fun _ h => (nomatch h), ?_, ?_⟩
        · simpa using hspan.trans (span_other spec _ l₁ rfl)
        · rintro _ _ ⟨⟩
          exact hlast
        · rintro _ ⟨⟩
          exact hok
    | none =>
      have hall := hlooked.through rfl
      by_cases hsame : previous = some first
      · dsimp only at hrun
        rw [if_pos hsame] at hrun
        cases hrun
        refine ⟨ps, hspan, hlooked.inOrder, fun _ h => (nomatch h), fun _ _ h => (nomatch h), ?_⟩
        · rintro _ ⟨⟩
          exact hok
      · dsimp only at hrun
        rw [if_neg hsame] at hrun
        cases hrun
        exact ⟨ps, hspan, hlooked.inOrder, fun _ _ => ⟨hall, hok⟩, fun _ _ h => (nomatch h),
          fun _ h => nomatch h⟩

structure Probed (spec : ScrollSpec) (n : Nat) (probes : List Probe)
    (r : Except Fault ScrollOutcome) (q' : Question) : Prop where
  inOrder : areas probes <+: (List.replicate n spec.candidates).flatten
  matched : ∀ area k, r = .ok (.found area k) → (areas probes).getLast? = some area
  judged : ∀ outcome, r = .ok outcome → q'.attrs.get? okAttribute = some (.bool (isFound outcome))

theorem prefix_pages {ps : List Probe} (h : areas ps <+: spec.candidates) (n : Nat) :
    areas ps <+: (List.replicate (n + 1) spec.candidates).flatten := by
  rw [List.replicate_succ, List.flatten_cons]
  exact h.trans (List.prefix_append _ _)

theorem probed_error {ps : List Probe} (h : areas ps <+: spec.candidates) (n : Nat) (e : Fault) :
    Probed spec (n + 1) ps (.error e) q' where
  inOrder := prefix_pages h n
  matched _ _ h := nomatch h
  judged _ h := nomatch h

theorem probed_ended {ps : List Probe} {outcome : ScrollOutcome}
    (h : PassedOnce spec ps (.ok (.inl outcome)) q') (n : Nat) :
    Probed spec (n + 1) ps (.ok outcome) q' where
  inOrder := prefix_pages h.inOrder n
  matched := by
    rintro area k ⟨⟩
    exact h.matched area k rfl
  judged := by
    rintro _ ⟨⟩
    exact h.judged outcome rfl

theorem probed_limit {ps : List Probe} {first : String}
    (h : PassedOnce spec ps (.ok (.inr first)) q') (n k : Nat) :
    Probed spec (n + 1) ps (.ok (.passLimit k)) q' where
  inOrder := prefix_pages h.inOrder n
  matched := by
    intro _ _ heq
    cases heq
  judged := by
    rintro _ ⟨⟩
    exact (h.onward first rfl).2

theorem probed_page {ps ps' : List Probe} {n : Nat} {r : Except Fault ScrollOutcome}
    (hpage : areas ps = spec.candidates) (h : Probed spec n ps' r q') :
    Probed spec (n + 1) (ps ++ ps') r q' where
  inOrder := by
    have hareas : areas (ps ++ ps') = spec.candidates ++ areas ps' := by
      rw [← hpage]
      exact List.map_append
    rw [hareas, List.replicate_succ, List.flatten_cons]
    exact (List.prefix_append_right_inj _).2 h.inOrder
  matched area k hr := by
    have hareas : areas (ps ++ ps') = areas ps ++ areas ps' := List.map_append
    rw [hareas, List.getLast?_append, h.matched area k hr, Option.some_or]
  judged := h.judged

theorem passes_span (hapart : Apart spec) (left : Nat) {done : Nat} {previous : Option String}
    {r : Except Fault ScrollOutcome}
    (hrun : spec.passes (logged surface) reference done previous left (q, (s, l)) =
      (r, (q', (t, l')))) :
    ∃ ps, Span spec ps q q' l l' ∧ Probed spec (left + 1) ps r q' := by
  -- a drag that fails ends the search between two passes, with all that was gathered until then
  induction left generalizing done previous q s l with
  | zero =>
    unfold ScrollSpec.passes at hrun
    rcases Action.bind_cases hrun with ⟨e, hpass, rfl⟩ | ⟨result, ⟨q₁, s₁, l₁⟩, hpass, hrun⟩
    · obtain ⟨ps, hspan, hpassed⟩ := pass_span hapart hpass
      exact ⟨ps, hspan, probed_error hpassed.inOrder 0 e⟩
    · obtain ⟨ps, hspan, hpassed⟩ := pass_span hapart hpass
      cases result with
      | inl outcome =>
        cases hrun
        exact ⟨ps, hspan, probed_ended hpassed 0⟩
      | inr first =>
        cases hrun
        exact ⟨ps, hspan, probed_limit hpassed 0 done⟩
  | succ left ih =>
    unfold ScrollSpec.passes at hrun
    rcases Action.bind_cases hrun with ⟨e, hpass, rfl⟩ | ⟨result, ⟨q₁, s₁, l₁⟩, hpass, hrun⟩
    · obtain ⟨ps, hspan, hpassed⟩ := pass_span hapart hpass
      exact ⟨ps, hspan, probed_error hpassed.inOrder _ e⟩
    · obtain ⟨ps, hspan, hpassed⟩ := pass_span hapart hpass
      cases result with
      | inl outcome =>
        cases hrun
        exact ⟨ps, hspan, probed_ended hpassed _⟩
      | inr first =>
        obtain ⟨hall, -⟩ := hpassed.onward first rfl
        rcases Action.bind_cases hrun with ⟨e, hdrag, rfl⟩ | ⟨_, u, hdrag, hrun⟩
        · obtain ⟨t₁, htail⟩ := recorded_inv hdrag
          cases htail
          refine ⟨ps, ?_, probed_error hpassed.inOrder _ e⟩
          simpa using hspan.trans (span_other spec _ l₁ rfl)
        · obtain ⟨t₁, rfl⟩ := recorded_inv hdrag
          obtain ⟨ps', hrest, hprobed⟩ := ih hrun
          refine ⟨ps ++ ps', ?_, probed_page hall hprobed⟩
          simpa using hspan.trans ((span_other spec _ l₁ rfl).trans hrest)

/-! ## Searches -/

def referenceText (spec : ScrollSpec) (today : Day) (q : Question) : String :=
  (q.getText? today spec.target).getD ""

/-- What a search with a day to compare with has gathered from the rows it probed, after the first
look at the list. -/
structure Gathered (spec : ScrollSpec) (maxPasses : Nat) (q : Question)
    (r : Except Fault ScrollOutcome) (q' : Question) (log : List Exchange)
    (first : Except Fault String) (probes : List Probe) : Prop where
  reads : log.filter isRead = .read spec.base first :: probes.flatMap (Probe.calls spec)
  fits : ∀ p ∈ probes, p.Fits spec
  probed : Probed spec (max 1 maxPasses) probes r q'
  gains : Gains spec (readings probes) q q'
  stored_iff : ∀ extra, spec.extra = some extra → readings probes ≠ [] →
    (q'.stored? extra.name = grown (q.stored? extra.name) (readings probes) ↔
      ¬Eclipsed q extra.name)

theorem gathered_of_span (hapart : Apart spec) {maxPasses : Nat} {r : Except Fault ScrollOutcome}
    {first : Except Fault String} {ps : List Probe}
    (hspan : Span spec ps q q' [.read spec.base first] l)
    (hprobed : Probed spec (max 1 maxPasses) ps r q') :
    Gathered spec maxPasses q r q' l first ps where
  reads := by
    obtain ⟨calls, rfl, hcalls⟩ := hspan.calls
    rw [List.filter_append, hcalls]
    rfl
  fits := hspan.fits
  probed := hprobed
  gains := hspan.gains
  stored_iff extra hextra hne := hspan.gains.stored_iff hapart hextra hne

theorem gathered_search (hapart : Apart spec) {today day : Day} {maxPasses : Nat}
    (hday : parseDay (referenceText spec today q) = .ok day) {r : Except Fault ScrollOutcome}
    (hrun : spec.search (logged surface) today maxPasses (q, (s, [])) = (r, (q', (t, l)))) :
    ∃ first ps, Gathered spec maxPasses q r q' l first ps := by
  have hgets : Action.gets (fun u => (u.1.getText? today spec.target).getD "")
      (q, (s, ([] : List Exchange))) = (.ok (referenceText spec today q), (q, (s, []))) := rfl
  have hparse : Action.ofExcept (parseDay (referenceText spec today q))
      (q, (s, ([] : List Exchange))) = (.ok day, (q, (s, []))) := by
    rw [hday]
    rfl
  unfold ScrollSpec.search at hrun
  rw [Action.bind_of_ok hgets, Action.bind_of_ok hparse] at hrun
  have hpasses : maxPasses - 1 + 1 = max 1 maxPasses := by omega
  rcases Action.bind_cases hrun with ⟨e, hlook, rfl⟩ | ⟨text, u, hlook, hrun⟩
  · obtain ⟨t₁, htail⟩ := recorded_inv hlook
    cases htail
    refine ⟨.error e, [], gathered_of_span hapart (span_refl spec _ _) ?_⟩
    rw [← hpasses]
    have hnone : areas [] <+: spec.candidates := List.nil_prefix
    exact probed_error hnone _ e
  · obtain ⟨t₁, rfl⟩ := recorded_inv hlook
    rw [List.nil_append] at hrun
    by_cases hblank : Text.blank text = true
    · rw [if_pos hblank, Action.bind_of_ok (note_run _ _ _)] at hrun
      cases hrun
      refine ⟨.ok text, [], gathered_of_span hapart ?_ ?_⟩
      · exact ⟨List.forall_mem_nil _, ⟨[], rfl, rfl⟩, gains_set_ok hapart q false⟩
      · refine ⟨List.nil_prefix, ?_, ?_⟩
        · intro _ _ heq
          cases heq
        · rintro _ ⟨⟩
          exact ok_of_set q false
    · rw [if_neg hblank] at hrun
      obtain ⟨ps, hspan, hprobed⟩ := passes_span hapart (maxPasses - 1) hrun
      rw [hpasses] at hprobed
      exact ⟨.ok text, ps, gathered_of_span hapart hspan hprobed⟩

theorem search_refused {today : Day} {maxPasses : Nat} {e : Fault}
    (hday : parseDay (referenceText spec today q) = .error e) (u : τ) :
    spec.search surface today maxPasses (q, u) =
      (.error (.invalidDate (referenceText spec today q)), (q, u)) := by
  have hgets : Action.gets (fun u => (u.1.getText? today spec.target).getD "") (q, u) =
      (.ok (referenceText spec today q), (q, u)) := rfl
  have hparse : Action.ofExcept (parseDay (referenceText spec today q)) (q, u) =
      (.error (.invalidDate (referenceText spec today q)), (q, u)) := by
    rw [hday, Calendar.parseDay_eq_error hday]
    rfl
  unfold ScrollSpec.search
  rw [Action.bind_of_ok hgets, Action.bind_of_error hparse]

end Searching

/-- The effect of a search on its question, on any screen, the failing ones included. -/
theorem search_gathers {τ : Type} (spec : ScrollSpec) (hapart : Apart spec) (surface : Surface τ)
    (today : Day) (maxPasses : Nat) (q : Question) (s : τ) :
    ∃ r q' t log,
      spec.search surface today maxPasses (q, s) = (r, (q', t)) ∧
      spec.search (logged surface) today maxPasses (q, (s, [])) = (r, (q', (t, log))) ∧
      (∀ e, parseDay (referenceText spec today q) = .error e →
        r = .error (.invalidDate (referenceText spec today q)) ∧ q' = q ∧ t = s ∧ log = []) ∧
      (∀ day, parseDay (referenceText spec today q) = .ok day →
        ∃ first probes, Gathered spec maxPasses q r q' log first probes) := by
  obtain ⟨log, htracks⟩ := tracks_search spec surface today maxPasses q s []
  cases hplain : spec.search surface today maxPasses (q, s) with
  | mk r u =>
    obtain ⟨q', t⟩ := u
    rw [hplain] at htracks
    dsimp only at htracks
    refine ⟨r, q', t, log, rfl, htracks, fun e he => ?_, fun day hday => ?_⟩
    · rw [search_refused he] at htracks
      cases htracks
      exact ⟨rfl, rfl, rfl, rfl⟩
    · exact gathered_search hapart hday htracks

/-! ## A click that fails -/

def listedRows : ScrollSpec :=
  let corner : Position := ⟨.zero false, .zero false⟩
  { twoRows with extra := some ⟨"Lista", ⟨corner, corner⟩⟩ }

def unclicked : Surface Nat :=
  { twoPages with clickAt := fun _ => Action.fail (.platform "no click") }

deriving instance DecidableEq for Exchange

theorem apart_listedRows : Apart listedRows := by
  rintro extra ⟨⟩
  decide +kernel

/-- The reading beside the row that is due is kept where the click on the row fails. -/
theorem search_gathers_unclicked :
    Apart listedRows ∧
    ∃ q' log first probes,
      listedRows.search unclicked limit 5 (limited, 0) =
        (.error (.platform "no click"), (q', 1)) ∧
      Gathered listedRows 5 limited (.error (.platform "no click")) q' log first probes ∧
      q'.attrs.get? "Lista" = some (.list [.text "26.01.2024", .text "25/01/2024",
        .text "unreadable", .text "02/01/2024"]) := by
  have hday : parseDay (referenceText listedRows limit limited) = .ok limit := by rfl
  obtain ⟨r, q', t, log, hrun, -, -, hgathers⟩ :=
    search_gathers listedRows apart_listedRows unclicked limit 5 limited 0
  obtain ⟨first, probes, hgathered⟩ := hgathers limit hday
  have hresult : listedRows.search unclicked limit 5 (limited, 0) =
      (.error (.platform "no click"),
        (⟨.ofList [("Limit", .text "09/01/2024"), ("Lista", .list [.text "26.01.2024",
          .text "25/01/2024", .text "unreadable", .text "02/01/2024"]), ("Ok", .bool true)]⟩,
          1)) := by
    decide +kernel
  rw [hresult] at hrun
  cases hrun
  exact ⟨apart_listedRows, _, log, first, probes, hresult, hgathered, rfl⟩

/-! ## Two spellings of the extra name -/

def scripted : Surface (List String) where
  readArea _ := fun texts => (.ok (texts.headD ""), texts.tail)
  clickAt _ := fun texts => (.ok (), texts)
  drag _ _ := fun texts => (.ok (), texts)

def spelledTwice : Question :=
  ⟨.ofList [("LISTA", .text "a"), ("Limit", .text "09/01/2024"), ("lista", .text "b")]⟩

def oneRow : ScrollSpec :=
  let corner : Position := ⟨.zero false, .zero false⟩
  ⟨"Limit", ⟨corner, corner⟩, ⟨corner, corner⟩, [], some ⟨"lista", ⟨corner, corner⟩⟩⟩

/-- The extra name reads as what was there and all readings behind it. -/
def AlwaysGathered : Prop :=
  ∀ (spec : ScrollSpec) (surface : Surface (List String)) (today : Day) (maxPasses : Nat)
    (q q' : Question) (s t : List String) (outcome : ScrollOutcome) (log : List Exchange)
    (first : Except Fault String) (probes : List Probe), Apart spec →
      spec.search (logged surface) today maxPasses (q, (s, [])) = (.ok outcome, (q', (t, log))) →
      log.filter isRead = .read spec.base first :: probes.flatMap (Probe.calls spec) →
      (∀ p ∈ probes, p.Fits spec) →
      ∀ extra, spec.extra = some extra →
        q'.stored? extra.name = grown (q.stored? extra.name) (readings probes)

/-- The other spelling gains the reading. -/
theorem gathered_aside : ¬AlwaysGathered := by
  intro hall
  have hapart : Apart oneRow := by
    rintro extra ⟨⟩
    decide +kernel
  let p : Probe := ⟨oneRow.base, .ok "01/01/2024", some (.ok "x")⟩
  have hrun : oneRow.search (logged scripted) limit 3
      (spelledTwice, (["01/01/2024", "01/01/2024", "x"], [])) =
        (.ok (.found oneRow.base 0),
          (⟨.ofList [("LISTA", .list [.text "a", .text "x"]), ("Limit", .text "09/01/2024"),
            ("Ok", .bool true), ("lista", .text "b")]⟩,
            ([], .read oneRow.base (.ok "01/01/2024") :: p.calls oneRow ++
              [.click oneRow.base.center (.ok ())]))) := by
    decide +kernel
  have hread := hall _ _ _ _ _ _ _ _ _ _ (.ok "01/01/2024") [p] hapart hrun rfl
    (by simp [Probe.Fits, p, oneRow]) _ rfl
  revert hread
  decide +kernel
end Playback.Proofs.Gathering
