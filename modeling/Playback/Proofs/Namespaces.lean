import Playback.Secret
import Playback.Proofs.CapitalLetters
import Playback.Proofs.SmallLetters
/-!
# Secrets and the application they belong to

Whatever name a recording gives to a secret, the variable that is read for it has the stem of the
application in front, in capital letters or in others. A name that has it already is kept, so that
the stem is never put in front twice.
-/

namespace Playback.Proofs.Namespaces

open CapitalLetters Names SmallLetters Text

/-- What is left of the capital letters once a single `POKER` is taken from their end. -/
def Stem (capitals stem : String) : Prop :=
  capitals = stem ++ "POKER" ∨ capitals = stem ∧ ∀ front, capitals ≠ front ++ "POKER"

/-- The variable begins with the application's stem and an underscore, letter case apart. -/
def Belongs (app variableName : String) : Prop :=
  ∃ stem rest, Stem (toUpper (trim app)) stem ∧ toUpper variableName = stem ++ "_" ++ rest

/-- The variable that a secret stands for: its name without the blanks around it, as it is if it
belongs to the application, and after the application's stem if it does not. -/
inductive StandsFor (app name : String) : String → Prop
  | kept (h : Belongs app (trim name)) : StandsFor app name (trim name)
  | led {stem : String} (h : ¬Belongs app (trim name)) (hstem : Stem (toUpper (trim app)) stem) :
      StandsFor app name (stem ++ "_" ++ trim name)

/-! ## The lead of an application -/

section Lead

variable {app stem : String}

theorem beforeTail_eq_some_iff {tail cs front : List Char} :
    beforeTail? tail cs = some front ↔ cs = front ++ tail := by
  unfold beforeTail?
  split
  · rename_i hsuffix
    obtain ⟨start, rfl⟩ := List.isSuffixOf_iff_suffix.1 hsuffix
    rw [List.length_append, Nat.add_sub_cancel, List.take_left, Option.some_inj,
      List.append_left_inj]
  · rename_i hsuffix
    rw [List.isSuffixOf_iff_suffix] at hsuffix
    refine iff_of_false nofun ?_
    rintro rfl
    exact hsuffix (List.suffix_append _ _)

theorem exists_stem (capitals : String) : ∃ stem, Stem capitals stem := by
  by_cases hpoker : ∃ front, capitals = front ++ "POKER"
  · obtain ⟨front, hfront⟩ := hpoker
    exact ⟨front, .inl hfront⟩
  · exact ⟨capitals, .inr ⟨rfl, fun front hfront => hpoker ⟨front, hfront⟩⟩⟩

theorem lead_of_stem (h : Stem (toUpper (trim app)) stem) : Secret.lead app = stem ++ "_" := by
  have hfront : (beforeTail? "POKER".toList (toUpper (trim app)).toList).getD
      (toUpper (trim app)).toList = stem.toList := by
    rcases h with hpoker | ⟨hsame, hnone⟩
    · rw [hpoker, String.toList_append, beforeTail_eq_some_iff.2 rfl]
      rfl
    · cases hcut : beforeTail? "POKER".toList (toUpper (trim app)).toList with
      | none =>
        rw [hsame]
        rfl
      | some front =>
        have hends := hnone (String.ofList front)
        rw [← String.toList_inj.ne, String.toList_append, String.toList_ofList] at hends
        exact absurd (beforeTail_eq_some_iff.1 hcut) hends
  unfold Secret.lead
  dsimp only
  rw [hfront, String.ofList_toList]

theorem belongs_iff {v : String} :
    Belongs app v ↔ ∃ rest, toUpper v = Secret.lead app ++ rest := by
  constructor
  · rintro ⟨stem, rest, hstem, hv⟩
    exact ⟨rest, by rw [hv, lead_of_stem hstem]⟩
  · rintro ⟨rest, hv⟩
    obtain ⟨stem, hstem⟩ := exists_stem (toUpper (trim app))
    exact ⟨stem, rest, hstem, by rw [hv, lead_of_stem hstem]⟩

theorem isPrefixOf_iff {s t : String} :
    s.toList.isPrefixOf t.toList = true ↔ ∃ rest, t = s ++ rest := by
  rw [List.isPrefixOf_iff_prefix]
  constructor
  · rintro ⟨rest, hrest⟩
    refine ⟨String.ofList rest, ?_⟩
    rw [← String.toList_inj, String.toList_append, String.toList_ofList, hrest]
  · rintro ⟨rest, rfl⟩
    exact ⟨rest.toList, String.toList_append.symm⟩

instance (app v : String) : Decidable (Belongs app v) :=
  decidable_of_iff ((Secret.lead app).toList.isPrefixOf (toUpper v).toList = true)
    (isPrefixOf_iff.trans belongs_iff.symm)

theorem toUpper_lead (app : String) : toUpper (Secret.lead app) = Secret.lead app := by
  obtain ⟨stem, hstem⟩ := exists_stem (toUpper (trim app))
  have hcapitals := allCapital_toUpper (trim app)
  have hletters : AllCapital stem := by
    intro c hc
    apply hcapitals
    rcases hstem with h | ⟨h, -⟩
    · rw [h, String.toList_append]
      exact List.mem_append_left _ hc
    · rw [h]
      exact hc
  rw [lead_of_stem hstem, toUpper_append, toUpper_of_allCapital hletters]
  rfl

theorem trimmed_trim (s : String) : Trimmed (trim s).toList := by
  rw [trim, String.toList_ofList]
  exact trimmed_trimChars s.toList

theorem head_lead (app : String) : ∀ c ∈ (Secret.lead app).toList.head?, isBlank c = false := by
  obtain ⟨stem, hstem⟩ := exists_stem (toUpper (trim app))
  have hcapitals := head_toUpper (trimmed_trim app).head
  rw [lead_of_stem hstem, String.toList_append]
  cases hletters : stem.toList with
  | nil =>
    intro c hc
    cases hc
    rfl
  | cons first rest =>
    intro c hc
    apply hcapitals
    rcases hstem with h | ⟨h, -⟩
    · rw [h, String.toList_append, hletters]
      exact hc
    · rw [h, hletters]
      exact hc

end Lead

/-! ## The variable of a secret -/

section Variables

variable {app name v : String}

theorem variableName_of_belongs (h : Belongs app (trim name)) :
    Secret.variableName app name = trim name := by
  unfold Secret.variableName
  dsimp only
  rw [if_pos (isPrefixOf_iff.2 (belongs_iff.1 h))]

theorem variableName_of_not_belongs (h : ¬Belongs app (trim name)) :
    Secret.variableName app name = Secret.lead app ++ trim name := by
  unfold Secret.variableName
  dsimp only
  rw [if_neg fun hlead => h (belongs_iff.2 (isPrefixOf_iff.1 hlead))]

theorem belongs_lead_append (app name : String) : Belongs app (Secret.lead app ++ name) :=
  belongs_iff.2 ⟨toUpper name, by rw [toUpper_append, toUpper_lead]⟩

theorem belongs_variableName (app name : String) : Belongs app (Secret.variableName app name) := by
  by_cases h : Belongs app (trim name)
  · rw [variableName_of_belongs h]
    exact h
  · rw [variableName_of_not_belongs h]
    exact belongs_lead_append app (trim name)

theorem trim_lead_append (app name : String) :
    trim (Secret.lead app ++ trim name) = Secret.lead app ++ trim name := by
  obtain ⟨stem, hstem⟩ := exists_stem (toUpper (trim app))
  have hlead : (Secret.lead app).toList = stem.toList ++ ['_'] := by
    rw [lead_of_stem hstem, String.toList_append]
    rfl
  have htrimmed : Trimmed (Secret.lead app ++ trim name).toList := by
    rw [String.toList_append]
    refine ⟨fun c hc => ?_, fun c hc => ?_⟩
    · rw [List.head?_append_of_ne_nil _ (by simp [hlead])] at hc
      exact head_lead app c hc
    -- the underscore comes last if the name is nothing but blanks
    · cases hletters : (trim name).toList with
      | nil =>
        rw [hletters, List.append_nil, hlead, List.getLast?_concat] at hc
        cases hc
        rfl
      | cons first rest =>
        apply (trimmed_trim name).last
        rw [List.getLast?_append_of_ne_nil _ (by simp [hletters])] at hc
        exact hc
  rw [trim, trimChars_of_trimmed htrimmed, String.ofList_toList]

theorem trim_variableName (app name : String) :
    trim (Secret.variableName app name) = Secret.variableName app name := by
  by_cases h : Belongs app (trim name)
  · rw [variableName_of_belongs h, trim_trim]
  · rw [variableName_of_not_belongs h, trim_lead_append]

theorem standsFor_iff : StandsFor app name v ↔ Secret.variableName app name = v := by
  constructor
  · rintro (h | ⟨h, hstem⟩)
    · exact variableName_of_belongs h
    · rw [variableName_of_not_belongs h, lead_of_stem hstem]
  · rintro rfl
    by_cases h : Belongs app (trim name)
    · rw [variableName_of_belongs h]
      exact .kept h
    · obtain ⟨stem, hstem⟩ := exists_stem (toUpper (trim app))
      rw [variableName_of_not_belongs h, lead_of_stem hstem]
      exact .led h hstem

/-- A variable stands for itself, so that the stem is not put in front of it once more. -/
theorem variableName_variableName (app name : String) :
    Secret.variableName app (Secret.variableName app name) = Secret.variableName app name := by
  have hbelongs := belongs_variableName app name
  rw [← trim_variableName app name] at hbelongs
  rw [variableName_of_belongs hbelongs, trim_variableName]

-- nothing is left of the first name; the second one has two capitals for its `ß`
example : Secret.variableName " Poker " "key" = "_key" ∧
    Secret.variableName "straßepoker" "key" = "STRASSE_key" ∧
    Secret.variableName "straßepoker" "straße_key" = "straße_key" := by
  decide +kernel

def AgreeFor (app : String) (env other : Dict String) : Prop :=
  ∀ v, Belongs app v → env.get? v = other.get? v

theorem resolve_congr {env other : Dict String} (h : AgreeFor app env other) (name : String) :
    Secret.resolve env app name = Secret.resolve other app name := by
  unfold Secret.resolve
  dsimp only
  rw [h _ (belongs_variableName app name)]

end Variables

end Playback.Proofs.Namespaces
