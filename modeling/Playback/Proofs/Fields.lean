import Playback.Proofs.Ingestion
/-!
# Fields within reach

The name of an entry loses the blanks around it before a field is looked up, the fields of a schema
do not, and the check of a schema lets them have blanks around them. So a field of a checked schema
is found under all spellings of its name exactly if there are no blanks around it; otherwise no name
at all finds it, and no question has it.
-/

namespace Playback.Proofs.Fields

open Answers Entries Ingestion JsonValues Names Schemas

/-- The two differ in nothing but ASCII letter case and the blanks around them. -/
def Spells (name field : String) : Prop := Text.sameName (Text.trim name) (Text.trim field)

/-- Whatever is submitted for the field arrives. -/
structure Usable (s : InputSchema) (field : String) : Prop where
  found : ∀ name, Spells name field → s.canonical? name = some field
  kept : isTimenow field = false → field ≠ botIdAttribute →
    ∀ (raw : Dict Json) (botId : String) (q : Question),
      s.buildQuestion raw.entries botId = .ok q →
      ∀ e ∈ raw.entries, Spells e.1 field →
      ∀ a, InputSchema.answerOfJson? e.2 = some a → a.isEmpty = false →
        ∃ e' b, Decides s raw.entries e' field b ∧ q.attrs.get? field = some b

/-- Whatever is submitted for the field is lost. -/
structure Lost (s : InputSchema) (field : String) : Prop where
  never : ∀ name, s.canonical? name ≠ some field
  absent : ∀ (raw : Dict Json) (botId : String) (q : Question),
    s.buildQuestion raw.entries botId = .ok q → q.attrs.get? field = none

section Reaching

variable {s : InputSchema} {field name : String}

theorem lost_of_padded (h : Text.trim field ≠ field) : Lost s field where
  never := fun _ hfound => h (trim_of_canonical hfound)
  absent := by
    intro raw botId q hq
    obtain ⟨-, rfl⟩ := build_eq_ok_iff.1 hq
    have hne : field ≠ botIdAttribute := by
      rintro rfl
      exact h (by decide +kernel)
    rw [get?_insert_of_ne _ hne, Option.eq_none_iff_forall_ne_some]
    intro a ha
    obtain ⟨e, he⟩ := (get?_gifts_iff raw.sorted).1 ha
    exact h (trim_of_canonical he.gives.named)

theorem canonical_of_spells (h : s.validate = .ok ()) (hfield : field ∈ s.fields)
    (htrim : Text.trim field = field) (hname : Spells name field) :
    s.canonical? name = some field := by
  have hsame : Text.sameName field (Text.trim name) := by
    rw [Spells, htrim] at hname
    exact sameName_symm hname
  obtain ⟨found, hfound⟩ := canonical_isSome_iff.2 ⟨field, hfield, hsame⟩
  have hother : Text.sameName found field :=
    sameName_trans (sameName_of_canonical hfound) (sameName_symm hsame)
  rwa [eq_of_sameName h (mem_of_canonical hfound) hfield hother] at hfound

theorem usable_of_trimmed (h : s.validate = .ok ()) (hfield : field ∈ s.fields)
    (htrim : Text.trim field = field) : Usable s field where
  found := fun _ => canonical_of_spells h hfield htrim
  kept := by
    intro hdate hne raw botId q hq e he hname a ha htelling
    have hgives : Gives s e field a :=
      ⟨canonical_of_spells h hfield htrim hname, hdate, ha, htelling⟩
    obtain ⟨e', b, hdecides⟩ := exists_decides raw.sorted he hgives
    refine ⟨e', b, hdecides, ?_⟩
    obtain ⟨-, rfl⟩ := build_eq_ok_iff.1 hq
    rw [get?_insert_of_ne _ hne]
    exact (get?_gifts_iff raw.sorted).2 ⟨e', hdecides⟩

theorem spells_self (field : String) : Spells field field := Text.sameName_refl _

end Reaching

/-- The fields of a checked catalog that can be used are those without blanks around them. The
others are lost, even under their own names. -/
theorem usable_iff_trimmed (c : Catalog) (h : c.validate = .ok ()) :
    ∀ field ∈ c.inputs.fields,
      (Usable c.inputs field ↔ Text.trim field = field) ∧
        (Text.trim field ≠ field → Lost c.inputs field) := by
  intro field hfield
  refine ⟨⟨fun husable => ?_, usable_of_trimmed (validate_inputs h) hfield⟩, lost_of_padded⟩
  exact trim_of_canonical (husable.found field (spells_self field))

theorem usable_club :
    Catalog.standard.validate = .ok () ∧ Usable Catalog.standard.inputs "Club" := by
  have hvalid : Catalog.standard.validate = .ok () := by decide +kernel
  have hclub := (usable_iff_trimmed Catalog.standard hvalid "Club" (by decide +kernel)).1
  exact ⟨hvalid, hclub.2 (by decide +kernel)⟩

/-! ## A field with a blank before its name -/

def padded : Catalog where
  operations := .ofList [("base", ⟨.base, "clube", []⟩)]
  inputs := ⟨["App", "Action", " Club"]⟩

theorem padded_not_found :
    ¬∀ c : Catalog, c.validate = .ok () → ∀ field ∈ c.inputs.fields, ∀ name,
      Spells name field → c.inputs.canonical? name = some field := by
  intro h
  have hvalid : padded.validate = .ok () := by decide +kernel
  have hfound := h padded hvalid " Club" (by decide +kernel) " Club" (spells_self _)
  have hlost : padded.inputs.canonical? " Club" = none := by decide +kernel
  rw [hlost] at hfound
  cases hfound

end Playback.Proofs.Fields
