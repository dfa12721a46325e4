import Mathlib.Data.List.Find
import Mathlib.Data.List.Nodup
import Playback.Catalog
import Playback.Proofs.Codec
import Playback.Proofs.Letters
/-!
# Schemas

A schema finds the first of its fields that is a name up to letter case, once the blanks around the
name are gone. Such a field has no blanks around it, and finds itself. A checked schema has no two
fields with the same small letters, so that no field stands in the way of another one.
-/

namespace Playback.Proofs.Schemas

open Codec Letters Names

/-! ## Finding a field -/

section Finding

variable {s : InputSchema} {key other field : String}

theorem canonical_congr (h : Text.sameName (Text.trim key) (Text.trim other)) :
    s.canonical? key = s.canonical? other := by
  unfold InputSchema.canonical?
  apply List.find?_congr
  intro field _
  rw [Bool.eq_iff_iff]
  exact ⟨fun hkey => sameName_trans hkey h, fun hother => sameName_trans hother (sameName_symm h)⟩

theorem mem_of_canonical (h : s.canonical? key = some field) : field ∈ s.fields :=
  List.mem_of_find?_eq_some h

theorem sameName_of_canonical (h : s.canonical? key = some field) :
    Text.sameName field (Text.trim key) := by
  simpa using List.find?_some h

theorem trim_of_canonical (h : s.canonical? key = some field) : Text.trim field = field :=
  trim_of_sameName (sameName_of_canonical h) (trim_trim key)

theorem canonical_self (h : s.canonical? key = some field) : s.canonical? field = some field := by
  rw [← h]
  apply canonical_congr
  rw [trim_of_canonical h]
  exact sameName_of_canonical h

theorem canonical_isSome_iff :
    (∃ field, s.canonical? key = some field) ↔
      ∃ field ∈ s.fields, Text.sameName field (Text.trim key) := by
  rw [← Option.isSome_iff_exists, InputSchema.canonical?, List.find?_isSome]

end Finding

/-! ## Checked schemas -/

section Checking

variable {s : InputSchema} {c : Catalog} {a b name : String}

theorem checkFields_eq_ok_iff {seen fields : List String} :
    InputSchema.checkFields seen fields = .ok () ↔
      (∀ field ∈ fields, Text.blank field = false ∧ Text.toLower field ∉ seen) ∧
        (fields.map Text.toLower).Nodup := by
  induction fields generalizing seen with
  | nil => simp [InputSchema.checkFields]
  | cons field rest ih =>
    rw [InputSchema.checkFields, List.map_cons, List.nodup_cons, List.forall_mem_cons]
    by_cases hblank : Text.blank field = true
    · simp [hblank]
    · rw [if_neg hblank]
      by_cases hseen : Text.toLower field ∈ seen
      · simp [hseen]
      · rw [if_neg (by simpa using hseen), ih]
        have hhead : Text.blank field = false ∧ Text.toLower field ∉ seen :=
          ⟨by simpa using hblank, hseen⟩
        constructor
        · rintro ⟨hrest, hnodup⟩
          refine ⟨⟨hhead, fun f hf => ⟨(hrest f hf).1, fun h => ?_⟩⟩, fun h => ?_, hnodup⟩
          · exact (hrest f hf).2 (List.mem_cons_of_mem _ h)
          · obtain ⟨f, hf, hsame⟩ := List.mem_map.1 h
            exact (hrest f hf).2 (List.mem_cons.2 (.inl hsame))
        · rintro ⟨⟨-, hrest⟩, hfresh, hnodup⟩
          refine ⟨fun f hf => ⟨(hrest f hf).1, fun h => ?_⟩, hnodup⟩
          rcases List.mem_cons.1 h with hsame | h
          · exact hfresh (List.mem_map.2 ⟨f, hf, hsame⟩)
          · exact (hrest f hf).2 h

theorem validate_inputs (h : c.validate = .ok ()) : c.inputs.validate = .ok () := by
  unfold Catalog.validate at h
  dsimp only at h
  split at h
  · obtain ⟨_, ⟨⟩, -⟩ := bind_eq_ok.1 h
  · split at h
    · obtain ⟨_, ⟨⟩, -⟩ := bind_eq_ok.1 h
    · split at h
      · obtain ⟨_, ⟨⟩, -⟩ := bind_eq_ok.1 h
      · obtain ⟨_, -, h⟩ := bind_eq_ok.1 h
        exact h

/-- No two fields of a checked schema differ only in letter case. -/
theorem eq_of_sameName (h : s.validate = .ok ()) (ha : a ∈ s.fields) (hb : b ∈ s.fields)
    (hsame : Text.sameName a b) : a = b := by
  obtain ⟨_, hfields, -⟩ := bind_eq_ok.1 h
  have hnodup := (checkFields_eq_ok_iff.1 hfields).2
  exact List.inj_on_of_nodup_map hnodup ha hb (toLower_of_sameName hsame)

end Checking

end Playback.Proofs.Schemas
