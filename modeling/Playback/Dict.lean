/-!
# Dictionaries in name order

A dictionary holds its entries in strictly increasing order of their names, so two dictionaries with
the same entries are equal.
-/

namespace Playback

universe u v

/-- Entries under pairwise different names, in increasing order of the names. -/
structure Dict (α : Type u) where
  entries : List (String × α)
  sorted : entries.Pairwise (fun a b => a.1 < b.1)

namespace Dict

variable {α : Type u} {β : Type v}

@[ext] theorem ext {d e : Dict α} (h : d.entries = e.entries) : d = e := by
  cases d; cases e; cases h; rfl

instance [DecidableEq α] : DecidableEq (Dict α) := fun d e =>
  decidable_of_iff (d.entries = e.entries) ⟨ext, fun h => h ▸ rfl⟩

instance [Repr α] : Repr (Dict α) := ⟨fun d n => reprPrec d.entries n⟩

def empty : Dict α := ⟨[], .nil⟩

instance : EmptyCollection (Dict α) := ⟨empty⟩
instance : Inhabited (Dict α) := ⟨empty⟩

def insertEntry (name : String) (value : α) : List (String × α) → List (String × α)
  | [] => [(name, value)]
  | e :: rest =>
    if name < e.1 then (name, value) :: e :: rest
    else if name = e.1 then (name, value) :: rest
    else e :: insertEntry name value rest

theorem mem_insertEntry {name : String} {value : α} {es : List (String × α)} {x : String × α}
    (h : x ∈ insertEntry name value es) : x = (name, value) ∨ x ∈ es := by
  induction es with
  | nil => simpa [insertEntry] using h
  | cons e rest ih =>
    simp only [insertEntry] at h
    split at h
    · simpa using h
    · split at h
      · rcases List.mem_cons.1 h with h | h
        · exact .inl h
        · exact .inr (List.mem_cons_of_mem _ h)
      · rcases List.mem_cons.1 h with h | h
        · exact .inr (h ▸ List.mem_cons_self)
        · exact (ih h).imp_right (List.mem_cons_of_mem _)

private theorem lt_of_not_lt_of_ne {a b : String} (h : ¬a < b) (hne : a ≠ b) : b < a :=
  Classical.byContradiction fun hba =>
    hne (String.le_antisymm (String.not_lt.1 hba) (String.not_lt.1 h))

theorem pairwise_insertEntry {name : String} {value : α} {es : List (String × α)}
    (h : es.Pairwise (fun a b => a.1 < b.1)) :
    (insertEntry name value es).Pairwise (fun a b => a.1 < b.1) := by
  induction es with
  | nil => simp [insertEntry]
  | cons e rest ih =>
    obtain ⟨hhead, htail⟩ := List.pairwise_cons.1 h
    simp only [insertEntry]
    split
    · rename_i hlt
      refine List.pairwise_cons.2 ⟨fun x hx => ?_, h⟩
      rcases List.mem_cons.1 hx with rfl | hx
      · exact hlt
      · exact String.lt_trans hlt (hhead x hx)
    · split
      · rename_i heq
        exact List.pairwise_cons.2 ⟨fun x hx => heq ▸ hhead x hx, htail⟩
      · rename_i hlt hne
        refine List.pairwise_cons.2 ⟨fun x hx => ?_, ih htail⟩
        rcases mem_insertEntry hx with rfl | hx
        · exact lt_of_not_lt_of_ne hlt hne
        · exact hhead x hx

def insert (d : Dict α) (name : String) (value : α) : Dict α :=
  ⟨insertEntry name value d.entries, pairwise_insertEntry d.sorted⟩

def get? (d : Dict α) (name : String) : Option α :=
  (d.entries.find? fun e => e.1 == name).map (·.2)

def contains (d : Dict α) (name : String) : Bool := d.entries.any fun e => e.1 == name

def keys (d : Dict α) : List String := d.entries.map (·.1)

def values (d : Dict α) : List α := d.entries.map (·.2)

/-- The dictionary of the given entries; of several under one name the last counts. -/
def ofList (es : List (String × α)) : Dict α := es.foldl (fun d e => d.insert e.1 e.2) empty

def map (f : α → β) (d : Dict α) : Dict β :=
  ⟨d.entries.map fun e => (e.1, f e.2), by
    rw [List.pairwise_map]
    exact d.sorted⟩

end Dict

end Playback
