import Playback.Geometry
import Playback.Proofs.Doubles
import Playback.Proofs.Names
import Playback.Question
/-!
# Values and their JSON forms

A JSON value as a text can spell it holds integers of 64 bits and finite doubles only, and a value
as it is kept also has its members in order. What is read from such a value is written in a form
that reads back as the same: positions and areas, colors, and the answers of a question.
-/

namespace Playback.Proofs.JsonValues

open Doubles Names

/-! ## Values that a text can spell -/

def SoundDouble : Binary64 → Prop
  | .finite _ m e => Regular m e
  | _ => False

def SoundInt (i : Int) : Prop := -(2 : Int) ^ 63 ≤ i ∧ i < (2 : Int) ^ 64

def SoundNumber : Json.Number → Prop
  | .int i => SoundInt i
  | .double x => SoundDouble x

/-- All numbers in the value are numbers that a text can spell. -/
inductive Sound : Json → Prop
  | null : Sound .null
  | bool (b : Bool) : Sound (.bool b)
  | num {n : Json.Number} (h : SoundNumber n) : Sound (.num n)
  | str (s : String) : Sound (.str s)
  | arr {items : List Json} (h : ∀ v ∈ items, Sound v) : Sound (.arr items)
  | obj {members : List (String × Json)} (h : ∀ m ∈ members, Sound m.2) : Sound (.obj members)

/-- A value that a text of so many levels spells and that stays as it is when its members are put in
order. -/
inductive Textual : Nat → Json → Prop
  | null {n : Nat} : Textual n .null
  | bool {n : Nat} (b : Bool) : Textual n (.bool b)
  | num {n : Nat} {x : Json.Number} (h : SoundNumber x) : Textual n (.num x)
  | str {n : Nat} (s : String) : Textual n (.str s)
  | arr {n : Nat} {items : List Json} (h : ∀ v ∈ items, Textual n v) : Textual (n + 1) (.arr items)
  | obj {n : Nat} {members : List (String × Json)} (h : ∀ m ∈ members, Textual n m.2)
    (hsorted : members.Pairwise fun a b => a.1 < b.1) : Textual (n + 1) (.obj members)

theorem Textual.sound {n : Nat} {v : Json} (h : Textual n v) : Sound v := by
  induction h with
  | null => exact .null
  | bool b => exact .bool b
  | num h => exact .num h
  | str s => exact .str s
  | arr _ ih => exact .arr ih
  | obj _ _ ih => exact .obj ih

theorem Textual.mono {n k : Nat} {v : Json} (h : Textual n v) (hle : n ≤ k) : Textual k v := by
  induction h generalizing k with
  | null => exact .null
  | bool b => exact .bool b
  | num h => exact .num h
  | str s => exact .str s
  | arr _ ih =>
    cases k with
    | zero => exact absurd hle (Nat.not_succ_le_zero _)
    | succ k => exact .arr fun v hv => ih v hv (Nat.le_of_succ_le_succ hle)
  | obj _ hsorted ih =>
    cases k with
    | zero => exact absurd hle (Nat.not_succ_le_zero _)
    | succ k => exact .obj (fun m hm => ih m hm (Nat.le_of_succ_le_succ hle)) hsorted

theorem canonicalItems_eq_map (items : List Json) :
    Json.canonicalItems items = items.map Json.canonical := by
  induction items with
  | nil => rfl
  | cons v rest ih => rw [Json.canonicalItems, ih, List.map_cons]

theorem canonicalMembers_eq_map (members : List (String × Json)) :
    Json.canonicalMembers members = members.map fun m => (m.1, m.2.canonical) := by
  induction members with
  | nil => rfl
  | cons m rest ih => rw [Json.canonicalMembers, ih, List.map_cons]

theorem Textual.canonical {n : Nat} {v : Json} (h : Textual n v) : v.canonical = v := by
  induction h with
  | null | bool | num | str => rfl
  | arr _ ih => rw [Json.canonical, canonicalItems_eq_map, List.map_congr_left ih, List.map_id']
  | @obj n members _ hsorted ih =>
    have hmembers : (members.map fun m => (m.1, m.2.canonical)) = members :=
      (List.map_congr_left fun m hm => by rw [ih m hm]).trans (List.map_id' members)
    rw [Json.canonical, canonicalMembers_eq_map, hmembers, entries_ofList hsorted]

/-- What is read from sound values is sound, and is written in a form that reads back. -/
structure Faithful {α : Type} (levels : Nat) (sound : α → Prop) (read : Json → Option α)
    (write : α → Json) : Prop where
  sound_read : ∀ {v a}, Sound v → read v = some a → sound a
  textual_write : ∀ {a}, sound a → Textual levels (write a)
  read_write : ∀ {a}, sound a → read (write a) = some a

/-! ## Members -/

theorem member_append_singleton (ms : List (String × Json)) (e : String × Json) (name : String) :
    Json.member? (ms ++ [e]) name = if e.1 = name then some e.2 else Json.member? ms name := by
  unfold Json.member?
  rw [List.reverse_append, List.reverse_singleton, List.singleton_append, List.find?_cons]
  by_cases h : e.1 = name
  · simp [h]
  · rw [beq_false_of_ne h, if_neg h]

theorem member_ofList (ms : List (String × Json)) (name : String) :
    (Dict.ofList ms).get? name = Json.member? ms name := by
  induction ms using List.reverseRecOn with
  | nil => rfl
  | append_singleton ms e ih =>
    rw [ofList_append_singleton, member_append_singleton]
    split
    · rename_i heq
      rw [← heq, get?_insert_self]
    · rename_i hne
      rw [get?_insert_of_ne _ (Ne.symm hne), ih]

theorem member_entries (d : Dict Json) (name : String) :
    Json.member? d.entries name = d.get? name := by
  rw [← member_ofList, ofList_entries]

theorem member_record (ms : List (String × Json)) (name : String) :
    Json.member? (Dict.ofList ms).entries name = Json.member? ms name := by
  rw [member_entries, member_ofList]

/-! ## Numbers -/

theorem isFinite_of_sound {x : Binary64} (h : SoundDouble x) : x.isFinite = true := by
  cases x with
  | nan => exact h.elim
  | infinite s => exact h.elim
  | finite s m e => rfl

theorem double_of_sound {x : Binary64} (h : SoundDouble x) : Json.double x = .num (.double x) := by
  rw [Json.double, if_pos (isFinite_of_sound h)]

theorem soundDouble_ofInt {i : Int} (h : SoundInt i) : SoundDouble (.ofInt i) := by
  have hlow := h.1
  have hhigh := h.2
  obtain ⟨m, e, heq, hregular⟩ := ofInt_regular (show i.natAbs < 2 ^ 65 by omega)
  rw [heq]
  exact hregular

theorem faithful_double : Faithful 0 SoundDouble Json.double? Json.double where
  sound_read := by
    intro v x hv hx
    cases hv with
    | @num n hn =>
      cases n with
      | int i =>
        obtain rfl : Binary64.ofInt i = x := by simpa [Json.double?] using hx
        exact soundDouble_ofInt hn
      | double y =>
        obtain rfl : y = x := by simpa [Json.double?] using hx
        exact hn
    | _ => cases hx
  textual_write h := by
    rw [double_of_sound h]
    exact .num h
  read_write h := by
    rw [double_of_sound h]
    rfl

/-! ## Lists -/

section Lists

variable {α β : Type}

theorem mapM_cons_eq_some {f : α → Option β} {a : α} {l : List α} {bs : List β} :
    (a :: l).mapM f = some bs ↔ ∃ b rest, f a = some b ∧ l.mapM f = some rest ∧ bs = b :: rest := by
  simp only [List.mapM_cons, Option.bind_eq_bind, Option.bind_eq_some_iff, Option.pure_def,
    Option.some.injEq]
  constructor
  · rintro ⟨b, hb, rest, hrest, rfl⟩
    exact ⟨b, rest, hb, hrest, rfl⟩
  · rintro ⟨b, rest, hb, hrest, rfl⟩
    exact ⟨b, hb, rest, hrest, rfl⟩

theorem exists_of_mem_mapM {f : α → Option β} {l : List α} {bs : List β} (h : l.mapM f = some bs) :
    ∀ b ∈ bs, ∃ a ∈ l, f a = some b := by
  induction l generalizing bs with
  | nil =>
    obtain rfl : [] = bs := by simpa using h
    simp
  | cons a l ih =>
    obtain ⟨b, rest, hb, hrest, rfl⟩ := mapM_cons_eq_some.1 h
    intro c hc
    obtain rfl | hc := List.mem_cons.1 hc
    · exact ⟨a, List.mem_cons_self, hb⟩
    · obtain ⟨a', ha', hread⟩ := ih hrest c hc
      exact ⟨a', List.mem_cons_of_mem a ha', hread⟩

theorem exists_of_mem_of_mapM {f : α → Option β} {l : List α} {bs : List β}
    (h : l.mapM f = some bs) : ∀ a ∈ l, ∃ b, f a = some b := by
  induction l generalizing bs with
  | nil => simp
  | cons a l ih =>
    obtain ⟨b, rest, hb, hrest, -⟩ := mapM_cons_eq_some.1 h
    exact List.forall_mem_cons.2 ⟨⟨b, hb⟩, ih hrest⟩

theorem mapM_map_eq_some {f : α → Option β} {g : β → α} {l : List β}
    (h : ∀ b ∈ l, f (g b) = some b) : (l.map g).mapM f = some l := by
  induction l with
  | nil => rfl
  | cons b l ih =>
    rw [List.map_cons, mapM_cons_eq_some]
    exact ⟨b, l, h b List.mem_cons_self, ih fun c hc => h c (List.mem_cons_of_mem b hc), rfl⟩

theorem faithful_list {n : Nat} {sound : α → Prop} {read : Json → Option α} {write : α → Json}
    (h : Faithful n sound read write) :
    Faithful (n + 1) (fun as => ∀ a ∈ as, sound a) (Json.list? read)
      (fun as => .arr (as.map write)) where
  sound_read := by
    intro v as hv has
    cases hv with
    | @arr items hitems =>
      intro a ha
      obtain ⟨v, hv, hread⟩ := exists_of_mem_mapM (f := read) has a ha
      exact h.sound_read (hitems v hv) hread
    | _ => cases has
  textual_write := by
    intro as has
    refine .arr fun v hv => ?_
    obtain ⟨a, ha, rfl⟩ := List.mem_map.1 hv
    exact h.textual_write (has a ha)
  read_write := fun has => mapM_map_eq_some fun a ha => h.read_write (has a ha)

end Lists

/-! ## Geometry -/

structure SoundPosition (p : Position) : Prop where
  x : SoundDouble p.x
  y : SoundDouble p.y

structure SoundArea (a : Area) : Prop where
  start : SoundPosition a.start
  finish : SoundPosition a.finish

theorem of_read_pair {α β : Type} {read : Json → Option α} (make : α → α → β) {v : Json} {b : β}
    (h : (match v with
      | .arr [x, y] => do some (make (← read x) (← read y))
      | _ => none) = some b) :
    ∃ x y p q, v = .arr [x, y] ∧ read x = some p ∧ read y = some q ∧ b = make p q := by
  split at h
  · rename_i x y
    simp only [Option.bind_eq_bind, Option.bind_eq_some_iff, Option.some.injEq] at h
    obtain ⟨p, hp, q, hq, rfl⟩ := h
    exact ⟨x, y, p, q, rfl, hp, hq, rfl⟩
  · cases h

theorem sound_pair {x y : Json} (h : Sound (.arr [x, y])) : Sound x ∧ Sound y := by
  cases h with
  | arr h => exact ⟨h x (by simp), h y (by simp)⟩

theorem textual_pair {n : Nat} {x y : Json} (hx : Textual n x) (hy : Textual n y) :
    Textual (n + 1) (.arr [x, y]) := by
  refine .arr fun v hv => ?_
  obtain rfl | rfl : v = x ∨ v = y := by simpa using hv
  · exact hx
  · exact hy

theorem faithful_position : Faithful 1 SoundPosition Position.ofJson? Position.toJson where
  sound_read := by
    intro v p hv hp
    obtain ⟨x, y, px, py, rfl, hx, hy, rfl⟩ := of_read_pair Position.mk hp
    obtain ⟨hsx, hsy⟩ := sound_pair hv
    exact ⟨faithful_double.sound_read hsx hx, faithful_double.sound_read hsy hy⟩
  textual_write h :=
    textual_pair (faithful_double.textual_write h.x) (faithful_double.textual_write h.y)
  read_write := by
    intro p h
    simp [Position.toJson, Position.ofJson?, faithful_double.read_write h.x,
      faithful_double.read_write h.y]

theorem faithful_area : Faithful 2 SoundArea Area.ofJson? Area.toJson where
  sound_read := by
    intro v a hv ha
    obtain ⟨x, y, p, q, rfl, hx, hy, rfl⟩ := of_read_pair Area.mk ha
    obtain ⟨hsx, hsy⟩ := sound_pair hv
    exact ⟨faithful_position.sound_read hsx hx, faithful_position.sound_read hsy hy⟩
  textual_write h :=
    textual_pair (faithful_position.textual_write h.start)
      (faithful_position.textual_write h.finish)
  read_write := by
    intro a h
    simp [Area.toJson, Area.ofJson?, faithful_position.read_write h.start,
      faithful_position.read_write h.finish]

theorem channel_eq (n : UInt8) : ((Json.nat n.toNat).natUpTo? 255).map UInt8.ofNat = some n := by
  have hle := n.toNat_lt
  have hrange : (0 : Int) ≤ n.toNat ∧ (n.toNat : Int) ≤ 255 := by omega
  simp [Json.natUpTo?, Json.intIn?, Json.nat, hrange]

theorem textual_nat {k n : Nat} (h : n < 2 ^ 64) : Textual k (.nat n) := .num ⟨by omega, by omega⟩

theorem faithful_color : Faithful 1 (fun _ => True) Color.ofJson? Color.toJson where
  sound_read _ _ := trivial
  textual_write := by
    intro c _
    refine .arr fun v hv => ?_
    obtain ⟨n, -, rfl⟩ := List.mem_map.1 hv
    have hlt := n.toNat_lt
    exact textual_nat (by omega)
  read_write := by
    intro c _
    simp [Color.toJson, Color.ofJson?, Color.channels, channel_eq]

/-! ## Answers -/

def SoundScalar : Scalar → Prop
  | .int i => Int64.minValue.toInt ≤ i ∧ i ≤ Int64.maxValue.toInt
  | .float x => SoundDouble x
  | _ => True

def SoundAnswer : Answer → Prop
  | .list items => ∀ v ∈ items, SoundScalar v
  | .one v => SoundScalar v

theorem faithful_scalar : Faithful 0 SoundScalar Scalar.ofJson? Scalar.toJson where
  sound_read := by
    intro v a hv ha
    cases hv with
    | null => cases ha
    | bool b =>
      obtain rfl : Scalar.bool b = a := by simpa [Scalar.ofJson?] using ha
      trivial
    | @num n hn =>
      cases n with
      | int i =>
        simp only [Scalar.ofJson?, Option.some.injEq] at ha
        split at ha
        · rename_i hrange
          subst ha
          exact hrange
        · subst ha
          exact soundDouble_ofInt hn
      | double x =>
        obtain rfl : Scalar.float x = a := by simpa [Scalar.ofJson?] using ha
        exact hn
    | str s =>
      obtain rfl : Scalar.text s = a := by simpa [Scalar.ofJson?] using ha
      trivial
    | arr => cases ha
    | obj => cases ha
  textual_write := by
    intro a h
    cases a with
    | bool b => exact .bool b
    | int i =>
      have hmin : Int64.minValue.toInt = -(2 : Int) ^ 63 := rfl
      have hmax : Int64.maxValue.toInt = (2 : Int) ^ 63 - 1 := rfl
      have hlow := h.1
      have hhigh := h.2
      exact .num ⟨by omega, by omega⟩
    | float x => exact faithful_double.textual_write h
    | text s => exact .str s
  read_write := by
    intro a h
    cases a with
    | bool b => rfl
    | int i => exact congrArg some (if_pos h)
    | float x => simp [Scalar.toJson, Scalar.ofJson?, double_of_sound h]
    | text s => rfl

/-- A scalar is not written as a list. -/
theorem answer_of_scalar {v : Scalar} (h : SoundScalar v) :
    Answer.ofJson? v.toJson = (Scalar.ofJson? v.toJson).map .one := by
  cases v with
  | bool b => rfl
  | int i => rfl
  | float x =>
    rw [Scalar.toJson, double_of_sound h]
    rfl
  | text s => rfl

theorem faithful_answer : Faithful 1 SoundAnswer Answer.ofJson? Answer.toJson where
  sound_read := by
    intro v a hv ha
    unfold Answer.ofJson? at ha
    split at ha
    · obtain ⟨items, hitems, rfl⟩ := Option.map_eq_some_iff.1 ha
      exact (faithful_list faithful_scalar).sound_read hv hitems
    · obtain ⟨value, hvalue, rfl⟩ := Option.map_eq_some_iff.1 ha
      exact faithful_scalar.sound_read hv hvalue
  textual_write := by
    intro a h
    cases a with
    | list items => exact (faithful_list faithful_scalar).textual_write h
    | one v => exact (faithful_scalar.textual_write h).mono (Nat.zero_le 1)
  read_write := by
    intro a h
    cases a with
    | list items =>
      have hitems : (items.map Scalar.toJson).mapM Scalar.ofJson? = some items :=
        (faithful_list faithful_scalar).read_write h
      simp [Answer.toJson, Answer.ofJson?, hitems]
    | one v =>
      rw [Answer.toJson, answer_of_scalar h, faithful_scalar.read_write h]
      rfl

end Playback.Proofs.JsonValues
