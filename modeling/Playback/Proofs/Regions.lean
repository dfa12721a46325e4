import Playback.Geometry
/-!
# Regions between corners

A region lies between its corners in whole numbers, whichever of them comes first. The difference of
two coordinates can be too large for a signed number of 32 bits; it wraps, and is right again once
it is taken as an unsigned one, and the way back from the size to the far corner wraps once more.
-/

namespace Playback.Proofs.Regions

/-- The region begins at the smaller coordinates of two corners, ends at the larger ones, and is as
wide and as high as the corners are apart. -/
structure Spans (r : Region) (a b : Point) : Prop where
  left : r.topLeft.x.toInt = min a.x.toInt b.x.toInt
  top : r.topLeft.y.toInt = min a.y.toInt b.y.toInt
  right : r.bottomRight.x.toInt = max a.x.toInt b.x.toInt
  bottom : r.bottomRight.y.toInt = max a.y.toInt b.y.toInt
  width : r.width.toNat = (a.x.toInt - b.x.toInt).natAbs
  height : r.height.toNat = (a.y.toInt - b.y.toInt).natAbs

/-! ## Coordinates -/

section Coordinates

variable (m n : Int32)

theorem toInt_lower : (if m ≤ n then m else n).toInt = min m.toInt n.toInt := by
  split
  · rename_i hle
    rw [Int32.le_iff_toInt_le] at hle
    omega
  · rename_i hle
    rw [Int32.le_iff_toInt_le] at hle
    omega

theorem toInt_upper : (if m ≤ n then n else m).toInt = max m.toInt n.toInt := by
  split
  · rename_i hle
    rw [Int32.le_iff_toInt_le] at hle
    omega
  · rename_i hle
    rw [Int32.le_iff_toInt_le] at hle
    omega

/-- As an unsigned number, what lies below zero is a whole turn further on. -/
theorem toNat_toUInt32 : (n.toUInt32.toNat : Int) = n.toInt % UInt32.size := by
  have hcode := BitVec.toInt_eq_toNat_cond n.toBitVec
  have hlt := n.toUInt32.toNat_lt
  rw [Int32.toInt_toBitVec, Int32.toNat_toBitVec] at hcode
  show (_ : Int) = n.toInt % 4294967296
  split at hcode <;> omega

variable {m n}

/-- A difference that wraps is exact as an unsigned number. -/
theorem toNat_sub_of_le (h : m.toInt ≤ n.toInt) :
    ((n - m).toUInt32.toNat : Int) = n.toInt - m.toInt := by
  have hm := m.le_toInt
  have hn := n.toInt_lt
  rw [toNat_toUInt32, Int32.toInt_sub, Int.bmod_emod]
  exact Int.emod_eq_of_lt (by omega) (by omega)

variable (m n)

theorem toNat_extent :
    ((if m ≤ n then n else m) - (if m ≤ n then m else n)).toUInt32.toNat =
      (m.toInt - n.toInt).natAbs := by
  have hlower := toInt_lower m n
  have hupper := toInt_upper m n
  have hextent := toNat_sub_of_le (by rw [hlower, hupper]; omega :
    (if m ≤ n then m else n).toInt ≤ (if m ≤ n then n else m).toInt)
  omega

theorem add_extent : m + (n - m).toUInt32.toInt32 = n := by
  rw [Int32.toInt32_toUInt32, Int32.add_comm, Int32.sub_add_cancel]

end Coordinates

/-! ## Regions -/

section Regions

variable {r s : Region} {a b : Point}

theorem spans_ofCorners (a b : Point) : Spans (Region.ofCorners a b) a b where
  left := toInt_lower a.x b.x
  top := toInt_lower a.y b.y
  right := by
    rw [← toInt_upper]
    exact congrArg Int32.toInt (add_extent _ _)
  bottom := by
    rw [← toInt_upper]
    exact congrArg Int32.toInt (add_extent _ _)
  width := toNat_extent a.x b.x
  height := toNat_extent a.y b.y

theorem Spans.symm (h : Spans r a b) : Spans r b a where
  left := by rw [h.left, Int.min_comm]
  top := by rw [h.top, Int.min_comm]
  right := by rw [h.right, Int.max_comm]
  bottom := by rw [h.bottom, Int.max_comm]
  width := by rw [h.width, ← Int.natAbs_neg, Int.neg_sub]
  height := by rw [h.height, ← Int.natAbs_neg, Int.neg_sub]

/-- Two corners leave no choice to the region between them. -/
theorem Spans.unique (hr : Spans r a b) (hs : Spans s a b) : r = s := by
  have hleft : r.left = s.left := Int32.toInt_inj.1 (hr.left.trans hs.left.symm)
  have htop : r.top = s.top := Int32.toInt_inj.1 (hr.top.trans hs.top.symm)
  have hwidth : r.width = s.width := UInt32.toNat_inj.1 (hr.width.trans hs.width.symm)
  have hheight : r.height = s.height := UInt32.toNat_inj.1 (hr.height.trans hs.height.symm)
  cases r
  cases s
  cases hleft
  cases htop
  cases hwidth
  cases hheight
  rfl

theorem ofCorners_comm (a b : Point) : Region.ofCorners b a = Region.ofCorners a b :=
  (spans_ofCorners b a).unique (spans_ofCorners a b).symm

theorem Spans.isEmpty_iff (h : Spans r a b) : r.isEmpty = true ↔ a.x = b.x ∨ a.y = b.y := by
  have hwidth := h.width
  have hheight := h.height
  rw [Region.isEmpty, Bool.or_eq_true, beq_iff_eq, beq_iff_eq, ← UInt32.toNat_inj,
    ← UInt32.toNat_inj, ← Int32.toInt_inj, ← Int32.toInt_inj, hwidth, hheight]
  show (_ = 0 ∨ _ = 0) ↔ _
  omega

/-- The region between two corners spans them, no other region does, and it does not matter which
corner comes first. It is empty exactly if the corners share a coordinate. So two opposite corners
of an area of the window may be swapped as well. -/
theorem region_spans_corners (a b : Point) :
    (∀ r, Spans r a b ↔ r = Region.ofCorners a b) ∧
      Region.ofCorners b a = Region.ofCorners a b ∧
      ((Region.ofCorners a b).isEmpty = true ↔ a.x = b.x ∨ a.y = b.y) ∧
      ∀ (rect : ClientRect) (area : Area),
        rect.toRegion ⟨area.finish, area.start⟩ = rect.toRegion area := by
  refine ⟨fun r => ⟨fun h => ?_, ?_⟩, ofCorners_comm a b, ?_, fun rect area => ?_⟩
  · exact h.unique (spans_ofCorners a b)
  · rintro rfl
    exact spans_ofCorners a b
  · exact (spans_ofCorners a b).isEmpty_iff
  · exact ofCorners_comm (rect.toAbsolute area.start) (rect.toAbsolute area.finish)

-- the difference of the horizontal coordinates wraps to -1
example : Region.ofCorners ⟨Int32.maxValue, 7⟩ ⟨Int32.minValue, -5⟩ =
      ⟨Int32.minValue, -5, 4294967295, 12⟩ ∧
    (⟨Int32.minValue, -5, 4294967295, 12⟩ : Region).bottomRight = ⟨Int32.maxValue, 7⟩ := by
  decide

end Regions

end Playback.Proofs.Regions
