import Mathlib.Data.List.Chain
import KalayRecord.IndexRules

namespace KalayRecord

/-- The order that the rules demand of two frames of one track. -/
def Frame.Before (f g : Frame) : Prop := f.offset < g.offset ∧ f.timestamp ≤ g.timestamp

instance : Trans Frame.Before Frame.Before Frame.Before where
  trans h h' := ⟨UInt32.lt_trans h.1 h'.1, UInt32.le_trans h.2 h'.2⟩

namespace FrameIndex

/-- What the rules ask of an index as a whole. -/
structure Sound (x : FrameIndex) : Prop where
  ordered : x.frames.toList.Pairwise Frame.Before
  keyframes : ∀ k ∈ x.keyframeOffsets, ∃ f ∈ x.frames, f.offset = k

/-- No frame is out of order after its neighbour exactly if none is after any earlier one. -/
theorem orderViolation?_eq_none {frames : List Frame} :
    orderViolation? frames = none ↔ frames.Pairwise Frame.Before := by
  rw [← List.isChain_iff_pairwise]
  induction frames using orderViolation?.induct with
  | case1 f g frames hoffset =>
    rw [orderViolation?, if_pos hoffset, List.isChain_cons_cons]
    simp [Frame.Before, hoffset]
  | case2 f g frames hoffset htimestamp =>
    rw [orderViolation?, if_neg hoffset, if_pos htimestamp, List.isChain_cons_cons]
    simp [Frame.Before, htimestamp]
  | case3 f g frames hoffset htimestamp ih =>
    have hbefore : f.Before g := ⟨UInt32.not_le.mp hoffset, UInt32.not_lt.mp htimestamp⟩
    rw [orderViolation?, if_neg hoffset, if_neg htimestamp, ih, List.isChain_cons_cons]
    simp [hbefore]
  | case4 frames hshort =>
    match frames with
    | [] => simp [orderViolation?]
    | [f] => simp [orderViolation?]
    | f :: g :: frames => exact (hshort f g frames rfl).elim

theorem strayKeyframe?_eq_none {x : FrameIndex} :
    x.strayKeyframe? = none ↔ ∀ k ∈ x.keyframeOffsets, ∃ f ∈ x.frames, f.offset = k := by
  simp only [strayKeyframe?, Array.find?_eq_none, Bool.not_eq_true', Bool.not_eq_false,
    Array.any_eq_true', beq_iff_eq]

theorem violation?_eq_none {x : FrameIndex} : x.violation? = none ↔ x.Sound := by
  have hparts : x.violation? = none ↔
      orderViolation? x.frames.toList = none ∧ x.strayKeyframe? = none := by
    simp [violation?]
  rw [hparts, orderViolation?_eq_none, strayKeyframe?_eq_none]
  exact ⟨fun h => ⟨h.1, h.2⟩, fun h => ⟨h.ordered, h.keyframes⟩⟩

/-- An index passes its check exactly if it is sound. -/
theorem validate_eq_ok {x : FrameIndex} : x.validate = .ok () ↔ x.Sound := by
  rw [← violation?_eq_none, validate]
  cases x.violation? with
  | none => simp
  | some v => simp

namespace Sound

variable {x : FrameIndex} {f g : Frame} {i j : Nat}

theorem timestamps (h : x.Sound) :
    x.frames.toList.Pairwise fun f g => f.timestamp ≤ g.timestamp :=
  h.ordered.imp fun hbefore => hbefore.2

theorem before (h : x.Sound) (hi : x.frames[i]? = some f) (hj : x.frames[j]? = some g)
    (hlt : i < j) : f.Before g := by
  rw [← Array.getElem?_toList] at hi hj
  obtain ⟨hi', rfl⟩ := List.getElem?_eq_some_iff.mp hi
  obtain ⟨hj', rfl⟩ := List.getElem?_eq_some_iff.mp hj
  exact List.pairwise_iff_getElem.mp h.ordered i j hi' hj' hlt

theorem le_iff (h : x.Sound) (hi : x.frames[i]? = some f) (hj : x.frames[j]? = some g) :
    i ≤ j ↔ f.offset ≤ g.offset := by
  constructor
  · intro hle
    rcases Nat.eq_or_lt_of_le hle with rfl | hlt
    · rw [hi] at hj
      cases hj
      exact UInt32.le_refl _
    · exact UInt32.le_of_lt (h.before hi hj hlt).1
  · intro hle
    apply Nat.le_of_not_lt
    intro hlt
    exact UInt32.not_lt.mpr hle (h.before hj hi hlt).1

end Sound

end FrameIndex

end KalayRecord
