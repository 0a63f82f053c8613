import KalayRecord.Proofs.FrameJoin
import KalayRecord.Proofs.IndexOrder
import KalayRecord.Proofs.KeyframeResolution

namespace KalayRecord

namespace FrameIndex

variable {x : FrameIndex} {time : Int} {i j : Nat} {f g : Frame} {k k' offset offset' : UInt32}

namespace Lands

theorem mem (h : x.Lands offset k) : k ∈ x.keyframeOffsets := by
  apply Array.mem_toList_iff.mp
  cases h with
  | last htable _ _ => simp [htable]
  | first htable _ => simp [htable]

section

variable (hkeys : x.keyframeOffsets.toList.Pairwise (· ≤ ·))

include hkeys

/-- No keyframe that could be landed on lies behind the landing. -/
theorem le_of_le (h : x.Lands offset k) (hmem : k' ∈ x.keyframeOffsets) (hle : k' ≤ offset) :
    k' ≤ k := by
  cases h with
  | first htable hall => exact absurd hle (UInt32.not_le.mpr (hall k' hmem))
  | last htable _ hafter =>
    rw [htable] at hkeys
    have hbefore := (List.pairwise_append.mp hkeys).2.2
    rcases List.mem_append.mp (htable ▸ Array.mem_toList_iff.mpr hmem) with hmem | hmem
    · exact hbefore k' hmem k List.mem_cons_self
    · rcases List.mem_cons.mp hmem with rfl | hmem
      · exact UInt32.le_refl _
      · exact absurd hle (UInt32.not_le.mpr (hafter k' hmem))

theorem le_of_lt (h : x.Lands offset k) (hlt : offset < k) (hmem : k' ∈ x.keyframeOffsets) :
    k ≤ k' := by
  cases h with
  | last _ hle _ => exact absurd hle (UInt32.not_le.mpr hlt)
  | first htable _ =>
    rw [htable] at hkeys
    rcases List.mem_cons.mp (htable ▸ Array.mem_toList_iff.mpr hmem) with rfl | hmem
    · exact UInt32.le_refl _
    · exact (List.pairwise_cons.mp hkeys).1 k' hmem

theorem le_of_mem (h : x.Lands offset k) (hmem : k' ∈ x.keyframeOffsets) (hle : offset ≤ k') :
    k ≤ k' := by
  by_cases hlt : offset < k
  · exact h.le_of_lt hkeys hlt hmem
  · exact UInt32.le_trans (UInt32.not_lt.mp hlt) hle

theorem mono (hle : offset ≤ offset') (h : x.Lands offset k) (h' : x.Lands offset' k') :
    k ≤ k' := by
  by_cases hbehind : k ≤ offset
  · exact h'.le_of_le hkeys h.mem (UInt32.le_trans hbehind hle)
  · exact h.le_of_lt hkeys (UInt32.not_le.mp hbehind) h'.mem

end

end Lands

theorem exists_lands (hmem : k ∈ x.keyframeOffsets) (offset : UInt32) :
    ∃ k, x.Lands offset k := by
  cases hhead : x.keyframeOffsets.toList.head? with
  | none => simp [List.head?_eq_none_iff.mp hhead, ← Array.mem_toList_iff] at hmem
  | some first => exact ⟨_, (lands_iff hhead).mpr rfl⟩

theorem FirstFrom.le_of_le (h : x.FirstFrom time i f) (hj : x.frames[j]? = some g)
    (hle : time ≤ g.timestamp.toNat) : i ≤ j := by
  apply Nat.le_of_not_lt
  intro hlt
  have := h.earlier j g hlt hj
  omega

theorem FirstFrom.unique (h : x.FirstFrom time i f) (h' : x.FirstFrom time j g) :
    i = j ∧ f = g := by
  obtain rfl := Nat.le_antisymm (h.le_of_le h'.frame h'.le) (h'.le_of_le h.frame h.le)
  exact ⟨rfl, Option.some.inj (h.frame.symm.trans h'.frame)⟩

theorem Sound.firstFrom_self (h : x.Sound) (hi : x.frames[i]? = some f) :
    x.FirstFrom f.timestamp.toNat i f ↔
      ∀ j g, j < i → x.frames[j]? = some g → g.timestamp ≠ f.timestamp := by
  constructor
  · intro hfirst j g hj hg htime
    have := hfirst.earlier j g hj hg
    rw [htime] at this
    omega
  · intro halone
    refine ⟨hi, Int.le_refl _, fun j g hj hg => ?_⟩
    have hle : g.timestamp ≤ f.timestamp := (h.before hg hi hj).2
    have hlt : g.timestamp < f.timestamp := UInt32.lt_of_le_of_ne hle (halone j g hj hg)
    exact Int.ofNat_lt.mpr (UInt32.lt_iff_toNat_lt.mp hlt)

theorem exists_firstFrom (hj : x.frames[j]? = some g) (hle : time ≤ g.timestamp.toNat) :
    ∃ i f, x.FirstFrom time i f := by
  cases hfind : x.frames.toList.find? fun f => time ≤ f.timestamp.toNat with
  | none =>
    have := forall_lt_iff.mpr hfind g (Array.mem_of_getElem? hj)
    omega
  | some f =>
    obtain ⟨i, h⟩ := firstFrom_iff.mpr hfind
    exact ⟨i, f, h⟩

/-- A search succeeds exactly if a frame is found and a keyframe for it. -/
theorem keyframeFor_eq_ok (hframes : x.frames.toList.Pairwise fun f g => f.timestamp ≤ g.timestamp)
    (hkeys : x.keyframeOffsets.toList.Pairwise (· ≤ ·)) :
    x.keyframeFor time = .ok k ↔ ∃ i f, x.FirstFrom time i f ∧ x.Lands f.offset k := by
  constructor
  · intro h
    have hresolution : x.Resolution time (x.keyframeFor time) :=
      resolution_keyframeFor hframes hkeys
    rw [h] at hresolution
    cases hresolution with
    | keyframe hfirst hlands => exact ⟨_, _, hfirst, hlands⟩
  · rintro ⟨i, f, hfirst, hlands⟩
    exact keyframeFor_of_resolution hframes hkeys (.keyframe hfirst hlands)

section

variable (hkeys : x.keyframeOffsets.toList.Pairwise (· ≤ ·))

include hkeys

/-- A time that some frame is not before is looked up, and found at that frame or before it. -/
theorem Sound.exists_landing (hsound : x.Sound) (hj : x.frames[j]? = some g)
    (hle : time ≤ g.timestamp.toNat) (hmem : k' ∈ x.keyframeOffsets) :
    ∃ i f k, x.keyframeFor time = .ok k ∧ x.FirstFrom time i f ∧ x.Lands f.offset k ∧
      i ≤ j ∧ f.offset ≤ g.offset := by
  obtain ⟨i, f, hfirst⟩ := exists_firstFrom hj hle
  obtain ⟨k, hlands⟩ := exists_lands hmem f.offset
  have hplace : i ≤ j := hfirst.le_of_le hj hle
  exact ⟨i, f, k, (keyframeFor_eq_ok hsound.timestamps hkeys).mpr ⟨i, f, hfirst, hlands⟩,
    hfirst, hlands, hplace, (hsound.le_iff hfirst.frame hj).mp hplace⟩

theorem Sound.nearest (hsound : x.Sound) (hfirst : x.FirstFrom time i f)
    (hlands : x.Lands f.offset k) (hle : k ≤ f.offset) :
    ∃ j g, x.frames[j]? = some g ∧ g.offset = k ∧ (time < g.timestamp.toNat → j = i) ∧
      ∀ key ∈ x.keyframeOffsets, ¬(k < key ∧ key < f.offset) := by
  obtain ⟨g, hmem, rfl⟩ := hsound.keyframes k hlands.mem
  obtain ⟨j, hj⟩ := Array.mem_iff_getElem?.mp hmem
  refine ⟨j, g, hj, rfl, fun htime => ?_, fun key hkey hbetween => ?_⟩
  · exact Nat.le_antisymm ((hsound.le_iff hj hfirst.frame).mpr hle)
      (hfirst.le_of_le hj (Int.le_of_lt htime))
  · have := hlands.le_of_le hkeys hkey (UInt32.le_of_lt hbetween.2)
    exact UInt32.not_le.mpr hbetween.1 this

/-- In a sound index an earlier time lands no later; and where a keyframe lies at or before the first
frame at or after the time, the landing is the nearest such keyframe, and later than the time only as
that very frame. -/
theorem seeks_monotone (hvalid : x.validate = .ok ()) {time' : Int} (hle : time ≤ time')
    (h : x.keyframeFor time' = .ok k') :
    ∃ k i f, x.keyframeFor time = .ok k ∧ k ≤ k' ∧ x.FirstFrom time i f ∧
      ((∃ t : FrameTables, t.build = x) →
        ∀ landing ∈ [k, k'], ∃ g ∈ x.frames, g.offset = landing ∧ g.isKeyframe = true) ∧
      ((∃ key ∈ x.keyframeOffsets, key ≤ f.offset) →
        ∃ j g, x.frames[j]? = some g ∧ g.offset = k ∧ (time < g.timestamp.toNat → j = i) ∧
          ∀ key ∈ x.keyframeOffsets, ¬(k < key ∧ key < f.offset)) := by
  have hsound := validate_eq_ok.mp hvalid
  obtain ⟨i', f', hfirst', hlands'⟩ := (keyframeFor_eq_ok hsound.timestamps hkeys).mp h
  obtain ⟨i, f, k, hseek, hfirst, hlands, -, hoffset⟩ :=
    hsound.exists_landing hkeys hfirst'.frame (Int.le_trans hle hfirst'.le) hlands'.mem
  refine ⟨k, i, f, hseek, hlands.mono hkeys hoffset hlands', hfirst, ?_, ?_⟩
  · rintro ⟨t, rfl⟩ landing hlanding
    have hmem : landing ∈ t.build.keyframeOffsets := by
      rcases List.mem_pair.mp hlanding with rfl | rfl
      · exact hlands.mem
      · exact hlands'.mem
    obtain ⟨g, hg, rfl⟩ := hsound.keyframes landing hmem
    exact ⟨g, hg, rfl, (FrameTables.isKeyframe_iff hg).mpr hmem⟩
  · rintro ⟨key, hkey, hbefore⟩
    apply hsound.nearest hkeys hfirst hlands
    -- a landing behind the frame would be the first keyframe, and `key` would not be before it
    apply UInt32.not_lt.mp
    intro hlt
    exact UInt32.not_le.mpr hlt (UInt32.le_trans (hlands.le_of_lt hkeys hlt hkey) hbefore)

end

/-- Every other frame is a keyframe. -/
def pairedIndex : FrameIndex :=
  FrameTables.build { timestamps := [0, 100, 200, 300], keyframeOffsets := [0, 1000]
                      sizes := [500, 500, 500, 500], offsets := [0, 500, 1000, 1500] }

theorem pairedIndex_monotone :
    ∃ k, pairedIndex.keyframeFor 50 = .ok k ∧ k ≤ 1000 ∧
      ∃ g ∈ pairedIndex.frames, g.offset = k ∧ g.isKeyframe = true := by
  have hle : (50 : Int) ≤ 250 := by decide
  have hseek : pairedIndex.keyframeFor 250 = .ok 1000 := by decide +kernel
  obtain ⟨k, -, -, hk, hbefore, -, hmarked, -⟩ :=
    seeks_monotone (by decide) (by decide +kernel) hle hseek
  exact ⟨k, hk, hbefore, hmarked ⟨_, rfl⟩ k List.mem_cons_self⟩

/-- The time of a keyframe lands on that keyframe or before it: before it exactly if an earlier frame
has the same time and an earlier keyframe is there to land on. -/
theorem own_time_lands (hvalid : x.validate = .ok ())
    (hkeys : x.keyframeOffsets.toList.Pairwise (· ≤ ·))
    (hmarks : ∀ g ∈ x.frames, g.isKeyframe = true → g.offset ∈ x.keyframeOffsets)
    (hframe : x.frames[i]? = some f) (hkey : f.isKeyframe = true) :
    ∃ k, x.keyframeFor f.timestamp.toNat = .ok k ∧ k ≤ f.offset ∧
      (k = f.offset ↔
        (∀ j g, j < i → x.frames[j]? = some g → g.timestamp ≠ f.timestamp) ∨
          ∀ key ∈ x.keyframeOffsets, f.offset ≤ key) := by
  have hsound := validate_eq_ok.mp hvalid
  have hmem := hmarks f (Array.mem_of_getElem? hframe) hkey
  obtain ⟨i₀, f₀, k, hseek, hfirst, hlands, hplace, hoffset⟩ :=
    hsound.exists_landing hkeys hframe (Int.le_refl _) hmem
  have hle : k ≤ f.offset := hlands.le_of_mem hkeys hmem hoffset
  refine ⟨k, hseek, hle, ?_⟩
  constructor
  · rintro rfl
    rcases Nat.eq_or_lt_of_le hplace with rfl | hlt
    · obtain rfl := Option.some.inj (hfirst.frame.symm.trans hframe)
      exact Or.inl ((hsound.firstFrom_self hframe).mp hfirst)
    · have hbehind := (hsound.before hfirst.frame hframe hlt).1
      exact Or.inr fun key hkey => hlands.le_of_lt hkeys hbehind hkey
  · rintro (halone | hleast)
    · obtain ⟨rfl, rfl⟩ := hfirst.unique ((hsound.firstFrom_self hframe).mpr halone)
      exact UInt32.le_antisymm hle (hlands.le_of_le hkeys hmem (UInt32.le_refl _))
    · exact UInt32.le_antisymm hle (hleast k hlands.mem)

theorem pairedIndex_own_time : pairedIndex.keyframeFor 200 = .ok 1000 := by
  have hframe : pairedIndex.frames[2]? = some ⟨2, 200, 1000, 500, true⟩ := by decide
  have halone : ∀ j < 2, pairedIndex.frames[j]?.all (·.timestamp ≠ 200) := by decide
  obtain ⟨k, hseek, -, hlands⟩ :=
    own_time_lands (by decide +kernel) (by decide) (by decide +kernel) hframe rfl
  obtain rfl := hlands.mpr (Or.inl fun j g hj hg => by simpa [hg] using halone j hj)
  exact hseek

def twinIndex : FrameIndex :=
  FrameTables.build { timestamps := [0, 100, 100], keyframeOffsets := [0, 1000]
                      sizes := [500, 500, 500], offsets := [0, 500, 1000] }

/-- The second frame is marked as a keyframe that the keyframe table does not have. -/
def mismarkedIndex : FrameIndex where
  frames := #[⟨0, 0, 0, 500, true⟩, ⟨1, 100, 500, 500, true⟩]
  keyframeOffsets := #[0]

/-- The time of a keyframe lands on an earlier one where two frames have one time, and where the
table does not bear out the mark. -/
theorem twinIndex_own_time :
    (twinIndex.validate = .ok () ∧ twinIndex.keyframeOffsets.toList.Pairwise (· ≤ ·) ∧
      ∃ f, twinIndex.frames[2]? = some f ∧ f.isKeyframe = true ∧ f.offset = 1000 ∧
        twinIndex.keyframeFor f.timestamp.toNat = .ok 0) ∧
    mismarkedIndex.validate = .ok () ∧ mismarkedIndex.keyframeOffsets.toList.Pairwise (· ≤ ·) ∧
      ∃ f, mismarkedIndex.frames[1]? = some f ∧ f.isKeyframe = true ∧ f.offset = 500 ∧
        mismarkedIndex.keyframeFor f.timestamp.toNat = .ok 0 := by
  constructor
  · refine ⟨by decide +kernel, by decide, ⟨2, 100, 1000, 500, true⟩, by decide, rfl, rfl, ?_⟩
    decide +kernel
  · refine ⟨by decide +kernel, by decide, ⟨1, 100, 500, 500, true⟩, by decide, rfl, rfl, ?_⟩
    decide +kernel

end FrameIndex

end KalayRecord
