import KalayRecord.Recording
import KalayRecord.Proofs.FrameJoin
import KalayRecord.Proofs.IndexOrder

namespace KalayRecord

/-- What a frame, called by `number`, breaks against the one before it. A breach in offsets hides one
in timestamps. -/
inductive Frame.Breaks (f g : Frame) (number : UInt32) : IndexViolation → Prop
  | offset (h : g.offset ≤ f.offset) : Breaks f g number (.offsetOrder number g.offset f.offset)
  | timestamp (hoffset : f.offset < g.offset) (h : g.timestamp < f.timestamp) :
      Breaks f g number (.timestampOrder number g.timestamp f.timestamp)

namespace Frame.Breaks

variable {f g : Frame} {number : UInt32} {v v' : IndexViolation}

theorem not_before (h : f.Breaks g number v) : ¬f.Before g := by
  intro hbefore
  cases h with
  | offset h => exact UInt32.not_le.mpr hbefore.1 h
  | timestamp _ h => exact UInt32.not_le.mpr h hbefore.2

theorem unique (h : f.Breaks g number v) (h' : f.Breaks g number v') : v = v' := by
  cases h with
  | offset h =>
    cases h' with
    | offset => rfl
    | timestamp hoffset => exact absurd h (UInt32.not_le.mpr hoffset)
  | timestamp hoffset =>
    cases h' with
    | offset h' => exact absurd h' (UInt32.not_le.mpr hoffset)
    | timestamp => rfl

end Frame.Breaks

namespace FrameIndex

/-- Up to place `i` each frame is in order behind the one before it. -/
def OrderedTo (frames : List Frame) (i : Nat) : Prop :=
  ∀ j f g, j < i → frames[j]? = some f → frames[j + 1]? = some g → f.Before g

/-- The first frame that is out of order behind the one before it breaks a rule by `v`. -/
def FirstBreach (frames : List Frame) (v : IndexViolation) : Prop :=
  ∃ i f g, frames[i]? = some f ∧ frames[i + 1]? = some g ∧ OrderedTo frames i ∧
    f.Breaks g g.number v

theorem orderedTo_succ_cons {f g : Frame} {frames : List Frame} {i : Nat} :
    OrderedTo (f :: g :: frames) (i + 1) ↔ f.Before g ∧ OrderedTo (g :: frames) i := by
  constructor
  · intro h
    refine ⟨h 0 f g (Nat.zero_lt_succ i) rfl rfl, fun j f' g' hj hf hg => ?_⟩
    exact h (j + 1) f' g' (Nat.succ_lt_succ hj) hf hg
  · rintro ⟨hfirst, hlater⟩ j f' g' hj hf hg
    cases j with
    | zero =>
      cases hf
      cases hg
      exact hfirst
    | succ j => exact hlater j f' g' (Nat.lt_of_succ_lt_succ hj) hf hg

theorem firstBreach_of_breaks {f g : Frame} {frames : List Frame} {v v' : IndexViolation}
    (h : f.Breaks g g.number v) : FirstBreach (f :: g :: frames) v' ↔ v = v' := by
  constructor
  · rintro ⟨i, f', g', hf, hg, hordered, hbreaks⟩
    cases i with
    | zero =>
      cases hf
      cases hg
      exact h.unique hbreaks
    | succ i => exact absurd (orderedTo_succ_cons.mp hordered).1 h.not_before
  · rintro rfl
    exact ⟨0, f, g, rfl, rfl, nofun, h⟩

theorem firstBreach_of_before {f g : Frame} {frames : List Frame} {v : IndexViolation}
    (h : f.Before g) : FirstBreach (f :: g :: frames) v ↔ FirstBreach (g :: frames) v := by
  constructor
  · rintro ⟨i, f', g', hf, hg, hordered, hbreaks⟩
    cases i with
    | zero =>
      cases hf
      cases hg
      exact absurd h hbreaks.not_before
    | succ i => exact ⟨i, f', g', hf, hg, (orderedTo_succ_cons.mp hordered).2, hbreaks⟩
  · rintro ⟨i, f', g', hf, hg, hordered, hbreaks⟩
    exact ⟨i + 1, f', g', hf, hg, orderedTo_succ_cons.mpr ⟨h, hordered⟩, hbreaks⟩

/-- The check of the order tells of the first frame that breaks a rule. -/
theorem orderViolation?_eq_some {frames : List Frame} {v : IndexViolation} :
    orderViolation? frames = some v ↔ FirstBreach frames v := by
  induction frames using orderViolation?.induct with
  | case1 f g frames hoffset =>
    rw [orderViolation?, if_pos hoffset, firstBreach_of_breaks (.offset hoffset), Option.some.injEq]
  | case2 f g frames hoffset htimestamp =>
    rw [orderViolation?, if_neg hoffset, if_pos htimestamp,
      firstBreach_of_breaks (.timestamp (UInt32.not_le.mp hoffset) htimestamp), Option.some.injEq]
  | case3 f g frames hoffset htimestamp ih =>
    rw [orderViolation?, if_neg hoffset, if_neg htimestamp, ih,
      firstBreach_of_before ⟨UInt32.not_le.mp hoffset, UInt32.not_lt.mp htimestamp⟩]
  | case4 frames hshort =>
    rcases frames with _ | ⟨f, _ | ⟨g, frames⟩⟩
    · simp [orderViolation?, FirstBreach]
    · simp [orderViolation?, FirstBreach]
    · exact (hshort f g frames rfl).elim

theorem strayKeyframe?_eq_some {x : FrameIndex} {k : UInt32} :
    x.strayKeyframe? = some k ↔
      ∃ before after, x.keyframeOffsets.toList = before ++ k :: after ∧
        (∀ k' ∈ before, ∃ f ∈ x.frames, f.offset = k') ∧ ∀ f ∈ x.frames, f.offset ≠ k := by
  rw [strayKeyframe?, ← Array.find?_toList, List.find?_eq_some_iff_append]
  simp only [Bool.not_not, Bool.not_eq_true', Array.any_eq_true', Array.any_eq_false', beq_iff_eq]
  constructor
  · rintro ⟨hstray, before, after, htable, hbefore⟩
    exact ⟨before, after, htable, hbefore, hstray⟩
  · rintro ⟨before, after, htable, hbefore, hstray⟩
    exact ⟨hstray, before, after, htable, hbefore⟩

/-- The breach of the rules that comes first in an index: that of the first frame out of order behind
the one before it, called by its place, or else the first keyframe that is no frame's offset. -/
inductive FirstViolation (x : FrameIndex) : IndexViolation → Prop
  | order {i : Nat} {f g : Frame} {v : IndexViolation} (hf : x.frames[i]? = some f)
      (hg : x.frames[i + 1]? = some g) (hordered : OrderedTo x.frames.toList i)
      (hbreaks : f.Breaks g (.ofNat (i + 1)) v) : FirstViolation x v
  | keyframe {before after : List UInt32} {k : UInt32}
      (hordered : x.frames.toList.Pairwise Frame.Before)
      (htable : x.keyframeOffsets.toList = before ++ k :: after)
      (hbefore : ∀ k' ∈ before, ∃ f ∈ x.frames, f.offset = k')
      (hstray : ∀ f ∈ x.frames, f.offset ≠ k) : FirstViolation x (.strayKeyframe k)

/-- The check of an index whose frames are numbered by their places tells of the first breach. -/
theorem violation?_eq_some {x : FrameIndex} {v : IndexViolation}
    (hnumber : ∀ i (f : Frame), x.frames[i]? = some f → f.number = .ofNat i) :
    x.violation? = some v ↔ x.FirstViolation v := by
  have hparts : x.violation? = some v ↔ FirstBreach x.frames.toList v ∨
      x.frames.toList.Pairwise Frame.Before ∧ ∃ k, x.strayKeyframe? = some k ∧ .strayKeyframe k = v := by
    simp only [violation?, Option.orElse_eq_orElse, Option.orElse_eq_or, Option.or_eq_some_iff,
      orderViolation?_eq_some, orderViolation?_eq_none, Option.map_eq_some_iff]
  rw [hparts]
  constructor
  · rintro (⟨i, f, g, hf, hg, hordered, hbreaks⟩ | ⟨hordered, k, hk, rfl⟩)
    · rw [Array.getElem?_toList] at hf hg
      rw [hnumber _ _ hg] at hbreaks
      exact .order hf hg hordered hbreaks
    · obtain ⟨before, after, htable, hbefore, hstray⟩ := strayKeyframe?_eq_some.mp hk
      exact .keyframe hordered htable hbefore hstray
  · rintro (⟨hf, hg, hordered, hbreaks⟩ | ⟨hordered, htable, hbefore, hstray⟩)
    · rw [← hnumber _ _ hg] at hbreaks
      rw [← Array.getElem?_toList] at hf hg
      exact Or.inl ⟨_, _, _, hf, hg, hordered, hbreaks⟩
    · exact Or.inr ⟨hordered, _, strayKeyframe?_eq_some.mpr ⟨_, _, htable, hbefore, hstray⟩, rfl⟩

end FrameIndex

namespace Track

/-- The record of the track is as large as it says, and its index keeps the rules. -/
structure Sound (t : Track) : Prop where
  size : t.declaredSize.toNat = t.occupiedSize
  index : t.index.Sound

inductive FirstViolation (t : Track) : IndexViolation → Prop
  | recordSize (h : t.declaredSize.toNat ≠ t.occupiedSize) :
      FirstViolation t (.recordSize t.kind t.declaredSize t.occupiedSize)
  | index {v : IndexViolation} (hsize : t.declaredSize.toNat = t.occupiedSize)
      (h : t.index.FirstViolation v) : FirstViolation t v

variable {t : Track} {e : Error} {v : IndexViolation}

theorem violation?_eq_none : t.violation? = none ↔ t.Sound := by
  by_cases hsize : t.declaredSize.toNat = t.occupiedSize
  · rw [violation?, if_neg (not_not.mpr hsize), FrameIndex.violation?_eq_none]
    exact ⟨fun h => ⟨hsize, h⟩, fun h => h.index⟩
  · rw [violation?, if_pos hsize]
    exact ⟨nofun, fun h => absurd h.size hsize⟩

theorem violation?_eq_some {tables : FrameTables} (hindex : t.index = tables.build) :
    t.violation? = some v ↔ t.FirstViolation v := by
  by_cases hsize : t.declaredSize.toNat = t.occupiedSize
  · have hnumber : ∀ i (f : Frame), t.index.frames[i]? = some f → f.number = .ofNat i := by
      rw [hindex]
      exact fun i f h => (FrameTables.of_build_getElem? h).1
    rw [violation?, if_neg (not_not.mpr hsize), FrameIndex.violation?_eq_some hnumber]
    constructor
    · exact .index hsize
    · rintro (hne | ⟨-, h⟩)
      · exact absurd hsize hne
      · exact h
  · rw [violation?, if_pos hsize, Option.some.injEq]
    constructor
    · rintro rfl
      exact .recordSize hsize
    · rintro (_ | ⟨heq, -⟩)
      · rfl
      · exact absurd heq hsize

theorem validate_eq_ok : t.validate = .ok () ↔ t.Sound := by
  rw [← violation?_eq_none, validate]
  cases t.violation? with
  | none => simp
  | some v => simp

theorem validate_eq_error {tables : FrameTables} (hindex : t.index = tables.build) :
    t.validate = .error e ↔ ∃ v, t.FirstViolation v ∧ e = .invalidIndex v.message := by
  simp only [← violation?_eq_some hindex, validate]
  cases t.violation? with
  | none => simp
  | some v => simp [IndexViolation.toError, eq_comm]

end Track

namespace Recording

inductive FirstViolation (r : Recording) : IndexViolation → Prop
  | video {v : IndexViolation} (h : r.video.FirstViolation v) : FirstViolation r v
  | audio {v : IndexViolation} (hvideo : r.video.Sound) (h : r.audio.FirstViolation v) :
      FirstViolation r v

theorem validate_eq_ok {r : Recording} :
    r.validate = .ok () ↔ r.video.validate = .ok () ∧ r.audio.validate = .ok () := by
  rw [validate]
  cases r.video.validate with
  | ok _ => exact ⟨fun h => ⟨rfl, h⟩, And.right⟩
  | error e => exact ⟨nofun, nofun⟩

theorem validate_eq_error {r : Recording} {e : Error} :
    r.validate = .error e ↔ r.video.validate = .error e ∨
      r.video.validate = .ok () ∧ r.audio.validate = .error e := by
  rw [validate]
  cases r.video.validate with
  | ok _ => simp [bind, Except.bind]
  | error e' => simp [bind, Except.bind]

/-- The third frame is out of order by its offset and its timestamp, the fourth by its offset, the
first keyframe is no frame's, and the size of the audio record is off. -/
def muddled : Recording where
  header := { fileLength := 0, sectionType := 0, version := 1, encryptType := 0, uuid := "",
              channel := 0, createTime := 0, extraHeaderFlag := 0 }
  mediaDataSize := 8
  indexSectionSize := 0
  video := { kind := .video, declaredSize := 124, recordType := 0, codecByte := 0x4E, flag := 0,
             id := 1, firstTimestamp := 0, lastTimestamp := 40, occupiedSize := 124
             index := FrameTables.build
               { timestamps := [0, 50, 40, 40], keyframeOffsets := [7, 100]
                 sizes := [8, 8, 8, 8], offsets := [100, 200, 200, 150] } }
  audio := { kind := .audio, declaredSize := 0, recordType := 0, codecByte := 0x86, flag := 0,
             id := 2, firstTimestamp := 0, lastTimestamp := 0, occupiedSize := 56
             index := FrameTables.build {} }

end Recording

end KalayRecord
