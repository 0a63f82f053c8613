import KalayRecord.FrameIndex

namespace KalayRecord

/-- The frame has number `i` and what the columns have at that place; it is a keyframe exactly if its
offset is anywhere among those of keyframes. -/
structure Frame.JoinedAt (f : Frame) (columns : FrameTables.Column → List UInt32) (i : Nat) :
    Prop where
  number : f.number = .ofNat i
  timestamp : (columns .timestamps)[i]? = some f.timestamp
  size : (columns .sizes)[i]? = some f.size
  offset : (columns .offsets)[i]? = some f.offset
  isKeyframe : f.isKeyframe = true ↔ f.offset ∈ columns .keyframeOffsets

namespace FrameTables

/-- The length of the shortest of the columns that frames are joined from; the keyframe offsets are
not one of them. -/
def shortest (columns : Column → List UInt32) : Nat :=
  min (columns .timestamps).length (min (columns .sizes).length (columns .offsets).length)

def column (t : FrameTables) : Column → List UInt32
  | .timestamps => t.timestamps
  | .keyframeOffsets => t.keyframeOffsets
  | .sizes => t.sizes
  | .offsets => t.offsets

def frame? (t : FrameTables) (i : Nat) : Option Frame :=
  match t.timestamps[i]?, t.sizes[i]?, t.offsets[i]? with
  | some timestamp, some size, some offset =>
    some { number := .ofNat i, timestamp, offset, size
           isKeyframe := t.keyframeOffsets.contains offset }
  | _, _, _ => none

theorem frame?_eq_some {t : FrameTables} {i : Nat} {timestamp size offset : UInt32}
    (htimestamp : t.timestamps[i]? = some timestamp) (hsize : t.sizes[i]? = some size)
    (hoffset : t.offsets[i]? = some offset) :
    t.frame? i = some { number := .ofNat i, timestamp, offset, size
                        isKeyframe := t.keyframeOffsets.contains offset } := by
  simp only [frame?, htimestamp, hsize, hoffset]

theorem eq_nil_of_shortest {timestamps sizes offsets : List UInt32}
    (hshort : ∀ timestamp timestamps' size sizes' offset offsets',
      timestamps = timestamp :: timestamps' → sizes = size :: sizes' →
        offsets = offset :: offsets' → False) :
    timestamps = [] ∨ sizes = [] ∨ offsets = [] := by
  cases timestamps with
  | nil => exact Or.inl rfl
  | cons timestamp timestamps =>
    cases sizes with
    | nil => exact Or.inr (Or.inl rfl)
    | cons size sizes =>
      cases offsets with
      | nil => exact Or.inr (Or.inr rfl)
      | cons offset offsets => exact (hshort _ _ _ _ _ _ rfl rfl rfl).elim

theorem joinFrom_getElem? (keyframes : List UInt32) (start i : Nat)
    (timestamps sizes offsets : List UInt32) :
    (joinFrom keyframes start timestamps sizes offsets)[i]? =
      match timestamps[i]?, sizes[i]?, offsets[i]? with
      | some timestamp, some size, some offset =>
        some { number := .ofNat (start + i), timestamp, offset, size
               isKeyframe := keyframes.contains offset }
      | _, _, _ => none := by
  induction start, timestamps, sizes, offsets using joinFrom.induct generalizing i with
  | case1 start timestamp timestamps size sizes offset offsets ih =>
    cases i with
    | zero => simp only [joinFrom, List.getElem?_cons_zero, Nat.add_zero]
    | succ i =>
      simp only [joinFrom, List.getElem?_cons_succ]
      rw [ih i, Nat.add_assoc, Nat.add_comm 1 i]
  | case2 timestamps start sizes offsets hshort =>
    rw [joinFrom.eq_2 _ _ _ _ _ hshort]
    rcases eq_nil_of_shortest hshort with rfl | rfl | rfl
    · simp
    · cases timestamps[i]? <;> simp
    · cases timestamps[i]? <;> cases sizes[i]? <;> simp

theorem length_joinFrom (keyframes : List UInt32) (start : Nat)
    (timestamps sizes offsets : List UInt32) :
    (joinFrom keyframes start timestamps sizes offsets).length =
      min timestamps.length (min sizes.length offsets.length) := by
  induction start, timestamps, sizes, offsets using joinFrom.induct with
  | case1 start timestamp timestamps size sizes offset offsets ih =>
    rw [joinFrom, List.length_cons, ih]
    simp only [List.length_cons]
    omega
  | case2 timestamps start sizes offsets hshort =>
    rw [joinFrom.eq_2 _ _ _ _ _ hshort]
    rcases eq_nil_of_shortest hshort with rfl | rfl | rfl
    · simp
    · simp
    · simp

theorem size_build (t : FrameTables) :
    t.build.size = min t.timestamps.length (min t.sizes.length t.offsets.length) := by
  rw [FrameIndex.size, build, List.size_toArray, length_joinFrom]

theorem build_getElem? (t : FrameTables) (i : Nat) : t.build.frames[i]? = t.frame? i := by
  rw [build, List.getElem?_toArray, joinFrom_getElem?, Nat.zero_add]
  rfl

theorem joinedAt_of_build_getElem? {t : FrameTables} {i : Nat} {f : Frame}
    (h : t.build.frames[i]? = some f) : f.JoinedAt t.column i := by
  rw [build_getElem?, frame?] at h
  split at h
  next timestamp size offset htimestamp hsize hoffset =>
    cases h
    exact ⟨rfl, htimestamp, hsize, hoffset, List.contains_iff_mem⟩
  next => cases h

theorem of_build_getElem? {t : FrameTables} {i : Nat} {f : Frame} (h : t.build.frames[i]? = some f) :
    f.number = .ofNat i ∧ (f.isKeyframe = true ↔ f.offset ∈ t.build.keyframeOffsets) := by
  have hf := joinedAt_of_build_getElem? h
  refine ⟨hf.number, ?_⟩
  rw [hf.isKeyframe, build, List.mem_toArray]
  rfl

/-- Numbers are places as long as there are not more frames than numbers. -/
theorem toNat_number_of_build_getElem? {t : FrameTables} {i : Nat} {f : Frame}
    (hsize : t.build.size ≤ UInt32.size) (h : t.build.frames[i]? = some f) :
    f.number.toNat = i := by
  obtain ⟨hi, -⟩ := Array.getElem?_eq_some_iff.mp h
  have hlt : i < UInt32.size := Nat.lt_of_lt_of_le hi hsize
  rw [(of_build_getElem? h).1, UInt32.toNat_ofNat', Nat.mod_eq_of_lt hlt]

theorem isKeyframe_iff {t : FrameTables} {f : Frame} (h : f ∈ t.build.frames) :
    f.isKeyframe = true ↔ f.offset ∈ t.build.keyframeOffsets := by
  obtain ⟨i, hi⟩ := Array.mem_iff_getElem?.mp h
  exact (of_build_getElem? hi).2

end FrameTables

open FrameTables

variable {columns : Column → List UInt32}

theorem Frame.JoinedAt.unique {f g : Frame} {i : Nat} (hf : f.JoinedAt columns i)
    (hg : g.JoinedAt columns i) : f = g := by
  have hnumber := hf.number.trans hg.number.symm
  have htimestamp := Option.some.inj (hf.timestamp.symm.trans hg.timestamp)
  have hsize := Option.some.inj (hf.size.symm.trans hg.size)
  have hoffset := Option.some.inj (hf.offset.symm.trans hg.offset)
  have hkeyframe : f.isKeyframe = g.isKeyframe := by
    rw [Bool.eq_iff_iff, hf.isKeyframe, hg.isKeyframe, hoffset]
  cases f
  cases g
  rw [Frame.mk.injEq]
  exact ⟨hnumber, htimestamp, hoffset, hsize, hkeyframe⟩

/-- The index has the frames that are joined at each place up to the end of the shortest column, and
all keyframe offsets. -/
structure FrameIndex.Joins (x : FrameIndex) (columns : Column → List UInt32) : Prop where
  size : x.size = shortest columns
  frame : ∀ {i : Nat} {f : Frame}, x.frames[i]? = some f → f.JoinedAt columns i
  keyframeOffsets : x.keyframeOffsets.toList = columns .keyframeOffsets

namespace FrameIndex.Joins

variable {x y : FrameIndex}

theorem frames_eq (hy : y.Joins columns) (hsize : x.size = shortest columns)
    (hframe : ∀ {i : Nat} {f : Frame}, x.frames[i]? = some f → f.JoinedAt columns i) :
    y.frames = x.frames := by
  apply Array.ext (hy.size.trans hsize.symm)
  intro i hiy hix
  have hy' := hy.frame (Array.getElem?_eq_getElem hiy)
  exact hy'.unique (hframe (Array.getElem?_eq_getElem hix))

theorem unique (hx : x.Joins columns) (hy : y.Joins columns) : y = x := by
  have hframes : y.frames = x.frames := hy.frames_eq hx.size hx.frame
  have hkeyframes : y.keyframeOffsets = x.keyframeOffsets :=
    Array.toList_inj.mp (hy.keyframeOffsets.trans hx.keyframeOffsets.symm)
  cases x
  cases y
  rw [FrameIndex.mk.injEq]
  exact ⟨hframes, hkeyframes⟩

end FrameIndex.Joins

theorem FrameTables.joins_build (t : FrameTables) : t.build.Joins t.column where
  size := t.size_build
  frame := joinedAt_of_build_getElem?
  keyframeOffsets := rfl

end KalayRecord
