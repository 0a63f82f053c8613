import Mathlib.Control.Monad.Basic
import KalayRecord.Demuxer
import KalayRecord.Proofs.KeyframeSearch

namespace KalayRecord

def Error.retarget (target : Int) : Error → Error
  | .seekOutOfRange _ last => .seekOutOfRange target last
  | e => e

theorem getLast?_filter_eq_some {α : Type} {p : α → Bool} {xs : List α} {a : α} :
    (xs.filter p).getLast? = some a ↔
      ∃ before after, xs = before ++ a :: after ∧ p a = true ∧ ∀ b ∈ after, ¬p b = true := by
  constructor
  · intro h
    obtain ⟨ys, hys⟩ := List.getLast?_eq_some_iff.mp h
    obtain ⟨front, back, rfl, -, hback⟩ := List.filter_eq_append_iff.mp hys
    obtain ⟨skipped, after, rfl, -, ha, hafter⟩ := List.filter_eq_cons_iff.mp hback
    exact ⟨front ++ skipped, after, by simp, ha, List.filter_eq_nil_iff.mp hafter⟩
  · rintro ⟨before, after, rfl, ha, hafter⟩
    simp [List.filter_append, ha, List.filter_eq_nil_iff.mpr hafter]

namespace FrameIndex

/-- The first frame at or after a time is `f`, at place `i`. -/
structure FirstFrom (x : FrameIndex) (time : Int) (i : Nat) (f : Frame) : Prop where
  frame : x.frames[i]? = some f
  le : time ≤ f.timestamp.toNat
  earlier : ∀ j g, j < i → x.frames[j]? = some g → (g.timestamp.toNat : Int) < time

/-- The keyframe for a frame at an offset: the last entry of the table that is not behind it, or the
first entry where all are behind it. -/
inductive Lands (x : FrameIndex) (offset : UInt32) : UInt32 → Prop
  | last {k : UInt32} {before after : List UInt32}
      (htable : x.keyframeOffsets.toList = before ++ k :: after) (hle : k ≤ offset)
      (hafter : ∀ k' ∈ after, offset < k') : Lands x offset k
  | first {k : UInt32} {after : List UInt32} (htable : x.keyframeOffsets.toList = k :: after)
      (hall : ∀ k' ∈ x.keyframeOffsets, offset < k') : Lands x offset k

/-- What becomes of a time that is looked up by scanning both tables from front to back. -/
inductive Resolution (x : FrameIndex) (time : Int) : Except Error UInt32 → Prop
  | empty (hframes : x.frames = #[]) : Resolution x time (.error (.seekOutOfRange time (-1)))
  | past {last : Frame} (hlast : x.frames.back? = some last)
      (hpast : ∀ f ∈ x.frames, (f.timestamp.toNat : Int) < time) :
      Resolution x time (.error (.seekOutOfRange time last.timestamp.toNat))
  | noKeyframes {i : Nat} {f : Frame} (hfirst : x.FirstFrom time i f)
      (hkeys : x.keyframeOffsets = #[]) : Resolution x time (.error .noKeyframes)
  | keyframe {i : Nat} {f : Frame} {k : UInt32} (hfirst : x.FirstFrom time i f)
      (hlands : x.Lands f.offset k) : Resolution x time (.ok k)

variable {x : FrameIndex} {time : Int} {i : Nat} {f : Frame} {k : UInt32}

theorem firstFrom_iff : (∃ i, x.FirstFrom time i f) ↔
    (x.frames.toList.find? fun f => time ≤ f.timestamp.toNat) = some f := by
  rw [List.find?_eq_some_iff_getElem, decide_eq_true_eq]
  constructor
  · rintro ⟨i, hframe, hle, hearlier⟩
    obtain ⟨hi, rfl⟩ := Array.getElem?_eq_some_iff.mp hframe
    refine ⟨hle, i, hi, rfl, fun j hj => ?_⟩
    have hlt := hearlier j _ hj (Array.getElem?_eq_getElem (Nat.lt_trans hj hi))
    simpa using hlt
  · rintro ⟨hle, i, hi, rfl, hearlier⟩
    refine ⟨i, Array.getElem?_eq_getElem hi, hle, fun j g hj hg => ?_⟩
    obtain ⟨hj', rfl⟩ := Array.getElem?_eq_some_iff.mp hg
    simpa using hearlier j hj

theorem forall_lt_iff : (∀ f ∈ x.frames, (f.timestamp.toNat : Int) < time) ↔
    (x.frames.toList.find? fun f => time ≤ f.timestamp.toNat) = none := by
  simp

theorem lands_iff {offset first : UInt32} (hfirst : x.keyframeOffsets.toList.head? = some first) :
    x.Lands offset k ↔
      (x.keyframeOffsets.toList.filter (· ≤ offset)).getLast?.getD first = k := by
  have hnone : (x.keyframeOffsets.toList.filter (· ≤ offset)).getLast? = none ↔
      ∀ k ∈ x.keyframeOffsets, offset < k := by
    simp
  constructor
  · rintro (⟨htable, hle, hafter⟩ | ⟨htable, hall⟩)
    · have hlast : (x.keyframeOffsets.toList.filter (· ≤ offset)).getLast? = some k :=
        getLast?_filter_eq_some.mpr ⟨_, _, htable, by simpa using hle, by simpa using hafter⟩
      rw [hlast]
      rfl
    · rw [hnone.mpr hall, Option.getD_none]
      simpa [htable] using hfirst.symm
  · intro h
    cases hlast : (x.keyframeOffsets.toList.filter (· ≤ offset)).getLast? with
    | some last =>
      rw [hlast] at h
      obtain ⟨before, after, htable, hle, hafter⟩ := getLast?_filter_eq_some.mp hlast
      obtain rfl : last = k := h
      exact .last htable (by simpa using hle) (by simpa using hafter)
    | none =>
      rw [hlast] at h
      obtain rfl : first = k := h
      obtain ⟨after, htable⟩ := List.head?_eq_some_iff.mp hfirst
      exact .first htable (hnone.mp hlast)

section

variable (hframes : x.frames.toList.Pairwise fun f g => f.timestamp ≤ g.timestamp)
  (hkeys : x.keyframeOffsets.toList.Pairwise (· ≤ ·))

include hframes hkeys

theorem keyframeFor_of_resolution {r : Except Error UInt32} (h : x.Resolution time r) :
    x.keyframeFor time = r := by
  rw [keyframeFor_eq hframes hkeys]
  cases h with
  | empty hframes => simp [hframes, lastTimestamp?]
  | past hlast hpast => simp [forall_lt_iff.mp hpast, lastTimestamp?, hlast]
  | noKeyframes hfirst hkeys => simp [firstFrom_iff.mp ⟨_, hfirst⟩, hkeys]
  | keyframe hfirst hlands =>
    rw [firstFrom_iff.mp ⟨_, hfirst⟩]
    cases hhead : x.keyframeOffsets.toList.head? with
    | none =>
      have hnil := List.head?_eq_none_iff.mp hhead
      rcases hlands with ⟨htable, -, -⟩ | ⟨htable, -⟩
      · simp [hnil] at htable
      · simp [hnil] at htable
    | some first => exact congrArg Except.ok ((lands_iff hhead).mp hlands)

theorem resolution_keyframeFor : x.Resolution time (x.keyframeFor time) := by
  rw [keyframeFor_eq hframes hkeys]
  cases hfind : x.frames.toList.find? fun f => time ≤ f.timestamp.toNat with
  | none =>
    cases hlast : x.frames.back? with
    | none =>
      rw [lastTimestamp?, hlast]
      exact .empty (Array.back?_eq_none_iff.mp hlast)
    | some last =>
      rw [lastTimestamp?, hlast]
      exact .past hlast (forall_lt_iff.mpr hfind)
  | some f =>
    obtain ⟨i, hfirst⟩ := firstFrom_iff.mpr hfind
    cases hhead : x.keyframeOffsets.toList.head? with
    | none => exact .noKeyframes hfirst (by simpa using hhead)
    | some first => exact .keyframe hfirst ((lands_iff hhead).mpr rfl)

end

/-- A time that singles out the same frame has the same result, but for the target that it names. -/
theorem keyframeFor_retarget {time' : Int}
    (h : x.frameAtOrAfter? time' = x.frameAtOrAfter? time) :
    x.keyframeFor time' = (x.keyframeFor time).mapError (.retarget time') := by
  rw [keyframeFor, keyframeFor, h]
  cases x.frameAtOrAfter? time with
  | none => rfl
  | some frame =>
    cases x.keyframeOffsets[0]? with
    | none => rfl
    | some first => rfl

/-- No timestamp is as large as a sum that had to be held. -/
theorem frameAtOrAfter?_saturatingSum (time : Int64) (origin : UInt32) :
    x.frameAtOrAfter? (Demuxer.saturatingSum time.toInt origin.toNat) =
      x.frameAtOrAfter? (time.toInt + origin.toNat) := by
  have hbefore : (fun f : Frame => decide ((f.timestamp.toNat : Int) <
        Demuxer.saturatingSum time.toInt origin.toNat)) =
      fun f => decide ((f.timestamp.toNat : Int) < time.toInt + origin.toNat) := by
    funext f
    have hmin := time.minValue_le_toInt
    have hstamp := f.timestamp.toNat_lt
    rw [decide_eq_decide, Demuxer.saturatingSum]
    simp only [Int64.toInt_minValue, Int64.toInt_maxValue] at hmin ⊢
    omega
  rw [frameAtOrAfter?, frameAtOrAfter?, hbefore]

end FrameIndex

namespace Demuxer

theorem seek_eq_keyframeFor {σ : Type} [ByteSource σ] (d : Demuxer σ) (stream : Nat)
    (time : Int64) : (d.seek stream time).1 =
      ((d.recording.video.index.keyframeFor
          (saturatingSum time.toInt d.recording.video.firstTimestamp.toNat)).map UInt32.toNat) := by
  rw [seek]
  cases d.recording.video.index.keyframeFor
    (saturatingSum time.toInt d.recording.video.firstTimestamp.toNat) with
  | error e => rfl
  | ok k => rfl

/-- On tables in order a time is looked up as scans look it up; and a seek has the result of the sum
of its time and the first timestamp, however large, but for the target that a failure names. -/
theorem seeks_by_scan :
    (∀ (x : FrameIndex) (time : Int) (r : Except Error UInt32),
      x.frames.toList.Pairwise (fun f g => f.timestamp ≤ g.timestamp) →
      x.keyframeOffsets.toList.Pairwise (· ≤ ·) →
      (x.keyframeFor time = r ↔ x.Resolution time r)) ∧
    ∀ {σ : Type} [ByteSource σ] (d : Demuxer σ) (stream : Nat) (time : Int64),
      let origin := d.recording.video.firstTimestamp.toNat
      (d.seek stream time).1 =
        ((d.recording.video.index.keyframeFor (time.toInt + origin)).map UInt32.toNat).mapError
          (.retarget (saturatingSum time.toInt origin)) := by
  constructor
  · intro x time r hframes hkeys
    constructor
    · rintro rfl
      exact FrameIndex.resolution_keyframeFor hframes hkeys
    · exact FrameIndex.keyframeFor_of_resolution hframes hkeys
  · intro σ _ d stream time origin
    rw [seek_eq_keyframeFor, FrameIndex.keyframeFor_retarget
      (FrameIndex.frameAtOrAfter?_saturatingSum time d.recording.video.firstTimestamp)]
    cases d.recording.video.index.keyframeFor (time.toInt + origin) with
    | error e => rfl
    | ok k => rfl

/-- Two frames of one time, offsets in no order and a keyframe that is listed twice. -/
def shuffledIndex : FrameIndex :=
  FrameTables.build { timestamps := [0, 100, 100, 250], keyframeOffsets := [300, 300, 700]
                      sizes := [8, 8, 8, 8], offsets := [900, 300, 700, 200] }

theorem shuffledIndex_seeks :
    shuffledIndex.keyframeFor 100 = .ok 300 ∧ shuffledIndex.Resolution 100 (.ok 300) := by
  have hkey : shuffledIndex.keyframeFor 100 = .ok 300 := by decide +kernel
  exact ⟨hkey, (seeks_by_scan.1 shuffledIndex 100 _ (by decide) (by decide)).mp hkey⟩

end Demuxer

end KalayRecord
