import KalayRecord.FrameIndex

namespace KalayRecord

/-- All elements that satisfy `p` come before all that do not. -/
def Partitioned {α : Type} (p : α → Bool) (xs : List α) : Prop :=
  xs.Pairwise fun a b => p b = true → p a = true

/-- A search between bounds ends where the condition does. -/
theorem bisect_spec {p : Nat → Bool} {lo hi : Nat} (hle : lo ≤ hi)
    (hp : ∀ i j, lo ≤ i → i ≤ j → j < hi → p j = true → p i = true) :
    lo ≤ bisect p lo hi ∧ bisect p lo hi ≤ hi ∧
      (∀ i, lo ≤ i → i < bisect p lo hi → p i = true) ∧
      ∀ i, bisect p lo hi ≤ i → i < hi → p i = false := by
  induction lo, hi using bisect.induct p with
  | case1 lo hi hlt mid hmid ih =>
    have hstep : bisect p lo hi = bisect p (mid + 1) hi := by
      rw [bisect, if_pos hlt, if_pos hmid]
    have hbounds : lo ≤ mid ∧ mid < hi := by omega
    obtain ⟨hlower, hupper, hbelow, habove⟩ :=
      ih (by omega) (fun i j hi => hp i j (by omega))
    rw [hstep]
    -- the probe holds, and so does all that lies before it
    refine ⟨by omega, hupper, ?_, habove⟩
    intro i hi hlt'
    by_cases hi' : i ≤ mid
    · exact hp i mid hi hi' hbounds.2 hmid
    · exact hbelow i (by omega) hlt'
  | case2 lo hi hlt mid hmid ih =>
    have hstep : bisect p lo hi = bisect p lo mid := by
      rw [bisect, if_pos hlt, if_neg hmid]
    have hbounds : lo ≤ mid ∧ mid < hi := by omega
    obtain ⟨hlower, hupper, hbelow, habove⟩ :=
      ih (by omega) (fun i j hi hij hj => hp i j hi hij (by omega))
    rw [hstep]
    -- the probe fails, and so does all that lies behind it
    refine ⟨hlower, by omega, hbelow, ?_⟩
    intro i hi hlt'
    by_cases hi' : i < mid
    · exact habove i hi hi'
    · apply Bool.eq_false_iff.mpr
      intro hpi
      exact hmid (hp mid i hbounds.1 (by omega) hlt' hpi)
  | case3 lo hi hlt =>
    rw [bisect, if_neg hlt]
    refine ⟨Nat.le_refl _, hle, ?_, ?_⟩
    · intro i hi hlt'
      omega
    · intro i hi hlt'
      omega

/-- On partitioned elements the partition point is the place where a scan stops. -/
theorem partitionPoint_eq {α : Type} {p : α → Bool} {xs : List α} (h : Partitioned p xs) :
    partitionPoint p xs.toArray = xs.findIdx (!p ·) := by
  have hget (i : Nat) (hi : i < xs.length) : (xs.toArray[i]?.any p) = p xs[i] := by
    rw [List.getElem?_toArray, List.getElem?_eq_getElem hi]
    rfl
  have hdown : ∀ i j, 0 ≤ i → i ≤ j → j < xs.length → (xs.toArray[j]?.any p) = true →
      (xs.toArray[i]?.any p) = true := by
    intro i j _ hij hj hpj
    rcases Nat.eq_or_lt_of_le hij with rfl | hlt
    · exact hpj
    · have hi : i < xs.length := by omega
      rw [hget j hj] at hpj
      rw [hget i hi]
      exact List.pairwise_iff_getElem.mp h i j hi hj hlt hpj
  obtain ⟨n, hn⟩ : ∃ n, partitionPoint p xs.toArray = n := ⟨_, rfl⟩
  obtain ⟨-, hupper, hbelow, habove⟩ := bisect_spec (Nat.zero_le _) hdown
  rw [partitionPoint, List.size_toArray] at hn
  rw [hn] at hupper hbelow habove
  rw [partitionPoint, List.size_toArray, hn]
  symm
  -- a scan stops nowhere exactly if the point is the length
  rcases Nat.eq_or_lt_of_le hupper with rfl | hlt
  · apply List.findIdx_eq_length_of_false
    intro a ha
    obtain ⟨i, hi, rfl⟩ := List.getElem_of_mem ha
    rw [← hget i hi, hbelow i (Nat.zero_le i) hi]
    rfl
  · apply (List.findIdx_eq hlt).mpr
    constructor
    · rw [← hget n hlt, habove n (Nat.le_refl n) hlt]
      rfl
    · intro j hj
      rw [← hget j (by omega), hbelow j (Nat.zero_le j) hj]
      rfl

theorem takeWhile_eq_filter {α : Type} {p : α → Bool} {xs : List α} (h : Partitioned p xs) :
    xs.takeWhile p = xs.filter p := by
  induction xs with
  | nil => rfl
  | cons a xs ih =>
    obtain ⟨ha, hxs⟩ := List.pairwise_cons.mp h
    rw [List.takeWhile_cons, List.filter_cons]
    by_cases hp : p a = true
    · rw [if_pos hp, if_pos hp, ih hxs]
    · rw [if_neg hp, if_neg hp]
      symm
      apply List.filter_eq_nil_iff.mpr
      intro b hb hpb
      exact hp (ha b hb hpb)

namespace FrameIndex

theorem frameAtOrAfter?_eq {x : FrameIndex} {time : Int}
    (h : Partitioned (fun f => (f.timestamp.toNat : Int) < time) x.frames.toList) :
    x.frameAtOrAfter? time = x.frames.toList.find? fun f => time ≤ f.timestamp.toNat := by
  have hnot : (fun f : Frame => !decide ((f.timestamp.toNat : Int) < time)) =
      fun f => decide (time ≤ f.timestamp.toNat) := by
    funext f
    rw [← decide_not, decide_eq_decide]
    exact Int.not_lt
  have hpoint := partitionPoint_eq h
  rw [hnot, Array.toArray_toList] at hpoint
  rw [frameAtOrAfter?, hpoint, List.find?_eq_getElem?_findIdx, Array.getElem?_toList]

theorem keyframeAtOrBefore?_eq {x : FrameIndex} {offset : UInt32}
    (h : Partitioned (fun k => decide (k ≤ offset)) x.keyframeOffsets.toList) :
    x.keyframeAtOrBefore? offset = (x.keyframeOffsets.toList.filter (· ≤ offset)).getLast? := by
  have hpoint := partitionPoint_eq h
  rw [Array.toArray_toList] at hpoint
  rw [keyframeAtOrBefore?, hpoint, ← takeWhile_eq_filter h, List.takeWhile_eq_take_findIdx_not]
  have hle : x.keyframeOffsets.toList.findIdx (fun k => !decide (k ≤ offset)) ≤
      x.keyframeOffsets.toList.length := List.findIdx_le_length
  split
  next hzero =>
    rw [hzero, List.take_zero]
    rfl
  next n hsucc =>
    rw [hsucc] at hle ⊢
    rw [List.getLast?_eq_getElem?, List.length_take, Nat.min_eq_left hle, Nat.succ_sub_one,
      List.getElem?_take_of_lt (Nat.lt_succ_self n), Array.getElem?_toList]

theorem partitioned_timestamps {frames : List Frame}
    (h : frames.Pairwise fun f g => f.timestamp ≤ g.timestamp) (time : Int) :
    Partitioned (fun f => (f.timestamp.toNat : Int) < time) frames := by
  apply h.imp
  intro f g hle hg
  have hle := UInt32.le_iff_toNat_le.mp hle
  simp only [decide_eq_true_eq] at hg ⊢
  omega

theorem partitioned_offsets {offsets : List UInt32} (h : offsets.Pairwise (· ≤ ·))
    (offset : UInt32) : Partitioned (fun k => decide (k ≤ offset)) offsets := by
  apply h.imp
  intro j k hle hk
  simp only [decide_eq_true_eq] at hk ⊢
  exact UInt32.le_trans hle hk

theorem keyframeFor_eq {x : FrameIndex} {time : Int}
    (hframes : x.frames.toList.Pairwise fun f g => f.timestamp ≤ g.timestamp)
    (hkeys : x.keyframeOffsets.toList.Pairwise (· ≤ ·)) :
    x.keyframeFor time =
      match x.frames.toList.find? fun f => time ≤ f.timestamp.toNat,
        x.keyframeOffsets.toList.head? with
      | none, _ =>
        .error (.seekOutOfRange time (x.lastTimestamp?.elim (-1) fun last => last.toNat))
      | some _, none => .error .noKeyframes
      | some frame, some first =>
        .ok ((x.keyframeOffsets.toList.filter (· ≤ frame.offset)).getLast?.getD first) := by
  rw [keyframeFor, frameAtOrAfter?_eq (partitioned_timestamps hframes time),
    List.head?_eq_getElem?, Array.getElem?_toList]
  cases x.frames.toList.find? fun f => time ≤ f.timestamp.toNat with
  | none => rfl
  | some frame =>
    cases x.keyframeOffsets[0]? with
    | none => rfl
    | some first =>
      show Except.ok _ = _
      rw [keyframeAtOrBefore?_eq (partitioned_offsets hkeys frame.offset)]

end FrameIndex

end KalayRecord
