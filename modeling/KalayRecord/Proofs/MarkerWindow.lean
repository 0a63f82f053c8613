import KalayRecord.Proofs.MarkerSearch

namespace KalayRecord

open MeasuredReader

/-- A marker stands at place `m`, and both of its bytes lie in the window of `n` bytes from `start`
on. -/
structure MarkerIn (b : Bytes) (start n m : Nat) : Prop where
  start_le : start ≤ m
  le_end : m + marker.length ≤ start + n
  marker : MarkerAt b m

section Window

variable {b : Bytes} {start n m : Nat}

theorem markerIn_iff :
    MarkerIn b start n m ↔ ∃ i, m = start + i ∧ MarkerAt ((b.drop start).take n) i := by
  have hmarker : marker.length = 2 := rfl
  constructor
  · intro h
    have hstart := h.start_le
    have hend := h.le_end
    refine ⟨m - start, by omega, ?_⟩
    rw [markerAt_take, markerAt_drop, Nat.add_sub_cancel' hstart]
    exact ⟨h.marker, by omega⟩
  · rintro ⟨i, rfl, h⟩
    rw [markerAt_take, markerAt_drop] at h
    exact ⟨by omega, by omega, h.1⟩

theorem unmarked_iff :
    Unmarked ((b.drop start).take n) ↔ ∀ m, ¬MarkerIn b start n m := by
  simp only [markerIn_iff, Unmarked]
  constructor
  · rintro h _ ⟨i, -, hi⟩
    exact h i hi
  · intro h i hi
    exact h (start + i) ⟨i, rfl, hi⟩

/-- The first marker of the bytes in a window is the least of the places where one stands. -/
theorem FirstMarkerAt.markerIn {i : Nat} (h : FirstMarkerAt ((b.drop start).take n) i) :
    MarkerIn b start n (start + i) ∧ ∀ j, MarkerIn b start n j → start + i ≤ j := by
  constructor
  · exact markerIn_iff.mpr ⟨i, rfl, h.1⟩
  · intro j hj
    obtain ⟨k, rfl, hk⟩ := markerIn_iff.mp hj
    by_cases hik : i ≤ k
    · omega
    · exact absurd hk (h.2 k (by omega))

end Window

namespace MarkerScan

/-- A search is a look at each place from the cursor on. It goes just past the first place in its
window where a marker stands. Without one it ends with the window, and by which of the two bounds the
window was cut decides what it says; or it ends with the bytes. -/
theorem findMarker_finds_first (b : Bytes) (regionEnd limit start : Nat) (hb : start ≤ b.length) :
    let window := min (regionEnd - start) limit
    ((∃ m, MarkerIn b start window m) →
      ∃ m, MarkerIn b start window m ∧ (∀ j, MarkerIn b start window j → m ≤ j) ∧
        findMarker regionEnd limit (ofBytes b start) = .ok m (ofBytes b (m + marker.length))) ∧
    ((∀ m, ¬MarkerIn b start window m) →
      (start + window ≤ b.length →
        (window = regionEnd - start →
          findMarker regionEnd limit (ofBytes b start) =
            .error .endOfStream (ofBytes b (start + window))) ∧
        (window < regionEnd - start →
          findMarker regionEnd limit (ofBytes b start) =
            .error (.syncNotFound start window) (ofBytes b (start + window)))) ∧
      (b.length < start + window →
        findMarker regionEnd limit (ofBytes b start) = .error .endOfStream (ofBytes b b.length))) := by
  intro window
  have hfind : findMarker regionEnd limit (ofBytes b start) =
      outcome b start (regionEnd - start) window (markerEnd? 0 ((b.drop start).take window)) :=
    findMarker_ofBytes b regionEnd limit hb
  constructor
  · rintro ⟨m, hm⟩
    cases hi : markerEnd? 0 ((b.drop start).take window) with
    | none => exact absurd hm (unmarked_iff.mp (markerEnd?_zero_eq_none.mp hi) m)
    | some i =>
      obtain ⟨k, rfl, hfirst⟩ := markerEnd?_zero_eq_some.mp hi
      obtain ⟨hin, hleast⟩ := hfirst.markerIn
      refine ⟨start + k, hin, hleast, ?_⟩
      rw [hfind, hi]
      rfl
  · intro hnone
    have hi := markerEnd?_zero_eq_none.mpr (unmarked_iff.mpr hnone)
    rw [hfind, hi]
    refine ⟨fun hend => ⟨fun hregion => ?_, fun hregion => ?_⟩, fun hend => ?_⟩
    · rw [outcome, if_pos hend, if_pos (Nat.le_of_eq hregion.symm)]
    · rw [outcome, if_pos hend, if_neg (Nat.not_le.mpr hregion)]
    · rw [outcome, if_neg (Nat.not_le.mpr hend)]

/-- Two bytes of which the second is half of a marker, zeros, and a marker. -/
def padded (zeros : Nat) : Bytes := [0xFF, 0xFF] ++ (List.replicate zeros 0 ++ [0xFF, 0xFF, 7])

theorem length_padded (zeros : Nat) : (padded zeros).length = zeros + 5 := by
  rw [padded, List.length_append, List.length_append, List.length_replicate, Nat.add_comm]
  rfl

theorem markerIn_padded (zeros : Nat) : MarkerIn (padded zeros) 1 (zeros + 4) (zeros + 2) where
  start_le := by omega
  le_end := by
    rw [marker, List.length_cons, List.length_singleton]
    omega
  marker := by
    refine ⟨[7], ?_⟩
    have htwo : (padded zeros).drop 2 = List.replicate zeros 0 ++ [0xFF, 0xFF, 7] := rfl
    rw [Nat.add_comm, ← List.drop_drop, htwo, List.drop_left' List.length_replicate]
    rfl

theorem le_of_markerIn_padded {zeros n m : Nat} (hzeros : 0 < zeros)
    (h : MarkerIn (padded zeros) 1 n m) : zeros + 2 ≤ m := by
  obtain ⟨hfirst, hsecond⟩ := markerAt_iff.mp h.marker
  have hstart := h.start_le
  have hzero {i : Nat} (hi : i < zeros) : (padded zeros)[2 + i]? = some 0 := by
    rw [padded, List.getElem?_append_right (Nat.le_add_right 2 i), List.length_cons,
      List.length_singleton, Nat.add_sub_cancel_left, List.getElem?_append_left,
      List.getElem?_replicate_of_lt hi]
    rwa [List.length_replicate]
  by_cases hm : zeros + 2 ≤ m
  · exact hm
  · -- one of the two bytes is among the zeros
    obtain ⟨i, hi⟩ : ∃ i, m + 1 = 2 + i := ⟨m - 1, by omega⟩
    by_cases hlt : i < zeros
    · rw [hi, hzero hlt] at hsecond
      cases hsecond
    · have hlast : m = 2 + (zeros - 1) := by omega
      rw [hlast, hzero (by omega)] at hfirst
      cases hfirst

theorem findMarker_padded :
    findMarker 5000 4098 (ofBytes (padded 4094) 1) = .ok 4096 (ofBytes (padded 4094) 4098) := by
  have hb : 1 ≤ (padded 4094).length := by
    rw [length_padded]
    decide
  obtain ⟨hfound, -⟩ := findMarker_finds_first (padded 4094) 5000 4098 1 hb
  obtain ⟨m, hm, hleast, hfind⟩ := hfound ⟨4096, markerIn_padded 4094⟩
  obtain rfl : m = 4096 :=
    Nat.le_antisymm (hleast 4096 (markerIn_padded 4094)) (le_of_markerIn_padded (by decide) hm)
  exact hfind

end MarkerScan

end KalayRecord
