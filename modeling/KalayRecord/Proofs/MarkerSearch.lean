import KalayRecord.MarkerScan
import KalayRecord.Proofs.FaithfulReading

namespace KalayRecord

/-- A marker stands at place `m`. -/
def MarkerAt (bytes : Bytes) (m : Nat) : Prop := marker <+: bytes.drop m

/-- A marker stands at place `m` and at no place before. -/
def FirstMarkerAt (bytes : Bytes) (m : Nat) : Prop :=
  MarkerAt bytes m ∧ ∀ j < m, ¬MarkerAt bytes j

/-- No marker stands anywhere. -/
def Unmarked (bytes : Bytes) : Prop := ∀ m, ¬MarkerAt bytes m

theorem markerAt_iff {bytes : Bytes} {m : Nat} :
    MarkerAt bytes m ↔ bytes[m]? = some 0xFF ∧ bytes[m + 1]? = some 0xFF := by
  unfold MarkerAt marker
  constructor
  · rintro ⟨rest, h⟩
    have hget (i : Nat) : bytes[m + i]? = ([0xFF, 0xFF] ++ rest : Bytes)[i]? := by
      rw [h, List.getElem?_drop]
    exact ⟨hget 0, hget 1⟩
  · rintro ⟨hfirst, hsecond⟩
    obtain ⟨hm, hfirst⟩ := List.getElem?_eq_some_iff.mp hfirst
    obtain ⟨hm', hsecond⟩ := List.getElem?_eq_some_iff.mp hsecond
    refine ⟨bytes.drop (m + 2), ?_⟩
    rw [List.drop_eq_getElem_cons hm, List.drop_eq_getElem_cons hm', hfirst, hsecond]
    rfl

theorem markerAt_cons_zero {b : UInt8} {bytes : Bytes} :
    MarkerAt (b :: bytes) 0 ↔ b = 0xFF ∧ bytes.head? = some 0xFF := by
  rw [markerAt_iff, List.head?_eq_getElem?]
  simp

theorem not_markerAt_nil (m : Nat) : ¬MarkerAt [] m := by
  rw [markerAt_iff]
  simp

theorem markerAt_take {bytes : Bytes} {m n : Nat} :
    MarkerAt (bytes.take n) m ↔ MarkerAt bytes m ∧ m + 2 ≤ n := by
  rw [markerAt_iff, markerAt_iff, List.getElem?_take, List.getElem?_take]
  constructor
  · rintro ⟨hfirst, hsecond⟩
    by_cases hn : m + 1 < n
    · rw [if_pos (by omega)] at hfirst
      rw [if_pos hn] at hsecond
      exact ⟨⟨hfirst, hsecond⟩, hn⟩
    · rw [if_neg hn] at hsecond
      cases hsecond
  · rintro ⟨⟨hfirst, hsecond⟩, hn⟩
    exact ⟨by rw [if_pos (by omega), hfirst], by rw [if_pos (by omega), hsecond]⟩

theorem markerAt_drop {bytes : Bytes} {p m : Nat} :
    MarkerAt (bytes.drop p) m ↔ MarkerAt bytes (p + m) := by
  unfold MarkerAt
  rw [List.drop_drop]

theorem FirstMarkerAt.take {bytes : Bytes} {m n : Nat} (h : FirstMarkerAt bytes m)
    (hn : m + 2 ≤ n) : FirstMarkerAt (bytes.take n) m := by
  refine ⟨markerAt_take.mpr ⟨h.1, hn⟩, fun j hj hmarker => ?_⟩
  exact h.2 j hj (markerAt_take.mp hmarker).1

/-- Bytes without a marker that do not end in half of one leave the first marker to those behind
them. -/
theorem firstMarkerAt_append {gap rest : Bytes} (hgap : Unmarked gap)
    (hlast : gap.getLast? ≠ some 0xFF) : FirstMarkerAt (gap ++ marker ++ rest) gap.length := by
  rw [List.append_assoc]
  constructor
  · exact ⟨rest, by rw [List.drop_left]⟩
  · intro j hj hmarker
    obtain ⟨hfirst, hsecond⟩ := markerAt_iff.mp hmarker
    rw [List.getElem?_append_left hj] at hfirst
    by_cases hend : j + 1 < gap.length
    · rw [List.getElem?_append_left hend] at hsecond
      exact hgap j (markerAt_iff.mpr ⟨hfirst, hsecond⟩)
    · apply hlast
      rw [List.getLast?_eq_getElem?, show gap.length - 1 = j by omega]
      exact hfirst

namespace MarkerScan

open Reading MeasuredReader

theorem markerEnd?_eq_some {previous : UInt8} {bytes : Bytes} {i : Nat} :
    markerEnd? previous bytes = some i ↔ FirstMarkerAt (previous :: bytes) i := by
  induction bytes generalizing previous i with
  | nil =>
    simp only [markerEnd?, FirstMarkerAt, false_iff, reduceCtorEq]
    rintro ⟨hmarker, -⟩
    cases i with
    | zero => simp [markerAt_cons_zero] at hmarker
    | succ i => exact not_markerAt_nil i hmarker
  | cons b bytes ih =>
    have hzero : MarkerAt (previous :: b :: bytes) 0 ↔ [previous, b] = marker := by
      rw [markerAt_cons_zero]
      simp [marker]
    rw [markerEnd?]
    by_cases h : [previous, b] = marker
    · rw [if_pos h, Option.some.injEq]
      constructor
      · rintro rfl
        exact ⟨hzero.mpr h, fun j hj => absurd hj (Nat.not_lt_zero j)⟩
      · rintro ⟨-, hnone⟩
        rcases Nat.eq_zero_or_pos i with hi | hi
        · exact hi.symm
        · exact absurd (hzero.mpr h) (hnone 0 hi)
    · rw [if_neg h, Option.map_eq_some_iff]
      constructor
      · rintro ⟨i, hi, rfl⟩
        obtain ⟨hmarker, hnone⟩ := ih.mp hi
        refine ⟨hmarker, fun j hj => ?_⟩
        cases j with
        | zero => exact fun hmarker => h (hzero.mp hmarker)
        | succ j => exact hnone j (by omega)
      · rintro ⟨hmarker, hnone⟩
        cases i with
        | zero => exact absurd (hzero.mp hmarker) h
        | succ i => exact ⟨i, ih.mpr ⟨hmarker, fun j hj => hnone (j + 1) (by omega)⟩, rfl⟩

theorem markerEnd?_eq_none {previous : UInt8} {bytes : Bytes} :
    markerEnd? previous bytes = none ↔ Unmarked (previous :: bytes) := by
  constructor
  · intro h m
    induction m using Nat.strongRecOn with
    | ind m ih =>
      intro hmarker
      rw [markerEnd?_eq_some.mpr ⟨hmarker, ih⟩] at h
      cases h
  · intro h
    cases hi : markerEnd? previous bytes with
    | none => rfl
    | some i => exact absurd (markerEnd?_eq_some.mp hi).1 (h i)

theorem markerEnd?_zero_eq_some {bytes : Bytes} {i : Nat} :
    markerEnd? 0 bytes = some i ↔ ∃ m, i = m + 1 ∧ FirstMarkerAt bytes m := by
  have hzero : ¬MarkerAt (0 :: bytes) 0 := by
    rw [markerAt_cons_zero]
    simp
  rw [markerEnd?_eq_some]
  constructor
  · rintro ⟨hmarker, hnone⟩
    cases i with
    | zero => exact absurd hmarker hzero
    | succ m => exact ⟨m, rfl, hmarker, fun j hj => hnone (j + 1) (by omega)⟩
  · rintro ⟨m, rfl, hmarker, hnone⟩
    refine ⟨hmarker, fun j hj => ?_⟩
    cases j with
    | zero => exact hzero
    | succ j => exact hnone j (by omega)

theorem markerEnd?_zero_eq_none {bytes : Bytes} :
    markerEnd? 0 bytes = none ↔ Unmarked bytes := by
  rw [markerEnd?_eq_none]
  constructor
  · intro h m
    exact h (m + 1)
  · intro h m
    cases m with
    | zero =>
      rw [markerAt_cons_zero]
      simp
    | succ m => exact h m

instance (bytes : Bytes) : Decidable (Unmarked bytes) :=
  decidable_of_iff _ markerEnd?_zero_eq_none

/-- What a search knows after a block without a marker is the last byte that it has seen. -/
theorem markerEnd?_append (previous : UInt8) (block rest : Bytes) :
    markerEnd? previous (block ++ rest) =
      (markerEnd? previous block).or
        ((markerEnd? (block.getLast?.getD previous) rest).map (· + block.length)) := by
  induction block generalizing previous with
  | nil => simp [markerEnd?]
  | cons b block ih =>
    rw [List.cons_append, markerEnd?, markerEnd?]
    by_cases h : [previous, b] = marker
    · rw [if_pos h, if_pos h]
      rfl
    · have hlast : (b :: block).getLast?.getD previous = block.getLast?.getD b := by
        rw [List.getLast?_cons]
        rfl
      rw [if_neg h, if_neg h, ih, hlast, List.length_cons]
      cases markerEnd? b block with
      | some i => rfl
      | none =>
        cases markerEnd? (block.getLast?.getD b) rest with
        | none => rfl
        | some i => rfl

theorem take_eq_append {b : Bytes} {n k : Nat} (h : n ≤ k) :
    b.take k = b.take n ++ (b.drop (b.take n).length).take (k - (b.take n).length) := by
  rw [List.length_take]
  by_cases hn : n ≤ b.length
  · rw [Nat.min_eq_left hn, ← List.take_add, Nat.add_sub_cancel' h]
  · rw [Nat.min_eq_right (by omega), List.drop_length, List.take_nil, List.append_nil,
      List.take_of_length_le (by omega), List.take_of_length_le (by omega)]

/-- The block that a search reads next. -/
def blockAt (b : Bytes) (start window scanned : Nat) : Bytes :=
  (b.drop (start + scanned)).take (min (window - scanned) blockSize)

/-- The outcome of a search that has found where the first marker ends, or that there is none. -/
def outcome (b : Bytes) (start regionLeft window : Nat) :
    Option Nat → EStateM.Result Error (MeasuredReader MemoryStream) Nat
  | some i => .ok (start + i - 1) (ofBytes b (start + i + 1))
  | none =>
    if start + window ≤ b.length then
      .error (if regionLeft ≤ window then .endOfStream else .syncNotFound start window)
        (ofBytes b (start + window))
    else .error .endOfStream (ofBytes b b.length)

section Blocks

variable {b : Bytes} {start window scanned : Nat}

theorem length_blockAt (b : Bytes) (start window scanned : Nat) :
    (blockAt b start window scanned).length =
      min (min (window - scanned) blockSize) (b.length - (start + scanned)) := by
  rw [blockAt, List.length_take, List.length_drop]

theorem window_eq_append (b : Bytes) (start window scanned : Nat) :
    (b.drop (start + scanned)).take (window - scanned) =
      blockAt b start window scanned ++
        (b.drop (start + (scanned + (blockAt b start window scanned).length))).take
          (window - (scanned + (blockAt b start window scanned).length)) := by
  have hsplit := take_eq_append (b := b.drop (start + scanned))
    (Nat.min_le_left (window - scanned) blockSize)
  rw [List.drop_drop, Nat.add_assoc] at hsplit
  rw [Nat.sub_add_eq]
  exact hsplit

theorem scanFrom_block (regionLeft : Nat) (previous : UInt8) (hw : scanned < window) :
    scanFrom start regionLeft window scanned previous (ofBytes b (start + scanned)) =
      (if blockAt b start window scanned = [] then throw Error.endOfStream
      else
        match markerEnd? previous (blockAt b start window scanned) with
        | some i => do
          seek (start + scanned + i - 1 + marker.length)
          return start + scanned + i - 1
        | none =>
          scanFrom start regionLeft window (scanned + (blockAt b start window scanned).length)
            ((blockAt b start window scanned).getLast?.getD previous))
        (ofBytes b (start + scanned + (blockAt b start window scanned).length)) := by
  rw [scanFrom, if_neg (Nat.not_le.mpr hw), bind_of_ok (upTo_ofBytes b _ _)]
  rfl

theorem scanFrom_of_end (regionLeft : Nat) (previous : UInt8) (hw : scanned < window)
    (hb : start + scanned ≤ b.length) (hblock : blockAt b start window scanned = []) :
    b.length = start + scanned ∧
      scanFrom start regionLeft window scanned previous (ofBytes b (start + scanned)) =
        .error .endOfStream (ofBytes b b.length) := by
  have hlength := length_blockAt b start window scanned
  have hsize : 0 < blockSize := by decide
  rw [hblock, List.length_nil] at hlength
  have hend : b.length = start + scanned := by omega
  refine ⟨hend, ?_⟩
  rw [scanFrom_block regionLeft previous hw, if_pos hblock, hblock, hend]
  rfl

theorem scanFrom_of_found (regionLeft : Nat) {previous : UInt8} {i : Nat} (hw : scanned < window)
    (hblock : blockAt b start window scanned ≠ [])
    (hi : markerEnd? previous (blockAt b start window scanned) = some i)
    (hstart : 1 ≤ scanned + i) :
    scanFrom start regionLeft window scanned previous (ofBytes b (start + scanned)) =
      .ok (start + (i + scanned) - 1) (ofBytes b (start + (i + scanned) + 1)) := by
  have hoffset : start + scanned + i - 1 = start + (i + scanned) - 1 := by omega
  have hbehind : start + (i + scanned) - 1 + marker.length = start + (i + scanned) + 1 := by
    simp only [marker, List.length_cons, List.length_nil]
    omega
  rw [scanFrom_block regionLeft previous hw, if_neg hblock, hi]
  dsimp only
  rw [hoffset, hbehind, bind_of_ok (seek_ofBytes b _ _)]
  rfl

theorem scanFrom_of_unmarked (regionLeft : Nat) {previous : UInt8} (hw : scanned < window)
    (hblock : blockAt b start window scanned ≠ [])
    (hi : markerEnd? previous (blockAt b start window scanned) = none) :
    scanFrom start regionLeft window scanned previous (ofBytes b (start + scanned)) =
      scanFrom start regionLeft window (scanned + (blockAt b start window scanned).length)
        ((blockAt b start window scanned).getLast?.getD previous)
        (ofBytes b (start + (scanned + (blockAt b start window scanned).length))) := by
  rw [scanFrom_block regionLeft previous hw, if_neg hblock, hi, Nat.add_assoc]

end Blocks

/-- A search by blocks sees what a search of the whole window sees. -/
theorem scanFrom_ofBytes (b : Bytes) (start regionLeft window scanned : Nat) (previous : UInt8)
    (hscanned : scanned ≤ window) (hb : start + scanned ≤ b.length)
    (hprevious : scanned = 0 → previous ≠ 0xFF) :
    scanFrom start regionLeft window scanned previous (ofBytes b (start + scanned)) =
      outcome b start regionLeft window
        ((markerEnd? previous ((b.drop (start + scanned)).take (window - scanned))).map
          (· + scanned)) := by
  -- along the blocks: what lies before a block is known to hold no marker but a first half
  induction scanned, previous using scanFrom.induct window with
  | case1 scanned previous hw =>
    obtain rfl : scanned = window := Nat.le_antisymm hscanned hw
    rw [scanFrom, if_pos hw, Nat.sub_self, List.take_zero]
    simp only [markerEnd?, Option.map_none, outcome, if_pos hb]
    rfl
  | case2 scanned previous hw ih =>
    have hw := Nat.not_le.mp hw
    by_cases hblock : blockAt b start window scanned = []
    · obtain ⟨hend, hscan⟩ := scanFrom_of_end regionLeft previous hw hb hblock
      have hnone : b.drop (start + scanned) = [] := by rw [← hend, List.drop_length]
      rw [hscan, hnone, List.take_nil]
      simp only [markerEnd?, Option.map_none, outcome]
      rw [if_neg (by omega)]
    rw [window_eq_append, markerEnd?_append]
    cases hi : markerEnd? previous (blockAt b start window scanned) with
    | some i =>
      have hstart : 1 ≤ scanned + i := by
        rcases Nat.eq_zero_or_pos (scanned + i) with hzero | hpos
        · -- a marker that ends at once would begin before the cursor
          have hi0 : i = 0 := by omega
          subst hi0
          have hmarker := (markerEnd?_eq_some.mp hi).1
          exact absurd (markerAt_cons_zero.mp hmarker).1 (hprevious (by omega))
        · exact hpos
      rw [scanFrom_of_found regionLeft hw hblock hi hstart]
      rfl
    | none =>
      have hlength := length_blockAt b start window scanned
      have hpos := List.length_pos_iff.mpr hblock
      rw [scanFrom_of_unmarked regionLeft hw hblock hi,
        ih _ hblock (by omega) (by omega) (by omega), Option.none_or, Option.map_map]
      congr 2
      funext i
      rw [Function.comp_apply]
      omega

theorem findMarker_ofBytes (b : Bytes) (regionEnd limit : Nat) {p : Nat} (hp : p ≤ b.length) :
    findMarker regionEnd limit (ofBytes b p) =
      outcome b p (regionEnd - p) (min (regionEnd - p) limit)
        (markerEnd? 0 ((b.drop p).take (min (regionEnd - p) limit))) := by
  have hscan := scanFrom_ofBytes b p (regionEnd - p) (min (regionEnd - p) limit) 0 0
    (Nat.zero_le _) hp (fun _ => by decide)
  have hzero : (fun i => i + 0) = (id : Nat → Nat) := by
    funext i
    exact Nat.add_zero i
  rw [Nat.add_zero, Nat.sub_zero, hzero, Option.map_id] at hscan
  rw [findMarker, bind_of_ok (position_apply _)]
  exact hscan

theorem findMarker_of_first {b : Bytes} {regionEnd limit p m : Nat} (hp : p ≤ b.length)
    (hm : FirstMarkerAt (b.drop p) m) (hregion : p + m + 2 ≤ regionEnd) (hlimit : m + 2 ≤ limit) :
    findMarker regionEnd limit (ofBytes b p) = .ok (p + m) (ofBytes b (p + m + 2)) := by
  have hfirst := hm.take (n := min (regionEnd - p) limit) (by omega)
  rw [findMarker_ofBytes b regionEnd limit hp, markerEnd?_zero_eq_some.mpr ⟨m, rfl, hfirst⟩]
  rfl

theorem findMarker_of_unmarked {b : Bytes} {regionEnd limit p : Nat} (hp : p ≤ b.length)
    (h : Unmarked ((b.drop p).take (min (regionEnd - p) limit))) :
    findMarker regionEnd limit (ofBytes b p) =
      if p + min (regionEnd - p) limit ≤ b.length then
        .error (if regionEnd - p ≤ min (regionEnd - p) limit then .endOfStream
            else .syncNotFound p (min (regionEnd - p) limit))
          (ofBytes b (p + min (regionEnd - p) limit))
      else .error .endOfStream (ofBytes b b.length) := by
  rw [findMarker_ofBytes b regionEnd limit hp, markerEnd?_zero_eq_none.mpr h]
  rfl

end MarkerScan

end KalayRecord
