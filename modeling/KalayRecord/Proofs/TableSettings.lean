import Mathlib.Data.List.Induction
import KalayRecord.Proofs.FrameJoin

namespace KalayRecord

namespace FrameTables

structure Setting where
  column : Column
  items : List UInt32
  deriving DecidableEq, Repr

/-- The tables that are left by one setting after the other; at first all of them are empty. -/
def ofSettings (settings : List Setting) : FrameTables :=
  settings.foldl (fun t s => t.set s.items s.column) {}

/-- What a column was given last; nothing where it was never given a list. -/
def lastGiven (settings : List Setting) (c : Column) : List UInt32 :=
  ((settings.filter (·.column = c)).getLast?.map (·.items)).getD []

/-- Of the columns that frames are joined from, none goes on but those longer than the shortest. -/
def GoesOn (columns columns' : Column → List UInt32) : Prop :=
  ∀ c, c ≠ .keyframeOffsets →
    columns' c = columns c ∨ shortest columns < (columns c).length ∧ columns c <+: columns' c

end FrameTables

open FrameTables

variable {columns columns' : Column → List UInt32}

namespace FrameTables

theorem column_set (t : FrameTables) (items : List UInt32) (c c' : Column) :
    (t.set items c).column c' = if c' = c then items else t.column c' := by
  cases c <;> cases c' <;> rfl

theorem eq_of_column_eq {t t' : FrameTables} (h : ∀ c, t.column c = t'.column c) : t = t' := by
  cases t
  cases t'
  rw [mk.injEq]
  exact ⟨h .timestamps, h .keyframeOffsets, h .sizes, h .offsets⟩

theorem set_comm (t : FrameTables) {c c' : Column} (h : c ≠ c') (items items' : List UInt32) :
    (t.set items c).set items' c' = (t.set items' c').set items c := by
  apply eq_of_column_eq
  intro c''
  simp only [column_set]
  by_cases hc : c'' = c
  · rw [if_pos hc, if_pos hc, if_neg (hc ▸ h)]
  · rw [if_neg hc, if_neg hc]

theorem ofSettings_append_singleton (settings : List Setting) (s : Setting) :
    ofSettings (settings ++ [s]) = (ofSettings settings).set s.items s.column := by
  rw [ofSettings, List.foldl_append]
  rfl

theorem lastGiven_append_singleton (settings : List Setting) (s : Setting) (c : Column) :
    lastGiven (settings ++ [s]) c = if c = s.column then s.items else lastGiven settings c := by
  by_cases hc : c = s.column
  · subst hc
    simp [lastGiven, List.filter_append]
  · simp [lastGiven, List.filter_append, hc, Ne.symm hc]

/-- A setting takes the place of what its column was given before, and leaves the others. -/
theorem column_ofSettings (settings : List Setting) (c : Column) :
    (ofSettings settings).column c = lastGiven settings c := by
  -- from the back: the newest setting alone decides its own column
  induction settings using List.reverseRecOn with
  | nil => cases c <;> rfl
  | append_singleton settings s ih =>
    rw [ofSettings_append_singleton, lastGiven_append_singleton, column_set, ih]

theorem ofSettings_swap (before after : List Setting) {s s' : Setting} (h : s.column ≠ s'.column) :
    ofSettings (before ++ s' :: s :: after) = ofSettings (before ++ s :: s' :: after) := by
  rw [ofSettings, ofSettings, List.foldl_append, List.foldl_append]
  simp only [List.foldl_cons]
  rw [set_comm _ h]

theorem GoesOn.isPrefix (h : GoesOn columns columns') {c : Column} (hc : c ≠ .keyframeOffsets) :
    columns c <+: columns' c := by
  rcases h c hc with heq | ⟨-, hprefix⟩
  · exact heq ▸ List.prefix_rfl
  · exact hprefix

theorem GoesOn.shortest_eq (h : GoesOn columns columns') : shortest columns' = shortest columns := by
  have hlength {c : Column} (hc : c ≠ .keyframeOffsets) :
      (columns' c).length = (columns c).length ∨
        shortest columns < (columns c).length ∧ (columns c).length ≤ (columns' c).length := by
    rcases h c hc with heq | ⟨hlt, hprefix⟩
    · exact Or.inl (congrArg List.length heq)
    · exact Or.inr ⟨hlt, hprefix.length_le⟩
  have htimestamps := hlength (c := .timestamps) (by decide)
  have hsizes := hlength (c := .sizes) (by decide)
  have hoffsets := hlength (c := .offsets) (by decide)
  unfold shortest at *
  omega

end FrameTables

namespace Frame.JoinedAt

variable {f g : Frame} {i : Nat}

theorem goesOn (hf : f.JoinedAt columns i) (h : GoesOn columns columns')
    (hmark : f.offset ∈ columns' .keyframeOffsets ↔ f.offset ∈ columns .keyframeOffsets) :
    f.JoinedAt columns' i := by
  have hkept {c : Column} {item : UInt32} (hc : c ≠ .keyframeOffsets)
      (hitem : (columns c)[i]? = some item) : (columns' c)[i]? = some item := by
    obtain ⟨hi, rfl⟩ := List.getElem?_eq_some_iff.mp hitem
    exact List.prefix_iff_getElem?.mp (h.isPrefix hc) i hi
  exact ⟨hf.number, hkept (by decide) hf.timestamp, hkept (by decide) hf.size,
    hkept (by decide) hf.offset, hf.isKeyframe.trans hmark.symm⟩

end Frame.JoinedAt

namespace FrameIndex.Joins

variable {x y : FrameIndex}

theorem frames_eq_iff (hx : x.Joins columns) (hy : y.Joins columns') (h : GoesOn columns columns') :
    y.frames = x.frames ↔ ∀ f ∈ x.frames,
      (f.offset ∈ columns' .keyframeOffsets ↔ f.offset ∈ columns .keyframeOffsets) := by
  constructor
  · intro heq f hf
    obtain ⟨i, hi⟩ := Array.mem_iff_getElem?.mp hf
    rw [← (hx.frame hi).isKeyframe]
    rw [← heq] at hi
    exact (hy.frame hi).isKeyframe.symm
  · intro hmark
    apply hy.frames_eq (hx.size.trans h.shortest_eq.symm)
    intro i f hf
    exact (hx.frame hf).goesOn h (hmark f (Array.mem_of_getElem? hf))

end FrameIndex.Joins

namespace FrameTables

/-- The index is the one join of what the columns were given last, with its frames numbered by place
as far as numbers go. Settings of two columns may change places; and where only columns longer than
the shortest go on, the frames stay as they are exactly if the keyframe offsets, the same or others,
mark the same of them. -/
theorem build_ofSettings (settings : List Setting) :
    (∀ x : FrameIndex, x = (ofSettings settings).build ↔ x.Joins (lastGiven settings)) ∧
      (shortest (lastGiven settings) ≤ UInt32.size → ∀ (i : Nat) (f : Frame),
        (ofSettings settings).build.frames[i]? = some f → f.number.toNat = i) ∧
      (∀ before after s s', settings = before ++ s :: s' :: after → s.column ≠ s'.column →
        ofSettings (before ++ s' :: s :: after) = ofSettings settings) ∧
      ∀ settings', GoesOn (lastGiven settings) (lastGiven settings') →
        ((ofSettings settings').build.frames = (ofSettings settings).build.frames ↔
          ∀ f ∈ (ofSettings settings).build.frames,
            (f.offset ∈ lastGiven settings' .keyframeOffsets ↔
              f.offset ∈ lastGiven settings .keyframeOffsets)) := by
  have hjoins (settings : List Setting) :
      (ofSettings settings).build.Joins (lastGiven settings) := by
    rw [← funext (column_ofSettings settings)]
    exact joins_build _
  refine ⟨?_, ?_, ?_, ?_⟩
  · intro x
    constructor
    · rintro rfl
      exact hjoins settings
    · exact (hjoins settings).unique
  · intro hlength i f hf
    rw [← (hjoins settings).size] at hlength
    exact toNat_number_of_build_getElem? hlength hf
  · rintro before after s s' rfl hcolumns
    exact ofSettings_swap before after hcolumns
  · intro settings' hlonger
    exact (hjoins settings).frames_eq_iff (hjoins settings') hlonger

/-- Offsets that are given twice, sizes that end first, and keyframes of a frame that is dropped. -/
def mismatched : List Setting :=
  [⟨.offsets, [100, 50]⟩, ⟨.timestamps, [0, 10, 20]⟩, ⟨.sizes, [50, 50]⟩,
   ⟨.keyframeOffsets, [100, 50, 100]⟩, ⟨.offsets, [0, 50, 100]⟩]

def lengthened : List Setting :=
  mismatched ++ [⟨.offsets, [0, 50, 100, 150]⟩, ⟨.keyframeOffsets, [100, 50, 100, 150]⟩,
    ⟨.timestamps, [0, 10, 20, 5]⟩]

theorem mismatched_joined :
    shortest (lastGiven mismatched) ≤ UInt32.size ∧
      (∃ f, (ofSettings mismatched).build.frames[1]? = some f ∧ f.number.toNat = 1 ∧
        f.JoinedAt (lastGiven mismatched) 1 ∧ f.isKeyframe = true) ∧
      ofSettings [⟨.timestamps, [0, 10, 20]⟩, ⟨.offsets, [100, 50]⟩, ⟨.sizes, [50, 50]⟩,
        ⟨.keyframeOffsets, [100, 50, 100]⟩, ⟨.offsets, [0, 50, 100]⟩] = ofSettings mismatched ∧
      GoesOn (lastGiven mismatched) (lastGiven lengthened) ∧
      (ofSettings lengthened).build.frames = (ofSettings mismatched).build.frames := by
  obtain ⟨hjoins, hnumber, hswap, hlonger⟩ := build_ofSettings mismatched
  have hlength : shortest (lastGiven mismatched) ≤ UInt32.size := by decide
  have hgoesOn : GoesOn (lastGiven mismatched) (lastGiven lengthened) := by
    intro c hc
    cases c with
    | timestamps => exact Or.inr (by decide)
    | keyframeOffsets => exact absurd rfl hc
    | sizes => exact Or.inl rfl
    | offsets => exact Or.inr (by decide)
  refine ⟨hlength, ⟨_, rfl, hnumber hlength 1 _ rfl, ((hjoins _).mp rfl).frame rfl, rfl⟩, ?_,
    hgoesOn, (hlonger _ hgoesOn).mpr (by decide)⟩
  exact hswap [] _ _ _ rfl (by decide)

end FrameTables

end KalayRecord
