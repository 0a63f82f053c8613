import KalayRecord.Proofs.DemuxerSteps
import KalayRecord.Proofs.FirstViolation
import KalayRecord.Proofs.FootagePlayback
import KalayRecord.Proofs.KeyframeSearch

namespace KalayRecord

open Reading

theorem partitioned_offsets_iff {offsets : List UInt32} :
    (∀ offset, Partitioned (fun k => decide (k ≤ offset)) offsets) ↔ offsets.Pairwise (· ≤ ·) := by
  constructor
  · intro h
    rw [List.pairwise_iff_getElem]
    intro i j hi hj hlt
    -- the later entry bounds itself, and so it bounds the earlier one
    have hbound := List.pairwise_iff_getElem.mp (h offsets[j]) i j hi hj hlt
    exact of_decide_eq_true (hbound (decide_eq_true (UInt32.le_refl _)))
  · exact FrameIndex.partitioned_offsets

namespace FrameIndex

/-- Both tables that seeks search are partitioned by whatever is searched for. -/
structure Searchable (x : FrameIndex) : Prop where
  times : ∀ time : Int, Partitioned (fun f => (f.timestamp.toNat : Int) < time) x.frames.toList
  offsets : ∀ offset, Partitioned (fun k => decide (k ≤ offset)) x.keyframeOffsets.toList

theorem Sound.searchable_iff {x : FrameIndex} (h : x.Sound) :
    x.Searchable ↔ x.keyframeOffsets.toList.Pairwise (· ≤ ·) := by
  rw [← partitioned_offsets_iff]
  exact ⟨Searchable.offsets, fun hoffsets => ⟨partitioned_timestamps h.timestamps, hoffsets⟩⟩

theorem Sound.withKeyframes {x : FrameIndex} (h : x.Sound) {keys : Array UInt32}
    (hkeys : ∀ k ∈ keys, k ∈ x.keyframeOffsets) : { x with keyframeOffsets := keys }.Sound where
  ordered := h.ordered
  keyframes k hk := h.keyframes k (hkeys k hk)

end FrameIndex

section Source

variable {σ : Type} [ByteSource σ]

theorem Recording.validate_of_read {o : OpenOptions} {x : Recording} {r r' : MeasuredReader σ}
    (hcheck : o.checkIndex = true) (h : Recording.read o r = .ok x r') : x.validate = .ok () := by
  simp only [read, throw_bind] at h
  obtain ⟨_, _, -, h⟩ := bind_eq_ok.mp h
  obtain ⟨header, _, -, h⟩ := bind_eq_ok.mp h
  obtain ⟨-, h⟩ := check_eq_ok.mp h
  obtain ⟨_, _, -, h⟩ := bind_eq_ok.mp h
  obtain ⟨mediaDataSize, _, -, h⟩ := bind_eq_ok.mp h
  obtain ⟨_, _, -, h⟩ := bind_eq_ok.mp h
  obtain ⟨indexSectionSize, _, -, h⟩ := bind_eq_ok.mp h
  obtain ⟨_, _, -, h⟩ := bind_eq_ok.mp h
  obtain ⟨video, _, -, h⟩ := bind_eq_ok.mp h
  obtain ⟨audio, _, -, h⟩ := bind_eq_ok.mp h
  generalize ({ header, mediaDataSize, indexSectionSize, video := .ofRecord .video video,
                audio := .ofRecord .audio audio } : Recording) = f at h
  rw [if_pos hcheck] at h
  cases hvalid : f.validate with
  | ok _ =>
    simp only [hvalid] at h
    rw [bind_of_ok (seek_apply _ _), pure_eq_ok] at h
    rw [← h.1]
    exact hvalid
  | error e =>
    simp only [hvalid] at h
    exact absurd h throw_ne_ok

namespace Demuxer

theorem keeps_recording (x : Recording) :
    Keeps (σ := σ) (fun d => d.recording = x) fun _ => True where
  readPacket := by
    rintro d rfl
    refine ⟨?_, fun _ _ => trivial⟩
    cases h : Packet.readNext d.recording d.options d.reader with
    | ok packet reader => rw [readPacket_of_ok h]
    | error e reader => rw [readPacket_of_error h]
  seek := by
    rintro d rfl stream time
    unfold seek
    dsimp only
    split <;> rfl
  rewind d h := h

end Demuxer

end Source

namespace Demuxer

/-- In a checked index all times partition the frames, and all offsets partition the keyframes exactly
if these are in order; but the check passes them in any order. It has passed every index that a
demuxer opened with it ever looks in. -/
theorem checked_searches (x : FrameIndex) (hvalid : x.validate = .ok ()) :
    (∀ time : Int, Partitioned (fun f => (f.timestamp.toNat : Int) < time) x.frames.toList) ∧
      (x.Searchable ↔ x.keyframeOffsets.toList.Pairwise (· ≤ ·)) ∧
      (∀ keys : Array UInt32, (∀ k ∈ keys, k ∈ x.keyframeOffsets) →
        { x with keyframeOffsets := keys }.validate = .ok ()) ∧
      ∀ {σ : Type} [ByteSource σ] (o : OpenOptions) (s : σ) (d : Demuxer σ),
        openSource o s = .ok d → o.checkIndex = true → ∀ ops,
          (d.performAll ops).2.recording.video.index.validate = .ok () := by
  have hsound := FrameIndex.validate_eq_ok.mp hvalid
  refine ⟨FrameIndex.partitioned_timestamps hsound.timestamps, hsound.searchable_iff, ?_, ?_⟩
  · intro keys hkeys
    exact FrameIndex.validate_eq_ok.mpr (hsound.withKeyframes hkeys)
  · intro σ _ o s d hopen hcheck ops
    obtain ⟨recording, reader, hread, rfl⟩ := openSource_eq_ok.mp hopen
    have hkept := ((keeps_recording recording).performAll
      (d := { reader, recording, options := o }) rfl ops).1
    have hvideo := (Recording.validate_eq_ok.mp (Recording.validate_of_read hcheck hread)).1
    rw [hkept]
    exact FrameIndex.validate_eq_ok.mpr (Track.validate_eq_ok.mp hvideo).index

/-- Three frames, all of them keyframes, that the keyframe table lists in another order. -/
def scattered : FrameTables where
  timestamps := [0, 100, 200]
  keyframeOffsets := [0, 1000, 500]
  sizes := [500, 500, 500]
  offsets := [0, 500, 1000]

def scatteredImage : RecordingImage where
  header := { fileLength := 0, sectionType := 0, version := 1, encryptType := 0, uuid := "",
              channel := 0, createTime := 0, extraHeaderFlag := 0 }
  uuid := List.replicate 40 0
  extra := []
  mediaDataSize := 8
  mediaData := [0, 0, 0, 0]
  indexSectionSize := 0
  indexSectionType := 0
  video := { size := 116, type := 0, codecByte := 0x4E, flag := 0, id := 1, firstTimestamp := 0,
             lastTimestamp := 200, timestamps := Footage.table 0 scattered.timestamps
             keyframes := some (Footage.table 0 scattered.keyframeOffsets)
             sizes := Footage.table 0 scattered.sizes
             offsets := Footage.table 0 scattered.offsets }
  audio := { size := 56, type := 0, codecByte := 0x86, flag := 0, id := 2, firstTimestamp := 0,
             lastTimestamp := 0, timestamps := Footage.table 0 [], keyframes := none,
             sizes := Footage.table 0 [], offsets := Footage.table 0 [] }

theorem scatteredImage_wellFormed : scatteredImage.WellFormed where
  uuid_length := rfl
  uuid_text := by decide +kernel
  extra_length := rfl
  mediaData_length := rfl
  video_keyframes := rfl
  audio_keyframes := rfl
  items_length := by decide

theorem scatteredImage_passes : scatteredImage.Passes { checkIndex := true } where
  encryption := nofun
  tableSizes _ := by decide
  index _ := by decide +kernel

theorem scattered_opens :
    ∃ d, openSource { checkIndex := true } (MemoryStream.ofBytes scatteredImage.encode) = .ok d ∧
      d.recording.video.index = scattered.build ∧ (d.seek 0 100).1.toOption = some 0 := by
  refine ⟨_, scatteredImage_wellFormed.openSource_eq scatteredImage_passes, rfl, ?_⟩
  decide +kernel

theorem scattered_checked :
    (∀ time : Int, Partitioned (fun f => (f.timestamp.toNat : Int) < time)
      scattered.build.frames.toList) ∧
    { scattered.build with keyframeOffsets := #[0, 500, 1000] }.Searchable ∧
    ∃ d, openSource { checkIndex := true } (MemoryStream.ofBytes scatteredImage.encode) = .ok d ∧
      (d.performAll [.seek 0 100, .readPacket]).2.recording.video.index.validate = .ok () := by
  have hvalid : scattered.build.validate = .ok () := by decide +kernel
  obtain ⟨htimes, -, hkeys, hchecked⟩ := checked_searches _ hvalid
  have hsorted := hkeys #[0, 500, 1000] (by simp [scattered, FrameTables.build])
  obtain ⟨d, hopen, -⟩ := scattered_opens
  refine ⟨htimes, (checked_searches _ hsorted).2.1.mpr (by decide), d, hopen, ?_⟩
  exact hchecked _ _ d hopen rfl _

/-- The check passes these tables, and a demuxer that is opened with it seeks in them. The second
keyframe is the frame at 100 ms, but a seek to that time goes to the first. -/
theorem scattered_unsearchable :
    scattered.build.validate = .ok () ∧
      ¬Partitioned (fun k => decide (k ≤ 500)) scattered.build.keyframeOffsets.toList ∧
      ∃ d, openSource { checkIndex := true } (MemoryStream.ofBytes scatteredImage.encode) = .ok d ∧
        d.recording.video.index = scattered.build ∧ (d.seek 0 100).1.toOption = some 0 := by
  have hunordered : ¬Partitioned (fun k => decide (k ≤ 500)) scattered.keyframeOffsets := by
    unfold Partitioned
    decide
  exact ⟨by decide +kernel, hunordered, scattered_opens⟩

end Demuxer

end KalayRecord
