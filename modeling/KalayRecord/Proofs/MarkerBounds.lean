import KalayRecord.Proofs.FootageSeek
import KalayRecord.Proofs.Retrying

namespace KalayRecord

open MeasuredReader

namespace FrameIndex

theorem mem_of_keyframeFor {x : FrameIndex} {time : Int} {k : UInt32}
    (h : x.keyframeFor time = .ok k) : k ∈ x.keyframeOffsets := by
  unfold keyframeFor at h
  cases hframe : x.frameAtOrAfter? time with
  | none =>
    rw [hframe] at h
    cases h
  | some frame =>
    cases hfirst : x.keyframeOffsets[0]? with
    | none =>
      rw [hframe, hfirst] at h
      cases h
    | some first =>
      rw [hframe, hfirst] at h
      cases h
      unfold keyframeAtOrBefore?
      split
      · exact Array.mem_of_getElem? hfirst
      next n _ =>
        cases hk : x.keyframeOffsets[n]? with
        | none => exact Array.mem_of_getElem? hfirst
        | some k => exact Array.mem_of_getElem? hk

end FrameIndex

theorem Footage.Lawful.mediaDataOffset_le_keyframe {f : Footage} (hf : f.Lawful) {p n : Nat} :
    ∀ k ∈ (f.openedAt p n).recording.video.index.keyframeOffsets,
      (f.openedAt p n).recording.mediaDataOffset ≤ k.toNat := by
  intro k hk
  have hkey : k ∈ f.keyRecords.map fun r => .ofNat r.offset := by
    rw [← Lawful.keyframeOffsets_eq f]
    exact Array.mem_toList_iff.mpr hk
  obtain ⟨r, hr, rfl⟩ := List.mem_map.mp hkey
  obtain ⟨hrecord, -⟩ := mem_records_of_mem_keyRecords hr
  rw [hf.toNat_offset hrecord]
  exact Nat.le_of_add_right_le (Shot.le_offset_recordsFrom hrecord)

/-- At the place or before it the recording has somewhere to go: its first frame, or an entry of the
keyframe table. -/
def Recording.StartsBy (x : Recording) (p : Nat) : Prop :=
  x.firstFrameOffset ≤ p ∨ ∃ k ∈ x.video.index.keyframeOffsets, k.toNat ≤ p

namespace Recording.StartsBy

variable {x : Recording} {p q : Nat}

theorem mono (h : x.StartsBy p) (hle : p ≤ q) : x.StartsBy q := by
  rcases h with hfirst | ⟨k, hk, hkey⟩
  · exact Or.inl (Nat.le_trans hfirst hle)
  · exact Or.inr ⟨k, hk, Nat.le_trans hkey hle⟩

theorem mediaDataOffset_le (h : x.StartsBy p)
    (hkeys : ∀ k ∈ x.video.index.keyframeOffsets, x.mediaDataOffset ≤ k.toNat) :
    x.mediaDataOffset ≤ p := by
  rcases h with hfirst | ⟨k, hk, hkey⟩
  · exact Nat.le_trans (Nat.le_add_right _ _) hfirst
  · exact Nat.le_trans (hkeys k hk) hkey

end Recording.StartsBy

/-- The header of the packet's record begins with a marker at `m` that is whole before the end of the
media data. -/
structure Packet.MarkedAt (packet : Packet) (b : Bytes) (x : Recording) (m : Nat) : Prop where
  position_eq : packet.position = m + Packet.headerSize
  marker : MarkerAt b m
  le_end : m + KalayRecord.marker.length ≤ x.mediaDataEnd

theorem Packet.markedAt_of_readNext {b : Bytes} {x : Recording} {o : OpenOptions} {p : Nat}
    {packet : Packet} {r' : MeasuredReader MemoryStream}
    (h : readNext x o (ofBytes b p) = .ok packet r') : ∃ m, p ≤ m ∧ packet.MarkedAt b x m := by
  rcases readNext_cases x o b p with ⟨q, -, -, hend⟩ | ⟨-, -, hlost⟩ | ⟨m, hm, hend, hframe⟩
  · rw [hend] at h
    cases h
  · rw [hlost] at h
    cases h
  · rw [hframe] at h
    exact ⟨p + m, Nat.le_add_right p m, (payload_of_readFrame h).1, markerAt_drop.mp hm.1, hend⟩

namespace Demuxer

/-- Wherever the cursor is and whatever stream is named, a seek to a time fails and moves nothing, or
goes to one and the same entry of the keyframe table. -/
theorem seek_cases (b : Bytes) (x : Recording) (o : OpenOptions) (time : Int64) :
    (∃ e, ∀ p n stream,
      (ofBytes b x o p n).seek stream time = (.error e, ofBytes b x o p n)) ∨
    ∃ k ∈ x.video.index.keyframeOffsets, ∀ p n stream,
      (ofBytes b x o p n).seek stream time = (.ok k.toNat, ofBytes b x o k.toNat n) := by
  cases h : x.video.index.keyframeFor
    (saturatingSum time.toInt x.video.firstTimestamp.toNat) with
  | ok k =>
    exact Or.inr ⟨k, FrameIndex.mem_of_keyframeFor h, fun p n stream => seek_ofBytes p n stream h⟩
  | error e =>
    refine Or.inl ⟨e, fun p n stream => ?_⟩
    simp only [seek, ofBytes, h]

/-- The cursor stays behind the places that the recording leads to. -/
theorem keeps_startsBy (b : Bytes) (x : Recording) (o : OpenOptions) :
    Keeps (fun d => ∃ p n, x.StartsBy p ∧ d = ofBytes b x o p n)
      (fun packet => ∃ m, packet.MarkedAt b x m ∧ x.StartsBy m) where
  readPacket := by
    rintro _ ⟨p, n, hp, rfl⟩
    obtain ⟨q, n', hq, hd⟩ := readPacket_forward b x o p n
    refine ⟨⟨q, n', hp.mono hq, hd⟩, fun packet hpacket => ?_⟩
    obtain ⟨reader, hread, -⟩ := readPacket_eq_ok.mp (Prod.ext hpacket rfl)
    obtain ⟨m, hm, hmarked⟩ := Packet.markedAt_of_readNext hread
    exact ⟨m, hmarked, hp.mono hm⟩
  seek := by
    rintro _ ⟨p, n, hp, rfl⟩ stream time
    rcases seek_cases b x o time with ⟨e, hseek⟩ | ⟨k, hk, hseek⟩
    · rw [hseek p n stream]
      exact ⟨p, n, hp, rfl⟩
    · rw [hseek p n stream]
      exact ⟨k.toNat, n, Or.inr ⟨k, hk, Nat.le_refl _⟩, rfl⟩
  rewind := by
    rintro _ ⟨p, n, -, rfl⟩
    exact ⟨x.firstFrameOffset, 0, Or.inl (Nat.le_refl _), rfl⟩

/-- Each packet that an open demuxer hands out has its marker before the end of the media data. If
all entries of the keyframe table lie behind the beginning of the media data, so do the markers. -/
theorem markers_within_media (o : OpenOptions) (b : Bytes) (d : Demuxer MemoryStream)
    (hopen : openSource o (MemoryStream.ofBytes b) = .ok d) (ops : List Operation) :
    ∀ outcome ∈ (d.performAll ops).1, ∀ packet ∈ outcome.packets,
      ∃ m, packet.MarkedAt b d.recording m ∧
        ((∀ k ∈ d.recording.video.index.keyframeOffsets, d.recording.mediaDataOffset ≤ k.toNat) →
          d.recording.mediaDataOffset ≤ m) := by
  obtain ⟨x, rfl⟩ := eq_ofBytes_of_open hopen
  intro outcome houtcome packet hpacket
  have hkept := (keeps_startsBy b x o).performAll
    ⟨x.firstFrameOffset, 0, Or.inl (Nat.le_refl _), rfl⟩ ops
  obtain ⟨m, hm, hstart⟩ := hkept.2 outcome houtcome packet hpacket
  exact ⟨m, hm, hstart.mediaDataOffset_le⟩

theorem sample_markers :
    ∃ d, openSource {} (MemoryStream.ofBytes Footage.sample.image.encode) = .ok d ∧
      ∃ outcome ∈ (d.performAll [.seek 0 40, .packets 5]).1, ∃ packet ∈ outcome.packets,
        ∃ m, packet.MarkedAt Footage.sample.image.encode d.recording m ∧
          d.recording.mediaDataOffset ≤ m := by
  obtain ⟨d, hd⟩ : ∃ d, Footage.sample.openedAt Footage.sample.start 0 = d := ⟨_, rfl⟩
  have hopen := hd ▸ Footage.sample_lawful.openSource_eq
  have hkeys := hd ▸ Footage.sample_lawful.mediaDataOffset_le_keyframe
  have hsome : ((d.performAll [.seek 0 40, .packets 5]).1.any fun outcome =>
      outcome.packets.any fun _ => true) = true := by
    rw [← hd]
    decide +kernel
  obtain ⟨outcome, houtcome, hpackets⟩ := List.any_eq_true.mp hsome
  obtain ⟨packet, hpacket, -⟩ := List.any_eq_true.mp hpackets
  obtain ⟨m, hm, hle⟩ := markers_within_media {} _ d hopen _ outcome houtcome packet hpacket
  exact ⟨d, hopen, outcome, houtcome, packet, hpacket, m, hm, hle hkeys⟩

/-- A recording whose only frame, a keyframe, stands in its own UUID. -/
def strayKeyframe : RecordingImage :=
  let uuid := [0xFF, 0xFF, 1, 0, 0, 0, 0, 0] ++ List.replicate 32 0
  { header := { fileLength := 0, sectionType := 0, version := 1, encryptType := 0,
                uuid := RecordingHeader.uuidText uuid, channel := 0, createTime := 0,
                extraHeaderFlag := 0 }
    uuid
    extra := []
    mediaDataSize := 8
    mediaData := [0, 0, 0, 0]
    indexSectionSize := 0
    indexSectionType := 0
    video := { size := 84, type := 0, codecByte := 0x4E, flag := 0, id := 1, firstTimestamp := 0,
               lastTimestamp := 0, timestamps := Footage.table 0 [0],
               keyframes := some (Footage.table 0 [19]), sizes := Footage.table 0 [8],
               offsets := Footage.table 0 [19] }
    audio := { size := 56, type := 0, codecByte := 0x86, flag := 0, id := 2, firstTimestamp := 0,
               lastTimestamp := 0, timestamps := Footage.table 0 [], keyframes := none,
               sizes := Footage.table 0 [], offsets := Footage.table 0 [] } }

/-- With all checks on, a seek and a read hand out a packet whose marker is before the media data. -/
theorem strayKeyframe_leaves_media :
    ∃ d, openSource { checkIndex := true, refuseEncrypted := true }
        (MemoryStream.ofBytes strayKeyframe.encode) = .ok d ∧
      ∃ outcome ∈ (d.performAll [.seek 0 0, .readPacket]).1, ∃ packet ∈ outcome.packets,
        packet.position < d.recording.mediaDataOffset + Packet.headerSize := by
  have hleaves : ((openSource { checkIndex := true, refuseEncrypted := true }
      (MemoryStream.ofBytes strayKeyframe.encode)).toOption.any fun d =>
        (d.performAll [.seek 0 0, .readPacket]).1.any fun outcome =>
          outcome.packets.any fun packet =>
            packet.position < d.recording.mediaDataOffset + Packet.headerSize) = true := by
    decide +kernel
  cases hopen : openSource { checkIndex := true, refuseEncrypted := true }
      (MemoryStream.ofBytes strayKeyframe.encode) with
  | error e =>
    rw [hopen] at hleaves
    cases hleaves
  | ok d =>
    rw [hopen] at hleaves
    obtain ⟨outcome, houtcome, hpackets⟩ := List.any_eq_true.mp hleaves
    obtain ⟨packet, hpacket, hlt⟩ := List.any_eq_true.mp hpackets
    exact ⟨d, rfl, outcome, houtcome, packet, hpacket, of_decide_eq_true hlt⟩

end Demuxer

end KalayRecord
