import KalayRecord.Proofs.MarkerWindow
import KalayRecord.Proofs.PacketSpans

namespace KalayRecord

open Reading MeasuredReader

/-- A marker stands at place `m` of the window, and at none before it. -/
structure FirstMarkerIn (b : Bytes) (start n m : Nat) : Prop where
  markerIn : MarkerIn b start n m
  least : ∀ j, MarkerIn b start n j → m ≤ j

theorem FirstMarkerIn.firstMarkerAt {b : Bytes} {start n m : Nat} (h : FirstMarkerIn b start n m) :
    ∃ i, m = start + i ∧ FirstMarkerAt (b.drop start) i ∧ i + marker.length ≤ n := by
  obtain ⟨i, rfl, hi⟩ := markerIn_iff.mp h.markerIn
  have hfirst : FirstMarkerAt ((b.drop start).take n) i := by
    refine ⟨hi, fun j hj hmarker => ?_⟩
    have hle := h.least (start + j) (markerIn_iff.mpr ⟨j, rfl, hmarker⟩)
    omega
  exact ⟨i, rfl, hfirst.of_take⟩

namespace Recording

/-- How many bytes from `p` on a search for a marker may look at. -/
def window (x : Recording) (o : OpenOptions) (p : Nat) : Nat :=
  min (x.mediaDataEnd - p) (o.scanLimit x.mediaDataSize.toNat)

inductive Names (x : Recording) (id : UInt16) : MediaKind → Track → Prop
  | video (h : id = x.video.id) : Names x id .video x.video
  | audio (hvideo : id ≠ x.video.id) (h : id = x.audio.id) : Names x id .audio x.audio

variable {x : Recording} {id : UInt16}

theorem Names.trackById?_eq {kind : MediaKind} {track : Track} (h : x.Names id kind track) :
    x.trackById? id = some track := by
  cases h with
  | video h => rw [trackById?, if_pos h]
  | audio hvideo h => rw [trackById?, if_neg hvideo, if_pos h]

theorem trackById?_eq_none (hvideo : id ≠ x.video.id) (haudio : id ≠ x.audio.id) :
    x.trackById? id = none := by
  rw [trackById?, if_neg hvideo, if_neg haudio]

end Recording

namespace Reading

theorem uint16_of_short {b : Bytes} {p : Nat} (field : String) (h : b.length - p < 2) :
    uint16 field (ofBytes b p) =
      .error (.truncatedInput field 2 (b.length - p)) (ofBytes b p) := by
  apply bind_of_error
  rw [exactly_ofBytes, if_pos h]

theorem uint32_of_short {b : Bytes} {p : Nat} (field : String) (h : b.length - p < 4) :
    uint32 field (ofBytes b p) =
      .error (.truncatedInput field 4 (b.length - p)) (ofBytes b p) := by
  apply bind_of_error
  rw [exactly_ofBytes, if_pos h]

theorem uint16_of_le {b : Bytes} {p : Nat} (field : String) (h : 2 ≤ b.length - p) :
    ∃ x, uint16 field (ofBytes b p) = .ok x (ofBytes b (p + 2)) := by
  refine ⟨_, bind_of_ok (a := (b.drop p).take 2) ?_⟩
  rw [exactly_ofBytes, if_neg (Nat.not_lt.mpr h)]

end Reading

namespace Packet

/-- The bytes from the first marker of the window on are a frame header. -/
structure HeaderAhead (x : Recording) (o : OpenOptions) (b : Bytes) (p m : Nat) (id : UInt16)
    (number : UInt32) : Prop where
  first : FirstMarkerIn b p (x.window o p) m
  header : FrameRecord.header id number.toNat <+: b.drop m

/-- What a read from `p` on comes to, and where it leaves the cursor. -/
inductive ReadOutcome (x : Recording) (o : OpenOptions) (b : Bytes) (p : Nat) :
    Except Error Packet → Nat → Prop
  /-- The cursor is at the end of the media data or of the bytes already. -/
  | ended (h : x.mediaDataEnd ≤ p ∨ b.length ≤ p) : ReadOutcome x o b p (.error .endOfStream) p
  /-- The search comes to the end of the media data or of the bytes. -/
  | unmarked (hregion : p < x.mediaDataEnd) (hb : p < b.length)
      (hnone : ∀ m, ¬MarkerIn b p (x.window o p) m)
      (h : x.window o p = x.mediaDataEnd - p ∨ b.length < p + x.window o p) :
      ReadOutcome x o b p (.error .endOfStream) (min (p + x.window o p) b.length)
  /-- The search comes to the end of its window first. -/
  | lost (hregion : p < x.mediaDataEnd) (hb : p < b.length)
      (hnone : ∀ m, ¬MarkerIn b p (x.window o p) m)
      (hwindow : x.window o p < x.mediaDataEnd - p) (h : p + x.window o p ≤ b.length) :
      ReadOutcome x o b p (.error (.syncNotFound p (x.window o p))) (p + x.window o p)
  | shortId {m : Nat} (hfirst : FirstMarkerIn b p (x.window o p) m)
      (h : b.length - (m + 2) < 2) :
      ReadOutcome x o b p
        (.error (.truncatedInput "frame track id" 2 (b.length - (m + 2)))) (m + 2)
  | shortNumber {m : Nat} (hfirst : FirstMarkerIn b p (x.window o p) m)
      (hid : 2 ≤ b.length - (m + 2)) (h : b.length - (m + 4) < 4) :
      ReadOutcome x o b p
        (.error (.truncatedInput "frame index" 4 (b.length - (m + 4)))) (m + 4)
  | unknownTrack {m : Nat} {id : UInt16} {number : UInt32}
      (hahead : HeaderAhead x o b p m id number)
      (hvideo : id ≠ x.video.id) (haudio : id ≠ x.audio.id) :
      ReadOutcome x o b p (.error (.unknownTrack id m)) (m + 8)
  | indexOutOfRange {m : Nat} {id : UInt16} {number : UInt32} {kind : MediaKind} {track : Track}
      (hahead : HeaderAhead x o b p m id number) (htrack : x.Names id kind track)
      (h : track.index.frames.size ≤ number.toNat) :
      ReadOutcome x o b p (.error (.indexOutOfRange number track.index.frames.size)) (m + 8)
  | truncatedFrame {m : Nat} {id : UInt16} {number : UInt32} {kind : MediaKind} {track : Track}
      {f : Frame} (hahead : HeaderAhead x o b p m id number) (htrack : x.Names id kind track)
      (hframe : track.index.frames[number.toNat]? = some f)
      (h : b.length - (m + 8) < f.size.toNat - 8) :
      ReadOutcome x o b p
        (.error (.truncatedFrame number (f.size.toNat - 8) (b.length - (m + 8)))) (m + 8)
  | packet {m : Nat} {id : UInt16} {number : UInt32} {kind : MediaKind} {track : Track}
      {f : Frame} (hahead : HeaderAhead x o b p m id number) (htrack : x.Names id kind track)
      (hframe : track.index.frames[number.toNat]? = some f)
      (h : f.size.toNat - 8 ≤ b.length - (m + 8)) :
      ReadOutcome x o b p
        (.ok { kind
               pts := f.timestamp.toNat - x.video.firstTimestamp.toNat
               isKeyframe := kind = .video ∧ f.isKeyframe
               number
               recordOffset := f.offset
               recordSize := f.size
               position := m + 8
               data := (b.drop (m + 8)).take (f.size.toNat - 8) })
        (m + 8 + (f.size.toNat - 8))

variable {x : Recording} {o : OpenOptions} {b : Bytes} {p m : Nat} {id : UInt16} {number : UInt32}

theorem lt_of_firstMarkerIn (h : FirstMarkerIn b p (x.window o p) m) :
    p < x.mediaDataEnd ∧ p < b.length := by
  have hstart := h.markerIn.start_le
  have hend := h.markerIn.le_end
  have hb := h.markerIn.marker.lt_length
  rw [Recording.window, marker, List.length_cons, List.length_singleton] at hend
  omega

theorem readNext_of_firstMarkerIn (h : FirstMarkerIn b p (x.window o p) m) :
    readNext x o (ofBytes b p) = readFrame x m (ofBytes b (m + 2)) := by
  obtain ⟨hregion, hb⟩ := lt_of_firstMarkerIn h
  obtain ⟨i, rfl, hfirst, hi⟩ := h.firstMarkerAt
  rw [Recording.window, marker, List.length_cons, List.length_singleton] at hi
  rw [readNext_eq hregion hb]
  apply bind_of_ok
  exact MarkerScan.findMarker_of_first (by omega) hfirst (by omega) (by omega)

theorem readNext_of_unmarked (hregion : p < x.mediaDataEnd) (hb : p < b.length)
    (hnone : ∀ m, ¬MarkerIn b p (x.window o p) m) :
    readNext x o (ofBytes b p) =
      if p + x.window o p ≤ b.length then
        .error (if x.mediaDataEnd - p ≤ x.window o p then .endOfStream
            else .syncNotFound p (x.window o p))
          (ofBytes b (p + x.window o p))
      else .error .endOfStream (ofBytes b b.length) := by
  have hfind : MarkerScan.findMarker x.mediaDataEnd (o.scanLimit x.mediaDataSize.toNat)
      (ofBytes b p) = _ :=
    MarkerScan.findMarker_of_unmarked (Nat.le_of_lt hb) (unmarked_iff.mpr hnone)
  change _ = if p + x.window o p ≤ b.length then _ else _ at hfind
  rw [readNext_eq hregion hb]
  by_cases hend : p + x.window o p ≤ b.length
  · rw [if_pos hend] at hfind ⊢
    exact bind_of_error hfind
  · rw [if_neg hend] at hfind ⊢
    exact bind_of_error hfind

theorem readFrame_of_shortId (x : Recording) (h : b.length - (m + 2) < 2) :
    readFrame x m (ofBytes b (m + 2)) =
      .error (.truncatedInput "frame track id" 2 (b.length - (m + 2))) (ofBytes b (m + 2)) :=
  bind_of_error (uint16_of_short _ h)

theorem readFrame_of_shortNumber (x : Recording) (hid : 2 ≤ b.length - (m + 2))
    (h : b.length - (m + 4) < 4) :
    readFrame x m (ofBytes b (m + 2)) =
      .error (.truncatedInput "frame index" 4 (b.length - (m + 4))) (ofBytes b (m + 4)) := by
  obtain ⟨id, hread⟩ := uint16_of_le "frame track id" hid
  simp only [readFrame]
  rw [bind_of_ok hread]
  exact bind_of_error (uint32_of_short _ h)

theorem readFrame_of_frame {track : Track} {f : Frame} (hid : x.trackById? id = some track)
    (hframe : track.index.frames[number.toNat]? = some f)
    (hheader : FrameRecord.header id number.toNat <+: b.drop m) :
    readFrame x m (ofBytes b (m + 2)) =
      if b.length - (m + 8) < f.size.toNat - 8 then
        .error (.truncatedFrame number (f.size.toNat - 8) (b.length - (m + 8))) (ofBytes b (m + 8))
      else
        .ok (ofFrame x track number f (m + 8) ((b.drop (m + 8)).take (f.size.toNat - 8)))
          (ofBytes b (m + 8 + (f.size.toNat - 8))) := by
  obtain ⟨after, hb⟩ := hheader
  obtain ⟨hreadId, hreadNumber⟩ := FrameRecord.read_header hb.symm
  have hget : track.index.get? number = some f := hframe
  simp only [readFrame, throw_bind]
  rw [show m + 2 = m + marker.length from rfl, bind_of_ok hreadId, bind_of_ok hreadNumber]
  simp only [hid, hget]
  rw [bind_of_ok (position_apply _), bind_of_ok (remaining_apply _)]
  by_cases h : b.length - (m + 8) < f.size.toNat - 8
  · rw [if_pos h]
    exact congrFun (if_pos h) _
  · rw [if_neg h]
    refine (congrFun (if_neg h) _).trans (bind_of_ok ?_)
    exact (exactly_ofBytes b (m + 8) (f.size.toNat - 8) "frame payload").trans (if_neg h)

theorem exists_header (hmarker : MarkerAt b m) (h : m + 8 ≤ b.length) :
    ∃ id number, FrameRecord.header id (UInt32.toNat number) <+: b.drop m := by
  obtain ⟨rest, hrest⟩ := hmarker
  have hlength := congrArg List.length hrest
  rw [List.length_append, List.length_drop, marker, List.length_cons,
    List.length_singleton] at hlength
  have hid : (rest.take 2).length = 2 := by
    rw [List.length_take]
    omega
  have hnumber : ((rest.drop 2).take 4).length = 4 := by
    rw [List.length_take, List.length_drop]
    omega
  refine ⟨.ofNat (ofLittleEndian (rest.take 2)),
    .ofNat (ofLittleEndian ((rest.drop 2).take 4)), (rest.drop 2).drop 4, ?_⟩
  rw [FrameRecord.header, uint16_encode_decode hid, uint32_encode_decode hnumber,
    List.append_assoc, List.append_assoc, List.take_append_drop, List.take_append_drop]
  exact hrest

theorem exists_readOutcome (x : Recording) (o : OpenOptions) (b : Bytes) (p : Nat) :
    ∃ result q, ReadOutcome x o b p result q := by
  by_cases hend : x.mediaDataEnd ≤ p ∨ b.length ≤ p
  · exact ⟨_, _, .ended hend⟩
  have hregion : p < x.mediaDataEnd := by omega
  have hb : p < b.length := by omega
  cases hi : MarkerScan.markerEnd? 0 ((b.drop p).take (x.window o p)) with
  | none =>
    have hnone := unmarked_iff.mp (MarkerScan.markerEnd?_zero_eq_none.mp hi)
    by_cases h : x.window o p = x.mediaDataEnd - p ∨ b.length < p + x.window o p
    · exact ⟨_, _, .unmarked hregion hb hnone h⟩
    · have hle : x.window o p ≤ x.mediaDataEnd - p := Nat.min_le_left _ _
      exact ⟨_, _, .lost hregion hb hnone (by omega) (by omega)⟩
  | some i =>
    obtain ⟨m, -, hm⟩ := MarkerScan.markerEnd?_zero_eq_some.mp hi
    obtain ⟨hin, hleast⟩ := hm.markerIn
    have hfirst : FirstMarkerIn b p (x.window o p) (p + m) := ⟨hin, hleast⟩
    by_cases hid : b.length - (p + m + 2) < 2
    · exact ⟨_, _, .shortId hfirst hid⟩
    by_cases hnumber : b.length - (p + m + 4) < 4
    · exact ⟨_, _, .shortNumber hfirst (by omega) hnumber⟩
    obtain ⟨id, number, hheader⟩ := exists_header hin.marker (by omega)
    have hahead : HeaderAhead x o b p (p + m) id number := ⟨hfirst, hheader⟩
    by_cases hnamed : ∃ kind track, x.Names id kind track
    · obtain ⟨kind, track, htrack⟩ := hnamed
      cases hframe : track.index.frames[number.toNat]? with
      | none =>
        exact ⟨_, _, .indexOutOfRange hahead htrack (Array.getElem?_eq_none_iff.mp hframe)⟩
      | some f =>
        by_cases h : b.length - (p + m + 8) < f.size.toNat - 8
        · exact ⟨_, _, .truncatedFrame hahead htrack hframe h⟩
        · exact ⟨_, _, .packet hahead htrack hframe (Nat.not_lt.mp h)⟩
    · have hvideo : id ≠ x.video.id := fun h => hnamed ⟨_, _, .video h⟩
      have haudio : id ≠ x.audio.id := fun h => hnamed ⟨_, _, .audio hvideo h⟩
      exact ⟨_, _, .unknownTrack hahead hvideo haudio⟩

end Packet

namespace Demuxer

variable {x : Recording} {o : OpenOptions} {b : Bytes} {p q n : Nat}
  {result : Except Error Packet}

theorem readPacket_of_readOutcome (hkind : ∀ {id kind track}, x.Names id kind track →
    track.kind = kind) (h : Packet.ReadOutcome x o b p result q) :
    (ofBytes b x o p n).readPacket =
      (result, ofBytes b x o q (if result.isOk then n + 1 else n)) := by
  cases h with
  | ended h => exact readPacket_ofBytes_of_error (Packet.readNext_of_end h)
  | unmarked hregion hb hnone h =>
    apply readPacket_ofBytes_of_error
    rw [Packet.readNext_of_unmarked hregion hb hnone]
    by_cases hend : p + x.window o p ≤ b.length
    · rw [if_pos hend, if_pos (by omega), Nat.min_eq_left hend]
    · rw [if_neg hend, Nat.min_eq_right (by omega)]
  | lost hregion hb hnone hwindow h =>
    apply readPacket_ofBytes_of_error
    rw [Packet.readNext_of_unmarked hregion hb hnone, if_pos h, if_neg (by omega)]
  | shortId hfirst h =>
    apply readPacket_ofBytes_of_error
    rw [Packet.readNext_of_firstMarkerIn hfirst, Packet.readFrame_of_shortId x h]
  | shortNumber hfirst hid h =>
    apply readPacket_ofBytes_of_error
    rw [Packet.readNext_of_firstMarkerIn hfirst, Packet.readFrame_of_shortNumber x hid h]
  | unknownTrack hahead hvideo haudio =>
    obtain ⟨after, hb⟩ := hahead.header
    apply readPacket_ofBytes_of_error
    rw [Packet.readNext_of_firstMarkerIn hahead.first]
    exact FrameRecord.readFrame_of_unknown (x.trackById?_eq_none hvideo haudio) hb.symm
  | indexOutOfRange hahead htrack h =>
    obtain ⟨after, hb⟩ := hahead.header
    apply readPacket_ofBytes_of_error
    rw [Packet.readNext_of_firstMarkerIn hahead.first]
    exact FrameRecord.readFrame_of_outOfRange htrack.trackById?_eq h hb.symm
  | truncatedFrame hahead htrack hframe h =>
    apply readPacket_ofBytes_of_error
    rw [Packet.readNext_of_firstMarkerIn hahead.first,
      Packet.readFrame_of_frame htrack.trackById?_eq hframe hahead.header, if_pos h]
  | packet hahead htrack hframe h =>
    apply readPacket_ofBytes_of_ok
    rw [Packet.readNext_of_firstMarkerIn hahead.first,
      Packet.readFrame_of_frame htrack.trackById?_eq hframe hahead.header,
      if_neg (Nat.not_lt.mpr h), Packet.ofFrame, hkind htrack]

theorem exists_image_of_open {d : Demuxer MemoryStream}
    (h : openSource o (MemoryStream.ofBytes b) = .ok d) :
    ∃ image : RecordingImage, image.view = d.recording := by
  obtain ⟨x, reader, hread, rfl⟩ := openSource_eq_ok.mp h
  rw [MeasuredReader.ofSource_ofBytes] at hread
  obtain ⟨image, -, -, -, -, hview, -⟩ := Recording.read_eq_ok.mp hread
  exact ⟨image, hview⟩

/-- Wherever the cursor of an open demuxer is put, the bytes and the index decide what reading a
packet comes to and where it leaves the cursor, and only a packet is counted. A packet is that of a
keyframe if it is of the video and the keyframe table has its offset. -/
theorem bytes_decide_reads (o : OpenOptions) (b : Bytes) (d : Demuxer MemoryStream)
    (hopen : openSource o (MemoryStream.ofBytes b) = .ok d) :
    (∀ p n result d', (ofBytes b d.recording o p n).readPacket = (result, d') ↔
      ∃ q, Packet.ReadOutcome d.recording o b p result q ∧
        d' = ofBytes b d.recording o q (if result.isOk then n + 1 else n)) ∧
    ∀ p packet q, Packet.ReadOutcome d.recording o b p (.ok packet) q →
      packet.dts = packet.pts ∧
      (packet.isKeyframe = true ↔
        packet.kind = .video ∧ packet.recordOffset ∈ d.recording.video.index.keyframeOffsets) := by
  obtain ⟨image, hview⟩ := exists_image_of_open hopen
  rw [← hview]
  have hkind : ∀ {id kind track}, image.view.Names id kind track → track.kind = kind := by
    rintro id kind track (- | -)
    · rfl
    · rfl
  constructor
  · intro p n result d'
    obtain ⟨result', q, houtcome⟩ := Packet.exists_readOutcome image.view o b p
    have hread := readPacket_of_readOutcome (n := n) hkind houtcome
    constructor
    · intro h
      rw [hread, Prod.mk.injEq] at h
      obtain ⟨rfl, rfl⟩ := h
      exact ⟨q, houtcome, rfl⟩
    · rintro ⟨q', h, rfl⟩
      exact readPacket_of_readOutcome hkind h
  · intro p packet q h
    refine ⟨rfl, ?_⟩
    cases h with
    | packet hahead htrack hframe h =>
      simp only [decide_eq_true_eq]
      cases htrack with
      | video hid =>
        have hmarked := (FrameTables.of_build_getElem? hframe).2
        exact and_congr_right fun _ => hmarked
      | audio hvideo hid => simp

/-- A read that begins inside the second record hands out the third. -/
theorem lyingSample_decides :
    ∃ d packet, openSource {} (MemoryStream.ofBytes lyingSample.encode) = .ok d ∧
      packet.recordOffset = 106 ∧
      Packet.ReadOutcome d.recording {} lyingSample.encode 100 (.ok packet) 114 ∧
      (packet.isKeyframe = true ↔
        packet.kind = .video ∧ packet.recordOffset ∈ d.recording.video.index.keyframeOffsets) := by
  have hread : (ofBytes lyingSample.encode lyingSample.view {} 100 2).readPacket.1.toOption.any
        (·.recordOffset = 106) = true ∧
      (ofBytes lyingSample.encode lyingSample.view {} 100 2).readPacket.2.position = 114 := by
    decide +kernel
  obtain ⟨hdecide, hpacket⟩ := bytes_decide_reads {} lyingSample.encode _ lyingSample_opens
  cases hresult : (ofBytes lyingSample.encode lyingSample.view {} 100 2).readPacket with
  | mk result d' =>
    rw [hresult] at hread
    obtain ⟨hsome, hposition⟩ := hread
    obtain ⟨q, houtcome, rfl⟩ := (hdecide 100 2 result d').mp hresult
    obtain rfl : q = 114 := hposition
    cases result with
    | error e => cases hsome
    | ok packet =>
      exact ⟨_, packet, lyingSample_opens, of_decide_eq_true hsome, houtcome,
        (hpacket 100 packet 114 houtcome).2⟩

end Demuxer

end KalayRecord
