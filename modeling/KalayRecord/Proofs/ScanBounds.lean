import KalayRecord.Proofs.PacketOutcome

namespace KalayRecord

open MeasuredReader

namespace OpenOptions

variable {o : OpenOptions}

theorem warnings_eq_nil_iff :
    o.warnings = [] ↔ o.maxScan ≠ some 0 ∧ (o.checkIndex = true → o.checkTableSizes = true) := by
  simp [warnings]

theorem maxScan_ne_zero (hquiet : o.warnings = []) : o.maxScan ≠ some 0 :=
  (warnings_eq_nil_iff.mp hquiet).1

theorem scanLimit_lt_two_iff (hquiet : o.warnings = []) (mediaDataSize : Nat) :
    o.scanLimit mediaDataSize < 2 ↔
      o.maxScan = some 1 ∨ o.maxScan = none ∧ mediaDataSize < 2 := by
  have hzero := maxScan_ne_zero hquiet
  cases hscan : o.maxScan with
  | none => simp [scanLimit, hscan]
  | some n =>
    rw [hscan, Ne, Option.some.injEq, ← UInt64.toNat_inj] at hzero
    rw [scanLimit, hscan, Option.elim_some, Option.some.injEq, ← UInt64.toNat_inj]
    simp only [UInt64.toNat_zero, UInt64.toNat_one, reduceCtorEq, false_and, or_false] at hzero ⊢
    omega

end OpenOptions

/-- A whole record stands at `p`: before the end of the media data the header of a frame of the
index, and behind it as many bytes as the index says. -/
structure Recording.RecordAt (x : Recording) (b : Bytes) (p : Nat) (kind : MediaKind)
    (number : UInt32) (f : Frame) : Prop where
  indexed : ∃ id track, x.Names id kind track ∧ track.index.frames[number.toNat]? = some f ∧
    FrameRecord.header id number.toNat <+: b.drop p
  header_le : p + Packet.headerSize ≤ x.mediaDataEnd
  payload_le : p + Packet.headerSize + Packet.payloadSize f ≤ b.length

def Packet.ofRecord (x : Recording) (b : Bytes) (p : Nat) (kind : MediaKind) (number : UInt32)
    (f : Frame) : Packet where
  kind
  pts := f.timestamp.toNat - x.video.firstTimestamp.toNat
  isKeyframe := kind = .video ∧ f.isKeyframe
  number
  recordOffset := f.offset
  recordSize := f.size
  position := p + headerSize
  data := (b.drop (p + headerSize)).take (payloadSize f)

namespace Recording.RecordAt

variable {x : Recording} {o : OpenOptions} {b : Bytes} {p : Nat} {kind : MediaKind}
  {number : UInt32} {f : Frame}

theorem markerAt (h : x.RecordAt b p kind number f) : MarkerAt b p := by
  obtain ⟨id, track, -, -, hheader⟩ := h.indexed
  rw [FrameRecord.header, List.append_assoc] at hheader
  exact (List.prefix_append _ _).trans hheader

/-- A window of two bytes or more begins with the marker of the record. -/
theorem firstMarkerIn (h : x.RecordAt b p kind number f)
    (hlimit : marker.length ≤ o.scanLimit x.mediaDataSize.toNat) :
    FirstMarkerIn b p (x.window o p) p := by
  have hmarker : marker.length = 2 := rfl
  have hregion := h.header_le
  rw [Packet.headerSize] at hregion
  constructor
  · refine ⟨Nat.le_refl p, ?_, h.markerAt⟩
    rw [window]
    omega
  · exact fun j hj => hj.start_le

theorem readOutcome (h : x.RecordAt b p kind number f)
    (hlimit : marker.length ≤ o.scanLimit x.mediaDataSize.toNat) :
    Packet.ReadOutcome x o b p (.ok (.ofRecord x b p kind number f))
      (p + Packet.headerSize + Packet.payloadSize f) := by
  obtain ⟨id, track, htrack, hframe, hheader⟩ := h.indexed
  have hpayload := h.payload_le
  rw [Packet.payloadSize, Packet.headerSize] at hpayload
  exact .packet ⟨h.firstMarkerIn hlimit, hheader⟩ htrack hframe (by omega)

theorem readOutcome_of_lt (h : x.RecordAt b p kind number f)
    (hlimit : o.scanLimit x.mediaDataSize.toNat < marker.length) :
    Packet.ReadOutcome x o b p (.error (.syncNotFound p (o.scanLimit x.mediaDataSize.toNat)))
      (p + o.scanLimit x.mediaDataSize.toNat) := by
  have hmarker : marker.length = 2 := rfl
  have hregion := h.header_le
  have hpayload := h.payload_le
  rw [Packet.headerSize] at hregion hpayload
  have hwindow : x.window o p = o.scanLimit x.mediaDataSize.toNat := by
    rw [window]
    omega
  have hnone : ∀ m, ¬MarkerIn b p (x.window o p) m := by
    intro m hm
    have hstart := hm.start_le
    have hend := hm.le_end
    omega
  rw [← hwindow]
  exact .lost (by omega) (by omega) hnone (by omega) (by omega)

end Recording.RecordAt

namespace Demuxer

/-- With options that draw no warning, an open demuxer whose cursor stands on a whole record reads
it if the search may look at two bytes, and else stops at the bound without a packet. Where the
cursor is in the media data, that is the case for a bound of one byte and for no other. -/
theorem unwarned_reads (o : OpenOptions) (hquiet : o.warnings = []) (b : Bytes)
    (d : Demuxer MemoryStream) (hopen : openSource o (MemoryStream.ofBytes b) = .ok d)
    (ops : List Operation) (s : Demuxer MemoryStream) (hs : (d.performAll ops).2 = s)
    (kind : MediaKind) (number : UInt32) (f : Frame)
    (hrecord : d.recording.RecordAt b s.position kind number f) :
    (2 ≤ o.scanLimit d.recording.mediaDataSize.toNat →
      s.readPacket = (.ok (.ofRecord d.recording b s.position kind number f),
        ofBytes b d.recording o (s.position + Packet.headerSize + Packet.payloadSize f)
          (s.packetsRead + 1))) ∧
    (o.scanLimit d.recording.mediaDataSize.toNat < 2 →
      s.readPacket =
        (.error (.syncNotFound s.position (o.scanLimit d.recording.mediaDataSize.toNat)),
          ofBytes b d.recording o (s.position + o.scanLimit d.recording.mediaDataSize.toNat)
            s.packetsRead)) ∧
    (d.recording.mediaDataOffset ≤ s.position →
      (o.scanLimit d.recording.mediaDataSize.toNat < 2 ↔ o.maxScan = some 1)) := by
  obtain ⟨image, hview⟩ := exists_image_of_open hopen
  have hkind : ∀ {id kind track}, d.recording.Names id kind track → track.kind = kind := by
    rw [← hview]
    rintro id kind track (- | -)
    · rfl
    · rfl
  obtain ⟨x, rfl⟩ := eq_ofBytes_of_open hopen
  obtain ⟨p, n, hstate⟩ := performAll_ofBytes (b := b) (x := x) (o := o) x.firstFrameOffset 0 ops
  rw [hstate] at hs
  subst hs
  refine ⟨fun hlimit => ?_, fun hlimit => ?_, fun hmedia => ?_⟩
  · exact readPacket_of_readOutcome hkind (hrecord.readOutcome hlimit)
  · exact readPacket_of_readOutcome hkind (hrecord.readOutcome_of_lt hlimit)
  · -- a record in the media data is more than the media data of one byte could hold
    have hregion : p + Packet.headerSize ≤ x.mediaDataOffset + x.mediaDataSize.toNat :=
      hrecord.header_le
    have hmedia : x.mediaDataOffset ≤ p := hmedia
    rw [Packet.headerSize] at hregion
    rw [OpenOptions.scanLimit_lt_two_iff hquiet]
    constructor
    · rintro (hone | ⟨-, hsmall⟩)
      · exact hone
      · have hsmall : x.mediaDataSize.toNat < 2 := hsmall
        omega
    · exact Or.inl

def sampleFrame : Frame :=
  { number := 0, timestamp := 1000, offset := 84, size := 11, isKeyframe := true }

theorem sampleFrame_recordAt :
    Footage.sample.image.view.RecordAt Footage.sample.image.encode 84 .video 0 sampleFrame where
  indexed := ⟨1, _, .video rfl, by decide +kernel, by decide +kernel⟩
  header_le := by decide
  payload_le := by decide +kernel

theorem sample_opens_bounded (maxScan : Option UInt64) :
    openSource { maxScan } (MemoryStream.ofBytes Footage.sample.image.encode) =
      .ok (ofBytes Footage.sample.image.encode Footage.sample.image.view { maxScan } 84 0) := by
  apply Footage.sample_lawful.wellFormed.openSource_eq
  exact ⟨nofun, fun _ => by decide, nofun⟩

/-- With a bound of two bytes the first record is read again after a seek back to it. -/
theorem sampleFrame_read :
    ∃ d, openSource { maxScan := some 2 } (MemoryStream.ofBytes Footage.sample.image.encode) =
        .ok d ∧
      d.recording.RecordAt Footage.sample.image.encode
        (d.performAll [.readPacket, .seek 0 0]).2.position .video 0 sampleFrame ∧
      (d.performAll [.readPacket, .seek 0 0]).2.readPacket.1 =
        .ok (.ofRecord d.recording Footage.sample.image.encode
          (d.performAll [.readPacket, .seek 0 0]).2.position .video 0 sampleFrame) := by
  obtain ⟨d, hd⟩ : ∃ d, ofBytes Footage.sample.image.encode Footage.sample.image.view
    { maxScan := some 2 } 84 0 = d := ⟨_, rfl⟩
  have hopen := hd ▸ sample_opens_bounded (some 2)
  have hrecord : d.recording.RecordAt Footage.sample.image.encode
      (d.performAll [.readPacket, .seek 0 0]).2.position .video 0 sampleFrame := by
    have hposition : (d.performAll [.readPacket, .seek 0 0]).2.position = 84 := by
      rw [← hd]
      decide +kernel
    rw [hposition, ← hd]
    exact sampleFrame_recordAt
  obtain ⟨hread, -⟩ := unwarned_reads { maxScan := some 2 } (by decide) _ d hopen
    [.readPacket, .seek 0 0] _ rfl .video 0 sampleFrame hrecord
  exact ⟨d, hopen, hrecord, congrArg Prod.fst (hread (Nat.le_refl 2))⟩

/-- A bound of one byte draws no warning, and the record at the cursor is not read. -/
theorem sampleFrame_missed :
    OpenOptions.warnings { maxScan := some 1 } = [] ∧
      ∃ d, openSource { maxScan := some 1 } (MemoryStream.ofBytes Footage.sample.image.encode) =
          .ok d ∧
        d.recording.RecordAt Footage.sample.image.encode d.position .video 0 sampleFrame ∧
        d.readPacket.1.toOption = none := by
  refine ⟨by decide, _, sample_opens_bounded (some 1), sampleFrame_recordAt, ?_⟩
  decide +kernel

end Demuxer

end KalayRecord
