import KalayRecord.Proofs.FootageIndex
import KalayRecord.Proofs.RecordReading

namespace KalayRecord

open Reading MeasuredReader

namespace RecordingImage.WellFormed

variable {x : RecordingImage}

theorem drop_media (hx : x.WellFormed) {type media : Bytes} (htype : type.length = 4)
    (hmedia : x.mediaData = type ++ media) :
    ∃ rest, x.encode.drop x.view.firstFrameOffset = media ++ rest := by
  have hdrop := hx.drop_mediaDataOffset []
  rw [List.append_nil, List.append_nil, encodeSections, hmedia] at hdrop
  have htypes := drop_of_append hdrop
  rw [toLittleEndian_length, List.append_assoc] at htypes
  have hfirst := drop_of_append htypes
  rw [htype] at hfirst
  exact ⟨_, hfirst⟩

theorem openSource_eq (hx : x.WellFormed) {o : OpenOptions} (hp : x.Passes o) :
    Demuxer.openSource o (MemoryStream.ofBytes x.encode) =
      .ok (.ofBytes x.encode x.view o x.view.firstFrameOffset 0) := by
  apply Demuxer.openSource_ofBytes
  apply Recording.read_eq_ok.mpr
  exact ⟨x, [], hx, hp, (List.append_nil _).symm, rfl, rfl⟩

end RecordingImage.WellFormed

namespace Footage

theorem ahead_encodeRecords (f : Footage) {b rest : Bytes} {shots : List Shot} {p regionEnd : Nat}
    {next : MediaKind → Nat}
    (hb : b.drop p = f.encodeRecords (Shot.recordsFrom p next shots) ++ (f.tail ++ rest))
    (hend : p + (f.encodeRecords (Shot.recordsFrom p next shots)).length + f.tail.length =
      regionEnd)
    (hgap : ∀ s ∈ shots, Unmarked s.gap) (hlast : ∀ s ∈ shots, s.gap.getLast? ≠ some 0xFF)
    (htail : Unmarked f.tail) :
    Ahead f.id b regionEnd p (Shot.recordsFrom p next shots) := by
  induction shots generalizing p next with
  | nil =>
    change b.drop p = f.tail ++ rest at hb
    exact .tail hb htail hend
  | cons s shots ih =>
    have hmem : s ∈ s :: shots := List.mem_cons_self
    rw [Shot.recordsFrom, encodeRecords_cons] at hb hend
    rw [List.append_assoc] at hb
    have hrest := drop_of_append hb
    rw [List.length_append, FrameRecord.length_encode, ← Nat.add_assoc] at hrest
    rw [List.length_append, List.length_append, FrameRecord.length_encode, ← Nat.add_assoc,
      ← Nat.add_assoc] at hend
    apply Ahead.record hb (hgap s hmem) (hlast s hmem) rfl
    exact ih hrest hend (fun s h => hgap s (List.mem_cons_of_mem _ h))
      (fun s h => hlast s (List.mem_cons_of_mem _ h))

namespace Lawful

variable {f : Footage}

theorem toNat_mediaDataSize (hf : f.Lawful) :
    f.image.view.mediaDataSize.toNat = Recording.mediaDataHeaderSize + f.media.length := by
  show (UInt32.ofNat (Recording.mediaDataHeaderSize + f.media.length)).toNat = _
  rw [UInt32.toNat_ofNat', Nat.mod_eq_of_lt hf.media_fits]

theorem mediaDataEnd_eq (hf : f.Lawful) :
    f.image.view.mediaDataEnd = f.start + f.media.length := by
  rw [Recording.mediaDataEnd, hf.toNat_mediaDataSize, ← Nat.add_assoc]
  rfl

theorem ahead (hf : f.Lawful) :
    Ahead f.id f.image.encode f.image.view.mediaDataEnd f.start f.records := by
  obtain ⟨rest, hrest⟩ := hf.wellFormed.drop_media hf.mediaType_length rfl
  rw [media, List.append_assoc] at hrest
  apply f.ahead_encodeRecords hrest ?_ hf.gap_unmarked hf.gap_last hf.tail_unmarked
  rw [hf.mediaDataEnd_eq, media, List.length_append, Nat.add_assoc]
  rfl

theorem trackById?_eq (hf : f.Lawful) (kind : MediaKind) :
    f.image.view.trackById? (f.id kind) = some (.ofRecord kind (f.track kind)) := by
  cases kind with
  | video =>
    rw [Recording.trackById?, if_pos]
    · rfl
    · rfl
  | audio =>
    have hne : f.id .audio ≠ f.image.view.video.id := hf.id_ne.symm
    rw [Recording.trackById?, if_neg hne, if_pos]
    · rfl
    · rfl

/-- The index of the recording leads to each record. -/
theorem indexed (hf : f.Lawful) {r : FrameRecord} (h : r ∈ f.records) :
    ∃ isKeyframe, r.Indexed f.image.view (f.id r.kind) (.ofRecord r.kind (f.track r.kind))
      isKeyframe := by
  obtain ⟨isKeyframe, hframe, hmark⟩ := hf.frame?_eq h
  refine ⟨isKeyframe, hf.trackById?_eq r.kind, rfl, ?_, hmark, hf.toNat_number h, hf.toNat_size h⟩
  rw [FrameIndex.get?, hf.toNat_number h]
  show (f.track r.kind).frameTables.build.frames[r.number]? = _
  rw [FrameTables.build_getElem?, hframe]

end Lawful

/-- A demuxer over the recording, with its cursor at `p` and after `n` packets. -/
def openedAt (f : Footage) (p n : Nat) : Demuxer MemoryStream :=
  .ofBytes f.image.encode f.image.view {} p n

theorem Lawful.openSource_eq {f : Footage} (hf : f.Lawful) :
    Demuxer.openSource {} (MemoryStream.ofBytes f.image.encode) = .ok (f.openedAt f.start 0) :=
  hf.wellFormed.openSource_eq hf.passes

theorem mediaDataEnd_sub_le (f : Footage) {p : Nat} (hp : f.image.view.mediaDataOffset ≤ p) :
    f.image.view.mediaDataEnd - p ≤
      OpenOptions.scanLimit {} f.image.view.mediaDataSize.toNat := by
  show f.image.view.mediaDataEnd - p ≤ f.image.view.mediaDataSize.toNat
  rw [Recording.mediaDataEnd]
  omega

/-- From a cursor with records ahead, a run hands out their packets. -/
theorem Lawful.drain_ahead {f : Footage} (hf : f.Lawful) {p n : Nat} {records : List FrameRecord}
    (hp : f.image.view.mediaDataOffset ≤ p)
    (h : Ahead f.id f.image.encode f.image.view.mediaDataEnd p records)
    (hmem : ∀ r ∈ records, r ∈ f.records) :
    PacketRun.drain { demuxer := f.openedAt p n } =
      (records.map fun r => .ok (r.packet (f.settings .video).firstTimestamp),
        { demuxer := f.openedAt f.image.view.mediaDataEnd (n + records.length)
          finished := true }) := by
  apply h.drain_eq ?_ (f.mediaDataEnd_sub_le hp)
  intro r hr
  obtain ⟨isKeyframe, hindexed⟩ := hf.indexed (hmem r hr)
  exact ⟨_, isKeyframe, hindexed⟩

end Footage

end KalayRecord
