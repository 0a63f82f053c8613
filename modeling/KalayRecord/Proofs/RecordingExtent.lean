import KalayRecord.Proofs.FootageIndex
import KalayRecord.Proofs.SelfDelimiting
import KalayRecord.Proofs.StreamFaults

namespace KalayRecord

open Reading MeasuredReader

/-- The offset just past the audio record. The media data takes its own size field at least, and the
size and the type of the index section come behind it. -/
def Recording.extent (f : Recording) : Nat :=
  f.mediaDataOffset + max 4 f.mediaDataSize.toNat + 8 + f.video.occupiedSize + f.audio.occupiedSize

namespace RecordingImage

variable {x : RecordingImage}

theorem WellFormed.length_eq (hw : x.WellFormed) :
    x.encode.length = x.header.mediaDataOffset + x.encodeSections.length := by
  have hoffset := hw.mediaDataOffset_eq
  rw [List.length_append] at hoffset
  rw [encode_eq, List.length_append, List.length_append]
  omega

theorem WellFormed.extent_view (hw : x.WellFormed) : x.view.extent = x.encode.length := by
  have hvideo := TrackRecord.occupiedSize_eq fun t h =>
    hw.items_length t (List.mem_append_left x.audio.tables h)
  have haudio := TrackRecord.occupiedSize_eq fun t h =>
    hw.items_length t (List.mem_append_right x.video.tables h)
  have hsections : x.encodeSections.length =
      4 + (x.mediaDataSize.toNat - 4) + 8 + x.video.occupiedSize + x.audio.occupiedSize := by
    simp only [encodeSections, List.length_append, toLittleEndian_length, hw.mediaData_length,
      hvideo, haudio]
    omega
  rw [hw.length_eq, hsections]
  show x.header.mediaDataOffset + max 4 x.mediaDataSize.toNat + 8 + x.video.occupiedSize +
    x.audio.occupiedSize = _
  omega

end RecordingImage

namespace Recording

theorem readSections_selfDelimiting (header : RecordingHeader) (checkSizes : Bool) :
    SelfDelimiting (readSections header checkSizes) :=
  (SelfDelimiting.uint32 _).bind fun _ => (SelfDelimiting.skip _ _).bind fun _ =>
    (SelfDelimiting.uint32 _).bind fun _ => (SelfDelimiting.skip _ _).bind fun _ =>
    (TrackRecord.read_selfDelimiting _ _).bind fun _ =>
    (TrackRecord.read_selfDelimiting _ _).bind fun _ => .pure _

/-- An image that would pass the checks is refused as truncated wherever it is cut. -/
theorem read_truncates {o : OpenOptions} {x : RecordingImage} (hw : x.WellFormed)
    (hp : x.Passes o) {j : Nat} (hj : j < x.encode.length) (p : Nat) :
    Truncates (read o) (ofBytes (x.encode.take j) p) := by
  have hheader := RecordingHeader.read_selfDelimiting.takes RecordingHeader.read_reads
    ⟨x.uuid, hw.uuid_length, hw.uuid_text, rfl⟩
  obtain ⟨hvideo, haudio⟩ := RecordingImage.fits_of_passes hw hp
  have hsections := (readSections_selfDelimiting x.header o.checkTableSizes).takes
    (readSections_reads _ _) ⟨x, rfl, hw.mediaData_length, hvideo, haudio, rfl, rfl⟩
  have hlength := hw.length_eq
  have hstart : (x.encode.take j).drop 0 =
      (x.header.encode x.uuid).take j ++
        (x.extra ++ x.encodeSections).take (j - (x.header.encode x.uuid).length) := by
    rw [List.drop_zero, x.encode_eq, List.take_append]
  rw [Truncates, read_eq, bind_of_ok (seek_ofBytes _ p 0)]
  by_cases hcut : j < (x.header.encode x.uuid).length
  · have hnone : j - (x.header.encode x.uuid).length = 0 := by omega
    rw [hnone, List.take_zero, List.append_nil] at hstart
    exact (hheader.truncates hstart hcut).bind _
  · have hdrop : (x.encode.take j).drop x.header.mediaDataOffset =
        x.encodeSections.take (j - x.header.mediaDataOffset) := by
      have hall := hw.drop_mediaDataOffset []
      rw [List.append_nil, List.append_nil] at hall
      rw [List.drop_take, hall]
    have hshort : j - x.header.mediaDataOffset < x.encodeSections.length := by
      have hsome := x.encodeSections_length
      omega
    rw [List.take_of_length_le (Nat.not_lt.mp hcut)] at hstart
    rw [bind_of_ok (hheader.yields hstart),
      if_neg (RecordingHeader.not_refused hp.encryption), bind_of_ok (seek_ofBytes _ _ _)]
    exact (hsections.truncates hdrop hshort).bind _

theorem openSource_of_truncates {o : OpenOptions} {b : Bytes}
    (h : Truncates (read o) (ofBytes b 0)) :
    ∃ field need available, available < need ∧
      (openSource o (MemoryStream.ofBytes b)).map Prod.fst =
        .error (.truncatedInput field need available) := by
  obtain ⟨field, need, available, r', hlt, h⟩ := h
  refine ⟨field, need, available, hlt, ?_⟩
  rw [openSource, ofSource_ofBytes, h]
  rfl

/-- A recording that opens lies within its bytes. Whatever shares the bytes of its extent opens as
the same recording, and what ends within them is refused as truncated. -/
theorem extent_decides_opening (o : OpenOptions) (b : Bytes) (f : Recording)
    (h : (openSource o (MemoryStream.ofBytes b)).map Prod.fst = .ok f) :
    f.extent ≤ b.length ∧
      (∀ b' : Bytes, b'.take f.extent = b.take f.extent →
        (openSource o (MemoryStream.ofBytes b')).map Prod.fst = .ok f) ∧
      ∀ j < f.extent, ∃ field need available, available < need ∧
        (openSource o (MemoryStream.ofBytes (b.take j))).map Prod.fst =
          .error (.truncatedInput field need available) := by
  obtain ⟨x, suffix, hw, hp, rfl, rfl⟩ := openSource_fst_eq_ok.mp h
  rw [hw.extent_view]
  refine ⟨?_, ?_, ?_⟩
  · rw [List.length_append]
    exact Nat.le_add_right _ _
  · intro b' hb'
    rw [List.take_left] at hb'
    apply openSource_fst_eq_ok.mpr
    refine ⟨x, b'.drop x.encode.length, hw, hp, ?_, rfl⟩
    rw [← List.take_append_drop x.encode.length b', hb', List.drop_left]
  · intro j hj
    rw [List.take_append_of_le_length (Nat.le_of_lt hj)]
    exact openSource_of_truncates (read_truncates hw hp hj 0)

/-- What opens of a stream that was cut short opens in the whole of it, so that a cut costs the
recording or nothing. -/
theorem openSource_of_truncate {o : OpenOptions} {s : MemoryStream} {n : Nat} {f : Recording}
    {reader : MeasuredReader MemoryStream} (h : openSource o (s.truncate n) = .ok (f, reader)) :
    (openSource o (MemoryStream.ofBytes s.bytes)).map Prod.fst = .ok f := by
  have hread := read_confirms o (openSource_eq_ok.mp h)
  rw [faithful_ofSource, MemoryStream.bytes_truncate] at hread
  obtain ⟨x, suffix, hw, hp, hb, hview, -⟩ := read_eq_ok.mp hread
  apply openSource_fst_eq_ok.mpr
  refine ⟨x, suffix ++ s.bytes.drop n, hw, hp, ?_, hview⟩
  rw [← List.append_assoc, ← hb, List.take_append_drop]

theorem sample_extent :
    (openSource {} (MemoryStream.ofBytes (Footage.sample.image.encode ++ [7]))).map Prod.fst =
        .ok Footage.sample.image.view ∧
      Footage.sample.image.view.extent = 289 ∧
      (openSource {} (MemoryStream.ofBytes (Footage.sample.image.encode ++ [0xFF, 0xFF]))).map
        Prod.fst = .ok Footage.sample.image.view ∧
      ∃ field need available, available < need ∧
        (openSource {} (MemoryStream.ofBytes ((Footage.sample.image.encode ++ [7]).take 288))).map
          Prod.fst = .error (.truncatedInput field need available) := by
  have hopen : (openSource {} (MemoryStream.ofBytes (Footage.sample.image.encode ++ [7]))).map
      Prod.fst = .ok Footage.sample.image.view := by
    apply openSource_fst_eq_ok.mpr
    exact ⟨_, [7], Footage.sample_lawful.wellFormed, Footage.sample_lawful.passes, rfl, rfl⟩
  have hextent : Footage.sample.image.view.extent = 289 := by decide
  obtain ⟨-, hsame, hcut⟩ := extent_decides_opening {} _ _ hopen
  refine ⟨hopen, hextent, hsame _ ?_, hcut 288 ?_⟩
  · rw [Footage.sample_lawful.wellFormed.extent_view, List.take_left, List.take_left]
  · rw [hextent]
    decide

end Recording

end KalayRecord
