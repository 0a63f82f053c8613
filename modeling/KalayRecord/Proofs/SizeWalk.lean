import KalayRecord.Proofs.CheckedReading
import KalayRecord.Proofs.CheckedSearches
import KalayRecord.Proofs.RecordingExtent

namespace KalayRecord

open Reading MeasuredReader

/-- The number that the four bytes at `p` stand for. -/
def wordAt (b : Bytes) (p : Nat) : Nat := ofLittleEndian ((b.drop p).take 4)

section Words

variable {b rest : Bytes} {p : Nat}

theorem wordAt_of_drop {n : Nat} (hn : n < 2 ^ 32) (hb : b.drop p = toLittleEndian 4 n ++ rest) :
    wordAt b p = n := by
  have hlength : (toLittleEndian 4 n).length = 4 := toLittleEndian_length 4 n
  rw [wordAt, hb, List.take_left' hlength, ofLittleEndian_toLittleEndian]
  exact Nat.mod_eq_of_lt hn

theorem wordAt_of_ofWords {items : List UInt32} (hb : b.drop p = ofWords items ++ rest) {j : Nat}
    {w : UInt32} (hj : items[j]? = some w) : wordAt b (p + 4 * j) = w.toNat := by
  induction items generalizing p j with
  | nil => cases hj
  | cons w' items ih =>
    rw [ofWords_cons, List.append_assoc] at hb
    cases j with
    | zero =>
      cases hj
      exact wordAt_of_drop (UInt32.toNat_lt _) hb
    | succ j =>
      have hlater := drop_of_append hb
      rw [toLittleEndian_length] at hlater
      rw [show p + 4 * (j + 1) = p + 4 + 4 * j by omega]
      exact ih hlater hj

end Words

/-- Where size fields lead to in `i` steps, each step over as many bytes as the number at its place
says. -/
def sizeWalk (b : Bytes) (p : Nat) : (i : Nat) → Nat
  | 0 => p
  | i + 1 => sizeWalk b p i + wordAt b (sizeWalk b p i)

theorem sizeWalk_succ (b : Bytes) (p i : Nat) :
    sizeWalk b p (i + 1) = sizeWalk b (p + wordAt b p) i := by
  induction i with
  | zero => rfl
  | succ i ih => rw [sizeWalk, ih, sizeWalk]

namespace IndexTable

/-- A table stands at `p`: the size field there is that of its bytes and tells the count, and the
items come behind them. -/
structure StandsAt (t : IndexTable) (b : Bytes) (p : Nat) : Prop where
  read_eq : read true (ofBytes b p) = .ok t (ofBytes b (p + wordAt b p))
  count_eq : wordAt b (p + 8) = t.items.length
  count_of_size : t.items.length = (wordAt b p - headerSize) / 4
  item_eq : ∀ {j w}, t.items[j]? = some w → wordAt b (p + headerSize + 4 * j) = w.toNat

variable {t : IndexTable} {b rest : Bytes} {p : Nat}

theorem Fits.size_eq_length (h : t.Fits true) : t.size.toNat = t.encode.length := by
  rw [length_encode h.count_lt, h.size_eq rfl]

theorem Fits.standsAt (h : t.Fits true) (hb : b.drop p = t.encode ++ rest) :
    t.StandsAt b p ∧ wordAt b p = t.encode.length := by
  have hread := (read_reads true).of_drop hb ⟨rfl, h⟩
  have hsize := h.size_eq_length
  have hlength : t.encode.length = headerSize + 4 * t.items.length := by
    rw [length_encode h.count_lt, expectedSize_count h.count_lt]
  simp only [encode, List.append_assoc] at hb
  have hword : wordAt b p = t.encode.length := by
    rw [wordAt_of_drop t.size.toNat_lt hb, hsize]
  have htype := drop_of_append hb
  rw [toLittleEndian_length] at htype
  have hcount := drop_of_append htype
  rw [toLittleEndian_length] at hcount
  have hitems := drop_of_append hcount
  rw [toLittleEndian_length] at hitems
  refine ⟨⟨?_, ?_, ?_, fun hj => ?_⟩, hword⟩
  · rw [hword]
    exact hread
  · exact wordAt_of_drop h.count_lt hcount
  · rw [hword, hlength, Nat.add_sub_cancel_left, Nat.mul_div_cancel_left _ (by decide)]
  · exact wordAt_of_ofWords hitems hj

/-- Tables that stand one behind the other are those that size fields lead to. -/
theorem standsAt_sizeWalk {ts : List IndexTable} (h : ∀ t ∈ ts, t.Fits true)
    (hb : b.drop p = ts.flatMap encode ++ rest) :
    (∀ i t, ts[i]? = some t → StandsAt t b (sizeWalk b p i)) ∧
      sizeWalk b p ts.length = p + (ts.flatMap encode).length := by
  -- the walk from the second table on is the walk from the first, a step later
  induction ts generalizing p with
  | nil => exact ⟨nofun, rfl⟩
  | cons t ts ih =>
    rw [List.flatMap_cons, List.append_assoc] at hb
    obtain ⟨hstands, hword⟩ := (h t List.mem_cons_self).standsAt hb
    obtain ⟨hlater, hend⟩ := ih (fun t' h' => h t' (List.mem_cons_of_mem _ h')) (drop_of_append hb)
    rw [← hword] at hlater hend
    constructor
    · intro i t' ht
      cases i with
      | zero =>
        cases ht
        exact hstands
      | succ i =>
        rw [sizeWalk_succ]
        exact hlater i t' ht
    · rw [List.length_cons, sizeWalk_succ, hend, hword, List.flatMap_cons, List.length_append,
        Nat.add_assoc]

end IndexTable

namespace TrackRecord

def tableCount : MediaKind → Nat
  | .video => 4
  | .audio => 3

/-- Where the `i`th table of the record at `p` begins, by size fields alone. -/
def tableStart (b : Bytes) (p i : Nat) : Nat := sizeWalk b (p + headerSize) i

/-- The record is read from `p` to `q`, as far as its size field says, and its size fields lead from
table to table and to its end. -/
structure Tiles (kind : MediaKind) (b : Bytes) (p : Nat) (t : TrackRecord) (q : Nat) : Prop where
  read_eq : read kind true (ofBytes b p) = .ok t (ofBytes b q)
  declared : wordAt b p = t.size.toNat
  end_eq : p + wordAt b p = q
  tables : ∀ i table, t.tables[i]? = some table → IndexTable.StandsAt table b (tableStart b p i)
  count_eq : t.tables.length = tableCount kind
  tables_end : tableStart b p (tableCount kind) = q

theorem Fits.count_eq {kind : MediaKind} {checkSizes : Bool} {t : TrackRecord}
    (h : t.Fits kind checkSizes) : t.tables.length = tableCount kind := by
  have hkeyframes := h.keyframes_isSome
  cases kind with
  | video =>
    obtain ⟨table, hsome⟩ := Option.isSome_iff_exists.mp (hkeyframes.mpr rfl)
    simp [tables, tableCount, hsome]
  | audio =>
    have hnone : t.keyframes = none := by simpa using hkeyframes
    simp [tables, tableCount, hnone]

theorem Fits.tiles {kind : MediaKind} {t : TrackRecord} {b rest : Bytes} {p : Nat}
    (h : t.Fits kind true) (hsize : t.size.toNat = t.occupiedSize)
    (hb : b.drop p = t.encode ++ rest) :
    Tiles kind b p t (p + t.size.toNat) := by
  have hlength : t.size.toNat = t.encode.length := by
    rw [hsize, occupiedSize_eq fun table ht => (h.tables_fit table ht).count_lt]
  have hread := (read_reads kind true).of_drop hb ⟨rfl, h⟩
  have hparts : ∃ fields : Bytes, fields.length = headerSize ∧
      t.encode = fields ++ t.tables.flatMap IndexTable.encode :=
    ⟨_, by simp [headerSize], rfl⟩
  obtain ⟨fields, hfields, hencode⟩ := hparts
  have htables : b.drop (p + headerSize) = t.tables.flatMap IndexTable.encode ++ rest := by
    rw [hencode, List.append_assoc] at hb
    rw [← hfields]
    exact drop_of_append hb
  obtain ⟨hstands, hend⟩ := IndexTable.standsAt_sizeWalk h.tables_fit htables
  have hdeclared : wordAt b p = t.size.toNat := by
    simp only [encode, List.append_assoc] at hb
    exact wordAt_of_drop t.size.toNat_lt hb
  refine ⟨?_, hdeclared, by rw [hdeclared], hstands, h.count_eq, ?_⟩
  · rw [hlength]
    exact hread
  · rw [← h.count_eq, tableStart, hend, hlength, hencode, List.length_append, hfields,
      Nat.add_assoc]

end TrackRecord

namespace FrameIndex

/-- The frames are as many as the shortest of three tables tells by its count, and take each field
from one and the same place of the tables. -/
structure JoinsAt (x : FrameIndex) (b : Bytes) (timestamps sizes offsets : Nat) : Prop where
  size_eq : x.size = min (wordAt b (timestamps + 8))
    (min (wordAt b (sizes + 8)) (wordAt b (offsets + 8)))
  frame_eq : ∀ {i f}, x.frames[i]? = some f →
    f.timestamp.toNat = wordAt b (timestamps + IndexTable.headerSize + 4 * i) ∧
    f.size.toNat = wordAt b (sizes + IndexTable.headerSize + 4 * i) ∧
    f.offset.toNat = wordAt b (offsets + IndexTable.headerSize + 4 * i)

theorem joinsAt_of_standsAt {t : TrackRecord} {b : Bytes} {timestamps sizes offsets : Nat}
    (htimestamps : t.timestamps.StandsAt b timestamps) (hsizes : t.sizes.StandsAt b sizes)
    (hoffsets : t.offsets.StandsAt b offsets) :
    t.frameTables.build.JoinsAt b timestamps sizes offsets where
  size_eq := by
    rw [FrameTables.size_build, htimestamps.count_eq, hsizes.count_eq, hoffsets.count_eq]
    rfl
  frame_eq {i f} h := by
    have hf := FrameTables.joinedAt_of_build_getElem? h
    exact ⟨(htimestamps.item_eq hf.timestamp).symm, (hsizes.item_eq hf.size).symm,
      (hoffsets.item_eq hf.offset).symm⟩

end FrameIndex

namespace Recording

/-- Where the video record begins: behind the media data, which takes its own size field at least,
and the size and the type of the index section. -/
def videoRecordOffset (f : Recording) : Nat := f.mediaDataOffset + max 4 f.mediaDataSize.toNat + 8

def audioRecordOffset (f : Recording) : Nat := f.videoRecordOffset + f.video.declaredSize.toNat

def recordsEnd (f : Recording) : Nat := f.audioRecordOffset + f.audio.declaredSize.toNat

def readTracks (o : OpenOptions) (header : RecordingHeader)
    (mediaDataSize indexSectionSize : UInt32) : Reading MemoryStream Recording := do
  let video ← TrackRecord.read .video o.checkTableSizes
  let audio ← TrackRecord.read .audio o.checkTableSizes
  settle o { header, mediaDataSize, indexSectionSize, video := .ofRecord .video video,
             audio := .ofRecord .audio audio }

theorem read_eq_readTracks {o : OpenOptions} {x : RecordingImage} (hw : x.WellFormed)
    (hp : x.Passes o) (suffix : Bytes) :
    (x.encode ++ suffix).drop x.view.videoRecordOffset =
        x.video.encode ++ (x.audio.encode ++ suffix) ∧
      ∀ p, read o (ofBytes (x.encode ++ suffix) p) =
        readTracks o x.header x.mediaDataSize x.indexSectionSize
          (ofBytes (x.encode ++ suffix) x.view.videoRecordOffset) := by
  have hoffset : x.header.mediaDataOffset + 4 + x.mediaData.length + 4 + 4 =
      x.view.videoRecordOffset := by
    rw [hw.mediaData_length]
    show _ = x.header.mediaDataOffset + max 4 x.mediaDataSize.toNat + 8
    omega
  have hsize := hw.drop_mediaDataOffset suffix
  simp only [RecordingImage.encodeSections, List.append_assoc] at hsize
  have hmedia := drop_of_append hsize
  rw [toLittleEndian_length] at hmedia
  have hsectionSize := drop_of_append hmedia
  have hsectionType := drop_of_append hsectionSize
  rw [toLittleEndian_length] at hsectionType
  have hvideo := drop_of_append hsectionType
  rw [toLittleEndian_length, hoffset] at hvideo
  refine ⟨hvideo, fun p => ?_⟩
  rw [read_eq, bind_of_ok (seek_ofBytes _ p 0), bind_of_ok (hw.read_header suffix),
    if_neg (RecordingHeader.not_refused hp.encryption), bind_of_ok (seek_ofBytes _ _ _)]
  simp only [readSections, bind_assoc, pure_bind]
  rw [bind_of_ok ((Reads.uint32 _).of_drop hsize rfl), toLittleEndian_length,
    bind_of_ok ((Reads.skip _ _).of_drop (a := ()) hmedia hw.mediaData_length),
    bind_of_ok ((Reads.uint32 _).of_drop hsectionSize rfl), toLittleEndian_length,
    bind_of_ok ((Reads.skip _ _).of_drop (a := ()) hsectionType (toLittleEndian_length _ _)),
    toLittleEndian_length, hoffset]
  rfl

/-- Where all sizes are checked at opening, the sizes that are declared lead through the records and
their tables as these were read, and the frames are what the tables there have at one place each. -/
theorem declared_sizes_tile (o : OpenOptions) (b : Bytes) (f : Recording)
    (hsizes : o.checkTableSizes = true) (hindex : o.checkIndex = true)
    (hopen : (openSource o (MemoryStream.ofBytes b)).map Prod.fst = .ok f) :
    f.recordsEnd ≤ b.length ∧
      (∀ p, read o (ofBytes b p) =
        readTracks o f.header f.mediaDataSize f.indexSectionSize (ofBytes b f.videoRecordOffset)) ∧
      ∃ video audio : TrackRecord,
        f.video = .ofRecord .video video ∧ f.audio = .ofRecord .audio audio ∧
        video.Tiles .video b f.videoRecordOffset f.audioRecordOffset ∧
        audio.Tiles .audio b f.audioRecordOffset f.recordsEnd ∧
        f.video.index.JoinsAt b (TrackRecord.tableStart b f.videoRecordOffset 0)
          (TrackRecord.tableStart b f.videoRecordOffset 2)
          (TrackRecord.tableStart b f.videoRecordOffset 3) ∧
        f.audio.index.JoinsAt b (TrackRecord.tableStart b f.audioRecordOffset 0)
          (TrackRecord.tableStart b f.audioRecordOffset 1)
          (TrackRecord.tableStart b f.audioRecordOffset 2) := by
  obtain ⟨x, suffix, hw, hp, rfl, rfl⟩ := openSource_fst_eq_ok.mp hopen
  obtain ⟨hvideoFits, haudioFits⟩ := RecordingImage.fits_of_passes hw hp
  rw [hsizes] at hvideoFits haudioFits
  obtain ⟨hvideoValid, haudioValid⟩ := validate_eq_ok.mp (hp.index hindex)
  have hvideoSize : x.video.size.toNat = x.video.occupiedSize :=
    (Track.validate_eq_ok.mp hvideoValid).size
  have haudioSize : x.audio.size.toNat = x.audio.occupiedSize :=
    (Track.validate_eq_ok.mp haudioValid).size
  obtain ⟨hvideo, hread⟩ := read_eq_readTracks hw hp suffix
  have hvideoTiles := hvideoFits.tiles hvideoSize hvideo
  have haudio := drop_of_append hvideo
  rw [← TrackRecord.occupiedSize_eq fun t ht => (hvideoFits.tables_fit t ht).count_lt,
    ← hvideoSize] at haudio
  have haudioTiles := haudioFits.tiles haudioSize haudio
  refine ⟨?_, hread, x.video, x.audio, rfl, rfl, hvideoTiles, haudioTiles, ?_, ?_⟩
  · have hend : x.view.recordsEnd = x.view.extent := by
      show x.view.videoRecordOffset + x.video.size.toNat + x.audio.size.toNat = _
      rw [hvideoSize, haudioSize]
      rfl
    rw [hend, hw.extent_view, List.length_append]
    exact Nat.le_add_right _ _
  · obtain ⟨table, hsome⟩ := Option.isSome_iff_exists.mp hw.video_keyframes
    exact FrameIndex.joinsAt_of_standsAt (hvideoTiles.tables 0 _ rfl)
      (hvideoTiles.tables 2 _ (by simp [TrackRecord.tables, hsome]))
      (hvideoTiles.tables 3 _ (by simp [TrackRecord.tables, hsome]))
  · exact FrameIndex.joinsAt_of_standsAt (haudioTiles.tables 0 _ rfl)
      (haudioTiles.tables 1 _ (by simp [TrackRecord.tables, hw.audio_keyframes]))
      (haudioTiles.tables 2 _ (by simp [TrackRecord.tables, hw.audio_keyframes]))

theorem scattered_tiles :
    ∃ f, (openSource { checkIndex := true }
        (MemoryStream.ofBytes Demuxer.scatteredImage.encode)).map Prod.fst = .ok f ∧
      (f.videoRecordOffset, f.audioRecordOffset, f.recordsEnd) = (88, 204, 260) ∧
      f.recordsEnd ≤ Demuxer.scatteredImage.encode.length ∧
      TrackRecord.tableStart Demuxer.scatteredImage.encode 88 3 = 180 ∧
      wordAt Demuxer.scatteredImage.encode (180 + IndexTable.headerSize + 4 * 2) = 1000 := by
  have hopen : (openSource { checkIndex := true }
      (MemoryStream.ofBytes Demuxer.scatteredImage.encode)).map Prod.fst =
        .ok Demuxer.scatteredImage.view := by
    apply openSource_fst_eq_ok.mpr
    exact ⟨_, [], Demuxer.scatteredImage_wellFormed, Demuxer.scatteredImage_passes,
      (List.append_nil _).symm, rfl⟩
  obtain ⟨hend, -, -, -, -, -, -, -, hframes, -⟩ := declared_sizes_tile _ _ _ rfl rfl hopen
  have htable : TrackRecord.tableStart Demuxer.scatteredImage.encode 88 3 = 180 := by
    decide +kernel
  refine ⟨_, hopen, by decide, hend, htable, ?_⟩
  rw [← htable]
  exact (hframes.frame_eq (i := 2) rfl).2.2.symm

end Recording

end KalayRecord
