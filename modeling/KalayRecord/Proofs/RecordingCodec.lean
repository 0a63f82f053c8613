import KalayRecord.Proofs.ExactText
import KalayRecord.Proofs.FrameJoin
import KalayRecord.Proofs.RecordingFormat

namespace KalayRecord

open Reading MeasuredReader

/-- The items of the tables that the record has. -/
def TrackRecord.columns (t : TrackRecord) : FrameTables.Column → List UInt32
  | .timestamps => t.timestamps.items
  | .keyframeOffsets => t.keyframes.toList.flatMap (·.items)
  | .sizes => t.sizes.items
  | .offsets => t.offsets.items

/-- The track has every field of the record, the size of its bytes, and the frames that its tables
have at one place. -/
structure TrackRecord.Tells (t : TrackRecord) (kind : MediaKind) (track : Track) : Prop where
  kind : track.kind = kind
  declaredSize : track.declaredSize = t.size
  recordType : track.recordType = t.type
  codecByte : track.codecByte = t.codecByte
  flag : track.flag = t.flag
  id : track.id = t.id
  firstTimestamp : track.firstTimestamp = t.firstTimestamp
  lastTimestamp : track.lastTimestamp = t.lastTimestamp
  occupiedSize : track.occupiedSize = t.encode.length
  index : track.index.Joins t.columns

namespace RecordingImage

/-- The recording has every field of the image, with the UUID as text up to its first zero byte, and
the offset that the media data has among the bytes. -/
structure Tells (x : RecordingImage) (f : Recording) : Prop where
  header : f.header = x.header
  uuid : f.header.uuid = LossyText.decode (x.uuid.takeWhile (· ≠ 0))
  mediaDataOffset : f.mediaDataOffset = (x.header.encode x.uuid ++ x.extra).length
  mediaDataSize : f.mediaDataSize = x.mediaDataSize
  indexSectionSize : f.indexSectionSize = x.indexSectionSize
  video : x.video.Tells .video f.video
  audio : x.audio.Tells .audio f.audio

/-- The image passes the checks that the options ask for. -/
structure Passes (o : OpenOptions) (x : RecordingImage) : Prop where
  encryption : o.refuseEncrypted = true → x.header.isEncrypted = false
  tableSizes : o.checkTableSizes = true → ∀ t ∈ x.video.tables ++ x.audio.tables,
    t.size.toNat = IndexTable.expectedSize (.ofNat t.items.length)
  index : o.checkIndex = true → x.view.validate = .ok ()

/-- The bytes from the media data on. -/
def encodeSections (x : RecordingImage) : Bytes :=
  toLittleEndian 4 x.mediaDataSize.toNat ++ (x.mediaData ++
    (toLittleEndian 4 x.indexSectionSize.toNat ++ (toLittleEndian 4 x.indexSectionType.toNat ++
      (x.video.encode ++ x.audio.encode))))

theorem encode_eq (x : RecordingImage) :
    x.encode = x.header.encode x.uuid ++ (x.extra ++ x.encodeSections) := by
  simp only [encode, encodeSections, List.append_assoc]

theorem encodeSections_length (x : RecordingImage) : 4 ≤ x.encodeSections.length := by
  rw [encodeSections, List.length_append, toLittleEndian_length]
  omega

theorem fits_of_passes {o : OpenOptions} {x : RecordingImage} (hw : x.WellFormed)
    (hp : x.Passes o) :
    x.video.Fits .video o.checkTableSizes ∧ x.audio.Fits .audio o.checkTableSizes := by
  refine ⟨⟨by simp [hw.video_keyframes], fun t h => ⟨?_, fun hc => ?_⟩⟩,
    ⟨by simp [hw.audio_keyframes], fun t h => ⟨?_, fun hc => ?_⟩⟩⟩
  · exact hw.items_length t (List.mem_append_left _ h)
  · exact hp.tableSizes hc t (List.mem_append_left _ h)
  · exact hw.items_length t (List.mem_append_right _ h)
  · exact hp.tableSizes hc t (List.mem_append_right _ h)

theorem fits_of_mem {checkSizes : Bool} {x : RecordingImage} (hv : x.video.Fits .video checkSizes)
    (ha : x.audio.Fits .audio checkSizes) {t : IndexTable}
    (h : t ∈ x.video.tables ++ x.audio.tables) : t.Fits checkSizes := by
  rcases List.mem_append.mp h with h | h
  · exact hv.tables_fit t h
  · exact ha.tables_fit t h

end RecordingImage

theorem RecordingHeader.isEncrypted_eq_false {h : RecordingHeader} :
    h.isEncrypted = false ↔ h.encryptType = 0 := by
  simp [isEncrypted]

theorem RecordingHeader.not_refused {h : RecordingHeader} {refuse : Bool}
    (hplain : refuse = true → h.isEncrypted = false) :
    ¬(h.isEncrypted = true ∧ refuse = true) := by
  intro ⟨hencrypted, hrefuse⟩
  rw [hplain hrefuse] at hencrypted
  cases hencrypted

theorem RecordingHeader.mediaDataOffset_eq (h : RecordingHeader) :
    h.mediaDataOffset = size + if h.hasExtraHeader then extraSize else 0 := by
  unfold mediaDataOffset
  split <;> rfl

theorem RecordingImage.WellFormed.mediaDataOffset_eq {x : RecordingImage} (hw : x.WellFormed) :
    x.header.mediaDataOffset = (x.header.encode x.uuid ++ x.extra).length := by
  rw [List.length_append, RecordingHeader.length_encode x.header hw.uuid_length, hw.extra_length]
  exact x.header.mediaDataOffset_eq

theorem RecordingImage.WellFormed.drop_mediaDataOffset {x : RecordingImage} (hw : x.WellFormed)
    (suffix : Bytes) :
    (x.encode ++ suffix).drop x.header.mediaDataOffset = x.encodeSections ++ suffix := by
  rw [hw.mediaDataOffset_eq, RecordingImage.encode_eq, ← List.append_assoc, List.append_assoc,
    List.drop_left]

theorem RecordingImage.WellFormed.read_header {x : RecordingImage} (hw : x.WellFormed)
    (suffix : Bytes) :
    RecordingHeader.read (ofBytes (x.encode ++ suffix) 0) =
      .ok x.header (ofBytes (x.encode ++ suffix) RecordingHeader.size) := by
  have hbytes : (x.encode ++ suffix).drop 0 =
      x.header.encode x.uuid ++ (x.extra ++ x.encodeSections ++ suffix) := by
    simp only [List.drop_zero, RecordingImage.encode_eq, List.append_assoc]
  have hread := RecordingHeader.read_reads.of_drop hbytes ⟨x.uuid, hw.uuid_length, hw.uuid_text, rfl⟩
  rwa [Nat.zero_add, RecordingHeader.length_encode x.header hw.uuid_length] at hread

theorem IndexTable.length_encode {t : IndexTable} (h : t.items.length < 2 ^ 32) :
    t.encode.length = expectedSize (.ofNat t.items.length) := by
  rw [expectedSize, toNat_count h]
  simp only [encode, List.length_append, toLittleEndian_length, ofWords_length, headerSize]

theorem TrackRecord.occupiedSize_eq {t : TrackRecord}
    (h : ∀ table ∈ t.tables, table.items.length < 2 ^ 32) :
    t.occupiedSize = t.encode.length := by
  have htables (tables : List IndexTable) (h : ∀ table ∈ tables, table.items.length < 2 ^ 32) :
      tables.foldr (fun table size => IndexTable.expectedSize (.ofNat table.items.length) + size)
        headerSize = headerSize + (tables.flatMap IndexTable.encode).length := by
    induction tables with
    | nil => rfl
    | cons table tables ih =>
      have htable := IndexTable.length_encode (h table List.mem_cons_self)
      have hrest := ih fun table' h' => h table' (List.mem_cons_of_mem _ h')
      rw [List.foldr_cons, List.flatMap_cons, List.length_append, hrest, htable]
      omega
  rw [occupiedSize, htables t.tables h]
  simp only [encode, List.length_append, toLittleEndian_length, headerSize, List.length_cons,
    List.length_nil]

namespace TrackRecord

variable {t : TrackRecord} {kind : MediaKind} {track track' : Track}

theorem column_frameTables (t : TrackRecord) : t.frameTables.column = t.columns := by
  funext c
  cases c with
  | timestamps => rfl
  | keyframeOffsets =>
    rw [FrameTables.column, frameTables, columns]
    cases t.keyframes <;> simp
  | sizes => rfl
  | offsets => rfl

theorem tells_ofRecord (kind : MediaKind) (h : ∀ table ∈ t.tables, table.items.length < 2 ^ 32) :
    t.Tells kind (.ofRecord kind t) where
  kind := rfl
  declaredSize := rfl
  recordType := rfl
  codecByte := rfl
  flag := rfl
  id := rfl
  firstTimestamp := rfl
  lastTimestamp := rfl
  occupiedSize := occupiedSize_eq h
  index := t.column_frameTables ▸ t.frameTables.joins_build

theorem Tells.unique (h : t.Tells kind track) (h' : t.Tells kind track') : track' = track := by
  have hkind := h'.kind.trans h.kind.symm
  have hsize := h'.declaredSize.trans h.declaredSize.symm
  have htype := h'.recordType.trans h.recordType.symm
  have hcodec := h'.codecByte.trans h.codecByte.symm
  have hflag := h'.flag.trans h.flag.symm
  have hid := h'.id.trans h.id.symm
  have hfirst := h'.firstTimestamp.trans h.firstTimestamp.symm
  have hlast := h'.lastTimestamp.trans h.lastTimestamp.symm
  have hoccupied := h'.occupiedSize.trans h.occupiedSize.symm
  have hindex := h.index.unique h'.index
  cases track
  cases track'
  rw [Track.mk.injEq]
  exact ⟨hkind, hsize, htype, hcodec, hflag, hid, hfirst, hlast, hoccupied, hindex⟩

end TrackRecord

namespace RecordingImage

variable {x : RecordingImage} {f f' : Recording}

theorem WellFormed.tells_view (hw : x.WellFormed) : x.Tells x.view where
  header := rfl
  uuid := hw.uuid_text
  mediaDataOffset := hw.mediaDataOffset_eq
  mediaDataSize := rfl
  indexSectionSize := rfl
  video := TrackRecord.tells_ofRecord _ fun t h => hw.items_length t (List.mem_append_left _ h)
  audio := TrackRecord.tells_ofRecord _ fun t h => hw.items_length t (List.mem_append_right _ h)

theorem Tells.unique (h : x.Tells f) (h' : x.Tells f') : f' = f := by
  have hheader := h'.header.trans h.header.symm
  have hmedia := h'.mediaDataSize.trans h.mediaDataSize.symm
  have hindex := h'.indexSectionSize.trans h.indexSectionSize.symm
  have hvideo := h.video.unique h'.video
  have haudio := h.audio.unique h'.audio
  cases f
  cases f'
  rw [Recording.mk.injEq]
  exact ⟨hheader, hmedia, hindex, hvideo, haudio⟩

end RecordingImage

namespace Recording

/-- What is read from the start of the media data on. -/
def readSections (header : RecordingHeader) (checkSizes : Bool) :
    Reading MemoryStream Recording := do
  let mediaDataSize ← uint32 "media data size"
  skip (mediaDataSize.toNat - 4) "media data"
  let indexSectionSize ← uint32 "index section size"
  skip 4 "index section type"
  let video ← TrackRecord.read .video checkSizes
  let audio ← TrackRecord.read .audio checkSizes
  return { header, mediaDataSize, indexSectionSize, video := .ofRecord .video video,
           audio := .ofRecord .audio audio }

/-- The check of the index, and the move to the first frame. -/
def settle (o : OpenOptions) (recording : Recording) : Reading MemoryStream Recording := do
  if o.checkIndex then
    if let .error e := recording.validate then throw e
  seek recording.firstFrameOffset
  return recording

theorem read_eq (o : OpenOptions) :
    (read o : Reading MemoryStream Recording) = (do
      seek 0
      let header ← RecordingHeader.read
      if header.isEncrypted ∧ o.refuseEncrypted then throw (.encrypted header.encryptType)
      else
        seek header.mediaDataOffset
        let recording ← readSections header o.checkTableSizes
        settle o recording) := by
  simp only [read, readSections, throw_bind, bind_assoc, pure_bind]
  rfl

theorem settle_eq_ok {o : OpenOptions} {recording f : Recording} {b : Bytes} {p : Nat}
    {r' : MeasuredReader MemoryStream} :
    settle o recording (ofBytes b p) = .ok f r' ↔
      (o.checkIndex = true → recording.validate = .ok ()) ∧ recording = f ∧
        r' = ofBytes b f.firstFrameOffset := by
  have hmove : (do
      seek recording.firstFrameOffset
      pure recording : Reading MemoryStream Recording) (ofBytes b p) = .ok f r' ↔
      recording = f ∧ r' = ofBytes b f.firstFrameOffset := by
    rw [bind_of_ok (seek_ofBytes b p _), pure_eq_ok]
    constructor
    · rintro ⟨rfl, rfl⟩
      exact ⟨rfl, rfl⟩
    · rintro ⟨rfl, rfl⟩
      exact ⟨rfl, rfl⟩
  simp only [settle, throw_bind]
  by_cases hc : o.checkIndex = true
  · rw [if_pos hc]
    cases hv : recording.validate with
    | error e => simp [throw_ne_ok, hc]
    | ok _ => exact hmove.trans ⟨fun h => ⟨fun _ => rfl, h⟩, And.right⟩
  · rw [if_neg hc]
    exact hmove.trans ⟨fun h => ⟨fun h' => absurd h' hc, h⟩, And.right⟩

theorem readSections_reads (header : RecordingHeader) (checkSizes : Bool) :
    Reads (readSections header checkSizes) fun bytes f => ∃ x : RecordingImage,
      x.header = header ∧ x.mediaData.length = x.mediaDataSize.toNat - 4 ∧
        x.video.Fits .video checkSizes ∧ x.audio.Fits .audio checkSizes ∧
        bytes = x.encodeSections ∧ x.view = f := by
  refine ((Reads.uint32 _).field fun mediaDataSize => (Reads.skip _ _).bind fun _ =>
    (Reads.uint32 _).field fun indexSectionSize => (Reads.skip _ _).bind fun _ =>
    (TrackRecord.read_reads _ _).part fun video =>
    (TrackRecord.read_reads _ _).yield fun audio => _).congr fun bytes f => ?_
  constructor
  · intro h
    obtain ⟨mediaDataSize, _, rfl, h⟩ := h
    obtain ⟨mediaData, _, _, rfl, hmedia, h⟩ := h
    obtain ⟨indexSectionSize, _, rfl, h⟩ := h
    obtain ⟨type, _, _, rfl, htype, h⟩ := h
    obtain ⟨video, _, rfl, hvideo, h⟩ := h
    obtain ⟨audio, ⟨rfl, haudio⟩, rfl⟩ := h
    let x : RecordingImage :=
      { header, uuid := [], extra := [], mediaDataSize, mediaData, indexSectionSize
        indexSectionType := .ofNat (ofLittleEndian type), video, audio }
    refine ⟨x, rfl, hmedia, hvideo, haudio, ?_, rfl⟩
    rw [RecordingImage.encodeSections, uint32_encode_decode htype]
  · rintro ⟨x, rfl, hmedia, hvideo, haudio, rfl, rfl⟩
    refine ⟨x.mediaDataSize, _, rfl, ?_⟩
    refine ⟨x.mediaData, _, (), rfl, hmedia, ?_⟩
    refine ⟨x.indexSectionSize, _, rfl, ?_⟩
    refine ⟨toLittleEndian 4 x.indexSectionType.toNat, _, (), rfl, toLittleEndian_length _ _, ?_⟩
    refine ⟨x.video, _, rfl, hvideo, ?_⟩
    exact ⟨x.audio, ⟨rfl, haudio⟩, rfl⟩

theorem encode_of_drop (x : RecordingImage) {uuid rest suffix : Bytes} {k : Nat}
    (h : rest.drop k = x.encodeSections ++ suffix) :
    x.header.encode uuid ++ rest =
      ({ x with uuid, extra := rest.take k } : RecordingImage).encode ++ suffix := by
  calc x.header.encode uuid ++ rest
      = x.header.encode uuid ++ (rest.take k ++ rest.drop k) := by rw [List.take_append_drop]
    _ = x.header.encode uuid ++ (rest.take k ++ (x.encodeSections ++ suffix)) := by rw [h]
    _ = x.header.encode uuid ++ (rest.take k ++ x.encodeSections) ++ suffix := by
      simp only [List.append_assoc]
    _ = _ := by
      rw [RecordingImage.encode_eq]
      rfl

/-- What reads as a recording is an image. -/
theorem exists_image_of_read {o : OpenOptions} {b : Bytes} {p : Nat} {f : Recording}
    {r' : MeasuredReader MemoryStream} (h : read o (ofBytes b p) = .ok f r') :
    ∃ (x : RecordingImage) (suffix : Bytes), x.WellFormed ∧ x.Passes o ∧ b = x.encode ++ suffix ∧
      x.view = f ∧ r' = ofBytes b f.firstFrameOffset := by
  rw [read_eq, bind_of_ok (seek_ofBytes b p 0)] at h
  obtain ⟨header, _, hheader, h⟩ := bind_eq_ok.mp h
  obtain ⟨_, rest, hb, ⟨uuid, hlen, htext, rfl⟩, rfl⟩ :=
    (RecordingHeader.read_reads b 0 header _).mp hheader
  obtain ⟨hencrypted, h⟩ := check_eq_ok.mp h
  rw [bind_of_ok (seek_ofBytes b _ _)] at h
  obtain ⟨f', _, hsections, h⟩ := bind_eq_ok.mp h
  obtain ⟨_, suffix, hdrop, ⟨x, rfl, hmedia, hvideo, haudio, rfl, rfl⟩, rfl⟩ :=
    (readSections_reads _ _ b _ f' _).mp hsections
  obtain ⟨hindex, rfl, rfl⟩ := settle_eq_ok.mp h
  obtain ⟨k, hk⟩ :
    ∃ k, (if x.header.hasExtraHeader then RecordingHeader.extraSize else 0) = k := ⟨_, rfl⟩
  -- the reader has jumped over the extension, which the image has to be given back
  rw [List.drop_zero] at hb
  have hrest : b.drop RecordingHeader.size = rest := by
    rw [hb, ← RecordingHeader.length_encode x.header hlen, List.drop_left]
  rw [RecordingHeader.mediaDataOffset_eq, hk, ← List.drop_drop, hrest] at hdrop
  have hextra : (rest.take k).length = k := by
    have hlong := congrArg List.length hdrop
    have hsome := x.encodeSections_length
    rw [List.length_drop, List.length_append] at hlong
    rw [List.length_take]
    omega
  have hfits {t : IndexTable} := RecordingImage.fits_of_mem hvideo haudio (t := t)
  let x' : RecordingImage := { x with uuid, extra := rest.take k }
  have hwellFormed : x'.WellFormed :=
    { uuid_length := hlen
      uuid_text := htext
      extra_length := hextra.trans hk.symm
      mediaData_length := hmedia
      video_keyframes := hvideo.keyframes_isSome.mpr rfl
      audio_keyframes := by simpa using mt haudio.keyframes_isSome.mp (by decide)
      items_length := fun t ht => (hfits ht).count_lt }
  have hpasses : x'.Passes o :=
    { encryption := fun hc => by simpa [hc] using hencrypted
      tableSizes := fun hc t ht => (hfits ht).size_eq hc
      index := hindex }
  exact ⟨x', suffix, hwellFormed, hpasses, hb.trans (encode_of_drop x hdrop), rfl, rfl⟩

theorem read_of_image {o : OpenOptions} {x : RecordingImage} (hw : x.WellFormed) (hp : x.Passes o)
    (suffix : Bytes) (p : Nat) :
    read o (ofBytes (x.encode ++ suffix) p) =
      .ok x.view (ofBytes (x.encode ++ suffix) x.view.firstFrameOffset) := by
  obtain ⟨hvideo, haudio⟩ := RecordingImage.fits_of_passes hw hp
  have hsections := (readSections_reads x.header o.checkTableSizes).of_drop
    (hw.drop_mediaDataOffset suffix) ⟨x, rfl, hw.mediaData_length, hvideo, haudio, rfl, rfl⟩
  rw [read_eq, bind_of_ok (seek_ofBytes _ p 0), bind_of_ok (hw.read_header suffix),
    if_neg (RecordingHeader.not_refused hp.encryption), bind_of_ok (seek_ofBytes _ _ _),
    bind_of_ok hsections]
  exact settle_eq_ok.mpr ⟨hp.index, rfl, rfl⟩

/-- Reading a faithful stream accepts the images that pass the checks, whatever comes behind them,
and stops at the first frame. -/
theorem read_eq_ok {o : OpenOptions} {b : Bytes} {p : Nat} {f : Recording}
    {r' : MeasuredReader MemoryStream} :
    read o (ofBytes b p) = .ok f r' ↔
      ∃ (x : RecordingImage) (suffix : Bytes), x.WellFormed ∧ x.Passes o ∧ b = x.encode ++ suffix ∧
        x.view = f ∧ r' = ofBytes b f.firstFrameOffset := by
  constructor
  · exact exists_image_of_read
  · rintro ⟨x, suffix, hw, hp, rfl, rfl, rfl⟩
    exact read_of_image hw hp suffix p

theorem openSource_eq_ok {σ : Type} [ByteSource σ] {o : OpenOptions} {s : σ} {f : Recording}
    {r : MeasuredReader σ} : openSource o s = .ok (f, r) ↔ read o (ofSource s) = .ok f r := by
  rw [openSource]
  cases read o (ofSource s) with
  | ok recording reader => simp only [Except.ok.injEq, Prod.mk.injEq, EStateM.Result.ok.injEq]
  | error e reader => simp

theorem openSource_fst_eq_ok {o : OpenOptions} {b : Bytes} {f : Recording} :
    (openSource o (MemoryStream.ofBytes b)).map Prod.fst = .ok f ↔
      ∃ (x : RecordingImage) (suffix : Bytes),
        x.WellFormed ∧ x.Passes o ∧ b = x.encode ++ suffix ∧ x.view = f := by
  constructor
  · intro h
    cases hopen : openSource o (MemoryStream.ofBytes b) with
    | error e =>
      rw [hopen] at h
      cases h
    | ok opened =>
      rw [hopen] at h
      obtain rfl : opened.1 = f := Except.ok.inj h
      have hread := openSource_eq_ok.mp hopen
      rw [ofSource_ofBytes] at hread
      obtain ⟨x, suffix, hw, hp, hb, hview, -⟩ := read_eq_ok.mp hread
      exact ⟨x, suffix, hw, hp, hb, hview⟩
  · rintro ⟨x, suffix, hw, hp, hb, hview⟩
    have hread : read o (ofBytes b 0) = .ok f (ofBytes b f.firstFrameOffset) :=
      read_eq_ok.mpr ⟨x, suffix, hw, hp, hb, hview, rfl⟩
    rw [← ofSource_ofBytes] at hread
    rw [openSource_eq_ok.mpr hread]
    rfl

def unchecked (maxScan : Option UInt64) : OpenOptions :=
  { maxScan, checkTableSizes := false, checkIndex := false, refuseEncrypted := false }

theorem passes_unchecked (maxScan : Option UInt64) (x : RecordingImage) :
    x.Passes (unchecked maxScan) := ⟨nofun, nofun, nofun⟩

/-- With every check off, the byte strings that open are the well-formed images with anything
behind them, and each opens as the one recording that its image tells. The text of a UUID is found
without loss. -/
theorem openSource_ok_iff_image :
    (∀ (maxScan : Option UInt64) (b : Bytes) (f : Recording),
      (openSource (unchecked maxScan) (MemoryStream.ofBytes b)).map Prod.fst = .ok f ↔
        ∃ (x : RecordingImage) (suffix : Bytes),
          x.WellFormed ∧ b = x.encode ++ suffix ∧ x.Tells f) ∧
    ∀ x : RecordingImage, x.WellFormed →
      ∃ f, x.Tells f ∧ (∀ f', x.Tells f' → f' = f) ∧
        ∀ text : String, x.uuid.takeWhile (· ≠ 0) = text.toUTF8.data.toList →
          f.header.uuid = text := by
  constructor
  · intro maxScan b f
    rw [openSource_fst_eq_ok]
    constructor
    · rintro ⟨x, suffix, hw, -, hb, rfl⟩
      exact ⟨x, suffix, hw, hb, hw.tells_view⟩
    · rintro ⟨x, suffix, hw, hb, htells⟩
      exact ⟨x, suffix, hw, passes_unchecked maxScan x, hb, htells.unique hw.tells_view⟩
  · intro x hw
    have htells := hw.tells_view
    refine ⟨x.view, htells, fun f' h => htells.unique h, fun text h => ?_⟩
    rw [htells.uuid, h, LossyText.decode_toUTF8]

/-- A recording with frames in both tracks, a keyframe entry that is there twice, and a table of
sizes that ends first. It has an extended header, bytes behind the text of its UUID, sizes that are
not those of its tables, and a media data size below that of its own field. -/
def roughImage : RecordingImage where
  header := { fileLength := 512, sectionType := 0x01020304, version := 3, encryptType := 0x0A0B,
              uuid := "K-1é", channel := 5, createTime := 1700000000000, extraHeaderFlag := 9 }
  uuid := [0x4B, 0x2D, 0x31, 0xC3, 0xA9, 0, 0xFF, 0x41] ++ List.replicate 32 0xC3
  extra := [1, 2, 3, 4]
  mediaDataSize := 3
  mediaData := []
  indexSectionSize := 77
  indexSectionType := 6
  video := { size := 8, type := 1, codecByte := 0x4E, flag := 2, id := 300, firstTimestamp := 1000,
             lastTimestamp := 1080, timestamps := ⟨24, 1, [1000, 1040, 1080]⟩
             keyframes := some ⟨0, 2, [84, 200, 84]⟩, sizes := ⟨7, 3, [20, 30]⟩
             offsets := ⟨24, 4, [84, 120, 200]⟩ }
  audio := { size := 80, type := 2, codecByte := 0x8C, flag := 0x22, id := 301
             firstTimestamp := 1010, lastTimestamp := 900, timestamps := ⟨16, 1, [1010]⟩
             keyframes := none, sizes := ⟨16, 3, [16]⟩, offsets := ⟨20, 4, [104, 160]⟩ }

theorem roughImage_wellFormed : roughImage.WellFormed where
  uuid_length := rfl
  uuid_text := by decide +kernel
  extra_length := rfl
  mediaData_length := rfl
  video_keyframes := rfl
  audio_keyframes := rfl
  items_length := by decide

theorem openSource_roughImage :
    ∃ f, (openSource (unchecked none) (MemoryStream.ofBytes (roughImage.encode ++ [7]))).map
        Prod.fst = .ok f ∧
      f.header.uuid = "K-1é" ∧ f.header.channel = 5 ∧ f.mediaDataOffset = 76 ∧
      f.video.id = 300 ∧ f.video.declaredSize = 8 ∧ f.video.occupiedSize = 112 ∧
      f.video.index.keyframeOffsets.toList = [84, 200, 84] ∧ f.video.index.size = 2 ∧
      (∀ frame, f.video.index.frames[1]? = some frame → frame.timestamp = 1040) ∧
      f.audio.codecByte = 0x8C ∧ f.audio.lastTimestamp = 900 ∧ f.audio.index.size = 1 := by
  obtain ⟨f, htells, -, huuid⟩ := openSource_ok_iff_image.2 roughImage roughImage_wellFormed
  have hopens := (openSource_ok_iff_image.1 none (roughImage.encode ++ [7]) f).mpr
    ⟨roughImage, [7], roughImage_wellFormed, rfl, htells⟩
  have htimestamp (frame : Frame) (h : f.video.index.frames[1]? = some frame) :
      frame.timestamp = 1040 :=
    (Option.some.inj (htells.video.index.frame h).timestamp).symm
  exact ⟨f, hopens, huuid "K-1é" (by decide +kernel), htells.header ▸ rfl, htells.mediaDataOffset,
    htells.video.id, htells.video.declaredSize, htells.video.occupiedSize,
    htells.video.index.keyframeOffsets, htells.video.index.size, htimestamp,
    htells.audio.codecByte, htells.audio.lastTimestamp, htells.audio.index.size⟩

end Recording

end KalayRecord
