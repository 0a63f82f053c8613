import KalayRecord.Proofs.Footage
import KalayRecord.Proofs.RecordingCodec

namespace KalayRecord.Footage

variable {f : Footage}

theorem encodeRecords_cons (f : Footage) (r : FrameRecord) (records : List FrameRecord) :
    f.encodeRecords (r :: records) =
      r.gap ++ r.encode (f.id r.kind) ++ f.encodeRecords records := by
  rw [encodeRecords, List.flatMap_cons]
  rfl

theorem length_le_encodeRecords (f : Footage) (records : List FrameRecord) :
    Packet.headerSize * records.length ≤ (f.encodeRecords records).length := by
  induction records with
  | nil => exact Nat.zero_le _
  | cons r records ih =>
    rw [encodeRecords_cons, List.length_append, List.length_append, FrameRecord.length_encode,
      FrameRecord.size, List.length_cons, Nat.mul_succ]
    omega

theorem length_records_le (f : Footage) :
    Packet.headerSize * f.records.length ≤ f.media.length := by
  have hle := f.length_le_encodeRecords f.records
  rw [media, List.length_append]
  omega

theorem size_le {r : FrameRecord} (h : r ∈ f.records) : r.size ≤ f.media.length := by
  have hle {records : List FrameRecord} (h : r ∈ records) :
      r.size ≤ (f.encodeRecords records).length := by
    induction records with
    | nil => cases h
    | cons r' records ih =>
      rw [encodeRecords_cons, List.length_append, List.length_append, FrameRecord.length_encode]
      rcases List.mem_cons.mp h with rfl | h
      · omega
      · have hrest := ih h
        omega
  have hrecords := hle h
  rw [media, List.length_append]
  omega

theorem length_recordsOf_le (f : Footage) (kind : MediaKind) :
    (f.recordsOf kind).length ≤ f.records.length := List.length_filter_le _ _

theorem mem_records_of_mem {kind : MediaKind} {r : FrameRecord} (h : r ∈ f.recordsOf kind) :
    r ∈ f.records ∧ r.kind = kind := by
  obtain ⟨hmem, hkind⟩ := List.mem_filter.mp h
  exact ⟨hmem, of_decide_eq_true hkind⟩

/-- Each record stands in its track at the place that its number tells. -/
theorem recordsOf_getElem? {r : FrameRecord} (h : r ∈ f.records) :
    (f.recordsOf r.kind)[r.number]? = some r := by
  have hmem : r ∈ f.recordsOf r.kind := List.mem_filter.mpr ⟨h, by simp⟩
  obtain ⟨i, hi⟩ := List.mem_iff_getElem?.mp hmem
  have hnumber := Shot.number_recordsFrom hi
  rw [Nat.zero_add] at hnumber
  rw [hnumber]
  exact hi

theorem number_lt {r : FrameRecord} (h : r ∈ f.records) : r.number < f.records.length := by
  obtain ⟨hlt, -⟩ := List.getElem?_eq_some_iff.mp (recordsOf_getElem? h)
  have hle := f.length_recordsOf_le r.kind
  omega

theorem pairwise_records (f : Footage) : f.records.Pairwise fun r r' => r.offset < r'.offset :=
  Shot.pairwise_recordsFrom f.start _ f.shots

/-- No two records begin at one place. -/
theorem eq_of_offset_eq {r r' : FrameRecord} (h : r ∈ f.records) (h' : r' ∈ f.records)
    (hoffset : r.offset = r'.offset) : r = r' := by
  have hpairwise := List.pairwise_iff_getElem.mp f.pairwise_records
  obtain ⟨i, hi, rfl⟩ := List.getElem_of_mem h
  obtain ⟨j, hj, rfl⟩ := List.getElem_of_mem h'
  rcases Nat.lt_trichotomy i j with hlt | rfl | hlt
  · have := hpairwise i j hi hj hlt
    omega
  · rfl
  · have := hpairwise j i hj hi hlt
    omega

theorem eq_table_of_mem (f : Footage) {t : IndexTable}
    (h : t ∈ f.image.video.tables ++ f.image.audio.tables) :
    ∃ type items, t = table type items ∧ items.length ≤ f.records.length := by
  have hvideo := f.length_recordsOf_le .video
  have hkeys : f.keyRecords.length ≤ (f.recordsOf .video).length := List.length_filter_le _ _
  have hlength (kind : MediaKind) (column : FrameRecord → UInt32) :
      ((f.recordsOf kind).map column).length ≤ f.records.length := by
    rw [List.length_map]
    exact f.length_recordsOf_le kind
  simp only [TrackRecord.tables, image, track, List.mem_append, List.mem_cons, List.not_mem_nil,
    Option.toList_some, Option.toList_none, or_false, false_or] at h
  rcases h with (rfl | rfl | rfl | rfl) | (rfl | rfl | rfl)
  · exact ⟨_, _, rfl, hlength _ _⟩
  · refine ⟨_, _, rfl, ?_⟩
    rw [List.length_map]
    omega
  · exact ⟨_, _, rfl, hlength _ _⟩
  · exact ⟨_, _, rfl, hlength _ _⟩
  · exact ⟨_, _, rfl, hlength _ _⟩
  · exact ⟨_, _, rfl, hlength _ _⟩
  · exact ⟨_, _, rfl, hlength _ _⟩

namespace Lawful

theorem toNat_offset (hf : f.Lawful) {r : FrameRecord} (h : r ∈ f.records) :
    (UInt32.ofNat r.offset).toNat = r.offset := by
  rw [UInt32.toNat_ofNat', Nat.mod_eq_of_lt (hf.offset_fits r h)]

/-- A record has eight bytes at least, so that there is room for a table of all of them. -/
theorem length_records_lt (hf : f.Lawful) :
    Packet.headerSize + Packet.headerSize * f.records.length < 2 ^ 32 := by
  have hmedia := hf.media_fits
  have hrecords := f.length_records_le
  simp only [Recording.mediaDataHeaderSize, Packet.headerSize] at hmedia hrecords ⊢
  omega

theorem toNat_number (hf : f.Lawful) {r : FrameRecord} (h : r ∈ f.records) :
    (UInt32.ofNat r.number).toNat = r.number := by
  have hlt := number_lt h
  have hrecords := hf.length_records_lt
  rw [Packet.headerSize] at hrecords
  rw [UInt32.toNat_ofNat', Nat.mod_eq_of_lt (by omega)]

theorem toNat_size (hf : f.Lawful) {r : FrameRecord} (h : r ∈ f.records) :
    (UInt32.ofNat r.size).toNat = r.size := by
  have hle := size_le h
  have hmedia := hf.media_fits
  rw [UInt32.toNat_ofNat', Nat.mod_eq_of_lt (by omega)]

theorem contains_keyframe (hf : f.Lawful) {r : FrameRecord} (h : r ∈ f.recordsOf .video) :
    (f.track .video).frameTables.keyframeOffsets.contains (.ofNat r.offset) = r.marked := by
  have hr := (mem_records_of_mem h).1
  rw [Bool.eq_iff_iff, List.contains_iff_mem]
  show UInt32.ofNat r.offset ∈ f.keyRecords.map (fun r => .ofNat r.offset) ↔ _
  rw [List.mem_map]
  constructor
  · rintro ⟨k, hk, heq⟩
    obtain ⟨hkvideo, hmarked⟩ := List.mem_filter.mp hk
    have hkr := (mem_records_of_mem hkvideo).1
    -- offsets fit, so equal entries are of one place, and one place is of one record
    have hoffset : k.offset = r.offset := by
      rw [← hf.toNat_offset hkr, heq, hf.toNat_offset hr]
    rw [← eq_of_offset_eq hkr hr hoffset]
    exact hmarked
  · intro hmarked
    exact ⟨r, List.mem_filter.mpr ⟨h, hmarked⟩, rfl⟩

theorem frame?_eq (hf : f.Lawful) {r : FrameRecord} (h : r ∈ f.records) :
    ∃ isKeyframe, (f.track r.kind).frameTables.frame? r.number = some (r.frame isKeyframe) ∧
      (r.kind = .video → isKeyframe = r.marked) := by
  have hget := recordsOf_getElem? h
  have hcolumn {column : FrameRecord → UInt32} :
      ((f.recordsOf r.kind).map column)[r.number]? = some (column r) := by
    rw [List.getElem?_map, hget]
    rfl
  refine ⟨_, FrameTables.frame?_eq_some hcolumn hcolumn hcolumn, fun hvideo => ?_⟩
  rw [hvideo]
  apply hf.contains_keyframe
  exact List.mem_filter.mpr ⟨h, by simpa using hvideo⟩

theorem wellFormed (hf : f.Lawful) : f.image.WellFormed where
  uuid_length := hf.uuid_length
  uuid_text := hf.uuid_text
  extra_length := hf.extra_length
  mediaData_length := by
    have hsize := hf.media_fits
    simp only [image, Recording.mediaDataHeaderSize, List.length_append, hf.mediaType_length,
      UInt32.toNat_ofNat'] at hsize ⊢
    rw [Nat.mod_eq_of_lt (by omega)]
    omega
  video_keyframes := rfl
  audio_keyframes := rfl
  items_length := by
    intro t h
    obtain ⟨type, items, rfl, hlength⟩ := eq_table_of_mem f h
    have hrecords := hf.length_records_lt
    rw [Packet.headerSize] at hrecords
    show items.length < 2 ^ 32
    omega

theorem passes (hf : f.Lawful) : f.image.Passes {} where
  encryption := nofun
  tableSizes := by
    intro _ t h
    obtain ⟨type, items, rfl, hlength⟩ := eq_table_of_mem f h
    have hrecords := hf.length_records_lt
    rw [Packet.headerSize] at hrecords
    have hcount : (UInt32.ofNat items.length).toNat = items.length :=
      IndexTable.toNat_count (t := table type items) (show items.length < 2 ^ 32 by omega)
    show (UInt32.ofNat (IndexTable.expectedSize (.ofNat items.length))).toNat = _
    rw [UInt32.toNat_ofNat', Nat.mod_eq_of_lt]
    · rfl
    · rw [IndexTable.expectedSize, hcount, IndexTable.headerSize]
      omega
  index := nofun

end Lawful

end KalayRecord.Footage
