import KalayRecord.RecordingImage
import KalayRecord.Proofs.FaithfulReading

namespace KalayRecord

open Reading

namespace IndexTable

/-- The count can be written, and the size field is that of the count where this is checked. -/
structure Fits (checkSize : Bool) (t : IndexTable) : Prop where
  count_lt : t.items.length < 2 ^ 32
  size_eq : checkSize = true → t.size.toNat = expectedSize (.ofNat t.items.length)

theorem toNat_count {t : IndexTable} (h : t.items.length < 2 ^ 32) :
    (UInt32.ofNat t.items.length).toNat = t.items.length := by
  rw [UInt32.toNat_ofNat', Nat.mod_eq_of_lt h]

theorem ofNat_count {t : IndexTable} {count : UInt32} (h : t.items.length = count.toNat) :
    UInt32.ofNat t.items.length = count := by
  rw [h, UInt32.ofNat_toNat]

/-- What follows the three numbers of a table header. -/
def readItems (checkSize : Bool) (size type count : UInt32) : Reading MemoryStream IndexTable := do
  let available ← remaining
  if available < 4 * count.toNat then
    throw (.truncatedInput "table items" (4 * count.toNat) available)
  else if checkSize ∧ size.toNat ≠ expectedSize count then throw (.malformedTable size count)
  else
    let items ← exactly (4 * count.toNat) "table items"
    return { size, type, items := words items }

theorem readItems_reads (checkSize : Bool) (size type count : UInt32) :
    Reads (readItems checkSize size type count) fun bytes t =>
      bytes = ofWords t.items ∧ t.size = size ∧ t.type = type ∧ t.items.length = count.toNat ∧
        t.Fits checkSize := by
  have hitems : Reads
      (do return ({ size, type, items := words (← exactly (4 * count.toNat) "table items") } :
        IndexTable)) fun bytes t =>
      bytes = ofWords t.items ∧ t.size = size ∧ t.type = type ∧ t.items.length = count.toNat := by
    refine ((Reads.exactly _ _).yield fun items => _).congr fun bytes t => ?_
    constructor
    · rintro ⟨_, ⟨hlen, rfl⟩, rfl⟩
      obtain ⟨hwords, hcount⟩ := ofWords_words hlen
      exact ⟨hwords.symm, rfl, rfl, hcount⟩
    · rintro ⟨rfl, rfl, rfl, hcount⟩
      refine ⟨ofWords t.items, ⟨?_, rfl⟩, ?_⟩
      · rw [ofWords_length, hcount]
      · rw [words_ofWords]
  -- the first check of the length asks for no more than the items then take
  refine (Reads.ensure _ (.check _ hitems) ?_).congr ?_
  · rintro _ t ⟨-, rfl, -, -, hcount⟩
    exact Nat.le_of_eq (by rw [ofWords_length, hcount])
  intro bytes t
  constructor
  · rintro ⟨hsize, hbytes, rfl, rfl, hcount⟩
    have hlt : t.items.length < 2 ^ 32 := hcount ▸ count.toNat_lt
    refine ⟨hbytes, rfl, rfl, hcount, hlt, fun hcheck => ?_⟩
    rw [ofNat_count hcount]
    exact Decidable.not_not.mp fun hne => hsize ⟨hcheck, hne⟩
  · rintro ⟨hbytes, rfl, rfl, hcount, hfits⟩
    refine ⟨?_, hbytes, rfl, rfl, hcount⟩
    rintro ⟨hcheck, hne⟩
    exact hne (ofNat_count hcount ▸ hfits.size_eq hcheck)

theorem read_reads (checkSize : Bool) :
    Reads (read checkSize) fun bytes t => bytes = t.encode ∧ t.Fits checkSize := by
  simp only [read, throw_bind]
  refine ((Reads.uint32 _).field fun size => (Reads.uint32 _).field fun type =>
    (Reads.uint32 _).field fun count => readItems_reads checkSize size type count).congr
    fun bytes t => ?_
  simp only [encode, List.append_assoc]
  constructor
  · intro h
    obtain ⟨size, _, rfl, h⟩ := h
    obtain ⟨type, _, rfl, h⟩ := h
    obtain ⟨count, _, rfl, h⟩ := h
    obtain ⟨rfl, rfl, rfl, hcount, hfits⟩ := h
    rw [hcount]
    exact ⟨rfl, hfits⟩
  · rintro ⟨rfl, hfits⟩
    have hcount := toNat_count hfits.count_lt
    refine ⟨t.size, _, rfl, ?_⟩
    refine ⟨t.type, _, rfl, ?_⟩
    refine ⟨.ofNat t.items.length, ofWords t.items, ?_, ?_⟩
    · rw [hcount]
    · exact ⟨rfl, rfl, rfl, hcount.symm, hfits⟩

end IndexTable

namespace TrackRecord

/-- The record has the tables of its kind, and each of them fits. -/
structure Fits (kind : MediaKind) (checkSizes : Bool) (t : TrackRecord) : Prop where
  keyframes_isSome : t.keyframes.isSome ↔ kind = .video
  tables_fit : ∀ table ∈ t.tables, table.Fits checkSizes

/-- A keyframe table in a video record, and nothing in an audio record. -/
def readKeyframes (kind : MediaKind) (checkSizes : Bool) :
    Reading MemoryStream (Option IndexTable) :=
  match kind with
  | .video => some <$> IndexTable.read checkSizes
  | .audio => pure none

theorem readKeyframes_reads (kind : MediaKind) (checkSizes : Bool) :
    Reads (readKeyframes kind checkSizes) fun bytes keyframes =>
      bytes = keyframes.toList.flatMap IndexTable.encode ∧ (keyframes.isSome ↔ kind = .video) ∧
        ∀ table ∈ keyframes.toList, table.Fits checkSizes := by
  cases kind with
  | video =>
    refine ((IndexTable.read_reads checkSizes).map some).congr fun bytes keyframes => ?_
    constructor
    · rintro ⟨table, ⟨rfl, hfits⟩, rfl⟩
      simpa using hfits
    · rintro ⟨rfl, hsome, hfits⟩
      obtain ⟨table, rfl⟩ := Option.isSome_iff_exists.mp (hsome.mpr rfl)
      exact ⟨table, ⟨by simp, hfits table (by simp)⟩, rfl⟩
  | audio =>
    refine (Reads.pure none).congr fun bytes keyframes => ?_
    cases keyframes <;> simp

theorem fits_iff {kind : MediaKind} {checkSizes : Bool} {t : TrackRecord} :
    t.Fits kind checkSizes ↔ t.timestamps.Fits checkSizes ∧
      ((t.keyframes.isSome ↔ kind = .video) ∧ ∀ table ∈ t.keyframes.toList, table.Fits checkSizes) ∧
        t.sizes.Fits checkSizes ∧ t.offsets.Fits checkSizes := by
  have htables : (∀ table ∈ t.tables, table.Fits checkSizes) ↔ t.timestamps.Fits checkSizes ∧
      (∀ table ∈ t.keyframes.toList, table.Fits checkSizes) ∧ t.sizes.Fits checkSizes ∧
        t.offsets.Fits checkSizes := by
    rw [tables, List.forall_mem_cons, List.forall_mem_append, List.forall_mem_cons,
      List.forall_mem_singleton]
  constructor
  · rintro ⟨hsome, hfits⟩
    obtain ⟨htimestamps, hkeyframes, hrest⟩ := htables.mp hfits
    exact ⟨htimestamps, ⟨hsome, hkeyframes⟩, hrest⟩
  · rintro ⟨htimestamps, ⟨hsome, hkeyframes⟩, hrest⟩
    exact ⟨hsome, htables.mpr ⟨htimestamps, hkeyframes, hrest⟩⟩

theorem read_eq (kind : MediaKind) (checkSizes : Bool) :
    (read kind checkSizes : Reading MemoryStream TrackRecord) = (do
      let size ← uint32 "track size"
      let type ← uint32 "track type"
      let codecByte ← uint8 "codec id"
      let flag ← uint8 "track flag"
      let id ← uint16 "track id"
      let firstTimestamp ← uint32 "first timestamp"
      let lastTimestamp ← uint32 "last timestamp"
      let timestamps ← IndexTable.read checkSizes
      let keyframes ← readKeyframes kind checkSizes
      let sizes ← IndexTable.read checkSizes
      let offsets ← IndexTable.read checkSizes
      return { size, type, codecByte, flag, id, firstTimestamp, lastTimestamp,
               timestamps, keyframes, sizes, offsets }) := by
  cases kind <;> rfl

theorem read_reads (kind : MediaKind) (checkSizes : Bool) :
    Reads (read kind checkSizes) fun bytes t => bytes = t.encode ∧ t.Fits kind checkSizes := by
  have htable := IndexTable.read_reads checkSizes
  rw [read_eq]
  refine ((Reads.uint32 _).field fun size => (Reads.uint32 _).field fun type =>
    (Reads.uint8 _).field fun codecByte => (Reads.uint8 _).field fun flag =>
    (Reads.uint16 _).field fun id => (Reads.uint32 _).field fun first =>
    (Reads.uint32 _).field fun last => htable.part fun timestamps =>
    (readKeyframes_reads kind checkSizes).part fun keyframes => htable.part fun sizes =>
    htable.yield fun offsets => _).congr fun bytes t => ?_
  simp only [encode, tables, List.append_assoc, List.flatMap_cons, List.flatMap_append,
    List.flatMap_nil, List.append_nil]
  rw [fits_iff]
  constructor
  · intro h
    obtain ⟨size, _, rfl, h⟩ := h
    obtain ⟨type, _, rfl, h⟩ := h
    obtain ⟨codecByte, _, rfl, h⟩ := h
    obtain ⟨flag, _, rfl, h⟩ := h
    obtain ⟨id, _, rfl, h⟩ := h
    obtain ⟨first, _, rfl, h⟩ := h
    obtain ⟨last, _, rfl, h⟩ := h
    obtain ⟨timestamps, _, rfl, htimestamps, h⟩ := h
    obtain ⟨keyframes, _, rfl, hkeyframes, h⟩ := h
    obtain ⟨sizes, _, rfl, hsizes, h⟩ := h
    obtain ⟨offsets, ⟨rfl, hoffsets⟩, rfl⟩ := h
    exact ⟨rfl, htimestamps, hkeyframes, hsizes, hoffsets⟩
  · rintro ⟨rfl, htimestamps, hkeyframes, hsizes, hoffsets⟩
    refine ⟨t.size, _, rfl, ?_⟩
    refine ⟨t.type, _, rfl, ?_⟩
    refine ⟨t.codecByte, _, rfl, ?_⟩
    refine ⟨t.flag, _, rfl, ?_⟩
    refine ⟨t.id, _, rfl, ?_⟩
    refine ⟨t.firstTimestamp, _, rfl, ?_⟩
    refine ⟨t.lastTimestamp, _, rfl, ?_⟩
    refine ⟨t.timestamps, _, rfl, htimestamps, ?_⟩
    refine ⟨t.keyframes, _, rfl, hkeyframes, ?_⟩
    refine ⟨t.sizes, _, rfl, hsizes, ?_⟩
    exact ⟨t.offsets, ⟨rfl, hoffsets⟩, rfl⟩

end TrackRecord

namespace RecordingHeader

theorem read_reads :
    Reads read fun bytes h => ∃ uuid : Bytes,
      uuid.length = uuidSize ∧ h.uuid = uuidText uuid ∧ bytes = h.encode uuid := by
  simp only [read, throw_bind]
  refine ((Reads.exactly _ _).bind fun found => .check _ <|
    (Reads.uint32 _).field fun fileLength => (Reads.uint32BigEndian _).field fun sectionType =>
    (Reads.uint32 _).field fun version => (Reads.uint32BigEndian _).field fun encryptType =>
    (Reads.exactly _ _).bind fun uuid => (Reads.uint32 _).field fun channel =>
    (Reads.uint64 _).field fun createTime => (Reads.uint8 _).yield fun extraHeaderFlag => _).congr
    fun bytes h => ?_
  simp only [encode, List.append_assoc]
  constructor
  · intro h
    obtain ⟨_, _, found, rfl, ⟨-, rfl⟩, hmagic, h⟩ := h
    obtain rfl : found = magic := Decidable.not_not.mp hmagic
    obtain ⟨fileLength, _, rfl, h⟩ := h
    obtain ⟨sectionType, _, rfl, h⟩ := h
    obtain ⟨version, _, rfl, h⟩ := h
    obtain ⟨encryptType, _, rfl, h⟩ := h
    obtain ⟨_, _, uuid, rfl, ⟨hlen, rfl⟩, h⟩ := h
    obtain ⟨channel, _, rfl, h⟩ := h
    obtain ⟨createTime, _, rfl, h⟩ := h
    obtain ⟨extraHeaderFlag, rfl, rfl⟩ := h
    exact ⟨uuid, hlen, rfl, rfl⟩
  · rintro ⟨uuid, hlen, htext, rfl⟩
    refine ⟨magic, _, magic, rfl, ⟨rfl, rfl⟩, fun hne => hne rfl, ?_⟩
    refine ⟨h.fileLength, _, rfl, ?_⟩
    refine ⟨h.sectionType, _, rfl, ?_⟩
    refine ⟨h.version, _, rfl, ?_⟩
    refine ⟨h.encryptType, _, rfl, ?_⟩
    refine ⟨uuid, _, uuid, rfl, ⟨hlen, rfl⟩, ?_⟩
    refine ⟨h.channel, _, rfl, ?_⟩
    refine ⟨h.createTime, _, rfl, ?_⟩
    refine ⟨h.extraHeaderFlag, rfl, ?_⟩
    rw [← htext]

theorem length_encode (h : RecordingHeader) {uuid : Bytes} (hlen : uuid.length = uuidSize) :
    (h.encode uuid).length = size := by
  simp [encode, hlen, size, uuidSize]

end RecordingHeader

end KalayRecord
