import KalayRecord.Proofs.CheckedReading
import KalayRecord.Proofs.RecordingExtent

namespace KalayRecord

open Reading MeasuredReader

namespace RecordingImage

def tables (x : RecordingImage) : List IndexTable := x.video.tables ++ x.audio.tables

/-- What opening the image comes to, checks in the order of their precedence. -/
def verdict (o : OpenOptions) (x : RecordingImage) : Except Error Recording :=
  if x.header.isEncrypted ∧ o.refuseEncrypted then .error (.encrypted x.header.encryptType)
  else IndexTable.refuseMisfit o.checkTableSizes x.tables <|
    if o.checkIndex then x.view.validate.map fun _ => x.view else .ok x.view

theorem WellFormed.length_tables {x : RecordingImage} (hw : x.WellFormed) : x.tables.length = 7 := by
  obtain ⟨keyframes, hk⟩ := Option.isSome_iff_exists.mp hw.video_keyframes
  simp [tables, TrackRecord.tables, hk, hw.audio_keyframes]

theorem verdict_of_encrypted {o : OpenOptions} (x : RecordingImage)
    (hrefuse : o.refuseEncrypted = true) (h : x.header.encryptType ≠ 0) :
    x.verdict o = .error (.encrypted x.header.encryptType) := by
  have hencrypted : x.header.isEncrypted = true := by
    simpa only [← Bool.not_eq_false, RecordingHeader.isEncrypted_eq_false] using h
  rw [verdict, if_pos ⟨hencrypted, hrefuse⟩]

theorem verdict_of_plain {o : OpenOptions} (x : RecordingImage)
    (h : o.refuseEncrypted = true → x.header.encryptType = 0) :
    x.verdict o = IndexTable.refuseMisfit o.checkTableSizes x.tables
      (if o.checkIndex then x.view.validate.map fun _ => x.view else .ok x.view) := by
  have hplain : o.refuseEncrypted = true → x.header.isEncrypted = false := fun hrefuse =>
    RecordingHeader.isEncrypted_eq_false.mpr (h hrefuse)
  rw [verdict, if_neg (RecordingHeader.not_refused hplain)]

end RecordingImage

namespace Recording

theorem readSections_gives (checkSizes : Bool) {x : RecordingImage} (hw : x.WellFormed) :
    Gives (readSections x.header checkSizes) x.encodeSections
      (IndexTable.refuseMisfit checkSizes x.tables (.ok x.view)) := by
  have hlength (t : IndexTable) (h : t ∈ x.tables) : t.items.length < 2 ^ 32 :=
    hw.items_length t h
  -- nothing is read behind the audio record, so that the rest is empty there
  rw [readSections, RecordingImage.encodeSections, ← List.append_nil x.audio.encode,
    RecordingImage.tables, ← List.append_nil x.audio.tables]
  apply Gives.field (Reads.uint32 _) rfl
  apply Gives.field (a := ()) (Reads.skip _ _) hw.mediaData_length
  apply Gives.field (Reads.uint32 _) rfl
  apply Gives.field (a := ()) (Reads.skip _ _) (toLittleEndian_length _ _)
  apply TrackRecord.read_bind_gives (by simp [hw.video_keyframes])
  · exact fun t h => hlength t (List.mem_append_left _ h)
  apply TrackRecord.read_bind_gives (by simp [hw.audio_keyframes])
  · exact fun t h => hlength t (List.mem_append_right _ h)
  exact Gives.of_reads (Reads.pure _) ⟨rfl, rfl⟩

theorem settle_comesTo (o : OpenOptions) (f : Recording) (b : Bytes) (p : Nat) :
    ComesTo (settle o f (ofBytes b p)) b f.firstFrameOffset
      (if o.checkIndex then f.validate.map fun _ => f else .ok f) := by
  simp only [settle, throw_bind]
  by_cases hcheck : o.checkIndex = true
  · rw [if_pos hcheck, if_pos hcheck]
    cases f.validate with
    | ok _ => rfl
    | error e => exact ⟨_, rfl⟩
  · rw [if_neg hcheck, if_neg hcheck]
    rfl

theorem read_comesTo (o : OpenOptions) {x : RecordingImage} (hw : x.WellFormed) (suffix : Bytes)
    (p : Nat) :
    ComesTo (read o (ofBytes (x.encode ++ suffix) p)) (x.encode ++ suffix) x.view.firstFrameOffset
      (x.verdict o) := by
  rw [read_eq, bind_of_ok (seek_ofBytes _ p 0), bind_of_ok (hw.read_header suffix),
    RecordingImage.verdict]
  by_cases hencrypted : x.header.isEncrypted = true ∧ o.refuseEncrypted = true
  · rw [if_pos hencrypted, if_pos hencrypted]
    exact ⟨_, rfl⟩
  · rw [if_neg hencrypted, if_neg hencrypted, bind_of_ok (seek_ofBytes _ _ _)]
    -- the index is checked behind all tables, so that a table that misfits has spoken before it
    have hsections := readSections_gives o.checkTableSizes hw (hw.drop_mediaDataOffset suffix)
    have hread : ComesTo ((readSections x.header o.checkTableSizes >>= settle o)
        (ofBytes (x.encode ++ suffix) x.header.mediaDataOffset)) (x.encode ++ suffix)
        x.view.firstFrameOffset (IndexTable.refuseMisfit o.checkTableSizes x.tables (.ok x.view) >>=
          fun f => if o.checkIndex then f.validate.map fun _ => f else .ok f) := by
      apply hsections.bind
      intro f hf
      rw [← IndexTable.eq_of_refuseMisfit hf]
      exact settle_comesTo o x.view _ _
    rw [IndexTable.refuseMisfit_bind] at hread
    exact hread

end Recording

namespace RecordingImage

/-- No image begins another one. -/
theorem WellFormed.eq_of_encode {x y : RecordingImage} {s t : Bytes} (hx : x.WellFormed)
    (hy : y.WellFormed) (h : x.encode ++ s = y.encode ++ t) : x = y := by
  obtain ⟨hvideo, haudio⟩ := fits_of_passes hx (Recording.passes_unchecked none x)
  obtain ⟨hvideo', haudio'⟩ := fits_of_passes hy (Recording.passes_unchecked none y)
  rw [encode_eq, encode_eq] at h
  simp only [encodeSections, List.append_assoc] at h
  -- from the left: what has been found equal tells how long the next two pieces are
  obtain ⟨hheader, hbytes, h⟩ := RecordingHeader.read_reads.unique h
    ⟨x.uuid, hx.uuid_length, hx.uuid_text, rfl⟩ ⟨y.uuid, hy.uuid_length, hy.uuid_text, rfl⟩
  have huuid : x.uuid = y.uuid := by
    rw [hheader] at hbytes
    simpa [RecordingHeader.encode] using hbytes
  have hextra : x.extra.length = y.extra.length := by
    rw [hx.extra_length, hy.extra_length, hheader]
  obtain ⟨hextra, h⟩ := List.append_inj h hextra
  obtain ⟨hsize, -, h⟩ := (Reads.uint32 "media data size").unique h rfl rfl
  have hmedia : x.mediaData.length = y.mediaData.length := by
    rw [hx.mediaData_length, hy.mediaData_length, hsize]
  obtain ⟨hmedia, h⟩ := List.append_inj h hmedia
  obtain ⟨hindexSize, -, h⟩ := (Reads.uint32 "index section size").unique h rfl rfl
  obtain ⟨hindexType, -, h⟩ := (Reads.uint32 "index section type").unique h rfl rfl
  obtain ⟨hvideo, -, h⟩ := (TrackRecord.read_reads .video false).unique h ⟨rfl, hvideo⟩ ⟨rfl, hvideo'⟩
  obtain ⟨haudio, -, -⟩ := (TrackRecord.read_reads .audio false).unique h ⟨rfl, haudio⟩ ⟨rfl, haudio'⟩
  cases x
  cases y
  simp_all

/-- The bytes begin with the image. -/
structure Begins (x : RecordingImage) (b : Bytes) : Prop where
  wellFormed : x.WellFormed
  encode_prefix : x.encode <+: b

theorem Begins.unique {x y : RecordingImage} {b : Bytes} (hx : x.Begins b) (hy : y.Begins b) :
    x = y := by
  obtain ⟨s, hs⟩ := hx.encode_prefix
  obtain ⟨t, ht⟩ := hy.encode_prefix
  exact hx.wellFormed.eq_of_encode hy.wellFormed (hs.trans ht.symm)

theorem WellFormed.tableSizes_iff {x : RecordingImage} (hw : x.WellFormed) :
    (∀ t ∈ x.video.tables ++ x.audio.tables,
      t.size.toNat = IndexTable.expectedSize (.ofNat t.items.length)) ↔
    ∀ t ∈ x.tables, t.sizeMatches = true := by
  have hiff (t : IndexTable) (h : t ∈ x.tables) :
      t.size.toNat = IndexTable.expectedSize (.ofNat t.items.length) ↔ t.sizeMatches = true := by
    rw [IndexTable.expectedSize_count (hw.items_length t h), IndexTable.sizeMatches, decide_eq_true_iff]
  exact forall₂_congr hiff

end RecordingImage

namespace Recording

/-- What opening a faithful stream over the bytes comes to. -/
def opened (o : OpenOptions) (b : Bytes) : Except Error Recording :=
  (openSource o (MemoryStream.ofBytes b)).map Prod.fst

theorem opened_encode (o : OpenOptions) {x : RecordingImage} (hw : x.WellFormed) (suffix : Bytes) :
    opened o (x.encode ++ suffix) = x.verdict o := by
  have hread := read_comesTo o hw suffix 0
  unfold opened openSource
  rw [ofSource_ofBytes]
  cases hverdict : x.verdict o with
  | ok f =>
    rw [hverdict] at hread
    rw [show read o (ofBytes (x.encode ++ suffix) 0) = _ from hread]
    rfl
  | error e =>
    rw [hverdict] at hread
    obtain ⟨r', hread⟩ := hread
    rw [hread]
    rfl

theorem opened_eq_ok {o : OpenOptions} {b : Bytes} {f : Recording} :
    opened o b = .ok f ↔ ∃ x : RecordingImage, x.Begins b ∧ x.Passes o ∧ x.view = f := by
  rw [opened, openSource_fst_eq_ok]
  constructor
  · rintro ⟨x, suffix, hw, hp, rfl, hview⟩
    exact ⟨x, ⟨hw, suffix, rfl⟩, hp, hview⟩
  · rintro ⟨x, ⟨hw, suffix, rfl⟩, hp, hview⟩
    exact ⟨x, suffix, hw, hp, rfl, hview⟩

theorem opened_of_begins (o : OpenOptions) {x : RecordingImage} {b : Bytes} (hx : x.Begins b) :
    opened o b = x.verdict o := by
  obtain ⟨suffix, rfl⟩ := hx.encode_prefix
  exact opened_encode o hx.wellFormed suffix

theorem opened_iff_unchecked (o : OpenOptions) (maxScan : Option UInt64) (b : Bytes)
    (f : Recording) :
    opened o b = .ok f ↔
      opened (unchecked maxScan) b = .ok f ∧
      (o.refuseEncrypted = true → f.header.encryptType = 0) ∧
      (o.checkTableSizes = true →
        ∀ x : RecordingImage, x.Begins b → ∀ t ∈ x.tables, t.sizeMatches = true) ∧
      (o.checkIndex = true → f.validate = .ok ()) := by
  rw [opened_eq_ok, opened_eq_ok]
  constructor
  · rintro ⟨x, hx, hp, rfl⟩
    refine ⟨⟨x, hx, passes_unchecked maxScan x, rfl⟩, fun hrefuse => ?_, fun hcheck y hy => ?_,
      hp.index⟩
    · exact RecordingHeader.isEncrypted_eq_false.mp (hp.encryption hrefuse)
    · rw [← hx.unique hy]
      exact hx.wellFormed.tableSizes_iff.mp (hp.tableSizes hcheck)
  · rintro ⟨⟨x, hx, -, rfl⟩, hencryption, htables, hindex⟩
    refine ⟨x, hx, ⟨fun hrefuse => ?_, fun hcheck => ?_, hindex⟩, rfl⟩
    · exact RecordingHeader.isEncrypted_eq_false.mpr (hencryption hrefuse)
    · exact hx.wellFormed.tableSizes_iff.mpr (htables hcheck x hx)

/-- Checks at opening only refuse. What opens with them opens without any as the same recording, and
opens with them if it keeps the rules that they check. What breaks the rules is refused for its
encryption, or else for the first table whose size field is off, or else as its index is refused. The
bound of the search for markers plays no part. -/
theorem checks_only_refuse (o : OpenOptions) (maxScan : Option UInt64) (b : Bytes) :
    (∀ f, opened o b = .ok f ↔
      opened (unchecked maxScan) b = .ok f ∧
      (o.refuseEncrypted = true → f.header.encryptType = 0) ∧
      (o.checkTableSizes = true →
        ∀ x : RecordingImage, x.Begins b → ∀ t ∈ x.tables, t.sizeMatches = true) ∧
      (o.checkIndex = true → f.validate = .ok ())) ∧
    (∀ f, opened (unchecked maxScan) b = .ok f →
      ∃ x : RecordingImage, x.Begins b ∧ (∀ y : RecordingImage, y.Begins b → y = x) ∧
        x.view = f ∧ x.tables.length = 7 ∧
        (o.refuseEncrypted = true → f.header.encryptType ≠ 0 →
          opened o b = .error (.encrypted f.header.encryptType)) ∧
        ((o.refuseEncrypted = true → f.header.encryptType = 0) →
          (∀ t, o.checkTableSizes = true → x.tables.find? (!·.sizeMatches) = some t →
            opened o b = .error (.malformedTable t.size (.ofNat t.items.length))) ∧
          ((o.checkTableSizes = true → ∀ t ∈ x.tables, t.sizeMatches = true) →
            ∀ e, o.checkIndex = true → f.validate = .error e → opened o b = .error e))) ∧
    ∀ scan, opened { o with maxScan := scan } b = opened o b := by
  refine ⟨opened_iff_unchecked o maxScan b, ?_, fun scan => rfl⟩
  intro f hf
  obtain ⟨x, hx, -, rfl⟩ := opened_eq_ok.mp hf
  refine ⟨x, hx, fun y hy => hy.unique hx, rfl, hx.wellFormed.length_tables, ?_, ?_⟩
  · intro hrefuse hencrypted
    rw [opened_of_begins o hx]
    exact x.verdict_of_encrypted hrefuse hencrypted
  · intro hencryption
    rw [opened_of_begins o hx, x.verdict_of_plain hencryption]
    constructor
    · intro t hcheck ht
      exact IndexTable.refuseMisfit_of_find? hcheck ht
    · intro htables e hcheck he
      rw [IndexTable.refuseMisfit_of_matches htables, if_pos hcheck, he]
      rfl

/-- A recording that breaks every rule that can be checked: it has an encryption type, the size fields
of two tables are off, and so are those of both track records. -/
def lawless : RecordingImage where
  header := { fileLength := 0, sectionType := 0, version := 1, encryptType := 1, uuid := "",
              channel := 0, createTime := 0, extraHeaderFlag := 0 }
  uuid := List.replicate 40 0
  extra := []
  mediaDataSize := 3
  mediaData := []
  indexSectionSize := 0
  indexSectionType := 0
  video := { size := 0, type := 0, codecByte := 0x4E, flag := 0, id := 1, firstTimestamp := 0,
             lastTimestamp := 0, timestamps := ⟨12, 0, []⟩, keyframes := some ⟨12, 0, []⟩,
             sizes := ⟨13, 0, []⟩, offsets := ⟨12, 0, []⟩ }
  audio := { size := 0, type := 0, codecByte := 0x86, flag := 0, id := 2, firstTimestamp := 0,
             lastTimestamp := 0, timestamps := ⟨99, 0, []⟩, keyframes := none,
             sizes := ⟨12, 0, []⟩, offsets := ⟨12, 0, []⟩ }

theorem lawless_begins : lawless.Begins (lawless.encode ++ [7]) where
  wellFormed :=
    { uuid_length := rfl
      uuid_text := by decide +kernel
      extra_length := rfl
      mediaData_length := rfl
      video_keyframes := rfl
      audio_keyframes := rfl
      items_length := by decide }
  encode_prefix := ⟨[7], rfl⟩

theorem lawless_refused :
    opened { checkIndex := true, refuseEncrypted := true } (lawless.encode ++ [7]) =
        .error (.encrypted 1) ∧
      opened { checkIndex := true } (lawless.encode ++ [7]) = .error (.malformedTable 13 0) ∧
      opened { checkTableSizes := false, checkIndex := true } (lawless.encode ++ [7]) =
        .error (.invalidIndex
          "video track record declares 0 bytes, header and tables occupy 68") ∧
      opened { checkTableSizes := false, maxScan := some 5 } (lawless.encode ++ [7]) =
        .ok lawless.view := by
  have hopen : opened (unchecked none) (lawless.encode ++ [7]) = .ok lawless.view :=
    opened_eq_ok.mpr ⟨lawless, lawless_begins, passes_unchecked none lawless, rfl⟩
  refine ⟨?_, ?_, ?_, ?_⟩
  · obtain ⟨-, hrefused, -⟩ :=
      checks_only_refuse { checkIndex := true, refuseEncrypted := true } none (lawless.encode ++ [7])
    obtain ⟨x, -, -, -, -, hencrypted, -⟩ := hrefused lawless.view hopen
    exact hencrypted rfl (by decide)
  · obtain ⟨-, hrefused, -⟩ :=
      checks_only_refuse { checkIndex := true } none (lawless.encode ++ [7])
    obtain ⟨x, -, hunique, -, -, -, hplain⟩ := hrefused lawless.view hopen
    rw [← hunique lawless lawless_begins] at hplain
    exact (hplain nofun).1 ⟨13, 0, []⟩ rfl (by decide)
  · obtain ⟨-, hrefused, -⟩ :=
      checks_only_refuse { checkTableSizes := false, checkIndex := true } none
        (lawless.encode ++ [7])
    obtain ⟨x, -, -, -, -, -, hplain⟩ := hrefused lawless.view hopen
    exact (hplain nofun).2 nofun _ rfl rfl
  · obtain ⟨haccepted, -⟩ :=
      checks_only_refuse { checkTableSizes := false, maxScan := some 5 } none
        (lawless.encode ++ [7])
    exact (haccepted lawless.view).mpr ⟨hopen, nofun, nofun, nofun⟩

end Recording

end KalayRecord
