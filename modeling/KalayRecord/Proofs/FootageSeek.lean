import KalayRecord.Proofs.FootagePlayback
import KalayRecord.Proofs.KeyframeSearch

namespace KalayRecord

open Reading MeasuredReader

namespace Footage

/-- The keyframe that a time leads to: the last that is not behind the first video frame at or after
the time, or else the first of all. -/
def landing? (f : Footage) (time : Int) : Option FrameRecord :=
  ((f.recordsOf .video).find? fun r => time ≤ r.timestamp.toNat).bind fun first =>
    (f.keyRecords.filter (·.number ≤ first.number)).getLast?.or f.keyRecords.head?

variable {f : Footage}

theorem mem_records_of_mem_keyRecords {k : FrameRecord} (h : k ∈ f.keyRecords) :
    k ∈ f.records ∧ k.kind = .video ∧ k.marked = true := by
  obtain ⟨hvideo, hmarked⟩ := List.mem_filter.mp h
  obtain ⟨hmem, hkind⟩ := mem_records_of_mem hvideo
  exact ⟨hmem, hkind, hmarked⟩

theorem offset_lt_of_number_lt {kind : MediaKind} {r r' : FrameRecord}
    (h : r ∈ f.recordsOf kind) (h' : r' ∈ f.recordsOf kind) (hlt : r.number < r'.number) :
    r.offset < r'.offset := by
  obtain ⟨hr, hkind⟩ := mem_records_of_mem h
  obtain ⟨hr', hkind'⟩ := mem_records_of_mem h'
  have hget := recordsOf_getElem? hr
  have hget' := recordsOf_getElem? hr'
  rw [hkind] at hget
  rw [hkind'] at hget'
  obtain ⟨hi, heq⟩ := List.getElem?_eq_some_iff.mp hget
  obtain ⟨hj, heq'⟩ := List.getElem?_eq_some_iff.mp hget'
  have hpairwise : (f.recordsOf kind).Pairwise fun r r' => r.offset < r'.offset :=
    f.pairwise_records.filter _
  have hoffset := List.pairwise_iff_getElem.mp hpairwise r.number r'.number hi hj hlt
  rwa [heq, heq'] at hoffset

theorem offset_le_iff {kind : MediaKind} {r r' : FrameRecord} (h : r ∈ f.recordsOf kind)
    (h' : r' ∈ f.recordsOf kind) : r.offset ≤ r'.offset ↔ r.number ≤ r'.number := by
  obtain ⟨hr, hkind⟩ := mem_records_of_mem h
  obtain ⟨hr', hkind'⟩ := mem_records_of_mem h'
  constructor
  · intro hle
    by_cases hlt : r'.number < r.number
    · have := offset_lt_of_number_lt h' h hlt
      omega
    · omega
  · intro hle
    rcases Nat.eq_or_lt_of_le hle with heq | hlt
    · have hget := recordsOf_getElem? hr
      rw [hkind, ← hkind', heq, recordsOf_getElem? hr'] at hget
      cases hget
      exact Nat.le_refl _
    · exact Nat.le_of_lt (offset_lt_of_number_lt h h' hlt)

namespace Lawful

theorem frames_eq (hf : f.Lawful) :
    f.image.view.video.index.frames.toList =
      (f.recordsOf .video).map fun r => r.frame r.marked := by
  apply List.ext_getElem?
  intro i
  rw [Array.getElem?_toList, List.getElem?_map]
  show (f.track .video).frameTables.build.frames[i]? = _
  rw [FrameTables.build_getElem?]
  cases hi : (f.recordsOf .video)[i]? with
  | some r =>
    obtain ⟨hr, hkind⟩ := mem_records_of_mem (List.mem_of_getElem? hi)
    obtain ⟨isKeyframe, hframe, hmark⟩ := hf.frame?_eq hr
    have hnumber := Shot.number_recordsFrom hi
    rw [Nat.zero_add] at hnumber
    rw [hkind, hnumber, hmark hkind] at hframe
    exact hframe
  | none =>
    have htimestamp : (f.track .video).frameTables.timestamps[i]? = none := by
      show ((f.recordsOf .video).map (·.timestamp))[i]? = none
      rw [List.getElem?_map, hi]
      rfl
    rw [FrameTables.frame?, htimestamp]
    rfl

theorem keyframeOffsets_eq (f : Footage) :
    f.image.view.video.index.keyframeOffsets.toList =
      f.keyRecords.map fun r => .ofNat r.offset := rfl

theorem keyframeOffsets_sorted (hf : f.Lawful) :
    f.image.view.video.index.keyframeOffsets.toList.Pairwise (· ≤ ·) := by
  rw [keyframeOffsets_eq, List.pairwise_map]
  have hpairwise : f.keyRecords.Pairwise fun r r' => r.offset < r'.offset :=
    (f.pairwise_records.filter _).filter _
  apply hpairwise.imp_of_mem
  intro r r' h h' hlt
  rw [UInt32.le_iff_toNat_le, hf.toNat_offset (mem_records_of_mem_keyRecords h).1,
    hf.toNat_offset (mem_records_of_mem_keyRecords h').1]
  exact Nat.le_of_lt hlt

/-- The searches in the index find the landing. -/
theorem keyframeFor_eq (hf : f.Lawful)
    (hsorted : (f.recordsOf .video).Pairwise fun r r' => r.timestamp ≤ r'.timestamp) {time : Int}
    {key : FrameRecord} (h : f.landing? time = some key) :
    f.image.view.video.index.keyframeFor time = .ok (.ofNat key.offset) := by
  obtain ⟨first, hfirst, hkey⟩ := Option.bind_eq_some_iff.mp h
  have hframes : f.image.view.video.index.frames.toList.Pairwise
      fun r r' => r.timestamp ≤ r'.timestamp := by
    rw [hf.frames_eq, List.pairwise_map]
    exact hsorted
  -- the table is searched by offset, the landing is told by number: both order the video alike
  have hfilter : f.image.view.video.index.keyframeOffsets.toList.filter
      (· ≤ UInt32.ofNat first.offset) =
      (f.keyRecords.filter (·.number ≤ first.number)).map fun r => .ofNat r.offset := by
    have hmem := List.mem_of_find?_eq_some hfirst
    rw [keyframeOffsets_eq, List.filter_map]
    congr 1
    apply List.filter_congr
    intro k hk
    have hvideo := (List.mem_filter.mp hk).1
    rw [Function.comp_apply, decide_eq_decide, UInt32.le_iff_toNat_le,
      hf.toNat_offset (mem_records_of_mem hvideo).1, hf.toNat_offset (mem_records_of_mem hmem).1]
    exact offset_le_iff hvideo hmem
  have hfind : f.image.view.video.index.frames.toList.find?
      (fun frame => time ≤ frame.timestamp.toNat) = some (first.frame first.marked) := by
    rw [hf.frames_eq, List.find?_map]
    exact congrArg (Option.map _) hfirst
  rw [FrameIndex.keyframeFor_eq hframes hf.keyframeOffsets_sorted, hfind, keyframeOffsets_eq,
    List.head?_map]
  cases hhead : f.keyRecords.head? with
  | none =>
    rw [List.head?_eq_none_iff.mp hhead] at hkey
    cases hkey
  | some head =>
    show Except.ok ((f.image.view.video.index.keyframeOffsets.toList.filter
      (· ≤ UInt32.ofNat first.offset)).getLast?.getD (.ofNat head.offset)) = _
    rw [hfilter, List.getLast?_map]
    cases hlast : (f.keyRecords.filter (·.number ≤ first.number)).getLast? with
    | none =>
      rw [hlast, hhead] at hkey
      cases hkey
      rfl
    | some last =>
      rw [hlast] at hkey
      cases hkey
      rfl

end Lawful

theorem mem_keyRecords_of_landing? {time : Int} {key : FrameRecord}
    (h : f.landing? time = some key) : key ∈ f.keyRecords := by
  obtain ⟨first, -, hkey⟩ := Option.bind_eq_some_iff.mp h
  rcases Option.or_eq_some_iff.mp hkey with hlast | ⟨-, hhead⟩
  · exact (List.mem_filter.mp (List.mem_of_getLast? hlast)).1
  · exact List.mem_of_head? hhead

theorem exists_landing {time : Int} {last : FrameRecord} (hkeys : f.keyRecords ≠ [])
    (hlast : (f.recordsOf .video).getLast? = some last) (htime : time ≤ last.timestamp.toNat) :
    ∃ key, f.landing? time = some key := by
  have hmem := List.mem_of_getLast? hlast
  obtain ⟨first, hfirst⟩ : ∃ first, (f.recordsOf .video).find?
      (fun r => time ≤ r.timestamp.toNat) = some first := by
    apply Option.isSome_iff_exists.mp
    rw [List.find?_isSome]
    exact ⟨last, hmem, decide_eq_true htime⟩
  obtain ⟨head, hhead⟩ : ∃ head, f.keyRecords.head? = some head := by
    apply Option.isSome_iff_exists.mp
    cases hhead : f.keyRecords with
    | nil => exact absurd hhead hkeys
    | cons head keys => rfl
  rw [landing?, hfirst, hhead]
  cases hfilter : (f.keyRecords.filter (·.number ≤ first.number)).getLast? with
  | none =>
    refine ⟨head, ?_⟩
    rw [Option.bind_some, hfilter]
    rfl
  | some key =>
    refine ⟨key, ?_⟩
    rw [Option.bind_some, hfilter]
    rfl

/-- What comes of a seek that goes to a keyframe with the records `later` behind it. -/
structure SeeksTo (f : Footage) (d : Demuxer MemoryStream) (stream : Nat) (time : Int64)
    (key : FrameRecord) (later : List FrameRecord) : Prop where
  offset_eq : (d.seek stream time).1 = .ok key.offset
  packet_eq : (d.seek stream time).2.readPacket.1 =
    .ok (key.packet (f.settings .video).firstTimestamp)
  kind_eq : (key.packet (f.settings .video).firstTimestamp).kind = .video
  isKeyframe : (key.packet (f.settings .video).firstTimestamp).isKeyframe = true
  recordOffset_eq :
    (key.packet (f.settings .video).firstTimestamp).recordOffset.toNat = key.offset
  run_eq : (PacketRun.drain { demuxer := (d.seek stream time).2 }).1 =
    (key :: later).map fun r => .ok (r.packet (f.settings .video).firstTimestamp)

theorem Lawful.seeksTo (hf : f.Lawful)
    (hsorted : (f.recordsOf .video).Pairwise fun r r' => r.timestamp ≤ r'.timestamp)
    {time : Int64} {target : Int} {key : FrameRecord} {before later : List FrameRecord}
    (htarget : Demuxer.saturatingSum time.toInt (f.settings .video).firstTimestamp.toNat = target)
    (hkey : f.landing? target = some key) (hrecords : f.records = before ++ key :: later)
    (stream p n : Nat) : f.SeeksTo (f.openedAt p n) stream time key later := by
  obtain ⟨hmem, hkind, hmarked⟩ := mem_records_of_mem_keyRecords (mem_keyRecords_of_landing? hkey)
  have hsearch : f.image.view.video.index.keyframeFor
      (Demuxer.saturatingSum time.toInt (f.settings .video).firstTimestamp.toNat) =
        .ok (.ofNat key.offset) := by
    rw [htarget]
    exact hf.keyframeFor_eq hsorted hkey
  have hseek : (f.openedAt p n).seek stream time = (.ok key.offset, f.openedAt key.offset n) := by
    have hto := Demuxer.seek_ofBytes (b := f.image.encode) (o := {}) p n stream hsearch
    rw [hf.toNat_offset hmem] at hto
    exact hto
  -- the records behind the keyframe are ahead of the cursor now, without the gap before it
  have hahead := hf.ahead
  rw [hrecords] at hahead
  have hahead := hahead.at_offset
  have hstart : f.image.view.mediaDataOffset ≤ key.offset := by
    have hle := Shot.le_offset_recordsFrom hmem
    rw [start] at hle
    exact Nat.le_of_add_right_le hle
  obtain ⟨isKeyframe, hindexed⟩ := hf.indexed hmem
  have hnext := (hahead.readNext_record hindexed (f.mediaDataEnd_sub_le hstart)).1
  have hread := Demuxer.readPacket_ofBytes_of_ok (n := n) hnext
  have hlater : ∀ r ∈ key :: later, r ∈ f.records := by
    intro r hr
    rw [hrecords]
    exact List.mem_append_right _ hr
  have hdrain := hf.drain_ahead (n := n) hstart hahead hlater
  constructor
  · rw [hseek]
  · rw [hseek]
    exact congrArg Prod.fst hread
  · exact hkind
  · exact decide_eq_true ⟨hkind, hmarked⟩
  · exact hf.toNat_offset hmem
  · rw [hseek]
    exact congrArg Prod.fst hdrain

/-- From every state, seeking to a time up to the last video timestamp goes to the keyframe that the
time leads to. The next packet is that of this keyframe, and a run hands out the frames from there
to the end of the file. -/
theorem seek_then_drain (f : Footage) (hf : f.Lawful)
    (hsorted : (f.recordsOf .video).Pairwise fun r r' => r.timestamp ≤ r'.timestamp)
    (hkeys : f.keyRecords ≠ []) (ops : List Operation) (stream : Nat) (time : Int64)
    (last : FrameRecord) (hlast : (f.recordsOf .video).getLast? = some last)
    (htime : time.toInt + (f.settings .video).firstTimestamp.toNat ≤ last.timestamp.toNat) :
    ∃ d key before later,
      Demuxer.openSource {} (MemoryStream.ofBytes f.image.encode) = .ok d ∧
      f.landing? (time.toInt + (f.settings .video).firstTimestamp.toNat) = some key ∧
      f.records = before ++ key :: later ∧
      f.SeeksTo (d.performAll ops).2 stream time key later := by
  obtain ⟨key, hkey⟩ := exists_landing hkeys hlast htime
  obtain ⟨hmem, -, -⟩ := mem_records_of_mem_keyRecords (mem_keyRecords_of_landing? hkey)
  obtain ⟨before, later, hrecords⟩ := List.append_of_mem hmem
  have htarget : Demuxer.saturatingSum time.toInt (f.settings .video).firstTimestamp.toNat =
      time.toInt + (f.settings .video).firstTimestamp.toNat := by
    have hlt := last.timestamp.toNat_lt
    have hmax : (2 : Int) ^ 32 ≤ Int64.maxValue.toInt := by decide
    apply Demuxer.saturatingSum_eq time.minValue_le_toInt
    · omega
    · omega
  obtain ⟨p, n, hstate⟩ := Demuxer.performAll_ofBytes (b := f.image.encode) (x := f.image.view)
    (o := {}) f.start 0 ops
  refine ⟨f.openedAt f.start 0, key, before, later, hf.openSource_eq, hkey, hrecords, ?_⟩
  rw [openedAt, hstate]
  exact hf.seeksTo hsorted htarget hkey hrecords stream p n

theorem sample_seek :
    sample.Lawful ∧
      (sample.recordsOf .video).Pairwise (fun r r' => r.timestamp ≤ r'.timestamp) ∧
      ∃ d key before later,
        Demuxer.openSource {} (MemoryStream.ofBytes sample.image.encode) = .ok d ∧
        sample.landing? 1030 = some key ∧
        sample.records = before ++ key :: later ∧
        sample.SeeksTo (d.performAll [.readPacket, .seek 0 99, .packets 2]).2 1 30 key later := by
  have hsorted : (sample.recordsOf .video).Pairwise fun r r' => r.timestamp ≤ r'.timestamp := by
    decide
  obtain ⟨last, hlast, htime⟩ : ∃ last, (sample.recordsOf .video).getLast? = some last ∧
      last.timestamp = 1040 := ⟨_, rfl, rfl⟩
  have htarget : (30 : Int64).toInt + (sample.settings .video).firstTimestamp.toNat = 1030 := by
    decide
  have hseek := sample.seek_then_drain sample_lawful hsorted (by decide)
    [.readPacket, .seek 0 99, .packets 2] 1 30 last hlast (by rw [htarget, htime]; decide)
  rw [htarget] at hseek
  exact ⟨sample_lawful, hsorted, hseek⟩

end Footage

end KalayRecord
