import KalayRecord.Proofs.Footage
import KalayRecord.Proofs.DemuxerSteps

namespace KalayRecord

open Reading MeasuredReader

namespace FrameRecord

/-- The index of a recording leads from an id and the number of a record to that record. -/
structure Indexed (x : Recording) (id : UInt16) (r : FrameRecord) (track : Track)
    (isKeyframe : Bool) : Prop where
  trackById : x.trackById? id = some track
  kind_eq : track.kind = r.kind
  get : track.index.get? (.ofNat r.number) = some (r.frame isKeyframe)
  mark : r.kind = .video → isKeyframe = r.marked
  toNat_number : (UInt32.ofNat r.number).toNat = r.number
  toNat_size : (UInt32.ofNat r.size).toNat = r.size

variable {x : Recording} {o : OpenOptions} {b after : Bytes} {id : UInt16} {r : FrameRecord}
  {track : Track} {isKeyframe : Bool}

/-- The header of a record: the marker, an id and a number. -/
def header (id : UInt16) (number : Nat) : Bytes :=
  marker ++ toLittleEndian 2 id.toNat ++ toLittleEndian 4 number

@[simp] theorem length_header (id : UInt16) (number : Nat) :
    (header id number).length = Packet.headerSize := by
  simp [header, marker, Packet.headerSize]

theorem encode_eq (r : FrameRecord) (id : UInt16) : r.encode id = header id r.number ++ r.payload :=
  rfl

theorem read_header {number : UInt32} {p : Nat}
    (hb : b.drop p = header id number.toNat ++ after) :
    Reading.uint16 "frame track id" (ofBytes b (p + marker.length)) =
        .ok id (ofBytes b (p + marker.length + 2)) ∧
      Reading.uint32 "frame index" (ofBytes b (p + marker.length + 2)) =
        .ok number (ofBytes b (p + Packet.headerSize)) := by
  rw [header, List.append_assoc, List.append_assoc] at hb
  have hid := drop_of_append hb
  have hnumber := drop_of_append hid
  rw [toLittleEndian_length] at hnumber
  exact ⟨(Reads.uint16 _).of_drop hid rfl, (Reads.uint32 _).of_drop hnumber rfl⟩

theorem ofFrame_eq (hx : r.Indexed x id track isKeyframe) :
    Packet.ofFrame x track (.ofNat r.number) (r.frame isKeyframe) (r.offset + Packet.headerSize)
      r.payload = r.packet x.video.firstTimestamp := by
  have hmark : (decide (track.kind = .video ∧ isKeyframe = true)) =
      decide (r.kind = .video ∧ r.marked = true) := by
    rw [hx.kind_eq, decide_eq_decide]
    constructor
    · rintro ⟨hkind, hkey⟩
      exact ⟨hkind, hx.mark hkind ▸ hkey⟩
    · rintro ⟨hkind, hkey⟩
      exact ⟨hkind, (hx.mark hkind).symm ▸ hkey⟩
  unfold Packet.ofFrame packet frame
  dsimp only
  rw [hmark, hx.kind_eq]

theorem readFrame_eq (hx : r.Indexed x id track isKeyframe)
    (hb : b.drop r.offset = r.encode id ++ after) :
    Packet.readFrame x r.offset (ofBytes b (r.offset + marker.length)) =
      .ok (r.packet x.video.firstTimestamp) (ofBytes b (r.offset + r.size)) := by
  rw [encode_eq, ← hx.toNat_number, List.append_assoc] at hb
  obtain ⟨hreadId, hreadNumber⟩ := read_header hb
  have hpayload := drop_of_append hb
  rw [length_header] at hpayload
  have hreadPayload := (Reads.exactly r.payload.length "frame payload").of_drop hpayload ⟨rfl, rfl⟩
  have hsize : Packet.payloadSize (r.frame isKeyframe) = r.payload.length := by
    rw [Packet.payloadSize, frame, hx.toNat_size, size, Nat.add_sub_cancel_left]
  have havailable := length_le_of_drop hpayload
  simp only [Packet.readFrame, throw_bind]
  rw [bind_of_ok hreadId, bind_of_ok hreadNumber]
  simp only [hx.trackById, hx.get]
  rw [bind_of_ok (position_apply _), bind_of_ok (remaining_apply _), remaining_ofBytes, hsize,
    if_neg (by omega), bind_of_ok hreadPayload, position_ofBytes, ofFrame_eq hx, Nat.add_assoc]
  rfl

theorem readFrame_of_unknown {number : UInt32} {p : Nat} (hid : x.trackById? id = none)
    (hb : b.drop p = header id number.toNat ++ after) :
    Packet.readFrame x p (ofBytes b (p + marker.length)) =
      .error (.unknownTrack id p) (ofBytes b (p + Packet.headerSize)) := by
  obtain ⟨hreadId, hreadNumber⟩ := read_header hb
  simp only [Packet.readFrame, throw_bind]
  rw [bind_of_ok hreadId, bind_of_ok hreadNumber]
  simp only [hid]
  rfl

theorem readFrame_of_outOfRange {number : UInt32} {p : Nat} (hid : x.trackById? id = some track)
    (hnumber : track.index.size ≤ number.toNat)
    (hb : b.drop p = header id number.toNat ++ after) :
    Packet.readFrame x p (ofBytes b (p + marker.length)) =
      .error (.indexOutOfRange number track.index.size) (ofBytes b (p + Packet.headerSize)) := by
  obtain ⟨hreadId, hreadNumber⟩ := read_header hb
  have hget : track.index.get? number = none := Array.getElem?_eq_none hnumber
  simp only [Packet.readFrame, throw_bind]
  rw [bind_of_ok hreadId, bind_of_ok hreadNumber]
  simp only [hid, hget]
  rfl

end FrameRecord

namespace Packet

variable {x : Recording} {o : OpenOptions} {b : Bytes} {p : Nat}

theorem readNext_eq (hregion : p < x.mediaDataEnd) (hb : p < b.length) :
    readNext x o (ofBytes b p) =
      (MarkerScan.findMarker x.mediaDataEnd (o.scanLimit x.mediaDataSize.toNat) >>= readFrame x)
        (ofBytes b p) := by
  have hgo : ¬(x.mediaDataEnd ≤ p ∨ b.length - p = 0) := by omega
  simp only [readNext, throw_bind]
  rw [bind_of_ok (position_apply _), bind_of_ok (remaining_apply _), position_ofBytes,
    remaining_ofBytes, if_neg hgo]

theorem readNext_of_end (h : x.mediaDataEnd ≤ p ∨ b.length ≤ p) :
    readNext x o (ofBytes b p) = .error .endOfStream (ofBytes b p) := by
  have hend : x.mediaDataEnd ≤ p ∨ b.length - p = 0 := by omega
  simp only [readNext, throw_bind]
  rw [bind_of_ok (position_apply _), bind_of_ok (remaining_apply _), position_ofBytes,
    remaining_ofBytes, if_pos hend]
  rfl

/-- A gap is passed over, and the frame behind its marker is read. -/
theorem readNext_of_gap {gap rest : Bytes} (hb : b.drop p = gap ++ marker ++ rest)
    (hgap : Unmarked gap) (hlast : gap.getLast? ≠ some 0xFF)
    (hregion : p + gap.length + marker.length ≤ x.mediaDataEnd)
    (hlimit : gap.length + marker.length ≤ o.scanLimit x.mediaDataSize.toNat) :
    readNext x o (ofBytes b p) =
      readFrame x (p + gap.length) (ofBytes b (p + gap.length + marker.length)) := by
  have hlength := length_le_of_drop hb
  have hmarker : marker.length = 2 := rfl
  rw [List.length_append] at hlength
  have hfirst : FirstMarkerAt (b.drop p) gap.length := by
    rw [hb]
    exact firstMarkerAt_append hgap hlast
  have hfind := MarkerScan.findMarker_of_first (by omega) hfirst hregion hlimit
  rw [readNext_eq (by omega) (by omega), bind_of_ok hfind]
  rfl

theorem readNext_of_header {gap after : Bytes} {id : UInt16} {number : Nat}
    (hb : b.drop p = gap ++ (FrameRecord.header id number ++ after)) (hgap : Unmarked gap)
    (hlast : gap.getLast? ≠ some 0xFF) (hregion : p + gap.length + headerSize ≤ x.mediaDataEnd)
    (hlimit : x.mediaDataEnd - p ≤ o.scanLimit x.mediaDataSize.toNat) :
    readNext x o (ofBytes b p) =
      readFrame x (p + gap.length) (ofBytes b (p + gap.length + marker.length)) := by
  have hmarker : marker.length = 2 := rfl
  have hmark : b.drop p =
      gap ++ marker ++ (toLittleEndian 2 id.toNat ++ (toLittleEndian 4 number ++ after)) := by
    rw [hb, FrameRecord.header]
    simp only [List.append_assoc]
  rw [headerSize] at hregion
  exact readNext_of_gap hmark hgap hlast (by omega) (by omega)

theorem readNext_of_tail {tail rest : Bytes} (hb : b.drop p = tail ++ rest) (htail : Unmarked tail)
    (hregion : p + tail.length = x.mediaDataEnd)
    (hlimit : tail.length ≤ o.scanLimit x.mediaDataSize.toNat) :
    readNext x o (ofBytes b p) = .error .endOfStream (ofBytes b x.mediaDataEnd) := by
  by_cases hp : x.mediaDataEnd ≤ p
  · have heq : p = x.mediaDataEnd := by omega
    rw [readNext_of_end (Or.inl hp), heq]
  · have hlength := length_le_of_drop hb
    obtain ⟨limit, hl⟩ : ∃ limit, o.scanLimit x.mediaDataSize.toNat = limit := ⟨_, rfl⟩
    have hwindow : min (x.mediaDataEnd - p) limit = tail.length := by omega
    have hnone : Unmarked ((b.drop p).take (min (x.mediaDataEnd - p) limit)) := by
      rw [hwindow, hb, List.take_left]
      exact htail
    have hfind := MarkerScan.findMarker_of_unmarked (by omega) hnone
    rw [hwindow, hregion, if_pos (by omega), if_pos (by omega)] at hfind
    rw [readNext_eq (by omega) (by omega), hl, bind_of_error hfind]

end Packet

/-- The records that stand from a cursor on, each after a gap and the last before the end of the
region. -/
inductive Ahead (id : MediaKind → UInt16) (b : Bytes) (regionEnd : Nat) :
    Nat → List FrameRecord → Prop
  | tail {p : Nat} {tail rest : Bytes} (hb : b.drop p = tail ++ rest) (htail : Unmarked tail)
      (hend : p + tail.length = regionEnd) : Ahead id b regionEnd p []
  | record {p : Nat} {r : FrameRecord} {records : List FrameRecord} {gap rest : Bytes}
      (hb : b.drop p = gap ++ r.encode (id r.kind) ++ rest) (hgap : Unmarked gap)
      (hlast : gap.getLast? ≠ some 0xFF) (hoffset : r.offset = p + gap.length)
      (h : Ahead id b regionEnd (r.offset + r.size) records) :
      Ahead id b regionEnd p (r :: records)

namespace Ahead

variable {id : MediaKind → UInt16} {b : Bytes} {regionEnd p : Nat} {records : List FrameRecord}

theorem length_le (h : Ahead id b regionEnd p records) :
    p + Packet.headerSize * records.length ≤ regionEnd := by
  induction h with
  | tail hb htail hend =>
    rw [List.length_nil]
    omega
  | record hb hgap hlast hoffset h ih =>
    rw [FrameRecord.size] at ih
    rw [List.length_cons, Nat.mul_succ]
    omega

theorem size_le {r : FrameRecord} (h : Ahead id b regionEnd p (r :: records)) :
    r.offset + r.size ≤ regionEnd := by
  cases h with
  | record hb hgap hlast hoffset h =>
    have hle := h.length_le
    omega

theorem le_offset {r : FrameRecord} (h : Ahead id b regionEnd p (r :: records)) :
    p ≤ r.offset := by
  cases h with
  | record hb hgap hlast hoffset h =>
    rw [hoffset]
    exact Nat.le_add_right _ _

theorem at_offset {before : List FrameRecord} {r : FrameRecord}
    (h : Ahead id b regionEnd p (before ++ r :: records)) :
    Ahead id b regionEnd r.offset (r :: records) := by
  induction before generalizing p with
  | nil =>
    cases h with
    | @record _ _ _ _ rest hb hgap hlast hoffset h =>
      rw [List.append_assoc] at hb
      have hdrop := drop_of_append hb
      rw [← hoffset] at hdrop
      have hnogap : b.drop r.offset = [] ++ r.encode (id r.kind) ++ rest := hdrop
      exact .record hnogap not_markerAt_nil (by simp) rfl h
  | cons r' before ih =>
    cases h with
    | record hb hgap hlast hoffset h => exact ih h

section Reading

variable {x : Recording} {o : OpenOptions} {r : FrameRecord} {track : Track} {isKeyframe : Bool}

/-- One step reads the first record ahead and leaves the others ahead. -/
theorem readNext_record (h : Ahead id b x.mediaDataEnd p (r :: records))
    (hx : r.Indexed x (id r.kind) track isKeyframe)
    (hlimit : x.mediaDataEnd - p ≤ o.scanLimit x.mediaDataSize.toNat) :
    Packet.readNext x o (ofBytes b p) =
        .ok (r.packet x.video.firstTimestamp) (ofBytes b (r.offset + r.size)) ∧
      Ahead id b x.mediaDataEnd (r.offset + r.size) records := by
  have hsize := h.size_le
  cases h with
  | @record _ _ _ gap rest hb hgap hlast hoffset h =>
    rw [List.append_assoc] at hb
    have hrecord := drop_of_append hb
    rw [FrameRecord.encode_eq, List.append_assoc] at hb
    rw [FrameRecord.size] at hsize
    have hnext := Packet.readNext_of_header hb hgap hlast (by omega) hlimit
    rw [← hoffset] at hnext hrecord
    exact ⟨hnext.trans (FrameRecord.readFrame_eq hx hrecord), h⟩

theorem readNext_tail (h : Ahead id b x.mediaDataEnd p [])
    (hlimit : x.mediaDataEnd - p ≤ o.scanLimit x.mediaDataSize.toNat) :
    Packet.readNext x o (ofBytes b p) = .error .endOfStream (ofBytes b x.mediaDataEnd) := by
  cases h with
  | tail hb htail hend => exact Packet.readNext_of_tail hb htail hend (by omega)

end Reading

variable {x : Recording} {o : OpenOptions}

/-- A run hands out the packets of the records ahead, counts them, and ends with the region. -/
theorem take_eq {n count : Nat} (h : Ahead id b x.mediaDataEnd p records)
    (hx : ∀ r ∈ records, ∃ track isKeyframe, r.Indexed x (id r.kind) track isKeyframe)
    (hlimit : x.mediaDataEnd - p ≤ o.scanLimit x.mediaDataSize.toNat)
    (hn : records.length < n) :
    PacketRun.take n { demuxer := .ofBytes b x o p count } =
      (records.map fun r => .ok (r.packet x.video.firstTimestamp),
        { demuxer := .ofBytes b x o x.mediaDataEnd (count + records.length), finished := true }) := by
  -- along the records: each step hands out one and leaves the others ahead
  induction records generalizing p n count with
  | nil =>
    obtain ⟨n, rfl⟩ : ∃ k, n = k + 1 := ⟨n - 1, by omega⟩
    have hnext := h.readNext_tail hlimit
    have hread := Demuxer.readPacket_ofBytes_of_error (n := count) hnext
    rw [PacketRun.take_of_endOfStream hread]
    rfl
  | cons r records ih =>
    obtain ⟨n, rfl⟩ : ∃ k, n = k + 1 := ⟨n - 1, by omega⟩
    obtain ⟨track, isKeyframe, hr⟩ := hx r List.mem_cons_self
    have hle := h.le_offset
    obtain ⟨hnext, hrest⟩ := h.readNext_record hr hlimit
    have hread := Demuxer.readPacket_ofBytes_of_ok (n := count) hnext
    rw [List.length_cons] at hn
    have hrun (count : Nat) :
        PacketRun.take n { demuxer := .ofBytes b x o (r.offset + r.size) count } = _ :=
      ih hrest (fun r' h' => hx r' (List.mem_cons_of_mem _ h')) (by omega) (by omega)
    rw [PacketRun.take_of_ok hread, hrun, List.map_cons, List.length_cons, Nat.add_assoc, Nat.add_comm 1]

theorem drain_eq {count : Nat} (h : Ahead id b x.mediaDataEnd p records)
    (hx : ∀ r ∈ records, ∃ track isKeyframe, r.Indexed x (id r.kind) track isKeyframe)
    (hlimit : x.mediaDataEnd - p ≤ o.scanLimit x.mediaDataSize.toNat) :
    PacketRun.drain { demuxer := .ofBytes b x o p count } =
      (records.map fun r => .ok (r.packet x.video.firstTimestamp),
        { demuxer := .ofBytes b x o x.mediaDataEnd (count + records.length), finished := true }) := by
  have hlength := h.length_le
  rw [Packet.headerSize] at hlength
  have hn : records.length < x.mediaDataEnd + 1 := by omega
  exact h.take_eq hx hlimit hn

end Ahead

end KalayRecord
