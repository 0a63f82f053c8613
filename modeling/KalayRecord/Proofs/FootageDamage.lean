import KalayRecord.Proofs.FrameJoin
import KalayRecord.Proofs.Retrying

namespace KalayRecord

open Reading MeasuredReader

/-- What has taken the place of the id or of the number in the header of a record. -/
inductive HeaderDamage where
  | id (u : UInt16)
  | number (n : UInt32)
  deriving DecidableEq, Repr

/-- The record, with the id of its track, and with what has become of its header. -/
def FrameRecord.encodeDamaged (r : FrameRecord) (id : UInt16) : Option HeaderDamage → Bytes
  | none => r.encode id
  | some (.id u) => header u r.number ++ r.payload
  | some (.number n) => header id n.toNat ++ r.payload

namespace FrameRecord

theorem offset_add_size_sub (r : FrameRecord) :
    r.offset + r.size - r.payload.length = r.offset + Packet.headerSize := by
  rw [size, ← Nat.add_assoc, Nat.add_sub_cancel]

theorem encodeDamaged_eq (r : FrameRecord) (id : UInt16) (damage : Option HeaderDamage) :
    ∃ id' number, r.encodeDamaged id damage = header id' number ++ r.payload := by
  rcases damage with - | ⟨u⟩ | ⟨n⟩
  · exact ⟨id, r.number, rfl⟩
  · exact ⟨u, r.number, rfl⟩
  · exact ⟨id, n.toNat, rfl⟩

@[simp] theorem length_encodeDamaged (r : FrameRecord) (id : UInt16)
    (damage : Option HeaderDamage) : (r.encodeDamaged id damage).length = r.size := by
  obtain ⟨id', number, h⟩ := r.encodeDamaged_eq id damage
  rw [h, List.length_append, length_header, size]

/-- Each record stands behind its gap, the first of them from `p` on and the others from the end of
the record before. -/
inductive Consecutive : (p : Nat) → List FrameRecord → Prop
  | nil (p : Nat) : Consecutive p []
  | cons {p : Nat} {r : FrameRecord} {records : List FrameRecord}
      (hoffset : r.offset = p + r.gap.length) (h : Consecutive (r.offset + r.size) records) :
      Consecutive p (r :: records)

end FrameRecord

theorem Shot.consecutive_recordsFrom (p : Nat) (next : MediaKind → Nat) (shots : List Shot) :
    FrameRecord.Consecutive p (recordsFrom p next shots) := by
  induction shots generalizing p next with
  | nil => exact .nil p
  | cons s shots ih => exact .cons rfl (ih _ _)

namespace Footage

def encodeDamaged (f : Footage) (damage : FrameRecord → Option HeaderDamage)
    (records : List FrameRecord) : Bytes :=
  records.flatMap fun r => r.gap ++ r.encodeDamaged (f.id r.kind) (damage r)

def damagedImage (f : Footage) (damage : FrameRecord → Option HeaderDamage) : RecordingImage :=
  { f.image with mediaData := f.mediaType ++ (f.encodeDamaged damage f.records ++ f.tail) }

/-- What comes of reading a record. -/
def outcome (f : Footage) (damage : FrameRecord → Option HeaderDamage) (r : FrameRecord) :
    Except Error Packet :=
  match damage r with
  | none => .ok (r.packet (f.settings .video).firstTimestamp)
  | some (.id u) => .error (.unknownTrack u r.offset)
  | some (.number n) => .error (.indexOutOfRange n (f.recordsOf r.kind).length)

/-- The bytes that stand before the records `later`, or before the end of the media data. -/
def gapBefore (f : Footage) : (later : List FrameRecord) → Bytes
  | [] => f.tail
  | r :: _ => r.gap

/-- The new ids and numbers lead to no frame, and no marker appears between the header of a damaged
record and the next record. -/
structure Tolerable (f : Footage) (damage : FrameRecord → Option HeaderDamage) : Prop where
  id_unknown : ∀ r ∈ f.records, ∀ u, damage r = some (.id u) → ∀ kind, u ≠ f.id kind
  number_out : ∀ r ∈ f.records, ∀ n, damage r = some (.number n) →
    (f.recordsOf r.kind).length ≤ n.toNat
  unmarked : ∀ r later, r :: later <:+ f.records → (damage r).isSome →
    Unmarked (r.payload ++ f.gapBefore later)
  last : ∀ r later, r :: later <:+ f.records → (damage r).isSome → later ≠ [] →
    (r.payload ++ f.gapBefore later).getLast? ≠ some 0xFF

/-- What reading a record leaves unread of it. -/
def leftOver (damage : FrameRecord → Option HeaderDamage) (r : FrameRecord) : Bytes :=
  if (damage r).isSome then r.payload else []

variable {f : Footage} {damage : FrameRecord → Option HeaderDamage}

theorem encodeDamaged_cons (f : Footage) (damage : FrameRecord → Option HeaderDamage)
    (r : FrameRecord) (records : List FrameRecord) :
    f.encodeDamaged damage (r :: records) =
      r.gap ++ r.encodeDamaged (f.id r.kind) (damage r) ++ f.encodeDamaged damage records := by
  rw [encodeDamaged, List.flatMap_cons]
  rfl

theorem length_encodeDamaged (f : Footage) (damage : FrameRecord → Option HeaderDamage)
    (records : List FrameRecord) :
    (f.encodeDamaged damage records).length = (f.encodeRecords records).length := by
  induction records with
  | nil => rfl
  | cons r records ih =>
    rw [encodeDamaged_cons, encodeRecords_cons]
    simp only [List.length_append, FrameRecord.length_encodeDamaged, FrameRecord.length_encode, ih]

theorem outcome_ne_endOfStream (f : Footage) (damage : FrameRecord → Option HeaderDamage)
    (r : FrameRecord) : f.outcome damage r ≠ .error .endOfStream := by
  unfold outcome
  split
  · exact nofun
  · exact nofun
  · exact nofun

theorem size_index (f : Footage) (kind : MediaKind) :
    (Track.ofRecord kind (f.track kind)).index.size = (f.recordsOf kind).length := by
  show (f.track kind).frameTables.build.size = _
  rw [FrameTables.size_build]
  simp only [TrackRecord.frameTables, track, table, List.length_map, Nat.min_self]

theorem trackById?_eq_none {u : UInt16} (h : ∀ kind, u ≠ f.id kind) :
    f.image.view.trackById? u = none := by
  have hvideo : u ≠ f.image.view.video.id := h .video
  have haudio : u ≠ f.image.view.audio.id := h .audio
  rw [Recording.trackById?, if_neg hvideo, if_neg haudio]

theorem length_leftOver_le (damage : FrameRecord → Option HeaderDamage) (r : FrameRecord) :
    (leftOver damage r).length ≤ r.payload.length := by
  unfold leftOver
  split
  · exact Nat.le_refl _
  · exact Nat.zero_le _

theorem drop_leftOver {b after : Bytes} {id : UInt16} {r : FrameRecord}
    (hb : b.drop r.offset = r.encodeDamaged id (damage r) ++ after) :
    b.drop (r.offset + r.size - (leftOver damage r).length) = leftOver damage r ++ after := by
  cases hdamage : damage r with
  | none =>
    have hafter := drop_of_append hb
    rw [FrameRecord.length_encodeDamaged] at hafter
    simp only [leftOver, hdamage, Option.isSome_none, Bool.false_eq_true, if_false]
    exact hafter
  | some change =>
    obtain ⟨id', number, heq⟩ := r.encodeDamaged_eq id (damage r)
    rw [heq, List.append_assoc] at hb
    have hpayload := drop_of_append hb
    rw [FrameRecord.length_header, ← r.offset_add_size_sub] at hpayload
    simp only [leftOver, hdamage, Option.isSome_some, if_true]
    exact hpayload

namespace Lawful

theorem wellFormed_damaged (hf : f.Lawful) (damage : FrameRecord → Option HeaderDamage) :
    (f.damagedImage damage).WellFormed :=
  { hf.wellFormed with
    mediaData_length := by
      have hlength := hf.wellFormed.mediaData_length
      simp only [image, media, damagedImage, List.length_append, length_encodeDamaged] at hlength ⊢
      exact hlength }

theorem passes_damaged (hf : f.Lawful) (damage : FrameRecord → Option HeaderDamage) :
    (f.damagedImage damage).Passes {} := { hf.passes with }

theorem gapBefore_clear (hf : f.Lawful) {later : List FrameRecord} (h : later <:+ f.records) :
    Unmarked (f.gapBefore later) ∧ (later ≠ [] → (f.gapBefore later).getLast? ≠ some 0xFF) := by
  cases later with
  | nil => exact ⟨hf.tail_unmarked, fun hne => absurd rfl hne⟩
  | cons r later =>
    have hmem : r ∈ f.records := h.subset List.mem_cons_self
    have hshot : r.toShot ∈ f.shots := by
      rw [← Shot.recordsFrom_toShot f.start (fun _ => 0) f.shots]
      exact List.mem_map_of_mem hmem
    exact ⟨hf.gap_unmarked _ hshot, fun _ => hf.gap_last _ hshot⟩

/-- No marker appears in what stands unread before the next record. -/
theorem leftOver_clear (hf : f.Lawful) (hd : f.Tolerable damage) {r : FrameRecord}
    {later : List FrameRecord} (h : r :: later <:+ f.records) :
    Unmarked (leftOver damage r ++ f.gapBefore later) ∧
      (later ≠ [] → (leftOver damage r ++ f.gapBefore later).getLast? ≠ some 0xFF) := by
  unfold leftOver
  split
  next hdamage => exact ⟨hd.unmarked r later h hdamage, hd.last r later h hdamage⟩
  next => exact hf.gapBefore_clear ((List.suffix_cons r later).trans h)

theorem readPacket_damaged (hf : f.Lawful) (hd : f.Tolerable damage) {b gap after : Bytes}
    {r : FrameRecord} {p n : Nat} (hr : r ∈ f.records) (hp : f.start ≤ p)
    (hb : b.drop p = gap ++ (r.encodeDamaged (f.id r.kind) (damage r) ++ after))
    (hgap : Unmarked gap) (hlast : gap.getLast? ≠ some 0xFF) (hoffset : r.offset = p + gap.length)
    (hend : r.offset + r.size ≤ f.image.view.mediaDataEnd) :
    (Demuxer.ofBytes b f.image.view {} p n).readPacket =
      (f.outcome damage r,
        .ofBytes b f.image.view {} (r.offset + r.size - (leftOver damage r).length)
          (n + if (damage r).isNone then 1 else 0)) := by
  have hrecord := drop_of_append hb
  obtain ⟨id', number, heq⟩ := r.encodeDamaged_eq (f.id r.kind) (damage r)
  rw [heq, List.append_assoc] at hb
  rw [FrameRecord.size] at hend
  have hlimit := f.mediaDataEnd_sub_le (Nat.le_of_add_right_le hp)
  have hnext := Packet.readNext_of_header hb hgap hlast (by omega) hlimit
  rw [← hoffset] at hnext hrecord
  cases hdamage : damage r with
  | none =>
    rw [hdamage] at hrecord
    obtain ⟨isKeyframe, hindexed⟩ := hf.indexed hr
    rw [FrameRecord.readFrame_eq hindexed hrecord] at hnext
    simp only [outcome, leftOver, hdamage]
    exact Demuxer.readPacket_ofBytes_of_ok hnext
  | some change =>
    rw [hdamage] at hrecord
    cases change with
    | id u =>
      have hunknown := trackById?_eq_none (hd.id_unknown r hr u hdamage)
      rw [FrameRecord.encodeDamaged, ← hf.toNat_number hr, List.append_assoc] at hrecord
      rw [FrameRecord.readFrame_of_unknown hunknown hrecord, ← r.offset_add_size_sub] at hnext
      simp only [outcome, leftOver, hdamage]
      exact Demuxer.readPacket_ofBytes_of_error hnext
    | number m =>
      have hout := hd.number_out r hr m hdamage
      rw [← f.size_index] at hout
      rw [FrameRecord.encodeDamaged, List.append_assoc] at hrecord
      rw [FrameRecord.readFrame_of_outOfRange (hf.trackById?_eq r.kind) hout hrecord, f.size_index,
        ← r.offset_add_size_sub] at hnext
      simp only [outcome, leftOver, hdamage]
      exact Demuxer.readPacket_ofBytes_of_error hnext

theorem readsOut_damaged (hf : f.Lawful) (hd : f.Tolerable damage) {b lead rest : Bytes}
    {records : List FrameRecord} {p q n : Nat} (hrun : FrameRecord.Consecutive q records)
    (hrecords : records <:+ f.records) (hp : f.start ≤ p) (hq : q = p + lead.length)
    (hb : b.drop p = lead ++ (f.encodeDamaged damage records ++ (f.tail ++ rest)))
    (hend : q + (f.encodeDamaged damage records).length + f.tail.length =
      f.image.view.mediaDataEnd)
    (hlead : Unmarked (lead ++ f.gapBefore records))
    (hlast : records ≠ [] → (lead ++ f.gapBefore records).getLast? ≠ some 0xFF) :
    (Demuxer.ofBytes b f.image.view {} p n).ReadsOut (records.map (f.outcome damage))
      (.ofBytes b f.image.view {} f.image.view.mediaDataEnd
        (n + records.countP fun r => (damage r).isNone)) := by
  induction hrun generalizing p lead n with
  | nil q =>
    change b.drop p = lead ++ (f.tail ++ rest) at hb
    rw [← List.append_assoc] at hb
    have hlimit := f.mediaDataEnd_sub_le (Nat.le_of_add_right_le hp)
    have hregion : p + (lead ++ f.tail).length = f.image.view.mediaDataEnd := by
      rw [List.length_append, ← Nat.add_assoc, ← hq]
      exact hend
    apply Demuxer.ReadsOut.ended
    apply Demuxer.readPacket_ofBytes_of_error
    exact Packet.readNext_of_tail hb hlead hregion (by omega)
  | @cons q r records hoffset hrun ih =>
    rw [encodeDamaged_cons] at hb hend
    rw [List.append_assoc, List.append_assoc, ← List.append_assoc] at hb
    rw [List.length_append, List.length_append, FrameRecord.length_encodeDamaged, ← Nat.add_assoc,
      ← Nat.add_assoc, ← hoffset] at hend
    have hoffset' : r.offset = p + (lead ++ r.gap).length := by
      rw [List.length_append, ← Nat.add_assoc, ← hq]
      exact hoffset
    have hread := hf.readPacket_damaged hd (n := n) (hrecords.subset List.mem_cons_self) hp hb hlead
      (hlast (List.cons_ne_nil r records)) hoffset' (by omega)
    have hrecord := drop_of_append hb
    rw [← hoffset'] at hrecord
    -- what is left over of this record takes the part of `lead` before the next
    have hleft := length_leftOver_le damage r
    have hsize : r.size = Packet.headerSize + r.payload.length := rfl
    obtain ⟨hclear, hclearLast⟩ := hf.leftOver_clear hd hrecords
    have hlater := ih ((List.suffix_cons r records).trans hrecords) (by omega) (by omega)
      (drop_leftOver hrecord) hend hclear hclearLast
      (n := n + if (damage r).isNone then 1 else 0)
    rw [List.map_cons, List.countP_cons, Nat.add_comm (records.countP _), ← Nat.add_assoc]
    exact .result hread (f.outcome_ne_endOfStream damage r) hlater

end Lawful

/-- A recording of lawful footage with damaged headers opens, and reading on past all errors gives
the packet of each intact record and one error for each damaged record, in the order of the file. -/
theorem damage_costs_its_frames (f : Footage) (damage : FrameRecord → Option HeaderDamage)
    (hf : f.Lawful) (hd : f.Tolerable damage) :
    ∃ d d', Demuxer.openSource {} (MemoryStream.ofBytes (f.damagedImage damage).encode) = .ok d ∧
      f.records.map (·.toShot) = f.shots ∧
      d.ReadsOut (f.records.map (f.outcome damage)) d' ∧
      d'.packetsRead = f.records.countP fun r => (damage r).isNone := by
  have hshots : f.records.map (·.toShot) = f.shots := Shot.recordsFrom_toShot _ _ _
  have hrun : FrameRecord.Consecutive f.start f.records := Shot.consecutive_recordsFrom _ _ _
  have hwell := hf.wellFormed_damaged damage
  have hopen := hwell.openSource_eq (hf.passes_damaged damage)
  obtain ⟨rest, hb⟩ := hwell.drop_media hf.mediaType_length rfl
  rw [List.append_assoc, ← List.nil_append (f.encodeDamaged damage f.records ++ _)] at hb
  have hend : f.start + (f.encodeDamaged damage f.records).length + f.tail.length =
      f.image.view.mediaDataEnd := by
    rw [hf.mediaDataEnd_eq, media, List.length_append, length_encodeDamaged, Nat.add_assoc]
  obtain ⟨hgap, hlast⟩ := hf.gapBefore_clear (List.suffix_refl f.records)
  have hreads := hf.readsOut_damaged hd (n := 0) hrun (List.suffix_refl _) (Nat.le_refl f.start) rfl
    hb hend hgap hlast
  exact ⟨_, _, hopen, hshots, hreads, Nat.zero_add _⟩

/-- Four frames, of which the first two and the last are to be damaged. The third has a marker in its
payload, and the last is followed by half of one. -/
def shakenSample : Footage :=
  { sample with
    shots := [
      { kind := .video, timestamp := 1000, payload := [7], marked := true, gap := [] },
      { kind := .audio, timestamp := 1010, payload := [8], marked := false, gap := [0xFF, 0] },
      { kind := .video, timestamp := 1040, payload := [0xFF, 0xFF, 7], marked := false, gap := [] },
      { kind := .audio, timestamp := 1050, payload := [9], marked := false, gap := [] }] }

def shakenDamage (r : FrameRecord) : Option HeaderDamage :=
  match r.kind, r.number with
  | .video, 0 => some (.id 9)
  | .video, _ => none
  | .audio, _ => some (.number 2)

theorem shakenSample_lawful : shakenSample.Lawful where
  uuid_length := rfl
  uuid_text := by decide +kernel
  extra_length := rfl
  mediaType_length := rfl
  id_ne := by decide
  gap_unmarked := by decide
  gap_last := by decide
  tail_unmarked := by decide
  media_fits := by decide
  offset_fits := by decide

theorem drop_of_suffix {r : FrameRecord} {later records : List FrameRecord}
    (h : r :: later <:+ records) : ∃ i < records.length, records.drop i = r :: later := by
  obtain ⟨before, rfl⟩ := h
  refine ⟨before.length, ?_, List.drop_left⟩
  rw [List.length_append, List.length_cons]
  omega

theorem shakenSample_tolerable : shakenSample.Tolerable shakenDamage where
  id_unknown := by
    intro r _ u h kind
    have hu : u = 9 := by
      unfold shakenDamage at h
      split at h <;> cases h
      rfl
    rw [hu]
    cases kind <;> decide
  number_out := by
    intro r _ n h
    have hn : n = 2 := by
      unfold shakenDamage at h
      split at h <;> cases h
      rfl
    rw [hn]
    cases r.kind <;> decide
  unmarked := by
    have hall : ∀ i < shakenSample.records.length, ∀ r ∈ (shakenSample.records.drop i).head?,
        (shakenDamage r).isSome →
          Unmarked (r.payload ++ shakenSample.gapBefore (shakenSample.records.drop i).tail) := by
      decide
    intro r later h
    obtain ⟨i, hi, hdrop⟩ := drop_of_suffix h
    have hr := hall i hi r
    rw [hdrop] at hr
    exact hr rfl
  last := by
    have hall : ∀ i < shakenSample.records.length, ∀ r ∈ (shakenSample.records.drop i).head?,
        (shakenDamage r).isSome → (shakenSample.records.drop i).tail ≠ [] →
          (r.payload ++ shakenSample.gapBefore (shakenSample.records.drop i).tail).getLast? ≠
            some 0xFF := by
      decide
    intro r later h
    obtain ⟨i, hi, hdrop⟩ := drop_of_suffix h
    have hr := hall i hi r
    rw [hdrop] at hr
    exact hr rfl

theorem shakenSample_reads :
    shakenSample.Lawful ∧ shakenSample.Tolerable shakenDamage ∧
      ∃ d d', Demuxer.openSource {} (MemoryStream.ofBytes
          (shakenSample.damagedImage shakenDamage).encode) = .ok d ∧
        shakenSample.records.map (·.toShot) = shakenSample.shots ∧
        d.ReadsOut (shakenSample.records.map (shakenSample.outcome shakenDamage)) d' ∧
        d'.packetsRead = 1 := by
  obtain ⟨d, d', hopen, hshots, hreads, hcount⟩ :=
    damage_costs_its_frames shakenSample shakenDamage shakenSample_lawful shakenSample_tolerable
  have hintact : (shakenSample.records.countP fun r => (shakenDamage r).isNone) = 1 := by
    decide
  exact ⟨shakenSample_lawful, shakenSample_tolerable, d, d', hopen, hshots, hreads,
    hcount.trans hintact⟩

end Footage

end KalayRecord
