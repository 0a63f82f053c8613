import KalayRecord.Proofs.DemuxerSteps
import KalayRecord.Proofs.Footage

namespace KalayRecord

/-- The stream over the same contents that is measured as it is and can be read throughout. -/
def MemoryStream.faithful (s : MemoryStream) : MemoryStream where
  contents := s.contents
  position := s.position

/-- The reader that has measured the stream as it is. -/
def MeasuredReader.faithful (r : MeasuredReader MemoryStream) : MeasuredReader MemoryStream where
  source := r.source.faithful
  length := r.source.bytes.length

/-- The demuxer with the same recording, options, cursor and count over the stream without
faults. -/
def Demuxer.faithful (d : Demuxer MemoryStream) : Demuxer MemoryStream :=
  { d with reader := d.reader.faithful }

namespace MeasuredReader

@[simp] theorem position_faithful (r : MeasuredReader MemoryStream) :
    r.faithful.position = r.position := rfl

@[simp] theorem remaining_faithful (r : MeasuredReader MemoryStream) :
    r.faithful.remaining = r.source.bytes.length - r.position := rfl

theorem faithful_ofSource (s : MemoryStream) : (ofSource s).faithful = ofBytes s.bytes 0 := by
  have hcontents : s.contents = s.bytes.toByteArray := by
    apply ByteArray.ext
    apply Array.toList_inj.mp
    exact (MemoryStream.bytes_ofBytes s.bytes).symm
  rw [ofBytes, MemoryStream.ofBytes, ← hcontents]
  rfl

end MeasuredReader

namespace Reading

variable {α β : Type}

/-- What the step yields on a stream, it yields on the stream without faults as well. -/
def Confirms (m : Reading MemoryStream α) : Prop :=
  ∀ ⦃r a r'⦄, m r = .ok a r' → m r.faithful = .ok a r'.faithful

/-- The step yields nothing unless the contents have `n` more bytes. -/
def Needs (n : Nat) (m : Reading MemoryStream α) : Prop :=
  ∀ ⦃r a r'⦄, m r = .ok a r' → 0 < n → r.position + n ≤ r.source.bytes.length

theorem upTo_of_ok {r r' : MeasuredReader MemoryStream} {n : Nat} {bytes : Bytes}
    (h : upTo n r = .ok bytes r') :
    bytes = r.source.slice r.position n ∧ r' = r.moveTo (r.position + bytes.length) := by
  unfold upTo at h
  obtain ⟨⟨result, s⟩, hg⟩ : ∃ g, ByteSource.gather r.source n = g := ⟨_, rfl⟩
  rw [hg] at h
  cases result with
  | error reason => simp at h
  | ok chunk =>
    obtain ⟨hbytes, rfl⟩ := MemoryStream.gather_of_ok hg
    cases h
    exact ⟨hbytes, rfl⟩

theorem exactly_eq_ok {r r' : MeasuredReader MemoryStream} {n : Nat} {field : String}
    {bytes : Bytes} :
    exactly n field r = .ok bytes r' ↔
      n ≤ r.remaining ∧ upTo n r = .ok bytes r' ∧ n ≤ bytes.length := by
  simp only [exactly, throw_bind]
  rw [bind_of_ok (remaining_apply r), check_eq_ok, bind_eq_ok]
  simp only [check_eq_ok, pure_eq_ok, Nat.not_lt]
  constructor
  · rintro ⟨hrem, _, _, hup, hlen, rfl, rfl⟩
    exact ⟨hrem, hup, hlen⟩
  · rintro ⟨hrem, hup, hlen⟩
    exact ⟨hrem, _, _, hup, hlen, rfl, rfl⟩

theorem length_of_upTo {r r' : MeasuredReader MemoryStream} {n : Nat} {bytes : Bytes}
    (h : upTo n r = .ok bytes r') :
    bytes.length = min n (r.source.bytes.length - r.position) := by
  rw [(upTo_of_ok h).1, MemoryStream.slice_length]

theorem skip_eq_ok {r r' : MeasuredReader MemoryStream} {n : Nat} {field : String} :
    skip n field r = .ok () r' ↔ n ≤ r.remaining ∧ r' = r.moveTo (r.position + n) := by
  simp only [skip, throw_bind]
  rw [bind_of_ok (remaining_apply r), check_eq_ok, bind_of_ok (position_apply r), seek_apply,
    Nat.not_lt]
  constructor
  · rintro ⟨hrem, h⟩
    cases h
    exact ⟨hrem, rfl⟩
  · rintro ⟨hrem, rfl⟩
    exact ⟨hrem, rfl⟩

namespace Needs

theorem bind {n : Nat} {m : Reading MemoryStream α} (hm : Needs n m)
    (f : α → Reading MemoryStream β) : Needs n (m >>= f) := by
  intro r b r'' h
  obtain ⟨a, r', hr, -⟩ := bind_eq_ok.mp h
  exact hm hr

theorem ite {c : Prop} [Decidable c] {n : Nat} {m m' : Reading MemoryStream α} (hm : Needs n m)
    (hm' : Needs n m') : Needs n (if c then m else m') := by
  split
  · exact hm
  · exact hm'

theorem throw (n : Nat) (e : Error) : Needs n (throw e : Reading MemoryStream α) :=
  fun _ _ _ h => absurd h throw_ne_ok

theorem exactly (n : Nat) (field : String) : Needs n (Reading.exactly n field) := by
  intro r bytes r' h hn
  obtain ⟨-, hup, hlen⟩ := exactly_eq_ok.mp h
  rw [length_of_upTo hup] at hlen
  omega

theorem uint32 (field : String) : Needs 4 (Reading.uint32 field) := (exactly 4 field).bind _

end Needs

namespace Confirms

theorem pure (a : α) : Confirms (pure a : Reading MemoryStream α) := by
  intro r b r' h
  obtain ⟨rfl, rfl⟩ := pure_eq_ok.mp h
  rfl

theorem throw (e : Error) : Confirms (throw e : Reading MemoryStream α) :=
  fun _ _ _ h => absurd h throw_ne_ok

theorem bind {m : Reading MemoryStream α} {f : α → Reading MemoryStream β} (hm : Confirms m)
    (hf : ∀ a, Confirms (f a)) : Confirms (m >>= f) := by
  intro r b r'' h
  obtain ⟨a, r', hr, hr'⟩ := bind_eq_ok.mp h
  exact bind_eq_ok.mpr ⟨a, r'.faithful, hm hr, hf a hr'⟩

theorem ite {c : Prop} [Decidable c] {m m' : Reading MemoryStream α} (hm : Confirms m)
    (hm' : Confirms m') : Confirms (if c then m else m') := by
  split
  · exact hm
  · exact hm'

theorem map {m : Reading MemoryStream α} (hm : Confirms m) (f : α → β) : Confirms (f <$> m) := by
  rw [← bind_pure_comp]
  exact hm.bind fun _ => .pure _

theorem position : Confirms Reading.position := by
  intro r p r' h
  cases h
  rfl

theorem seek (p : Nat) : Confirms (Reading.seek p) := by
  intro r _ r' h
  cases h
  rfl

/-- A check of the remaining length passes wherever the bytes that it asks for are read next. -/
theorem ensure {m : Reading MemoryStream α} {n : Nat} (e : Nat → Error) (hm : Confirms m)
    (hn : Needs n m) :
    Confirms (do
      let available ← Reading.remaining
      if available < n then MonadExcept.throw (e available) else m) := by
  intro r a r' h
  -- the two streams differ in what remains, but what is read next bounds both
  rw [bind_of_ok (remaining_apply r), check_eq_ok] at h
  have hlen := hn h.2
  rw [bind_of_ok (remaining_apply r.faithful), check_eq_ok, MeasuredReader.remaining_faithful]
  exact ⟨by omega, hm h.2⟩

theorem upTo (n : Nat) : Confirms (Reading.upTo n) := by
  intro r bytes r' h
  obtain ⟨rfl, rfl⟩ := upTo_of_ok h
  unfold Reading.upTo
  rw [MemoryStream.gather_eq _ _ rfl]
  rfl

theorem exactly (n : Nat) (field : String) : Confirms (Reading.exactly n field) := by
  intro r bytes r' h
  have hn := Needs.exactly n field h
  obtain ⟨-, hup, hlen⟩ := exactly_eq_ok.mp h
  refine exactly_eq_ok.mpr ⟨?_, upTo n hup, hlen⟩
  rw [MeasuredReader.remaining_faithful]
  omega

theorem uint8 (field : String) : Confirms (Reading.uint8 field) :=
  (exactly 1 field).bind fun _ => .pure _

theorem uint16 (field : String) : Confirms (Reading.uint16 field) :=
  (exactly 2 field).bind fun _ => .pure _

theorem uint32 (field : String) : Confirms (Reading.uint32 field) :=
  (exactly 4 field).bind fun _ => .pure _

theorem uint64 (field : String) : Confirms (Reading.uint64 field) :=
  (exactly 8 field).bind fun _ => .pure _

theorem uint32BigEndian (field : String) : Confirms (Reading.uint32BigEndian field) :=
  (exactly 4 field).bind fun _ => .pure _

/-- Bytes passed over without a look are there, if any are read behind them. -/
theorem skip {m : Reading MemoryStream α} {k : Nat} (n : Nat) (field : String) (hk : 0 < k)
    (hn : Needs k m) (hm : Confirms m) : Confirms (Reading.skip n field >>= fun _ => m) := by
  intro r a r'' h
  obtain ⟨_, r', hskip, h⟩ := bind_eq_ok.mp h
  obtain ⟨-, rfl⟩ := skip_eq_ok.mp hskip
  -- the skip itself looks at no byte, so only the read behind it shows that they are there
  have hlen := hn h hk
  rw [MeasuredReader.position_moveTo, MeasuredReader.bytes_moveTo] at hlen
  have hskip' : Reading.skip n field r.faithful = .ok () (r.faithful.moveTo (r.position + n)) := by
    refine skip_eq_ok.mpr ⟨?_, rfl⟩
    rw [MeasuredReader.remaining_faithful]
    omega
  exact bind_eq_ok.mpr ⟨_, _, hskip', hm h⟩

end Confirms

end Reading

open Reading

theorem IndexTable.read_confirms (checkSize : Bool) :
    Confirms (IndexTable.read checkSize : Reading MemoryStream IndexTable) := by
  simp only [IndexTable.read, throw_bind]
  refine (Confirms.uint32 _).bind fun size => (Confirms.uint32 _).bind fun type =>
    (Confirms.uint32 _).bind fun count => ?_
  have hitems : Confirms (do
      let items ← exactly (4 * count.toNat) "table items"
      pure { size, type, items := words items : IndexTable }) :=
    (Confirms.exactly _ _).bind fun _ => .pure _
  exact .ensure _ (.ite (.throw _) hitems) (.ite (.throw _ _) ((Needs.exactly _ _).bind _))

theorem TrackRecord.read_confirms (kind : MediaKind) (checkSizes : Bool) :
    Confirms (TrackRecord.read kind checkSizes : Reading MemoryStream TrackRecord) := by
  have htable := IndexTable.read_confirms checkSizes
  simp only [TrackRecord.read]
  refine (Confirms.uint32 _).bind fun size => (Confirms.uint32 _).bind fun type =>
    (Confirms.uint8 _).bind fun codecByte => (Confirms.uint8 _).bind fun flag =>
    (Confirms.uint16 _).bind fun id => (Confirms.uint32 _).bind fun first =>
    (Confirms.uint32 _).bind fun last => htable.bind fun timestamps => ?_
  cases kind with
  | video =>
    exact (htable.map _).bind fun _ => htable.bind fun _ => htable.bind fun _ => .pure _
  | audio =>
    exact (Confirms.pure _).bind fun _ => htable.bind fun _ => htable.bind fun _ => .pure _

theorem TrackRecord.read_needs (kind : MediaKind) (checkSizes : Bool) :
    Needs 4 (TrackRecord.read kind checkSizes : Reading MemoryStream TrackRecord) :=
  (Needs.uint32 _).bind _

theorem RecordingHeader.read_confirms :
    Confirms (RecordingHeader.read : Reading MemoryStream RecordingHeader) := by
  simp only [RecordingHeader.read, throw_bind]
  exact (Confirms.exactly _ _).bind fun found => .ite (.throw _) <|
    (Confirms.uint32 _).bind fun fileLength => (Confirms.uint32BigEndian _).bind fun sectionType =>
    (Confirms.uint32 _).bind fun version => (Confirms.uint32BigEndian _).bind fun encryptType =>
    (Confirms.exactly _ _).bind fun uuid => (Confirms.uint32 _).bind fun channel =>
    (Confirms.uint64 _).bind fun createTime => (Confirms.uint8 _).bind fun flag => .pure _

theorem Recording.read_confirms (o : OpenOptions) :
    Confirms (Recording.read o : Reading MemoryStream Recording) := by
  simp only [Recording.read, throw_bind]
  refine (Confirms.seek _).bind fun _ => RecordingHeader.read_confirms.bind fun header =>
    .ite (.throw _) <| (Confirms.seek _).bind fun _ => (Confirms.uint32 _).bind fun size =>
    .skip _ _ (by decide) ((Needs.uint32 _).bind _) <| (Confirms.uint32 _).bind fun indexSize =>
    .skip _ _ (by decide) ((TrackRecord.read_needs _ _).bind _) <|
    (TrackRecord.read_confirms _ _).bind fun video =>
    (TrackRecord.read_confirms _ _).bind fun audio => ?_
  have hend (recording : Recording) : Confirms (do
      seek recording.firstFrameOffset
      pure recording) := (Confirms.seek _).bind fun _ => .pure _
  refine .ite ?_ (hend _)
  split
  · exact .throw _
  · exact hend _

namespace MarkerScan

theorem scanFrom_confirms (start regionLeft window scanned : Nat) (previous : UInt8) :
    Confirms (scanFrom start regionLeft window scanned previous : Reading MemoryStream Nat) := by
  induction scanned, previous using scanFrom.induct window with
  | case1 scanned previous hw =>
    rw [scanFrom, if_pos hw]
    exact .throw _
  | case2 scanned previous hw ih =>
    rw [scanFrom, if_neg hw]
    refine (Confirms.upTo _).bind fun block => ?_
    split
    · exact .throw _
    next hblock =>
      split
      · exact (Confirms.seek _).bind fun _ => .pure _
      · exact ih block hblock

theorem scanFrom_needs (start regionLeft window scanned : Nat) (previous : UInt8) :
    Needs 1 (scanFrom start regionLeft window scanned previous : Reading MemoryStream Nat) := by
  rw [scanFrom]
  refine .ite (.throw _ _) ?_
  intro r offset r' h _
  obtain ⟨block, r₁, hup, h⟩ := bind_eq_ok.mp h
  have hblock : block ≠ [] := by
    rintro rfl
    exact throw_ne_ok h
  have hpos := List.length_pos_iff.mpr hblock
  rw [length_of_upTo hup] at hpos
  omega

theorem findMarker_confirms (regionEnd limit : Nat) :
    Confirms (findMarker regionEnd limit : Reading MemoryStream Nat) :=
  Confirms.position.bind fun _ => scanFrom_confirms _ _ _ _ _

theorem findMarker_needs (regionEnd limit : Nat) :
    Needs 1 (findMarker regionEnd limit : Reading MemoryStream Nat) := by
  intro r offset r' h
  unfold findMarker at h
  rw [bind_of_ok (position_apply r)] at h
  exact scanFrom_needs _ _ _ _ _ h

end MarkerScan

namespace Packet

theorem readFrame_confirms (r : Recording) (offset : Nat) :
    Confirms (readFrame r offset : Reading MemoryStream Packet) := by
  simp only [readFrame, throw_bind]
  refine (Confirms.uint16 _).bind fun id => (Confirms.uint32 _).bind fun number => ?_
  split
  next track _ =>
    split
    next frame _ =>
      have hdata (position : Nat) : Confirms (do
          let data ← exactly (payloadSize frame) "frame payload"
          pure (ofFrame r track number frame position data)) :=
        (Confirms.exactly _ _).bind fun _ => .pure _
      exact Confirms.position.bind fun position =>
        .ensure _ (hdata position) ((Needs.exactly _ _).bind _)
    · exact .throw _
  · exact .throw _

theorem readNext_confirms (r : Recording) (o : OpenOptions) :
    Confirms (readNext r o : Reading MemoryStream Packet) := by
  intro reader packet reader' h
  simp only [readNext, throw_bind] at h ⊢
  rw [bind_of_ok (position_apply reader), bind_of_ok (remaining_apply reader), check_eq_ok] at h
  rw [bind_of_ok (position_apply reader.faithful), bind_of_ok (remaining_apply reader.faithful),
    check_eq_ok]
  have hn := (MarkerScan.findMarker_needs _ _).bind _ h.2 Nat.one_pos
  have hrest := (MarkerScan.findMarker_confirms _ _).bind (fun _ => readFrame_confirms r _) h.2
  refine ⟨?_, hrest⟩
  rw [MeasuredReader.position_faithful, MeasuredReader.remaining_faithful]
  omega

end Packet

namespace Demuxer

/-- A stream with faults yields a demuxer or a packet only if the stream without them yields the
same, with the cursor and the count at the same place. -/
theorem faults_alter_nothing :
    (∀ (o : OpenOptions) (s : MemoryStream) (d : Demuxer MemoryStream),
      openSource o s = .ok d → openSource o s.faithful = .ok d.faithful) ∧
    ∀ (d d' : Demuxer MemoryStream) (packet : Packet),
      d.readPacket = (.ok packet, d') → d.faithful.readPacket = (.ok packet, d'.faithful) := by
  constructor
  · intro o s d hopen
    obtain ⟨recording, reader, h, rfl⟩ := openSource_eq_ok.mp hopen
    exact openSource_eq_ok.mpr ⟨recording, _, Recording.read_confirms o h, rfl⟩
  · intro d d' packet hread
    obtain ⟨reader, h, rfl⟩ := readPacket_eq_ok.mp hread
    exact readPacket_eq_ok.mpr ⟨_, Packet.readNext_confirms _ _ h, rfl⟩

/-- The sample footage, measured too long, and not readable behind its last byte. -/
def faultySample : MemoryStream where
  contents := Footage.sample.image.encode.toByteArray
  measured := some 4096
  failAt := some Footage.sample.image.encode.length

theorem faultySample_alters_nothing :
    ∃ d d' packet, openSource {} faultySample = .ok d ∧ d.readPacket = (.ok packet, d') ∧
      openSource {} faultySample.faithful = .ok d.faithful ∧
      d.faithful.readPacket = (.ok packet, d'.faithful) := by
  have hreads : ((openSource {} faultySample).toOption.any
      fun d => d.readPacket.1.toOption.isSome) = true := by
    decide +kernel
  cases hopen : openSource {} faultySample with
  | error e =>
    rw [hopen] at hreads
    cases hreads
  | ok d =>
    rw [hopen] at hreads
    cases hread : d.readPacket with
    | mk result d' =>
      cases result with
      | error e =>
        simp [Except.toOption, hread] at hreads
      | ok packet =>
        exact ⟨d, d', packet, rfl, hread, faults_alter_nothing.1 _ _ d hopen,
          faults_alter_nothing.2 d d' packet hread⟩

end Demuxer

end KalayRecord
