import KalayRecord.Proofs.FixedWidthReading
import KalayRecord.Proofs.MarkerSearch
import KalayRecord.Proofs.OperationLaws

namespace KalayRecord

namespace Demuxer

variable {σ : Type} [ByteSource σ]

/-- The count of packets goes up by one for each that is handed out, and never else. -/
theorem perform_packetsRead_le (d : Demuxer σ) (op : Operation) :
    (d.perform op).2.packetsRead ≤ d.packetsRead + (d.perform op).1.packets.length := by
  by_cases hop : op = .rewind
  · subst hop
    exact Nat.zero_le _
  · exact Nat.le_of_eq (d.perform_packetsRead hop)

theorem packets_performAll_cons (d : Demuxer σ) (op : Operation) (ops : List Operation) :
    (d.performAll (op :: ops)).1.flatMap Outcome.packets =
      (d.perform op).1.packets ++
        ((d.perform op).2.performAll ops).1.flatMap Outcome.packets := List.flatMap_cons

theorem packetsRead_le (d : Demuxer σ) (ops : List Operation) :
    (d.performAll ops).2.packetsRead ≤
      d.packetsRead + ((d.performAll ops).1.flatMap Outcome.packets).length := by
  induction ops generalizing d with
  | nil => exact Nat.le_refl _
  | cons op ops ih =>
    have hstep := d.perform_packetsRead_le op
    have hrest : (d.performAll (op :: ops)).2.packetsRead ≤ _ := ih (d.perform op).2
    rw [packets_performAll_cons, List.length_append]
    omega

end Demuxer

namespace FixedWidth

open Reading

section Bounds

theorem mediaDataOffset_le (x : RecordingHeader) : x.mediaDataOffset ≤ 76 := by
  have hsize : RecordingHeader.size = 72 := rfl
  have hextra : RecordingHeader.extraSize = 4 := rfl
  unfold RecordingHeader.mediaDataOffset
  split <;> omega

variable (r : Recording)

theorem firstFrameOffset_lt : r.firstFrameOffset < 2 ^ 64 := by
  have hoffset : r.mediaDataOffset ≤ 76 := mediaDataOffset_le r.header
  have hheader : Recording.mediaDataHeaderSize = 8 := rfl
  unfold Recording.firstFrameOffset
  omega

theorem mediaDataEnd_lt : r.mediaDataEnd < 2 ^ 33 := by
  have hoffset : r.mediaDataOffset ≤ 76 := mediaDataOffset_le r.header
  have hsize := r.mediaDataSize.toNat_lt
  unfold Recording.mediaDataEnd
  omega

theorem firstFrameOffset_eq : firstFrameOffset r = some r.firstFrameOffset :=
  word_of_lt (firstFrameOffset_lt r)

theorem mediaDataEnd_eq : mediaDataEnd r = some r.mediaDataEnd :=
  word_of_lt (Nat.lt_trans (mediaDataEnd_lt r) (by decide))

theorem streams_eq : streams r = some r.streams := by
  simp only [streams, List.mapM_cons, List.mapM_nil, timeSpan_eq]
  rfl

theorem bisect_le {p : Nat → Bool} {lo hi : Nat} (hle : lo ≤ hi) : bisect p lo hi ≤ hi := by
  induction lo, hi using bisect.induct p with
  | case1 lo hi hlt mid hmid ih =>
    rw [bisect, if_pos hlt, if_pos hmid]
    exact ih (by omega)
  | case2 lo hi hlt mid hmid ih =>
    have hstep : bisect p lo hi = bisect p lo mid := by
      rw [bisect, if_pos hlt, if_neg hmid]
    have hmid := ih (by omega)
    omega
  | case3 lo hi hlt =>
    rw [bisect, if_neg hlt]
    exact hle

/-- A place before the end of the leading run is one of the table, whatever order that is in. -/
theorem keyframeAtOrBefore_eq (x : FrameIndex) (offset : UInt32) :
    keyframeAtOrBefore x offset = some (x.keyframeAtOrBefore? offset) := by
  have hle : partitionPoint (· ≤ offset) x.keyframeOffsets ≤ x.keyframeOffsets.size :=
    bisect_le (Nat.zero_le _)
  unfold keyframeAtOrBefore FrameIndex.keyframeAtOrBefore?
  cases hpoint : partitionPoint (· ≤ offset) x.keyframeOffsets with
  | zero => rfl
  | succ n =>
    rw [hpoint] at hle
    dsimp only
    rw [Array.getElem?_eq_getElem hle]
    rfl

theorem keyframeFor_eq (x : FrameIndex) (time : Int) :
    keyframeFor x time = some (x.keyframeFor time) := by
  unfold keyframeFor FrameIndex.keyframeFor
  cases x.frameAtOrAfter? time with
  | none => rfl
  | some frame =>
    cases x.keyframeOffsets[0]? with
    | none => rfl
    | some first =>
      dsimp only
      rw [keyframeAtOrBefore_eq]
      rfl

/-- A marker ends in the block, and with the first byte of it only if the byte before is half of
one. -/
theorem markerEnd?_bounds {previous : UInt8} {block : Bytes} {i : Nat}
    (h : MarkerScan.markerEnd? previous block = some i) :
    i < block.length ∧ (i = 0 → previous = 0xFF) := by
  obtain ⟨hfirst, hsecond⟩ := markerAt_iff.mp (MarkerScan.markerEnd?_eq_some.mp h).1
  constructor
  · obtain ⟨hi, -⟩ := List.getElem?_eq_some_iff.mp hsecond
    rw [List.length_cons] at hi
    omega
  · rintro rfl
    exact Option.some.inj hfirst

end Bounds

section Steps

variable {σ : Type} [ByteSource σ] {view : σ → MemoryStream} {r : MeasuredReader σ}
  (h : ByteSource.Delivers view) (hr : r.Fits)

include h hr

namespace Exact

theorem toFirstFrame {x : Recording}
    (hx : x.video.index.Numbered ∧ x.audio.index.Numbered) :
    Exact (do
        let offset ← firstFrameOffset x
        FixedWidth.lift (Reading.seek offset)
        return x)
      (do
        Reading.seek x.firstFrameOffset
        return x)
      r fun b a _ => b = a ∧ a.video.index.Numbered ∧ a.audio.index.Numbered := by
  apply check (firstFrameOffset_eq x)
  apply step (Leaves.seek h hr (firstFrameOffset_lt x))
  intro _ _ hr _
  exact pure hr ⟨rfl, hx⟩

theorem recording (o : OpenOptions) :
    Exact (readRecording o) (Recording.read o) r fun b a _ =>
      b = a ∧ a.video.index.Numbered ∧ a.audio.index.Numbered := by
  simp only [readRecording, Recording.read, FixedWidth.throw_bind, Reading.throw_bind]
  apply step (Leaves.seek h hr (by decide))
  intro _ _ hr _
  apply step (Leaves.header h hr)
  intro header _ hr _
  apply ite
  · intro _
    exact throw hr
  intro _
  have hoffset := mediaDataOffset_le header
  apply step (Leaves.seek h hr (by omega))
  intro _ _ hr _
  apply step (Leaves.uint32 h hr _)
  intro mediaDataSize _ hr _
  apply (skip h hr _ _).bind
  intro _ _ _ hr _
  apply step (Leaves.uint32 h hr _)
  intro indexSectionSize _ hr _
  apply (skip h hr _ _).bind
  intro _ _ _ hr _
  apply (track h hr .video _).bind
  rintro _ video _ hr ⟨rfl, hvideo⟩
  apply (track h hr .audio _).bind
  rintro _ audio _ hr ⟨rfl, haudio⟩
  obtain ⟨x, hx⟩ : ∃ x, Recording.mk header mediaDataSize indexSectionSize
    (.ofRecord .video video) (.ofRecord .audio audio) = x := ⟨_, rfl⟩
  have hnumbered : x.video.index.Numbered ∧ x.audio.index.Numbered := by
    rw [← hx]
    exact ⟨hvideo, haudio⟩
  rw [hx]
  apply ite
  · intro _
    cases x.validate with
    | error e => exact throw hr
    | ok _ => exact toFirstFrame h hr hnumbered
  · intro _
    exact toFirstFrame h hr hnumbered

theorem scanFrom {start regionLeft window scanned : Nat} {previous : UInt8}
    (hwindow : start + window < 2 ^ 33) (hposition : r.position = start + scanned)
    (hprevious : previous = 0xFF → 0 < scanned) :
    Exact (FixedWidth.scanFrom start regionLeft window scanned previous)
      (MarkerScan.scanFrom start regionLeft window scanned previous) r fun b a _ => b = a := by
  induction scanned, previous using MarkerScan.scanFrom.induct window generalizing r with
  | case1 scanned previous hw =>
    rw [FixedWidth.scanFrom, MarkerScan.scanFrom, if_pos hw, if_pos hw]
    exact throw hr
  | case2 scanned previous hw ih =>
    rw [FixedWidth.scanFrom, MarkerScan.scanFrom, if_neg hw, if_neg hw]
    apply check (difference_of_le (Nat.le_of_not_ge hw))
    apply (upTo h hr (by omega)).bind
    rintro block _ r' hr' ⟨rfl, hlength, hmoved⟩
    apply ite
    · intro _
      exact throw hr'
    intro hblock
    cases hmarker : MarkerScan.markerEnd? previous block with
    | some i =>
      obtain ⟨hi, hfirst⟩ := markerEnd?_bounds hmarker
      -- before the first byte of a scan stands no half of a marker
      have hpos : 0 < scanned + i := by
        by_cases hzero : i = 0
        · have hscanned := hprevious (hfirst hzero)
          omega
        · omega
      have hsize : marker.length = 2 := rfl
      dsimp only
      apply check (word_of_lt (by omega))
      apply check (word_of_lt (by omega))
      apply check (difference_of_le (by omega))
      apply check (difference_of_le (by omega))
      apply check (word_of_lt (by omega))
      apply step (Leaves.seek h hr' (by omega))
      intro _ _ hr _
      exact pure hr rfl
    | none =>
      have hpos := List.length_pos_iff.mpr hblock
      dsimp only
      rw [if_pos (by omega)]
      exact ih block hblock hr' (by omega) fun _ => by omega

theorem findMarker {regionEnd limit : Nat} (hregion : regionEnd < 2 ^ 33)
    (hstart : r.position < regionEnd) :
    Exact (FixedWidth.findMarker regionEnd limit) (MarkerScan.findMarker regionEnd limit) r
      fun b a _ => b = a := by
  unfold FixedWidth.findMarker MarkerScan.findMarker
  apply step (Leaves.position hr)
  rintro _ _ - ⟨rfl, rfl⟩
  exact scanFrom h hr (by omega) rfl nofun

theorem frame (x : Recording) (offset : Nat) :
    Exact (FixedWidth.readFrame x offset) (Packet.readFrame x offset) r fun b a _ =>
      b = a ∧ -2 ^ 32 < a.pts ∧ a.pts < 2 ^ 32 := by
  simp only [FixedWidth.readFrame, Packet.readFrame, FixedWidth.throw_bind, Reading.throw_bind]
  apply step (Leaves.uint16 h hr _)
  intro id _ hr _
  apply step (Leaves.uint32 h hr _)
  intro number _ hr _
  cases x.trackById? id with
  | none => exact throw hr
  | some track =>
    dsimp only
    cases track.index.get? number with
    | none => exact throw hr
    | some frame =>
      dsimp only
      apply check (timeSpan_eq _ _)
      apply step (Leaves.position hr)
      rintro _ _ - ⟨rfl, rfl⟩
      apply step (Leaves.remaining hr)
      rintro _ _ - ⟨rfl, rfl⟩
      apply ite
      · intro _
        exact throw hr
      intro _
      have hsize := frame.size.toNat_lt
      apply check (word_of_lt (show Packet.payloadSize frame < 2 ^ 64 by
        unfold Packet.payloadSize
        omega))
      apply step (Leaves.exactly h hr _ _)
      intro data _ hr _
      exact pure hr ⟨rfl, timeSpan_bounds _ _⟩

theorem packet (x : Recording) (o : OpenOptions) :
    Exact (FixedWidth.readNext x o) (Packet.readNext x o) r fun b a _ =>
      b = a ∧ -2 ^ 32 < a.pts ∧ a.pts < 2 ^ 32 := by
  simp only [FixedWidth.readNext, Packet.readNext, FixedWidth.throw_bind, Reading.throw_bind]
  apply check (mediaDataEnd_eq x)
  apply step (Leaves.position hr)
  rintro _ _ - ⟨rfl, rfl⟩
  apply step (Leaves.remaining hr)
  rintro _ _ - ⟨rfl, rfl⟩
  apply ite
  · intro _
    exact throw hr
  intro hinside
  apply (findMarker h hr (mediaDataEnd_lt x) (by omega)).bind
  rintro offset _ _ hr rfl
  exact frame h hr x offset

end Exact

end Steps

section Demuxer

/-- Numbers up to a bound are counted as they are. -/
def CountsTo (count : Nat → Option Nat) (bound : Nat) : Prop := ∀ n ≤ bound, count n = some n

variable {count : Nat → Option Nat}

theorem CountsTo.self {n : Nat} (h : CountsTo count n) : count n = some n := h n (Nat.le_refl n)

theorem CountsTo.mono {m n : Nat} (h : CountsTo count n) (hle : m ≤ n) : CountsTo count m :=
  fun k hk => h k (Nat.le_trans hk hle)

variable {σ : Type} [ByteSource σ] {view : σ → MemoryStream} (h : ByteSource.Delivers view)

theorem Exact.run {α : Type} {P : α → Prop} {g : FixedReading σ α} {m : Reading σ α}
    {r : MeasuredReader σ} (hm : Exact g m r fun b a _ => b = a ∧ P a) :
    g r = some (outcome m r) ∧ Leaves m r fun a _ => P a := by
  unfold Exact at hm
  unfold outcome Leaves
  cases hresult : m r with
  | ok a r' =>
    rw [hresult] at hm
    obtain ⟨hr', b, hg, rfl, ha⟩ := hm
    exact ⟨hg, hr', ha⟩
  | error e r' =>
    rw [hresult] at hm
    exact ⟨hm.2, hm.1⟩

include h

theorem openSource_eq (o : OpenOptions) {s : σ} (hs : ByteSource.size s < 2 ^ 64) :
    openSource o s = some (Demuxer.openSource o s) ∧
      ∀ d, Demuxer.openSource o s = .ok d → d.reader.Fits ∧
        d.recording.video.index.Numbered ∧ d.recording.audio.index.Numbered := by
  have hr : (MeasuredReader.ofSource s).Fits := by
    constructor
    · exact hs
    · have hposition := h.position_seek s 0
      exact Nat.lt_of_le_of_lt (Nat.le_of_eq hposition) (by decide)
  obtain ⟨hread, hleaves⟩ := (Exact.recording h hr o).run
  constructor
  · unfold openSource Demuxer.openSource Recording.openSource
    rw [hread]
    unfold outcome
    cases Recording.read o (MeasuredReader.ofSource s) with
    | error e r' => rfl
    | ok recording r' =>
      simp only [streams_eq]
      rfl
  · intro d hopen
    obtain ⟨recording, reader, hok, rfl⟩ := Demuxer.openSource_eq_ok.mp hopen
    unfold Leaves at hleaves
    rwa [hok] at hleaves

variable {d : Demuxer σ}

theorem readPacket_eq (hd : d.reader.Fits) (hcount : CountsTo count d.readPacket.2.packetsRead) :
    readPacket count d = some d.readPacket := by
  obtain ⟨hread, -⟩ := (Exact.packet h hd d.recording d.options).run
  unfold readPacket
  rw [hread]
  unfold outcome
  cases hnext : Packet.readNext d.recording d.options d.reader with
  | error e r' =>
    rw [Demuxer.readPacket_of_error hnext]
    rfl
  | ok packet r' =>
    rw [Demuxer.readPacket_of_ok hnext] at hcount ⊢
    have hnumber : count (d.packetsRead + 1) = some (d.packetsRead + 1) := hcount.self
    dsimp only [Option.bind_eq_bind, Option.bind_some]
    rw [hnumber]
    rfl

theorem keeps_fits : Demuxer.Keeps (fun d : Demuxer σ => d.reader.Fits) fun packet =>
    -2 ^ 32 < packet.pts ∧ packet.pts < 2 ^ 32 where
  readPacket := by
    intro d hd
    obtain ⟨-, hleaves⟩ := (Exact.packet h hd d.recording d.options).run
    unfold Leaves at hleaves
    cases hread : Packet.readNext d.recording d.options d.reader with
    | error e r' =>
      rw [hread] at hleaves
      rw [Demuxer.readPacket_of_error hread]
      exact ⟨hleaves, nofun⟩
    | ok packet r' =>
      rw [hread] at hleaves
      rw [Demuxer.readPacket_of_ok hread]
      refine ⟨hleaves.1, fun packet' heq => ?_⟩
      cases heq
      exact hleaves.2
  seek := by
    intro d hd stream time
    unfold Demuxer.seek
    dsimp only
    split
    · exact hd
    next offset _ =>
      have hposition := h.position_seek d.reader.source offset.toNat
      have hoffset := offset.toNat_lt
      exact ⟨hd.length_lt, Nat.lt_of_le_of_lt (Nat.le_of_eq hposition) (by omega)⟩
  rewind := by
    intro d hd
    have hposition := h.position_seek d.reader.source d.recording.firstFrameOffset
    exact ⟨hd.length_lt,
      Nat.lt_of_le_of_lt (Nat.le_of_eq hposition) (firstFrameOffset_lt d.recording)⟩

omit h in
theorem seek_eq (d : Demuxer σ) (stream : Nat) (time : Int64) :
    seek d stream time = some (d.seek stream time) := by
  unfold seek Demuxer.seek
  dsimp only
  rw [keyframeFor_eq]
  cases d.recording.video.index.keyframeFor
    (Demuxer.saturatingSum time.toInt d.recording.video.firstTimestamp.toNat) with
  | error e => rfl
  | ok offset => rfl

theorem next?_eq {r : PacketRun σ} (hr : r.demuxer.reader.Fits)
    (hcount : CountsTo count r.next?.2.demuxer.packetsRead) : next? count r = some r.next? := by
  unfold next?
  unfold PacketRun.next? at hcount ⊢
  by_cases hfinished : r.finished = true
  · rw [if_pos hfinished, if_pos hfinished]
  · rw [if_neg hfinished] at hcount
    rw [if_neg hfinished, if_neg hfinished]
    have hread (hleft : CountsTo count r.demuxer.readPacket.2.packetsRead) :=
      readPacket_eq h hr hleft
    cases hresult : r.demuxer.readPacket with
    | mk result d' =>
      rw [hresult] at hcount hread
      cases result with
      | ok packet =>
        rw [hread hcount]
        rfl
      | error e =>
        cases e <;> (rw [hread hcount]; rfl)

theorem take_eq (n : Nat) {r : PacketRun σ} (hr : r.demuxer.reader.Fits)
    (hcount : CountsTo count (PacketRun.take n r).2.demuxer.packetsRead) :
    take count n r = some (PacketRun.take n r) := by
  induction n generalizing r with
  | zero => rfl
  | succ n ih =>
    obtain ⟨hfits, -⟩ := (keeps_fits h).next? hr
    have hnext (hleft : CountsTo count r.next?.2.demuxer.packetsRead) := next?_eq h hr hleft
    rw [PacketRun.take] at hcount
    rw [take, PacketRun.take]
    cases hitem : r.next? with
    | mk item r' =>
      rw [hitem] at hfits hnext hcount
      cases item with
      | none =>
        rw [hnext hcount]
        rfl
      | some item =>
        have hle := Demuxer.tracks_packetsRead.take n r'
        have hrest := ih hfits hcount
        rw [hnext (hcount.mono (Nat.le.intro hle.symm))]
        simp only [Option.bind_eq_bind, Option.bind_some, hrest]
        rfl

theorem perform_eq (hd : d.reader.Fits) (op : Operation)
    (hcount : CountsTo count (d.packetsRead + (d.perform op).1.packets.length)) :
    perform count d op = some (d.perform op) := by
  have hleft (hop : op ≠ .rewind) : CountsTo count (d.perform op).2.packetsRead := by
    rwa [d.perform_packetsRead hop]
  cases op with
  | readPacket =>
    rw [perform, readPacket_eq h hd (hleft nofun)]
    rfl
  | hostReadPacket =>
    rw [perform, readPacket_eq h hd (hleft nofun)]
    rfl
  | seek stream time =>
    rw [perform, seek_eq]
    rfl
  | hostSeek stream time =>
    rw [perform, seek_eq]
    rfl
  | rewind =>
    rw [perform, rewind, firstFrameOffset_eq]
    rfl
  | packets most =>
    rw [perform, take_eq h most hd (hleft nofun)]
    rfl

theorem performAll_eq (hd : d.reader.Fits) (ops : List Operation)
    (hcount : CountsTo count
      (d.packetsRead + ((d.performAll ops).1.flatMap Outcome.packets).length)) :
    performAll count d ops = some (d.performAll ops) := by
  induction ops generalizing d with
  | nil => rfl
  | cons op ops ih =>
    obtain ⟨hstep, -⟩ := (keeps_fits h).perform hd op
    have hle := d.perform_packetsRead_le op
    rw [Demuxer.packets_performAll_cons, List.length_append] at hcount
    have hrest := ih hstep (hcount.mono (by omega))
    rw [performAll, perform_eq h hd op (hcount.mono (by omega))]
    simp only [Option.bind_eq_bind, Option.bind_some, hrest]
    rfl

end Demuxer

end FixedWidth

namespace Demuxer

variable {σ : Type} [ByteSource σ]

/-- Over a source of up to 2^64 - 1 bytes by its own measure, whatever it holds, wherever reading it
fails and at whatever pace it delivers, numbers of fixed width suffice: opening and all operations
come to the same with each number checked as without, the count of packets too as long as fewer than
2^64 of them are handed out. Frames have the numbers of their places, times lie strictly within 32
bits on either side of zero, the cursor stays a number of 64 bits, and the count of packets is at
most the number of packets that were handed out. -/
theorem fixed_width_suffices {view : σ → MemoryStream} (h : ByteSource.Delivers view)
    (o : OpenOptions) (s : σ) (hs : ByteSource.size s < 2 ^ 64) :
    FixedWidth.openSource o s = some (openSource o s) ∧
    ∀ d, openSource o s = .ok d →
      (∀ t ∈ [d.recording.video, d.recording.audio],
        t.index.Numbered ∧ -2 ^ 32 < t.duration ∧ t.duration < 2 ^ 32) ∧
      ∀ ops : List Operation,
        FixedWidth.performAll some d ops = some (d.performAll ops) ∧
        (((d.performAll ops).1.flatMap Outcome.packets).length < 2 ^ 64 →
          FixedWidth.performAll FixedWidth.word d ops = some (d.performAll ops)) ∧
        (d.performAll ops).2.position < 2 ^ 64 ∧
        (∀ outcome ∈ (d.performAll ops).1, ∀ packet ∈ outcome.packets,
          -2 ^ 32 < packet.pts ∧ packet.pts < 2 ^ 32) ∧
        (d.performAll ops).2.packetsRead ≤
          ((d.performAll ops).1.flatMap Outcome.packets).length := by
  obtain ⟨hopens, hopened⟩ := FixedWidth.openSource_eq h o hs
  refine ⟨hopens, fun d hopen => ?_⟩
  obtain ⟨hfits, hvideo, haudio⟩ := hopened d hopen
  refine ⟨fun t ht => ?_, fun ops => ?_⟩
  · refine ⟨?_, FixedWidth.timeSpan_bounds t.firstTimestamp t.lastTimestamp⟩
    rcases List.mem_cons.mp ht with rfl | ht
    · exact hvideo
    · rw [List.mem_singleton.mp ht]
      exact haudio
  · obtain ⟨hfits', hpackets⟩ := (FixedWidth.keeps_fits h).performAll hfits ops
    have hzero : d.packetsRead = 0 := by
      obtain ⟨recording, reader, -, rfl⟩ := openSource_eq_ok.mp hopen
      rfl
    have hcount := d.packetsRead_le ops
    rw [hzero, Nat.zero_add] at hcount
    refine ⟨?_, fun hfew => ?_, hfits'.position_lt, hpackets, hcount⟩
    · exact FixedWidth.performAll_eq h hfits ops fun _ _ => rfl
    · apply FixedWidth.performAll_eq h hfits ops
      intro n hn
      exact FixedWidth.word_of_lt (by omega)

/-- The sample footage, measured as the longest source there can be, not readable behind its last
byte, and delivered in pieces with interruptions before each. -/
def endlessSample : PacedStream where
  stream := { contents := Footage.sample.image.encode.toByteArray
              measured := some (2 ^ 64 - 1)
              failAt := some Footage.sample.image.encode.length }
  pace turn := { interruptions := turn % 3, extra := some (turn % 5) }

theorem endlessSample_suffices :
    ∃ d, openSource {} endlessSample = .ok d ∧
      FixedWidth.openSource {} endlessSample = some (.ok d) ∧
      FixedWidth.performAll FixedWidth.word d
          [.readPacket, .seek 0 Int64.maxValue, .seek 0 0, .packets 9] =
        some (d.performAll [.readPacket, .seek 0 Int64.maxValue, .seek 0 0, .packets 9]) ∧
      FixedWidth.openSource {} endlessSample.stream = some (openSource {} endlessSample.stream) := by
  have hopens : ((openSource {} endlessSample).toOption.any fun d =>
      ((d.performAll [.readPacket, .seek 0 Int64.maxValue, .seek 0 0, .packets 9]).1.flatMap
        Outcome.packets).length = 4) = true := by
    decide +kernel
  have hsize : ByteSource.size endlessSample < 2 ^ 64 := by
    decide
  obtain ⟨hopen, hruns⟩ := fixed_width_suffices PacedStream.delivers {} endlessSample hsize
  obtain ⟨hatOnce, -⟩ := fixed_width_suffices MemoryStream.delivers {} endlessSample.stream hsize
  cases hd : openSource {} endlessSample with
  | error e =>
    rw [hd] at hopens
    cases hopens
  | ok d =>
    rw [hd] at hopen hopens
    simp only [Except.toOption, Option.any_some, decide_eq_true_eq] at hopens
    exact ⟨d, rfl, hopen, ((hruns d hd).2 _).2.1 (by omega), hatOnce⟩

end Demuxer

end KalayRecord
