import KalayRecord.Proofs.MarkerBounds
import KalayRecord.Proofs.PacketTrace

namespace KalayRecord

open MeasuredReader

namespace Packet

/-- Where the marker of the packet's record begins. -/
def start (packet : Packet) : Nat := packet.position - headerSize

def stop (packet : Packet) : Nat := packet.position + packet.data.length

/-- The bytes hold the packet: a marker and the payload, as long as the index says, at its place. -/
structure StandsIn (packet : Packet) (b : Bytes) : Prop where
  header_le : headerSize ≤ packet.position
  marker : MarkerAt b packet.start
  length_eq : packet.data.length = packet.recordSize.toNat - headerSize
  stop_le : packet.stop ≤ b.length
  data_eq : packet.data = (b.drop packet.position).take packet.data.length

theorem StandsIn.start_add_le {packet : Packet} {b : Bytes} (h : packet.StandsIn b) :
    packet.start + headerSize ≤ packet.stop := by
  have hheader := h.header_le
  rw [start, stop]
  omega

theorem standsIn_of_readNext {b : Bytes} {x : Recording} {o : OpenOptions} {p : Nat}
    {packet : Packet} {r' : MeasuredReader MemoryStream}
    (h : readNext x o (ofBytes b p) = .ok packet r') :
    p ≤ packet.start ∧ packet.StandsIn b ∧ r' = ofBytes b packet.stop := by
  rcases readNext_cases x o b p with ⟨q, -, -, hend⟩ | ⟨-, -, hlost⟩ | ⟨m, hm, -, hframe⟩
  · rw [hend] at h
    cases h
  · rw [hlost] at h
    cases h
  · rw [hframe] at h
    obtain ⟨hposition, hlength, hdata, hstop, hr⟩ := payload_of_readFrame h
    have hstart : packet.start = p + m := by
      rw [start, hposition, headerSize]
      omega
    refine ⟨by omega, ⟨?_, ?_, hlength, hstop, ?_⟩, hr⟩
    · rw [hposition, headerSize]
      omega
    · rw [hstart]
      exact markerAt_drop.mp hm.1
    · exact List.prefix_iff_eq_take.mp hdata

end Packet

/-- The packets stand in the bytes between two places, each behind the one before it. -/
def Laid (b : Bytes) : Nat → List Packet → Nat → Prop
  | p, [], q => p ≤ q
  | p, packet :: packets, q =>
    p ≤ packet.start ∧ packet.StandsIn b ∧ Laid b packet.stop packets q

namespace Laid

variable {b : Bytes} {p q r : Nat} {packets later : List Packet}

theorem of_le (h : p ≤ q) (hlaid : Laid b q packets r) : Laid b p packets r := by
  cases packets with
  | nil => exact Nat.le_trans h hlaid
  | cons packet packets => exact ⟨Nat.le_trans h hlaid.1, hlaid.2⟩

theorem append (h : Laid b p packets q) (hlater : Laid b q later r) :
    Laid b p (packets ++ later) r := by
  induction packets generalizing p with
  | nil => exact hlater.of_le h
  | cons packet packets ih => exact ⟨h.1, h.2.1, ih h.2.2⟩

theorem standsIn (h : Laid b p packets q) :
    ∀ packet ∈ packets, p ≤ packet.start ∧ packet.StandsIn b := by
  induction packets generalizing p with
  | nil => exact nofun
  | cons packet packets ih =>
    obtain ⟨hstart, hstands, hrest⟩ := h
    intro packet' hmem
    rcases List.mem_cons.mp hmem with rfl | hmem
    · exact ⟨hstart, hstands⟩
    · obtain ⟨hle, hstands'⟩ := ih hrest packet' hmem
      have hheader := hstands.start_add_le
      exact ⟨by omega, hstands'⟩

theorem pairwise (h : Laid b p packets q) :
    packets.Pairwise fun first second =>
      first.start < second.start ∧ first.stop ≤ second.start := by
  induction packets generalizing p with
  | nil => exact .nil
  | cons packet packets ih =>
    obtain ⟨-, hstands, hrest⟩ := h
    apply List.Pairwise.cons ?_ (ih hrest)
    intro packet' hmem
    obtain ⟨hle, -⟩ := hrest.standsIn packet' hmem
    have hheader := hstands.start_add_le
    rw [Packet.headerSize] at hheader
    exact ⟨by omega, hle⟩

theorem length_le (h : Laid b p packets q) :
    Packet.headerSize * packets.length ≤ b.length - p := by
  induction packets generalizing p with
  | nil => exact Nat.zero_le _
  | cons packet packets ih =>
    obtain ⟨hstart, hstands, hrest⟩ := h
    have hlater := ih hrest
    have hheader := hstands.start_add_le
    have hstop := hstands.stop_le
    rw [List.length_cons, Nat.mul_succ]
    omega

end Laid

namespace Demuxer

/-- Over a faithful stream: what is handed out stands between the cursor before and the cursor
after. -/
def HandsOut (d : Demuxer MemoryStream) (packets : List Packet) (d' : Demuxer MemoryStream) : Prop :=
  ∀ b x o p n, d = ofBytes b x o p n →
    ∃ q n', d' = ofBytes b x o q n' ∧ Laid b p packets q

theorem readPacket_handsOut (d : Demuxer MemoryStream) :
    d.HandsOut d.readPacket.1.toOption.toList d.readPacket.2 := by
  rintro b x o p n rfl
  cases hread : Packet.readNext x o (.ofBytes b p) with
  | ok packet reader =>
    obtain ⟨hstart, hstands, rfl⟩ := Packet.standsIn_of_readNext hread
    rw [readPacket_ofBytes_of_ok hread]
    exact ⟨packet.stop, n + 1, rfl, hstart, hstands, Nat.le_refl _⟩
  | error e reader =>
    -- a read that fails may have moved the cursor, but not back
    obtain ⟨q, n', hle, hd⟩ := readPacket_forward b x o p n
    have hresult := readPacket_of_error (d := ofBytes b x o p n) hread
    rw [hresult] at hd ⊢
    exact ⟨q, n', hd, hle⟩

theorem tracks_handsOut : Tracks HandsOut where
  refl d := by
    rintro b x o p n rfl
    exact ⟨p, n, rfl, Nat.le_refl p⟩
  trans := by
    intro d d' d'' packets later h h' b x o p n hd
    obtain ⟨q, m, hd', hlaid⟩ := h b x o p n hd
    obtain ⟨r, k, hd'', hlater⟩ := h' b x o q m hd'
    exact ⟨r, k, hd'', hlaid.append hlater⟩
  readPacket := readPacket_handsOut

/-- From every state, and whatever errors come between them, the packets that are handed out until
the next seek or rewind come from runs of bytes of the stream that begin with a marker and hold their
payloads. Each run lies behind the one before, and none before the cursor. -/
theorem packets_never_overlap (o : OpenOptions) (b : Bytes) (d : Demuxer MemoryStream)
    (hopen : openSource o (MemoryStream.ofBytes b) = .ok d) (ops : List Operation)
    (s : Demuxer MemoryStream) (hs : (d.performAll ops).2 = s) (later : List Operation)
    (hlater : ∀ op ∈ later, op.repositions = false) (packets : List Packet)
    (hpackets : (s.performAll later).1.flatMap Outcome.packets = packets) :
    (packets.Pairwise fun first second =>
      first.start < second.start ∧ first.stop ≤ second.start) ∧
    (∀ packet ∈ packets, s.position ≤ packet.start ∧ packet.StandsIn b) ∧
    packets.length ≤ (b.length - s.position) / Packet.headerSize := by
  obtain ⟨x, rfl⟩ := eq_ofBytes_of_open hopen
  obtain ⟨p, n, hstate⟩ := performAll_ofBytes (b := b) (x := x) (o := o) x.firstFrameOffset 0 ops
  rw [hstate] at hs
  subst hs
  obtain ⟨q, m, -, hlaid⟩ := tracks_handsOut.performAll (ofBytes b x o p n) hlater b x o p n rfl
  rw [hpackets] at hlaid
  refine ⟨hlaid.pairwise, hlaid.standsIn, ?_⟩
  rw [Nat.le_div_iff_mul_le (by decide), Nat.mul_comm]
  exact hlaid.length_le

/-- Three frames with an index that lies: the second is far longer than the stream, and the third
shorter than its own header. -/
def lyingSample : RecordingImage :=
  let f : Footage :=
    { Footage.sample with
      shots := [
        { kind := .video, timestamp := 1000, payload := [0xFF, 0xFF, 7], marked := true, gap := [] },
        { kind := .audio, timestamp := 1010, payload := [8], marked := false, gap := [0xFF, 0] },
        { kind := .video, timestamp := 1040, payload := [9], marked := false, gap := [] }] }
  { f.image with
    video := { f.image.video with sizes := Footage.table 0 [11, 3] }
    audio := { f.image.audio with sizes := Footage.table 0 [1000] } }

theorem lyingSample_wellFormed : lyingSample.WellFormed where
  uuid_length := rfl
  uuid_text := Footage.sample_lawful.uuid_text
  extra_length := rfl
  mediaData_length := rfl
  video_keyframes := rfl
  audio_keyframes := rfl
  items_length := by decide

theorem lyingSample_opens :
    openSource {} (MemoryStream.ofBytes lyingSample.encode) =
      .ok (ofBytes lyingSample.encode lyingSample.view {} lyingSample.view.firstFrameOffset 0) :=
  lyingSample_wellFormed.openSource_eq ⟨nofun, fun _ => by decide, nofun⟩

def lyingSampleRun (d : Demuxer MemoryStream) : List Packet :=
  ((d.performAll [.readPacket, .seek 0 0]).2.performAll
    [.readPacket, .hostReadPacket, .packets 5]).1.flatMap Outcome.packets

theorem length_lyingSampleRun :
    (lyingSampleRun (ofBytes lyingSample.encode lyingSample.view {}
      lyingSample.view.firstFrameOffset 0)).length = 2 := by
  decide +kernel

theorem lyingSample_apart :
    ∃ d packets, openSource {} (MemoryStream.ofBytes lyingSample.encode) = .ok d ∧
      lyingSampleRun d = packets ∧ packets.length = 2 ∧
      packets.Pairwise (fun first second =>
        first.start < second.start ∧ first.stop ≤ second.start) ∧
      ∀ packet ∈ packets, packet.StandsIn lyingSample.encode := by
  have hopen := lyingSample_opens
  have hlength := length_lyingSampleRun
  generalize ofBytes lyingSample.encode lyingSample.view {} lyingSample.view.firstFrameOffset 0 = d
    at hopen hlength
  obtain ⟨hapart, hstands, -⟩ := packets_never_overlap {} lyingSample.encode d hopen
    [.readPacket, .seek 0 0] _ rfl [.readPacket, .hostReadPacket, .packets 5] (by decide)
    (lyingSampleRun d) rfl
  exact ⟨d, lyingSampleRun d, hopen, rfl, hlength, hapart,
    fun packet h => (hstands packet h).2⟩

end Demuxer

end KalayRecord
