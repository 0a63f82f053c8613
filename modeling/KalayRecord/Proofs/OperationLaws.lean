import KalayRecord.Proofs.MarkerBounds
import KalayRecord.Proofs.PacketTrace

namespace KalayRecord

/-- The steps that were taken since the last rewind, or all of them. -/
def sinceRewind : List (Operation × Outcome) → List (Operation × Outcome)
  | [] => []
  | step :: steps =>
    if .rewind ∈ (step :: steps).map Prod.fst then sinceRewind steps else step :: steps

theorem sinceRewind_of_not_mem {steps : List (Operation × Outcome)}
    (h : .rewind ∉ steps.map Prod.fst) : sinceRewind steps = steps := by
  cases steps with
  | nil => rfl
  | cons step steps => rw [sinceRewind, if_neg h]

theorem sinceRewind_cons_of_mem {step : Operation × Outcome} {steps : List (Operation × Outcome)}
    (h : .rewind ∈ steps.map Prod.fst) : sinceRewind (step :: steps) = sinceRewind steps := by
  rw [sinceRewind, List.map_cons, if_pos (List.mem_cons_of_mem _ h)]

namespace Demuxer

section Source

variable {σ : Type} [ByteSource σ]

/-- The operations, each with what came of it. -/
def history (d : Demuxer σ) (ops : List Operation) : List (Operation × Outcome) :=
  ops.zip (d.performAll ops).1

theorem history_cons (d : Demuxer σ) (op : Operation) (ops : List Operation) :
    d.history (op :: ops) = (op, (d.perform op).1) :: (d.perform op).2.history ops := rfl

theorem map_fst_history (d : Demuxer σ) (ops : List Operation) :
    (d.history ops).map Prod.fst = ops := by
  induction ops generalizing d with
  | nil => rfl
  | cons op ops ih => rw [history_cons, List.map_cons, ih]

/-- The packets handed out since the last rewind, by whatever operation. -/
def packetsSinceRewind (d : Demuxer σ) (ops : List Operation) : List Packet :=
  (sinceRewind (d.history ops)).flatMap fun step => step.2.packets

theorem tracks_packetsRead :
    Tracks (σ := σ) fun d packets d' => d'.packetsRead = d.packetsRead + packets.length where
  refl _ := rfl
  trans := by
    intro d d' d'' packets later h h'
    rw [h', h, List.length_append, Nat.add_assoc]
  readPacket d := by
    cases h : Packet.readNext d.recording d.options d.reader with
    | ok packet reader =>
      rw [readPacket_of_ok h]
      rfl
    | error e reader =>
      rw [readPacket_of_error h]
      rfl

theorem seek_packetsRead (d : Demuxer σ) (stream : Nat) (time : Int64) :
    (d.seek stream time).2.packetsRead = d.packetsRead := by
  unfold seek
  dsimp only
  split <;> rfl

theorem perform_packetsRead (d : Demuxer σ) {op : Operation} (hop : op ≠ .rewind) :
    (d.perform op).2.packetsRead = d.packetsRead + (d.perform op).1.packets.length := by
  cases op with
  | rewind => exact absurd rfl hop
  | seek stream time => exact d.seek_packetsRead stream time
  | hostSeek stream time => exact d.seek_packetsRead stream time
  | readPacket => exact tracks_packetsRead.perform d rfl
  | hostReadPacket => exact tracks_packetsRead.perform d rfl
  | packets most => exact tracks_packetsRead.perform d rfl

/-- The count goes on from what it was, unless a rewind has taken it back. -/
theorem performAll_packetsRead (d : Demuxer σ) (ops : List Operation) :
    (d.performAll ops).2.packetsRead =
      (if .rewind ∈ ops then 0 else d.packetsRead) + (d.packetsSinceRewind ops).length := by
  induction ops generalizing d with
  | nil => rfl
  | cons op ops ih =>
    have hlater := ih (d.perform op).2
    have hmap := (d.perform op).2.map_fst_history ops
    change ((d.perform op).2.performAll ops).2.packetsRead = _
    rw [hlater, packetsSinceRewind, packetsSinceRewind, history_cons]
    -- a rewind among the later operations forgets this step, and this step may be one itself
    by_cases hops : .rewind ∈ ops
    · rw [if_pos hops, if_pos (List.mem_cons_of_mem op hops), sinceRewind_cons_of_mem]
      rwa [hmap]
    · have hrest : sinceRewind ((d.perform op).2.history ops) = (d.perform op).2.history ops := by
        apply sinceRewind_of_not_mem
        rwa [hmap]
      by_cases hop : op = .rewind
      · subst hop
        rw [if_neg hops, if_pos List.mem_cons_self, sinceRewind, List.map_cons,
          if_pos List.mem_cons_self]
        rfl
      · have hnone : .rewind ∉ op :: ops := by
          simp only [List.mem_cons, not_or]
          exact ⟨fun heq => hop heq.symm, hops⟩
        rw [if_neg hops, if_neg hnone, hrest, sinceRewind, List.map_cons, hmap, if_neg hnone,
          List.flatMap_cons, List.length_append, d.perform_packetsRead hop, Nat.add_assoc]

end Source

/-- Whatever has been asked of an open demuxer, and whatever has failed: the recording, the streams
and the options are those of opening; the packets handed out since the last rewind have been counted;
a seek either fails and changes nothing, or goes to an entry of the keyframe table; no seek depends
on the stream that it names or on what went before; and a rewind leads back to opening. -/
theorem lawful_after_operations (o : OpenOptions) (b : Bytes) (d : Demuxer MemoryStream)
    (hopen : openSource o (MemoryStream.ofBytes b) = .ok d) (ops : List Operation)
    (s : Demuxer MemoryStream) (hs : (d.performAll ops).2 = s) :
    (s.recording = d.recording ∧ s.streams = d.streams ∧ s.options = d.options) ∧
    s.packetsRead = (d.packetsSinceRewind ops).length ∧
    (∀ stream time,
      (∀ e, (s.seek stream time).1 = .error e → (s.seek stream time).2 = s) ∧
      (∀ offset, (s.seek stream time).1 = .ok offset →
        (s.seek stream time).2.position = offset ∧
        (s.seek stream time).2.packetsRead = s.packetsRead ∧
        ∃ k ∈ d.recording.video.index.keyframeOffsets, k.toNat = offset) ∧
      s.perform (.hostSeek stream time) =
        (.done ((s.seek stream time).1.map fun _ => ()), (s.seek stream time).2)) ∧
    (∀ stream stream' time, (s.seek stream time).1 = (d.seek stream' time).1) ∧
    ∀ later, (s.perform .rewind).2.performAll later = d.performAll later := by
  obtain ⟨x, rfl⟩ := eq_ofBytes_of_open hopen
  have hcount := (ofBytes b x o x.firstFrameOffset 0).performAll_packetsRead ops
  obtain ⟨p, n, hstate⟩ := performAll_ofBytes (b := b) (x := x) (o := o) x.firstFrameOffset 0 ops
  rw [hs] at hcount hstate
  subst hstate
  refine ⟨⟨rfl, rfl, rfl⟩, ?_, ?_, ?_, fun later => rfl⟩
  · rw [hcount]
    split <;> exact Nat.zero_add _
  · intro stream time
    rcases seek_cases b x o time with ⟨e, hseek⟩ | ⟨k, hk, hseek⟩
    · refine ⟨fun _ _ => congrArg Prod.snd (hseek p n stream), ?_, rfl⟩
      rw [hseek p n stream]
      exact nofun
    · refine ⟨?_, ?_, rfl⟩
      · rw [hseek p n stream]
        exact nofun
      · rw [hseek p n stream]
        intro offset hoffset
        cases hoffset
        exact ⟨rfl, rfl, k, hk, rfl⟩
  · intro stream stream' time
    rcases seek_cases b x o time with ⟨e, hseek⟩ | ⟨k, -, hseek⟩
    · rw [hseek, hseek]
    · rw [hseek, hseek]

/-- A run to the end and past it, and then two packets from the beginning, with a seek behind the
last frame before them. -/
def sampleOperations : List Operation :=
  [.packets 9, .readPacket, .rewind, .hostSeek 0 5000, .hostReadPacket, .readPacket]

theorem length_sampleOperations :
    ((Footage.sample.openedAt Footage.sample.start 0).packetsSinceRewind sampleOperations).length
      = 2 := by
  decide +kernel

theorem sampleOperations_lawful :
    ∃ d s, openSource {} (MemoryStream.ofBytes Footage.sample.image.encode) = .ok d ∧
      (d.performAll sampleOperations).2 = s ∧ s.packetsRead = 2 ∧
      (s.seek 1 5000).1.isOk = false ∧ (s.seek 1 5000).2 = s ∧
      (∃ k ∈ d.recording.video.index.keyframeOffsets, (s.seek 1 0).2.position = k.toNat) ∧
      ∀ later, (s.perform .rewind).2.performAll later = d.performAll later := by
  have hopen := Footage.sample_lawful.openSource_eq
  have hlength := length_sampleOperations
  have hbehind : ((Footage.sample.openedAt Footage.sample.start 0).seek 0 5000).1.isOk = false := by
    decide +kernel
  have hbegin : ((Footage.sample.openedAt Footage.sample.start 0).seek 0 0).1.isOk = true := by
    decide +kernel
  generalize Footage.sample.openedAt Footage.sample.start 0 = d at hopen hlength hbehind hbegin
  obtain ⟨-, hcount, hseek, hsame, hrewind⟩ := lawful_after_operations {}
    Footage.sample.image.encode d hopen sampleOperations _ rfl
  rw [hlength] at hcount
  rw [← hsame 1 0 5000] at hbehind
  rw [← hsame 1 0 0] at hbegin
  refine ⟨d, _, hopen, rfl, hcount, hbehind, ?_, ?_, hrewind⟩
  · obtain ⟨hfail, -, -⟩ := hseek 1 5000
    cases h : ((d.performAll sampleOperations).2.seek 1 5000).1 with
    | ok offset => rw [h] at hbehind; cases hbehind
    | error e => exact hfail e h
  · obtain ⟨-, hgoes, -⟩ := hseek 1 0
    cases h : ((d.performAll sampleOperations).2.seek 1 0).1 with
    | ok offset =>
      obtain ⟨hposition, -, k, hk, hoffset⟩ := hgoes offset h
      exact ⟨k, hk, by rw [hposition, hoffset]⟩
    | error e => rw [h] at hbegin; cases hbegin

end Demuxer

end KalayRecord
