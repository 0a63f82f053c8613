import Mathlib.Logic.Function.Iterate
import KalayRecord.Proofs.DemuxerSteps

namespace KalayRecord

namespace Demuxer

variable {σ : Type} [ByteSource σ]

/-- What so many reads come to, one after the other whatever comes of them. -/
def reads : (n : Nat) → Demuxer σ → List (Except Error Packet) × Demuxer σ
  | 0, d => ([], d)
  | n + 1, d =>
    let (result, d') := d.readPacket
    let (results, d'') := reads n d'
    (result :: results, d'')

/-- The results up to the first failure, which is the last of them. -/
def throughFailure : List (Except Error Packet) → List (Except Error Packet)
  | [] => []
  | .ok packet :: results => .ok packet :: throughFailure results
  | .error e :: _ => [.error e]

def isEnd : Except Error Packet → Bool
  | .ok _ => false
  | .error e => e.isEndOfStream

variable {d d' : Demuxer σ}

theorem isEnd_of_ne {e : Error} (h : e ≠ .endOfStream) : isEnd (.error e) = false := by
  show e.isEndOfStream = false
  unfold Error.isEndOfStream
  split
  · exact absurd rfl h
  · rfl

theorem reads_succ {result : Except Error Packet} (h : d.readPacket = (result, d')) (n : Nat) :
    reads (n + 1) d = (result :: (reads n d').1, (reads n d').2) := by
  rw [reads, h]

theorem reads_one {result : Except Error Packet} (h : d.readPacket = (result, d')) :
    reads 1 d = ([result], d') := reads_succ h 0

end Demuxer

namespace PacketRun

variable {σ : Type} [ByteSource σ] {d d' : Demuxer σ} {r : PacketRun σ}

theorem take_of_error {e : Error} (he : e ≠ .endOfStream) (h : d.readPacket = (.error e, d'))
    (n : Nat) : take (n + 1) { demuxer := d } =
      ([.error e], { demuxer := d', finished := true }) := by
  have hnext : next? { demuxer := d } = (some (.error e), { demuxer := d', finished := true }) := by
    simp only [next?, h, Bool.false_eq_true, if_false]
  rw [take, hnext]
  cases n with
  | zero => rfl
  | succ n => rfl

theorem finished_of_next? (h : ∀ packet, r.next?.1 ≠ some (.ok packet)) :
    r.next?.2.finished = true := by
  unfold next? at h ⊢
  split at h
  next hfinished =>
    rw [if_pos hfinished]
    exact hfinished
  next hfinished =>
    rw [if_neg hfinished]
    split at h
    next packet d' hread => exact absurd rfl (h packet)
    next d' hread => rfl
    next e d' hne hread => rfl

theorem next?_of_finished (h : r.finished = true) : r.next? = (none, r) := by
  rw [next?, if_pos h]

theorem iterate_next?_of_finished (h : r.finished = true) (m : Nat) :
    (fun r => r.next?.2)^[m] r = r := by
  apply Function.iterate_fixed
  rw [next?_of_finished h]

end PacketRun

namespace Demuxer

variable {σ : Type} [ByteSource σ]

/-- A run makes the reads up to the first failure and no other. -/
theorem take_eq_reads (d : Demuxer σ) (n : Nat) :
    (PacketRun.take n { demuxer := d }).1 =
        (throughFailure (d.reads n).1).filter (!isEnd ·) ∧
      (PacketRun.take n { demuxer := d }).2.demuxer =
        (d.reads (throughFailure (d.reads n).1).length).2 := by
  induction n generalizing d with
  | zero => exact ⟨rfl, rfl⟩
  | succ n ih =>
    obtain ⟨⟨result, d'⟩, hread⟩ : ∃ read, d.readPacket = read := ⟨_, rfl⟩
    rw [reads_succ hread]
    cases result with
    | ok packet =>
      obtain ⟨hitems, hdemuxer⟩ := ih d'
      rw [PacketRun.take_of_ok hread, throughFailure, List.length_cons, reads_succ hread, hitems,
        hdemuxer]
      exact ⟨rfl, rfl⟩
    | error e =>
      rw [throughFailure, List.length_singleton, reads_one hread]
      by_cases he : e = .endOfStream
      · subst he
        rw [PacketRun.take_of_endOfStream hread]
        exact ⟨rfl, rfl⟩
      · rw [PacketRun.take_of_error he hread]
        exact ⟨by simp [isEnd_of_ne he], rfl⟩

theorem reads_throughFailure (d : Demuxer σ) (n : Nat) :
    (d.reads (throughFailure (d.reads n).1).length).1 = throughFailure (d.reads n).1 := by
  induction n generalizing d with
  | zero => rfl
  | succ n ih =>
    obtain ⟨⟨result, d'⟩, hread⟩ : ∃ read, d.readPacket = read := ⟨_, rfl⟩
    rw [reads_succ hread]
    cases result with
    | ok packet => rw [throughFailure, List.length_cons, reads_succ hread, ih d']
    | error e => rw [throughFailure, List.length_singleton, reads_one hread]

theorem exists_packets (results : List (Except Error Packet)) :
    ∃ (packets : List Packet) (failure : Option Error),
      (throughFailure results).filter (!isEnd ·) =
        packets.map .ok ++ failure.toList.map .error := by
  induction results with
  | nil => exact ⟨[], none, rfl⟩
  | cons result results ih =>
    cases result with
    | ok packet =>
      obtain ⟨packets, failure, hitems⟩ := ih
      refine ⟨packet :: packets, failure, ?_⟩
      rw [List.map_cons, List.cons_append, ← hitems]
      rfl
    | error e =>
      by_cases he : e = .endOfStream
      · subst he
        exact ⟨[], none, rfl⟩
      · exact ⟨[], some e, by simp [throughFailure, isEnd_of_ne he]⟩

/-- A run for at most `n` items hands out what reads come to up to the first failure, but for the end
of the packets, and leaves the demuxer as these reads do. At most one item is a failure, and it is the
last. Once a run has come to something other than a packet, it comes to nothing and stays. -/
theorem run_is_prefix :
    (∀ (d : Demuxer σ) (n : Nat),
      let results := throughFailure (d.reads n).1
      let run := PacketRun.take n { demuxer := d }
      (d.reads results.length).1 = results ∧
        run.1 = results.filter (!isEnd ·) ∧
        run.2.demuxer = (d.reads results.length).2 ∧
        ∃ (packets : List Packet) (failure : Option Error),
          run.1 = packets.map .ok ++ failure.toList.map .error) ∧
    ∀ r : PacketRun σ, (∀ packet, r.next?.1 ≠ some (.ok packet)) →
      ∀ m, ((fun r => r.next?.2)^[m] r.next?.2).next? = (none, r.next?.2) := by
  constructor
  · intro d n
    obtain ⟨hitems, hdemuxer⟩ := d.take_eq_reads n
    obtain ⟨packets, failure, hpackets⟩ := exists_packets (d.reads n).1
    exact ⟨d.reads_throughFailure n, hitems, hdemuxer, packets, failure, hitems.trans hpackets⟩
  · intro r hr m
    have hfinished := PacketRun.finished_of_next? hr
    rw [PacketRun.iterate_next?_of_finished hfinished, PacketRun.next?_of_finished hfinished]

end Demuxer

namespace Demuxer

/-- A demuxer with two records ahead, of a track that the recording has not and of its video. -/
def estranged : Demuxer MemoryStream :=
  let records := [0xFF, 0xFF, 9, 0, 0, 0, 0, 0, 0xFF, 0xFF, 1, 0, 0, 0, 0, 0]
  let recording : Recording := {
    header := { fileLength := 0, sectionType := 0, version := 1, encryptType := 0, uuid := "",
                channel := 0, createTime := 0, extraHeaderFlag := 0 }
    mediaDataSize := 16
    indexSectionSize := 0
    video := { kind := .video, declaredSize := 84, recordType := 0, codecByte := 0x4E, flag := 0,
               id := 1, firstTimestamp := 0, lastTimestamp := 0, occupiedSize := 84
               index := FrameTables.build
                 { timestamps := [0], keyframeOffsets := [80], sizes := [8], offsets := [80] } }
    audio := { kind := .audio, declaredSize := 56, recordType := 0, codecByte := 0x86, flag := 0,
               id := 2, firstTimestamp := 0, lastTimestamp := 0, occupiedSize := 56
               index := FrameTables.build {} } }
  .ofBytes (List.replicate 72 0 ++ records) recording {} 72 0

theorem estranged_stops :
    (∀ packet, (PacketRun.next? { demuxer := estranged }).1 ≠ some (.ok packet)) ∧
      (∀ m, ((fun r => r.next?.2)^[m] (PacketRun.next? { demuxer := estranged }).2).next? =
        (none, (PacketRun.next? { demuxer := estranged }).2)) ∧
      (PacketRun.next? { demuxer := estranged }).2.demuxer.readPacket.1.toOption.isSome = true := by
  have hfails : ((PacketRun.next? { demuxer := estranged }).1.any fun item =>
      item.toOption.isNone) = true := by
    decide +kernel
  have hstops : ∀ packet, (PacketRun.next? { demuxer := estranged }).1 ≠ some (.ok packet) := by
    intro packet hpacket
    rw [hpacket] at hfails
    cases hfails
  exact ⟨hstops, run_is_prefix.2 _ hstops, by decide +kernel⟩

end Demuxer

end KalayRecord
