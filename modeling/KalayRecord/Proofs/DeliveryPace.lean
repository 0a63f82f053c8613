import KalayRecord.Proofs.FootagePlayback
import KalayRecord.Proofs.ShortReads

namespace KalayRecord

open Reading

section Shown

variable {σ : Type}

/-- The reader over the stream behind its source. -/
def MeasuredReader.shown (view : σ → MemoryStream) (r : MeasuredReader σ) :
    MeasuredReader MemoryStream where
  source := view r.source
  length := r.length

def Demuxer.shown (view : σ → MemoryStream) (d : Demuxer σ) : Demuxer MemoryStream :=
  { d with reader := d.reader.shown view }

def PacketRun.shown (view : σ → MemoryStream) (r : PacketRun σ) : PacketRun MemoryStream :=
  { r with demuxer := r.demuxer.shown view }

def Reading.resultShown {α : Type} (view : σ → MemoryStream) :
    EStateM.Result Error (MeasuredReader σ) α → EStateM.Result Error (MeasuredReader MemoryStream) α
  | .ok a r => .ok a (r.shown view)
  | .error e r => .error e (r.shown view)

/-- The first step over a source comes to what the second comes to over the stream behind it. -/
def Reading.Agrees {α : Type} (view : σ → MemoryStream) (m : Reading σ α)
    (m' : Reading MemoryStream α) : Prop :=
  ∀ r, m' (r.shown view) = resultShown view (m r)

end Shown

section Source

variable {σ : Type} [ByteSource σ] {view : σ → MemoryStream}

namespace ByteSource.Delivers

theorem position_shown (h : Delivers view) (r : MeasuredReader σ) :
    (r.shown view).position = r.position := (h.position r.source).symm

theorem ofSource_shown (h : Delivers view) (s : σ) :
    MeasuredReader.ofSource (view s) = (MeasuredReader.ofSource s).shown view := by
  simp only [MeasuredReader.ofSource, MeasuredReader.shown, h.seek, h.size]
  rfl

theorem uniform (h : Delivers view) : Uniform (Agrees view) where
  pure a r := rfl
  throw e r := rfl
  bind := by
    intro α β m m' f f' hm hf r
    have hfirst := hm r
    cases hr : m r with
    | ok a r' =>
      rw [hr] at hfirst
      rw [bind_of_ok hr, bind_of_ok hfirst]
      exact hf a r'
    | error e r' =>
      rw [hr] at hfirst
      rw [bind_of_error hr, bind_of_error hfirst]
      rfl
  position r := by
    rw [position_apply, position_apply, h.position_shown]
    rfl
  remaining r := by
    rw [remaining_apply, remaining_apply, MeasuredReader.remaining, h.position_shown]
    rfl
  seek p r := by
    rw [seek_apply, seek_apply]
    simp only [MeasuredReader.shown, resultShown, h.seek]
  upTo n r := by
    have hgather := h.gather r.source n
    unfold Reading.upTo
    rw [MeasuredReader.shown, hgather]
    cases ByteSource.gather r.source n with
    | mk result s => cases result <;> rfl

theorem readPacket_shown (h : Delivers view) (d : Demuxer σ) :
    (d.shown view).readPacket = (d.readPacket.1, d.readPacket.2.shown view) := by
  have hread := h.uniform.packet d.recording d.options d.reader
  cases hr : Packet.readNext d.recording d.options d.reader with
  | ok packet reader =>
    rw [hr] at hread
    rw [Demuxer.readPacket_of_ok hr, Demuxer.readPacket_of_ok (d := d.shown view) hread]
    rfl
  | error e reader =>
    rw [hr] at hread
    rw [Demuxer.readPacket_of_error hr, Demuxer.readPacket_of_error (d := d.shown view) hread]
    rfl

theorem seek_shown (h : Delivers view) (d : Demuxer σ) (stream : Nat) (time : Int64) :
    (d.shown view).seek stream time =
      ((d.seek stream time).1, (d.seek stream time).2.shown view) := by
  simp only [Demuxer.seek, Demuxer.shown, MeasuredReader.shown]
  split
  · rfl
  · simp only [h.seek]

theorem rewind_shown (h : Delivers view) (d : Demuxer σ) :
    (d.shown view).rewind = d.rewind.shown view := by
  simp only [Demuxer.rewind, Demuxer.shown, MeasuredReader.shown, h.seek]

theorem next?_shown (h : Delivers view) (r : PacketRun σ) :
    (r.shown view).next? = (r.next?.1, r.next?.2.shown view) := by
  cases hfinished : r.finished with
  | true =>
    simp only [PacketRun.next?, PacketRun.shown, hfinished, if_true]
  | false =>
    have hshown := h.readPacket_shown r.demuxer
    obtain ⟨⟨result, d⟩, hread⟩ : ∃ read, r.demuxer.readPacket = read := ⟨_, rfl⟩
    rw [hread] at hshown
    simp only [PacketRun.next?, PacketRun.shown, hfinished, hread, hshown, Bool.false_eq_true,
      if_false]
    cases result with
    | ok packet => rfl
    | error e => cases e <;> rfl

theorem take_shown (h : Delivers view) (n : Nat) (r : PacketRun σ) :
    PacketRun.take n (r.shown view) =
      ((PacketRun.take n r).1, (PacketRun.take n r).2.shown view) := by
  induction n generalizing r with
  | zero => rfl
  | succ n ih =>
    rw [PacketRun.take, PacketRun.take, h.next?_shown]
    obtain ⟨⟨item?, r'⟩, hnext⟩ : ∃ next, r.next? = next := ⟨_, rfl⟩
    rw [hnext]
    cases item? with
    | none => rfl
    | some item =>
      dsimp only
      rw [ih r']

theorem perform_shown (h : Delivers view) (d : Demuxer σ) (op : Operation) :
    (d.shown view).perform op = ((d.perform op).1, (d.perform op).2.shown view) := by
  cases op with
  | readPacket => simp only [Demuxer.perform, h.readPacket_shown]
  | hostReadPacket => simp only [Demuxer.perform, PacketSource.readPacket, h.readPacket_shown]
  | seek stream time => simp only [Demuxer.perform, h.seek_shown]
  | hostSeek stream time => simp only [Demuxer.perform, PacketSource.seek, h.seek_shown]
  | rewind => simp only [Demuxer.perform, h.rewind_shown]
  | packets most =>
    have htake := h.take_shown most { demuxer := d }
    simp only [PacketRun.shown] at htake
    simp only [Demuxer.perform, htake]

theorem performAll_shown (h : Delivers view) (d : Demuxer σ) (ops : List Operation) :
    (d.shown view).performAll ops = ((d.performAll ops).1, (d.performAll ops).2.shown view) := by
  induction ops generalizing d with
  | nil => rfl
  | cons op ops ih =>
    simp only [Demuxer.performAll, h.perform_shown, ih]

theorem openSource_shown (h : Delivers view) (o : OpenOptions) (s : σ) :
    Demuxer.openSource o (view s) = (Demuxer.openSource o s).map (·.shown view) := by
  have hread := h.uniform.recording o (MeasuredReader.ofSource s)
  rw [← h.ofSource_shown] at hread
  unfold Demuxer.openSource Recording.openSource
  rw [hread]
  cases Recording.read o (MeasuredReader.ofSource s) with
  | ok recording reader => rfl
  | error e reader => rfl

end ByteSource.Delivers

namespace Demuxer

/-- What shows of a demuxer when all operations are done: what came of them, the cursor, and the count
of packets. -/
def observe (d : Demuxer σ) (ops : List Operation) : List Outcome × Nat × Nat :=
  let (outcomes, d') := d.performAll ops
  (outcomes, d'.position, d'.packetsRead)

/-- At whatever pace a source delivers a stream in memory, opening it succeeds, with the same
recording, or fails, with the same error, as opening the stream; and all operations come to the same. -/
theorem pace_is_invisible (h : ByteSource.Delivers view) (o : OpenOptions) (s : σ)
    (ops : List Operation) :
    (openSource o s).map (fun d => (d.recording, d.observe ops)) =
      (openSource o (view s)).map fun d => (d.recording, d.observe ops) := by
  rw [h.openSource_shown]
  cases openSource o s with
  | error e => rfl
  | ok d =>
    have hposition := h.position_shown (d.performAll ops).2.reader
    simp only [Except.map, observe, h.performAll_shown]
    show _ = Except.ok (d.recording, _, ((d.performAll ops).2.reader.shown view).position, _)
    rw [hposition]
    rfl

end Demuxer

end Source

namespace Demuxer

/-- The sample footage, delivered in pieces of one to five bytes with up to two interruptions before
each. -/
def haltingSample : PacedStream where
  stream := .ofBytes Footage.sample.image.encode
  pace turn := { interruptions := turn % 3, extra := some (turn % 5) }

theorem haltingSample_observed :
    ∃ d, openSource {} haltingSample = .ok d ∧ d.recording = Footage.sample.image.view ∧
      d.observe [.readPacket, .seek 0 40, .packets 5, .rewind] =
        (Footage.sample.openedAt Footage.sample.start 0).observe
          [.readPacket, .seek 0 40, .packets 5, .rewind] := by
  have hsame := pace_is_invisible PacedStream.delivers {} haltingSample
    [.readPacket, .seek 0 40, .packets 5, .rewind]
  have hstream : openSource {} haltingSample.stream =
      .ok (Footage.sample.openedAt Footage.sample.start 0) := Footage.sample_lawful.openSource_eq
  rw [hstream] at hsame
  cases hopen : openSource {} haltingSample with
  | error e =>
    rw [hopen] at hsame
    cases hsame
  | ok d =>
    rw [hopen] at hsame
    obtain ⟨hrecording, hobserved⟩ := Prod.mk.inj (Except.ok.inj hsame)
    exact ⟨d, rfl, hrecording, hobserved⟩

end Demuxer

end KalayRecord
