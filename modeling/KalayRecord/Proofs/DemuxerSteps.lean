import KalayRecord.Operation
import KalayRecord.Proofs.FaithfulReading
import KalayRecord.Proofs.UniformReading

namespace KalayRecord

open Reading

theorem Reading.MovesOnly.uniform :
    Uniform fun {_} (m _ : Reading MemoryStream _) => MovesOnly m where
  pure := .pure
  throw := .throw
  bind := .bind
  position := .position
  remaining := .remaining
  seek := .seek
  upTo := .upTo

theorem Packet.readNext_movesOnly (x : Recording) (o : OpenOptions) : MovesOnly (readNext x o) :=
  MovesOnly.uniform.packet x o

namespace Demuxer

section Source

variable {σ : Type} [ByteSource σ]

theorem readPacket_of_ok {d : Demuxer σ} {packet : Packet} {reader : MeasuredReader σ}
    (h : Packet.readNext d.recording d.options d.reader = .ok packet reader) :
    d.readPacket = (.ok packet, { d with reader, packetsRead := d.packetsRead + 1 }) := by
  simp only [readPacket, h]

theorem readPacket_of_error {d : Demuxer σ} {e : Error} {reader : MeasuredReader σ}
    (h : Packet.readNext d.recording d.options d.reader = .error e reader) :
    d.readPacket = (.error e, { d with reader }) := by
  simp only [readPacket, h]

theorem readPacket_eq_ok {d d' : Demuxer σ} {packet : Packet} :
    d.readPacket = (.ok packet, d') ↔
      ∃ reader, Packet.readNext d.recording d.options d.reader = .ok packet reader ∧
        d' = { d with reader, packetsRead := d.packetsRead + 1 } := by
  cases h : Packet.readNext d.recording d.options d.reader with
  | ok packet' reader =>
    rw [readPacket_of_ok h]
    constructor
    · intro heq
      cases heq
      exact ⟨reader, rfl, rfl⟩
    · rintro ⟨reader', heq, rfl⟩
      cases heq
      rfl
  | error e reader =>
    rw [readPacket_of_error h]
    simp

theorem openSource_eq_ok {o : OpenOptions} {s : σ} {d : Demuxer σ} :
    openSource o s = .ok d ↔
      ∃ recording reader, Recording.read o (MeasuredReader.ofSource s) = .ok recording reader ∧
        d = { reader, recording, options := o } := by
  unfold openSource Recording.openSource
  cases Recording.read o (MeasuredReader.ofSource s) with
  | ok recording reader =>
    show Except.ok _ = _ ↔ _
    rw [Except.ok.injEq]
    constructor
    · intro heq
      exact ⟨recording, reader, rfl, heq.symm⟩
    · rintro ⟨recording', reader', heq, rfl⟩
      cases heq
      rfl
  | error e reader =>
    show Except.error _ = _ ↔ _
    simp

end Source

end Demuxer

namespace PacketRun

variable {σ : Type} [ByteSource σ] {d d' : Demuxer σ}

theorem take_of_ok {packet : Packet} (h : d.readPacket = (.ok packet, d')) (n : Nat) :
    take (n + 1) { demuxer := d } =
      (.ok packet :: (take n { demuxer := d' }).1, (take n { demuxer := d' }).2) := by
  have hnext : next? { demuxer := d } = (some (.ok packet), { demuxer := d' }) := by
    simp only [next?, h, Bool.false_eq_true, if_false]
  rw [take, hnext]

theorem take_of_endOfStream (h : d.readPacket = (.error .endOfStream, d')) (n : Nat) :
    take (n + 1) { demuxer := d } = ([], { demuxer := d', finished := true }) := by
  have hnext : next? { demuxer := d } = (none, { demuxer := d', finished := true }) := by
    simp only [next?, h, Bool.false_eq_true, if_false]
  rw [take, hnext]

end PacketRun

/-- The packets among what came of an operation. -/
def Outcome.packets : Outcome → List Packet
  | .packet result => result.toOption.toList
  | .items run => run.filterMap Except.toOption
  | .offset _ | .done _ => []

namespace Demuxer

section Invariant

variable {σ : Type} [ByteSource σ] {I : Demuxer σ → Prop} {Q : Packet → Prop} {d : Demuxer σ}

/-- What is true of a demuxer stays so when it reads, seeks or rewinds, and every packet that it
reads has the property `Q`. -/
structure Keeps (I : Demuxer σ → Prop) (Q : Packet → Prop) : Prop where
  readPacket : ∀ d, I d → I d.readPacket.2 ∧ ∀ packet, d.readPacket.1 = .ok packet → Q packet
  seek : ∀ d, I d → ∀ stream time, I (d.seek stream time).2
  rewind : ∀ d, I d → I d.rewind

namespace Keeps

theorem next? (h : Keeps I Q) {r : PacketRun σ} (hr : I r.demuxer) :
    I r.next?.2.demuxer ∧ ∀ packet, r.next?.1 = some (.ok packet) → Q packet := by
  obtain ⟨hd, hpacket⟩ := h.readPacket r.demuxer hr
  unfold PacketRun.next?
  split
  · exact ⟨hr, nofun⟩
  · split
    next packet d' hread =>
      rw [hread] at hd hpacket
      refine ⟨hd, fun packet' heq => ?_⟩
      cases heq
      exact hpacket packet rfl
    next d' hread =>
      rw [hread] at hd
      exact ⟨hd, nofun⟩
    next e d' _ hread =>
      rw [hread] at hd
      exact ⟨hd, nofun⟩

theorem take (h : Keeps I Q) (n : Nat) {r : PacketRun σ} (hr : I r.demuxer) :
    I (PacketRun.take n r).2.demuxer ∧ ∀ packet, .ok packet ∈ (PacketRun.take n r).1 → Q packet := by
  induction n generalizing r with
  | zero => exact ⟨hr, nofun⟩
  | succ n ih =>
    obtain ⟨hnext, hitem⟩ := h.next? hr
    rw [PacketRun.take]
    split
    next r' heq =>
      rw [heq] at hnext
      exact ⟨hnext, nofun⟩
    next item r' heq =>
      rw [heq] at hnext hitem
      obtain ⟨hd, hitems⟩ := ih hnext
      refine ⟨hd, fun packet hmem => ?_⟩
      rcases List.mem_cons.mp hmem with rfl | hmem
      · exact hitem packet rfl
      · exact hitems packet hmem

theorem perform (h : Keeps I Q) (hd : I d) (op : Operation) :
    I (d.perform op).2 ∧ ∀ packet ∈ (d.perform op).1.packets, Q packet := by
  have hread : I d.readPacket.2 ∧ ∀ packet ∈ d.readPacket.1.toOption.toList, Q packet := by
    obtain ⟨hd', hpacket⟩ := h.readPacket d hd
    refine ⟨hd', fun packet hmem => hpacket packet ?_⟩
    cases hresult : d.readPacket.1 with
    | ok packet' =>
      rw [hresult] at hmem
      rw [List.mem_singleton.mp hmem]
    | error e =>
      rw [hresult] at hmem
      cases hmem
  cases op with
  | readPacket => exact hread
  | hostReadPacket => exact hread
  | seek stream time => exact ⟨h.seek d hd stream time, nofun⟩
  | hostSeek stream time => exact ⟨h.seek d hd stream time, nofun⟩
  | rewind => exact ⟨h.rewind d hd, nofun⟩
  | packets most =>
    obtain ⟨hd', hitems⟩ := h.take most (r := { demuxer := d }) hd
    refine ⟨hd', fun packet hmem => hitems packet ?_⟩
    obtain ⟨item, hitem, hsome⟩ := List.mem_filterMap.mp hmem
    cases item with
    | ok packet' =>
      cases hsome
      exact hitem
    | error e => cases hsome

/-- What reading, seeking and rewinding keep, all operations keep. -/
theorem performAll (h : Keeps I Q) (hd : I d) (ops : List Operation) :
    I (d.performAll ops).2 ∧
      ∀ outcome ∈ (d.performAll ops).1, ∀ packet ∈ outcome.packets, Q packet := by
  induction ops generalizing d with
  | nil => exact ⟨hd, nofun⟩
  | cons op ops ih =>
    obtain ⟨hstep, hpackets⟩ := h.perform hd op
    obtain ⟨hrun, hlater⟩ := ih hstep
    refine ⟨hrun, fun outcome hmem => ?_⟩
    rcases List.mem_cons.mp hmem with rfl | hmem
    · exact hpackets
    · exact hlater outcome hmem

end Keeps

end Invariant

/-- The demuxers differ in the cursor and in the count of packets at most. -/
def Moved (d d' : Demuxer MemoryStream) : Prop :=
  ∃ p n, d' = { d with reader := d.reader.moveTo p, packetsRead := n }

namespace Moved

theorem refl (d : Demuxer MemoryStream) : Moved d d := ⟨d.reader.position, d.packetsRead, rfl⟩

theorem trans {d d' d'' : Demuxer MemoryStream} (h : Moved d d') (h' : Moved d' d'') :
    Moved d d'' := by
  obtain ⟨p, n, rfl⟩ := h
  obtain ⟨q, m, rfl⟩ := h'
  exact ⟨q, m, rfl⟩

end Moved

theorem readPacket_moved (d : Demuxer MemoryStream) : Moved d d.readPacket.2 := by
  obtain ⟨p, hp⟩ := Packet.readNext_movesOnly d.recording d.options d.reader
  cases h : Packet.readNext d.recording d.options d.reader with
  | ok packet reader =>
    rw [after_of_ok h] at hp
    rw [readPacket_of_ok h, hp]
    exact ⟨p, d.packetsRead + 1, rfl⟩
  | error e reader =>
    rw [after_of_error h] at hp
    rw [readPacket_of_error h, hp]
    exact ⟨p, d.packetsRead, rfl⟩

theorem seek_moved (d : Demuxer MemoryStream) (stream : Nat) (time : Int64) :
    Moved d (d.seek stream time).2 := by
  unfold seek
  dsimp only
  split
  · exact .refl d
  next offset _ => exact ⟨offset.toNat, d.packetsRead, rfl⟩

theorem rewind_moved (d : Demuxer MemoryStream) : Moved d d.rewind :=
  ⟨d.recording.firstFrameOffset, 0, rfl⟩

theorem keeps_moved (d : Demuxer MemoryStream) : Keeps (Moved d) fun _ => True where
  readPacket d' h := ⟨h.trans d'.readPacket_moved, fun _ _ => trivial⟩
  seek d' h stream time := h.trans (d'.seek_moved stream time)
  rewind d' h := h.trans d'.rewind_moved

/-- Operations change the cursor and the count of packets, and nothing else. -/
theorem performAll_moved (d : Demuxer MemoryStream) (ops : List Operation) :
    Moved d (d.performAll ops).2 := (d.keeps_moved.performAll (.refl d) ops).1

/-- A demuxer over a faithful stream, with its cursor at `p` and after `n` packets. -/
def ofBytes (b : Bytes) (x : Recording) (o : OpenOptions) (p n : Nat) : Demuxer MemoryStream where
  reader := .ofBytes b p
  recording := x
  options := o
  packetsRead := n

variable {b : Bytes} {x : Recording} {o : OpenOptions}

theorem openSource_ofBytes {p : Nat}
    (h : Recording.read o (.ofBytes b 0) = .ok x (.ofBytes b p)) :
    openSource o (MemoryStream.ofBytes b) = .ok (ofBytes b x o p 0) := by
  apply openSource_eq_ok.mpr
  rw [MeasuredReader.ofSource_ofBytes]
  exact ⟨_, _, h, rfl⟩

theorem readPacket_ofBytes_of_ok {p q n : Nat} {packet : Packet}
    (h : Packet.readNext x o (.ofBytes b p) = .ok packet (.ofBytes b q)) :
    (ofBytes b x o p n).readPacket = (.ok packet, ofBytes b x o q (n + 1)) :=
  readPacket_of_ok h

theorem readPacket_ofBytes_of_error {p q n : Nat} {e : Error}
    (h : Packet.readNext x o (.ofBytes b p) = .error e (.ofBytes b q)) :
    (ofBytes b x o p n).readPacket = (.error e, ofBytes b x o q n) :=
  readPacket_of_error h

theorem performAll_ofBytes (p n : Nat) (ops : List Operation) :
    ∃ q m, ((ofBytes b x o p n).performAll ops).2 = ofBytes b x o q m :=
  (ofBytes b x o p n).performAll_moved ops

theorem seek_ofBytes (p n stream : Nat) {time : Int64} {offset : UInt32}
    (h : x.video.index.keyframeFor
      (saturatingSum time.toInt x.video.firstTimestamp.toNat) = .ok offset) :
    (ofBytes b x o p n).seek stream time = (.ok offset.toNat, ofBytes b x o offset.toNat n) := by
  simp only [seek, ofBytes, h]
  rfl

theorem saturatingSum_eq {a b : Int} (ha : Int64.minValue.toInt ≤ a) (hb : 0 ≤ b)
    (h : a + b ≤ Int64.maxValue.toInt) : saturatingSum a b = a + b := by
  unfold saturatingSum
  omega

end Demuxer

end KalayRecord
