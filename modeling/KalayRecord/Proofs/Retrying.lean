import KalayRecord.Proofs.FootagePlayback
import KalayRecord.Proofs.NextPacket

namespace KalayRecord

open Reading MeasuredReader

namespace Demuxer

section Source

variable {σ : Type} [ByteSource σ]

/-- Reading packets with errors ignored until they end: what comes before the end, and the demuxer
that is left. -/
inductive ReadsOut : Demuxer σ → List (Except Error Packet) → Demuxer σ → Prop
  | ended {d d' : Demuxer σ} (h : d.readPacket = (.error .endOfStream, d')) : ReadsOut d [] d'
  | result {d d' d'' : Demuxer σ} {r : Except Error Packet} {results : List (Except Error Packet)}
      (h : d.readPacket = (r, d')) (hr : r ≠ .error .endOfStream) (later : ReadsOut d' results d'') :
      ReadsOut d (r :: results) d''

/-- No packet is left, and trying again moves nothing. -/
def Spent (d : Demuxer σ) : Prop := d.readPacket = (.error .endOfStream, d)

end Source

end Demuxer

def Operation.repositions : Operation → Bool
  | .seek _ _ | .rewind | .hostSeek _ _ => true
  | .readPacket | .packets _ | .hostReadPacket => false

namespace Demuxer

section Source

variable {σ : Type} [ByteSource σ] {d : Demuxer σ}

/-- Only a seek or a rewind takes a demuxer away from the end of the packets. -/
theorem Spent.perform (h : d.Spent) {op : Operation} (hop : op.repositions = false) :
    (d.perform op).2 = d := by
  cases op with
  | readPacket => exact congrArg Prod.snd h
  | hostReadPacket => exact congrArg Prod.snd h
  | packets most =>
    cases most with
    | zero => rfl
    | succ n =>
      show (PacketRun.take (n + 1) { demuxer := d }).2.demuxer = d
      rw [PacketRun.take_of_endOfStream h]
  | seek stream time => cases hop
  | rewind => cases hop
  | hostSeek stream time => cases hop

theorem Spent.performAll (h : d.Spent) {ops : List Operation}
    (hops : ∀ op ∈ ops, op.repositions = false) : (d.performAll ops).2 = d := by
  induction ops with
  | nil => rfl
  | cons op ops ih =>
    show ((d.perform op).2.performAll ops).2 = d
    rw [h.perform (hops op List.mem_cons_self)]
    exact ih fun op' h' => hops op' (List.mem_cons_of_mem _ h')

end Source

variable {b : Bytes} {x : Recording} {o : OpenOptions} {p n : Nat}

theorem spent_of_end (h : x.mediaDataEnd ≤ p ∨ b.length ≤ p) : (ofBytes b x o p n).Spent :=
  readPacket_ofBytes_of_error (Packet.readNext_of_end h)

/-- A read comes to the end for good, or it gives a result and takes the cursor forward. Only a
search that may look at no byte can fail where it stands. -/
theorem readPacket_progress (b : Bytes) (x : Recording) (o : OpenOptions) (p n : Nat) :
    (∃ q, p ≤ q ∧ (ofBytes b x o p n).readPacket = (.error .endOfStream, ofBytes b x o q n) ∧
      (ofBytes b x o q n).Spent) ∨
    ∃ r q n', r ≠ .error .endOfStream ∧ p < x.mediaDataEnd ∧ p < b.length ∧ p ≤ q ∧
      (1 ≤ o.scanLimit x.mediaDataSize.toNat → p < q) ∧
      (ofBytes b x o p n).readPacket = (r, ofBytes b x o q n') := by
  rcases Packet.readNext_cases x o b p with ⟨q, hq, hend, h⟩ | ⟨hregion, hb, h⟩ | ⟨m, hm, hend, h⟩
  · exact Or.inl ⟨q, hq, readPacket_ofBytes_of_error h, spent_of_end hend⟩
  · exact Or.inr ⟨.error (.syncNotFound p (o.scanLimit x.mediaDataSize.toNat)), _, n, nofun, hregion,
      hb, Nat.le_add_right _ _, Nat.lt_add_of_pos_right, readPacket_ofBytes_of_error h⟩
  · have hb := (markerAt_drop.mp hm.1).lt_length
    obtain ⟨q, hq, hresult⟩ := Packet.readFrame_proceeds x (p + m) b (p + m + 2)
    rw [← h] at hresult
    rcases hresult with ⟨packet, hok⟩ | ⟨e, he, herror⟩
    · exact Or.inr ⟨.ok packet, q, n + 1, nofun, by omega, by omega, by omega, fun _ => by omega,
        readPacket_ofBytes_of_ok hok⟩
    · exact Or.inr ⟨.error e, q, n, fun heq => he (Except.error.inj heq), by omega, by omega,
        by omega, fun _ => by omega, readPacket_ofBytes_of_error herror⟩

theorem readPacket_forward (b : Bytes) (x : Recording) (o : OpenOptions) (p n : Nat) :
    ∃ q n', p ≤ q ∧ (ofBytes b x o p n).readPacket.2 = ofBytes b x o q n' := by
  rcases readPacket_progress b x o p n with
    ⟨q, hq, h, -⟩ | ⟨r, q, n', -, -, -, hq, -, h⟩
  · exact ⟨q, n, hq, congrArg Prod.snd h⟩
  · exact ⟨q, n', hq, congrArg Prod.snd h⟩

theorem exists_readsOut (hlimit : 1 ≤ o.scanLimit x.mediaDataSize.toNat) (p n : Nat) :
    ∃ results d', (ofBytes b x o p n).ReadsOut results d' ∧
      results.length ≤ min x.mediaDataEnd b.length - p := by
  -- on the bytes left, of which each result takes one at least
  obtain ⟨left, hleft⟩ : ∃ left, min x.mediaDataEnd b.length - p = left := ⟨_, rfl⟩
  induction left using Nat.strongRecOn generalizing p n with
  | ind left ih =>
    rcases readPacket_progress b x o p n with
      ⟨q, -, h, -⟩ | ⟨r, q, n', hr, hregion, hb, -, hforward, h⟩
    · exact ⟨[], _, .ended h, Nat.zero_le _⟩
    · have hlt := hforward hlimit
      obtain ⟨results, d', hlater, hlength⟩ := ih (min x.mediaDataEnd b.length - q) (by omega) q n' rfl
      refine ⟨r :: results, d', .result h hr hlater, ?_⟩
      rw [List.length_cons]
      omega

theorem eq_ofBytes_of_open {d : Demuxer MemoryStream}
    (h : openSource o (MemoryStream.ofBytes b) = .ok d) :
    ∃ x, d = ofBytes b x o x.firstFrameOffset 0 := by
  obtain ⟨x, reader, hread, rfl⟩ := openSource_eq_ok.mp h
  rw [MeasuredReader.ofSource_ofBytes] at hread
  obtain ⟨-, -, -, -, -, -, rfl⟩ := Recording.read_eq_ok.mp hread
  exact ⟨x, rfl⟩

/-- From every state, a read does not take the cursor back, and once the packets have ended they stay
so until a seek or a rewind. If a search may look at one byte at least, each other result takes the
cursor forward, and no more of them come than there are bytes left of the media data. -/
theorem reading_on_ends (o : OpenOptions) (b : Bytes) (d : Demuxer MemoryStream)
    (hopen : openSource o (MemoryStream.ofBytes b) = .ok d) (ops : List Operation)
    (s : Demuxer MemoryStream) (hs : (d.performAll ops).2 = s) :
    s.position ≤ s.readPacket.2.position ∧
      (s.readPacket.1 = .error .endOfStream → ∀ later : List Operation,
        (∀ op ∈ later, op.repositions = false) →
          (s.readPacket.2.performAll later).2.readPacket =
            (.error .endOfStream, s.readPacket.2)) ∧
      (1 ≤ o.scanLimit d.recording.mediaDataSize.toNat →
        (s.readPacket.1 ≠ .error .endOfStream → s.position < s.readPacket.2.position) ∧
        ∃ results s', s.ReadsOut results s' ∧
          results.length ≤ min d.recording.mediaDataEnd b.length - s.position) := by
  obtain ⟨x, rfl⟩ := eq_ofBytes_of_open hopen
  obtain ⟨p, n, hstate⟩ := performAll_ofBytes (b := b) (x := x) (o := o) x.firstFrameOffset 0 ops
  rw [hstate] at hs
  subst hs
  rcases readPacket_progress b x o p n with
    ⟨q, hq, h, hspent⟩ | ⟨r, q, n', hr, -, -, hq, hforward, h⟩
  · rw [h]
    refine ⟨hq, fun _ later hlater => ?_, fun hlimit => ⟨fun hne => absurd rfl hne, ?_⟩⟩
    · rw [hspent.performAll hlater]
      exact hspent
    · exact exists_readsOut hlimit p n
  · rw [h]
    refine ⟨hq, fun hend => absurd hend hr, fun hlimit => ⟨fun _ => hforward hlimit, ?_⟩⟩
    exact exists_readsOut hlimit p n

theorem sample_reading_on :
    ∃ d s, openSource {} (MemoryStream.ofBytes Footage.sample.image.encode) = .ok d ∧
      (d.performAll [.readPacket, .seek 0 40]).2 = s ∧
      s.readPacket.1 ≠ .error .endOfStream ∧
      s.position < s.readPacket.2.position ∧
      ∃ results s', s.ReadsOut results s' ∧
        results.length ≤
          min d.recording.mediaDataEnd Footage.sample.image.encode.length - s.position := by
  obtain ⟨d, hd⟩ : ∃ d, Footage.sample.openedAt Footage.sample.start 0 = d := ⟨_, rfl⟩
  have hopen := hd ▸ Footage.sample_lawful.openSource_eq
  have hlimit : 1 ≤ OpenOptions.scanLimit {} d.recording.mediaDataSize.toNat := by
    rw [← hd]
    decide
  have hread : (d.performAll [.readPacket, .seek 0 40]).2.readPacket.1.toOption.isSome := by
    rw [← hd]
    decide +kernel
  have hne : (d.performAll [.readPacket, .seek 0 40]).2.readPacket.1 ≠ .error .endOfStream := by
    intro heq
    rw [heq] at hread
    cases hread
  obtain ⟨-, -, hon⟩ :=
    reading_on_ends {} Footage.sample.image.encode d hopen [.readPacket, .seek 0 40] _ rfl
  obtain ⟨hforward, hends⟩ := hon hlimit
  exact ⟨d, _, hopen, rfl, hne, hforward hne, hends⟩

end Demuxer

end KalayRecord
