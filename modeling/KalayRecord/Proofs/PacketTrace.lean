import KalayRecord.Proofs.Retrying

namespace KalayRecord

namespace Demuxer

variable {σ : Type} [ByteSource σ] {R : Demuxer σ → List Packet → Demuxer σ → Prop}

/-- The relation holds of a demuxer that reads a packet or fails to, and of one read after the
other. -/
structure Tracks (R : Demuxer σ → List Packet → Demuxer σ → Prop) : Prop where
  refl : ∀ d, R d [] d
  trans : ∀ {d d' d'' packets later}, R d packets d' → R d' later d'' → R d (packets ++ later) d''
  readPacket : ∀ d, R d d.readPacket.1.toOption.toList d.readPacket.2

namespace Tracks

theorem next? (h : Tracks R) (r : PacketRun σ) :
    R r.demuxer (r.next?.1.toList.filterMap Except.toOption) r.next?.2.demuxer := by
  have hread := h.readPacket r.demuxer
  unfold PacketRun.next?
  -- a run that has ended reads nothing
  split
  · exact h.refl r.demuxer
  · split
    next packet d' heq =>
      rw [heq] at hread
      exact hread
    next d' heq =>
      rw [heq] at hread
      exact hread
    next e d' _ heq =>
      rw [heq] at hread
      exact hread

theorem take (h : Tracks R) (n : Nat) (r : PacketRun σ) :
    R r.demuxer ((PacketRun.take n r).1.filterMap Except.toOption) (PacketRun.take n r).2.demuxer := by
  induction n generalizing r with
  | zero => exact h.refl r.demuxer
  | succ n ih =>
    have hnext := h.next? r
    rw [PacketRun.take]
    split
    next r' heq =>
      rw [heq] at hnext
      exact hnext
    next item r' heq =>
      rw [heq] at hnext
      have hrun := h.trans hnext (ih r')
      rw [← List.filterMap_append] at hrun
      exact hrun

theorem perform (h : Tracks R) (d : Demuxer σ) {op : Operation} (hop : op.repositions = false) :
    R d (d.perform op).1.packets (d.perform op).2 := by
  cases op with
  | readPacket => exact h.readPacket d
  | hostReadPacket => exact h.readPacket d
  | packets most => exact h.take most { demuxer := d }
  | seek stream time => cases hop
  | rewind => cases hop
  | hostSeek stream time => cases hop

/-- Operations that go on from where the cursor stands add up. -/
theorem performAll (h : Tracks R) (d : Demuxer σ) {ops : List Operation}
    (hops : ∀ op ∈ ops, op.repositions = false) :
    R d ((d.performAll ops).1.flatMap Outcome.packets) (d.performAll ops).2 := by
  induction ops generalizing d with
  | nil => exact h.refl d
  | cons op ops ih =>
    have hstep := h.perform d (hops op List.mem_cons_self)
    have hrun := ih (d.perform op).2 fun op' h' => hops op' (List.mem_cons_of_mem _ h')
    exact h.trans hstep hrun

end Tracks

end Demuxer

end KalayRecord
