import KalayRecord.Packet
import KalayRecord.Proofs.ReadingSteps

namespace KalayRecord

namespace Reading

variable {σ τ : Type} {P : ∀ {α : Type}, Reading σ α → Reading τ α → Prop}

theorem Uniform.ite {α : Type} {c : Prop} [Decidable c] {m n : Reading σ α} {m' n' : Reading τ α}
    (hm : P m m') (hn : P n n') : P (if c then m else n) (if c then m' else n') := by
  split
  · exact hm
  · exact hn

variable [ByteSource σ] [ByteSource τ]

/-- The relation holds of each step that touches the source, and of what is put together from steps
of which it holds. -/
structure Uniform (P : ∀ {α : Type}, Reading σ α → Reading τ α → Prop) : Prop where
  pure {α : Type} (a : α) : P (pure a) (pure a)
  throw {α : Type} (e : Error) : P (throw e : Reading σ α) (throw e)
  bind {α β : Type} {m : Reading σ α} {m' : Reading τ α} {f : α → Reading σ β}
    {f' : α → Reading τ β} : P m m' → (∀ a, P (f a) (f' a)) → P (m >>= f) (m' >>= f')
  position : P Reading.position Reading.position
  remaining : P Reading.remaining Reading.remaining
  seek (p : Nat) : P (Reading.seek p) (Reading.seek p)
  upTo (n : Nat) : P (Reading.upTo n) (Reading.upTo n)

namespace Uniform

variable (h : Uniform P)

include h

theorem map {α β : Type} {m : Reading σ α} {m' : Reading τ α} (hm : P m m') (f : α → β) :
    P (f <$> m) (f <$> m') := by
  rw [map_eq_pure_bind, map_eq_pure_bind]
  exact h.bind hm fun a => h.pure (f a)

theorem skip (n : Nat) (field : String) : P (Reading.skip n field) (Reading.skip n field) := by
  simp only [Reading.skip, throw_bind]
  apply h.bind h.remaining
  intro available
  apply ite (h.throw _)
  exact h.bind h.position fun p => h.seek _

theorem exactly (n : Nat) (field : String) :
    P (Reading.exactly n field) (Reading.exactly n field) := by
  simp only [Reading.exactly, throw_bind]
  apply h.bind h.remaining
  intro available
  apply ite (h.throw _)
  apply h.bind (h.upTo n)
  intro bytes
  exact ite (h.throw _) (h.pure bytes)

theorem uint8 (field : String) : P (Reading.uint8 field) (Reading.uint8 field) :=
  h.bind (h.exactly 1 field) fun _ => h.pure _

theorem uint16 (field : String) : P (Reading.uint16 field) (Reading.uint16 field) :=
  h.bind (h.exactly 2 field) fun _ => h.pure _

theorem uint32 (field : String) : P (Reading.uint32 field) (Reading.uint32 field) :=
  h.bind (h.exactly 4 field) fun _ => h.pure _

theorem uint64 (field : String) : P (Reading.uint64 field) (Reading.uint64 field) :=
  h.bind (h.exactly 8 field) fun _ => h.pure _

theorem uint32BigEndian (field : String) :
    P (Reading.uint32BigEndian field) (Reading.uint32BigEndian field) :=
  h.bind (h.exactly 4 field) fun _ => h.pure _

theorem table (checkSize : Bool) : P (IndexTable.read checkSize) (IndexTable.read checkSize) := by
  simp only [IndexTable.read, throw_bind]
  refine h.bind (h.uint32 _) fun size => h.bind (h.uint32 _) fun type =>
    h.bind (h.uint32 _) fun count => h.bind h.remaining fun available => ?_
  apply ite (h.throw _)
  apply ite (h.throw _)
  exact h.bind (h.exactly _ _) fun items => h.pure _

theorem track (kind : MediaKind) (checkSizes : Bool) :
    P (TrackRecord.read kind checkSizes) (TrackRecord.read kind checkSizes) := by
  have htable := h.table checkSizes
  simp only [TrackRecord.read]
  refine h.bind (h.uint32 _) fun size => h.bind (h.uint32 _) fun type =>
    h.bind (h.uint8 _) fun codecByte => h.bind (h.uint8 _) fun flag =>
    h.bind (h.uint16 _) fun id => h.bind (h.uint32 _) fun first =>
    h.bind (h.uint32 _) fun last => h.bind htable fun timestamps => ?_
  cases kind with
  | video =>
    exact h.bind (h.map htable _) fun keyframes => h.bind htable fun sizes =>
      h.bind htable fun offsets => h.pure _
  | audio =>
    exact h.bind (h.pure _) fun keyframes => h.bind htable fun sizes =>
      h.bind htable fun offsets => h.pure _

theorem header : P RecordingHeader.read RecordingHeader.read := by
  simp only [RecordingHeader.read, throw_bind]
  refine h.bind (h.exactly _ _) fun found => ite (h.throw _) ?_
  exact h.bind (h.uint32 _) fun fileLength => h.bind (h.uint32BigEndian _) fun sectionType =>
    h.bind (h.uint32 _) fun version => h.bind (h.uint32BigEndian _) fun encryptType =>
    h.bind (h.exactly _ _) fun uuid => h.bind (h.uint32 _) fun channel =>
    h.bind (h.uint64 _) fun createTime => h.bind (h.uint8 _) fun flag => h.pure _

theorem recording (o : OpenOptions) : P (Recording.read o) (Recording.read o) := by
  simp only [Recording.read, throw_bind]
  refine h.bind (h.seek _) fun _ => h.bind h.header fun header => ite (h.throw _) ?_
  refine h.bind (h.seek _) fun _ => h.bind (h.uint32 _) fun mediaDataSize =>
    h.bind (h.skip _ _) fun _ => h.bind (h.uint32 _) fun indexSectionSize =>
    h.bind (h.skip _ _) fun _ => h.bind (h.track _ _) fun video =>
    h.bind (h.track _ _) fun audio => ite ?_ ?_
  · split
    · exact h.throw _
    · exact h.bind (h.seek _) fun _ => h.pure _
  · exact h.bind (h.seek _) fun _ => h.pure _

theorem scanFrom (start regionLeft window scanned : Nat) (previous : UInt8) :
    P (MarkerScan.scanFrom start regionLeft window scanned previous)
      (MarkerScan.scanFrom start regionLeft window scanned previous) := by
  induction scanned, previous using MarkerScan.scanFrom.induct window with
  | case1 scanned previous hw =>
    rw [MarkerScan.scanFrom, MarkerScan.scanFrom, if_pos hw, if_pos hw]
    exact h.throw _
  | case2 scanned previous hw ih =>
    rw [MarkerScan.scanFrom, MarkerScan.scanFrom, if_neg hw, if_neg hw]
    apply h.bind (h.upTo _)
    intro block
    split
    · exact h.throw _
    next hblock =>
      split
      · exact h.bind (h.seek _) fun _ => h.pure _
      · exact ih block hblock

theorem findMarker (regionEnd limit : Nat) :
    P (MarkerScan.findMarker regionEnd limit) (MarkerScan.findMarker regionEnd limit) :=
  h.bind h.position fun _ => h.scanFrom _ _ _ _ _

theorem frame (x : Recording) (offset : Nat) :
    P (Packet.readFrame x offset) (Packet.readFrame x offset) := by
  simp only [Packet.readFrame, throw_bind]
  refine h.bind (h.uint16 _) fun id => h.bind (h.uint32 _) fun number => ?_
  split
  · split
    · refine h.bind h.position fun position => h.bind h.remaining fun available => ?_
      exact ite (h.throw _) (h.bind (h.exactly _ _) fun data => h.pure _)
    · exact h.throw _
  · exact h.throw _

theorem packet (x : Recording) (o : OpenOptions) :
    P (Packet.readNext x o) (Packet.readNext x o) := by
  simp only [Packet.readNext, throw_bind]
  refine h.bind h.position fun position => h.bind h.remaining fun remaining => ?_
  exact ite (h.throw _) (h.bind (h.findMarker _ _) fun offset => h.frame x offset)

end Uniform

end Reading

end KalayRecord
