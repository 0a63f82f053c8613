import KalayRecord.Recording
import KalayRecord.Proofs.StreamFaults

namespace KalayRecord

theorem length_lt_of_cut {b bytes : Bytes} {p k : Nat} (h : b.drop p = bytes.take k)
    (hk : k < bytes.length) : b.length - p < bytes.length := by
  have hlength := congrArg List.length h
  rw [List.length_drop, List.length_take] at hlength
  omega

open MeasuredReader

namespace Reading

variable {α β : Type}

/-- The step fails because fewer bytes are left than some field takes. -/
def Truncates (m : Reading MemoryStream α) (r : MeasuredReader MemoryStream) : Prop :=
  ∃ field need available r', available < need ∧
    m r = .error (.truncatedInput field need available) r'

theorem Truncates.bind {m : Reading MemoryStream α} {r : MeasuredReader MemoryStream}
    (h : Truncates m r) (f : α → Reading MemoryStream β) : Truncates (m >>= f) r := by
  obtain ⟨field, need, available, r', hlt, h⟩ := h
  exact ⟨field, need, available, r', hlt, bind_of_error h⟩

/-- From `bytes` the step yields `a`, and moves past them, whatever stands around them. Where the
stream ends within them it fails as truncated. -/
structure Takes (m : Reading MemoryStream α) (bytes : Bytes) (a : α) : Prop where
  yields : ∀ {b rest : Bytes} {p : Nat}, b.drop p = bytes ++ rest →
    m (ofBytes b p) = .ok a (ofBytes b (p + bytes.length))
  truncates : ∀ {b : Bytes} {p k : Nat}, b.drop p = bytes.take k → k < bytes.length →
    Truncates m (ofBytes b p)

namespace Takes

theorem pure (a : α) : Takes (pure a) [] a where
  yields _ := rfl
  truncates _ hk := absurd hk (Nat.not_lt_zero _)

theorem bind {m : Reading MemoryStream α} {f : α → Reading MemoryStream β} {first second : Bytes}
    {a : α} {c : β} (hm : Takes m first a) (hf : Takes (f a) second c) :
    Takes (m >>= f) (first ++ second) c where
  yields {b rest p} hb := by
    rw [List.append_assoc] at hb
    rw [bind_of_ok (hm.yields hb), hf.yields (drop_of_append hb), List.length_append, Nat.add_assoc]
  truncates {b p k} hb hk := by
    rw [List.length_append] at hk
    rw [List.take_append] at hb
    by_cases hcut : k < first.length
    · -- the first part is cut, and nothing of the second is there
      have hnone : k - first.length = 0 := by omega
      rw [hnone, List.take_zero, List.append_nil] at hb
      exact (hm.truncates hb hcut).bind f
    · rw [List.take_of_length_le (Nat.not_lt.mp hcut)] at hb
      have hsecond := hf.truncates (drop_of_append hb) (by omega)
      obtain ⟨field, need, available, r', hlt, h⟩ := hsecond
      exact ⟨field, need, available, r', hlt, by rw [bind_of_ok (hm.yields hb), h]⟩

theorem exactly {n : Nat} {bytes : Bytes} (field : String) (hn : bytes.length = n) :
    Takes (Reading.exactly n field) bytes bytes where
  yields hb := (Reads.exactly n field).of_drop hb ⟨hn, rfl⟩
  truncates {b p k} hb hk := by
    have hshort : b.length - p < n := hn ▸ length_lt_of_cut hb hk
    exact ⟨field, n, _, _, hshort, by rw [exactly_ofBytes, if_pos hshort]⟩

theorem skip {n : Nat} {bytes : Bytes} (field : String) (hn : bytes.length = n) :
    Takes (Reading.skip n field) bytes () where
  yields hb := (Reads.skip n field).of_drop hb hn
  truncates {b p k} hb hk := by
    have hshort : b.length - p < n := hn ▸ length_lt_of_cut hb hk
    exact ⟨field, n, _, _, hshort, by rw [skip_ofBytes, if_pos hshort]⟩

end Takes

/-- Wherever the step succeeds, the bytes that it passes decide what it does. -/
def SelfDelimiting (m : Reading MemoryStream α) : Prop :=
  ∀ ⦃b p a r'⦄, m (ofBytes b p) = .ok a r' →
    ∃ bytes rest, b.drop p = bytes ++ rest ∧ r' = ofBytes b (p + bytes.length) ∧ Takes m bytes a

namespace SelfDelimiting

theorem pure (a : α) : SelfDelimiting (pure a) := by
  intro b p c r' h
  obtain ⟨rfl, rfl⟩ := pure_eq_ok.mp h
  exact ⟨[], b.drop p, rfl, rfl, .pure a⟩

theorem throw (e : Error) : SelfDelimiting (throw e : Reading MemoryStream α) :=
  fun _ _ _ _ h => absurd h throw_ne_ok

theorem bind {m : Reading MemoryStream α} {f : α → Reading MemoryStream β}
    (hm : SelfDelimiting m) (hf : ∀ a, SelfDelimiting (f a)) : SelfDelimiting (m >>= f) := by
  intro b p c r'' h
  obtain ⟨a, r', hr, hr'⟩ := bind_eq_ok.mp h
  obtain ⟨first, rest, hfirst, rfl, hma⟩ := hm hr
  obtain ⟨second, rest', hsecond, rfl, hfc⟩ := hf a hr'
  rw [drop_of_append hfirst] at hsecond
  refine ⟨first ++ second, rest', ?_, ?_, hma.bind hfc⟩
  · rw [hfirst, hsecond, List.append_assoc]
  · rw [List.length_append, Nat.add_assoc]

theorem ite {c : Prop} [Decidable c] {m m' : Reading MemoryStream α} (hm : SelfDelimiting m)
    (hm' : SelfDelimiting m') : SelfDelimiting (if c then m else m') := by
  split
  · exact hm
  · exact hm'

theorem map {m : Reading MemoryStream α} (hm : SelfDelimiting m) (f : α → β) :
    SelfDelimiting (f <$> m) := by
  rw [← bind_pure_comp]
  exact hm.bind fun _ => .pure _

theorem exactly (n : Nat) (field : String) : SelfDelimiting (Reading.exactly n field) := by
  intro b p a r' h
  obtain ⟨bytes, rest, hb, ⟨hn, rfl⟩, hr⟩ := (Reads.exactly n field b p a r').mp h
  exact ⟨a, rest, hb, hr, .exactly field hn⟩

theorem skip (n : Nat) (field : String) : SelfDelimiting (Reading.skip n field) := by
  intro b p a r' h
  obtain ⟨bytes, rest, hb, hn, hr⟩ := (Reads.skip n field b p a r').mp h
  exact ⟨bytes, rest, hb, hr, .skip field hn⟩

theorem uint8 (field : String) : SelfDelimiting (Reading.uint8 field) :=
  (exactly 1 field).bind fun _ => .pure _

theorem uint16 (field : String) : SelfDelimiting (Reading.uint16 field) :=
  (exactly 2 field).bind fun _ => .pure _

theorem uint32 (field : String) : SelfDelimiting (Reading.uint32 field) :=
  (exactly 4 field).bind fun _ => .pure _

theorem uint64 (field : String) : SelfDelimiting (Reading.uint64 field) :=
  (exactly 8 field).bind fun _ => .pure _

theorem uint32BigEndian (field : String) : SelfDelimiting (Reading.uint32BigEndian field) :=
  (exactly 4 field).bind fun _ => .pure _

theorem ensure {m : Reading MemoryStream α} {n : Nat} (field : String) (hm : SelfDelimiting m)
    (hn : Needs n m) :
    SelfDelimiting (do
      let available ← Reading.remaining
      if available < n then MonadExcept.throw (.truncatedInput field n available) else m) := by
  intro b p a r' h
  rw [bind_of_ok (remaining_apply _), check_eq_ok] at h
  obtain ⟨bytes, rest, hb, hr, htakes⟩ := hm h.2
  refine ⟨bytes, rest, hb, hr, ⟨fun {b rest p} hb => ?_, fun {b p k} hb hk => ?_⟩⟩
  · have hyields := htakes.yields hb
    have hlength := hn hyields
    rw [bytes_ofBytes, position_ofBytes] at hlength
    rw [bind_of_ok (remaining_apply _), remaining_ofBytes, if_neg (by omega), hyields]
  · by_cases hshort : b.length - p < n
    · refine ⟨field, n, b.length - p, ofBytes b p, hshort, ?_⟩
      rw [bind_of_ok (remaining_apply _), remaining_ofBytes, if_pos hshort]
      rfl
    · obtain ⟨name, need, available, r', hlt, hcut⟩ := htakes.truncates hb hk
      refine ⟨name, need, available, r', hlt, ?_⟩
      rw [bind_of_ok (remaining_apply _), remaining_ofBytes, if_neg hshort, hcut]

/-- A step that reads a format takes the bytes that the format has for a value. -/
theorem takes {m : Reading MemoryStream α} {F : Bytes → α → Prop} {bytes : Bytes} {a : α}
    (hm : SelfDelimiting m) (hreads : Reads m F) (ha : F bytes a) : Takes m bytes a := by
  have hall : bytes.drop 0 = bytes ++ [] := by rw [List.drop_zero, List.append_nil]
  obtain ⟨bytes', rest, hb, hr, htakes⟩ := hm (hreads.of_drop hall ha)
  have hend : 0 + bytes.length = 0 + bytes'.length := congrArg MeasuredReader.position hr
  have hlength := congrArg List.length hb
  rw [List.drop_zero, List.length_append] at hlength
  have hrest : rest = [] := List.length_eq_zero_iff.mp (by omega)
  rw [List.drop_zero, hrest, List.append_nil] at hb
  rwa [hb]

end SelfDelimiting

end Reading

open Reading

theorem IndexTable.read_selfDelimiting (checkSize : Bool) :
    SelfDelimiting (IndexTable.read checkSize) := by
  simp only [IndexTable.read, throw_bind]
  apply (SelfDelimiting.uint32 _).bind
  intro size
  apply (SelfDelimiting.uint32 _).bind
  intro type
  apply (SelfDelimiting.uint32 _).bind
  intro count
  -- the length is checked before the size field, so that a cut table is never called malformed
  apply SelfDelimiting.ensure
  · exact .ite (.throw _) ((SelfDelimiting.exactly _ _).bind fun _ => .pure _)
  · exact .ite (.throw _ _) ((Needs.exactly _ _).bind _)

theorem TrackRecord.read_selfDelimiting (kind : MediaKind) (checkSizes : Bool) :
    SelfDelimiting (TrackRecord.read kind checkSizes) := by
  have htable := IndexTable.read_selfDelimiting checkSizes
  simp only [TrackRecord.read]
  refine (SelfDelimiting.uint32 _).bind fun size => (SelfDelimiting.uint32 _).bind fun type =>
    (SelfDelimiting.uint8 _).bind fun codecByte => (SelfDelimiting.uint8 _).bind fun flag =>
    (SelfDelimiting.uint16 _).bind fun id => (SelfDelimiting.uint32 _).bind fun first =>
    (SelfDelimiting.uint32 _).bind fun last => htable.bind fun timestamps => ?_
  cases kind with
  | video =>
    exact (htable.map _).bind fun _ => htable.bind fun _ => htable.bind fun _ => .pure _
  | audio =>
    exact (SelfDelimiting.pure _).bind fun _ => htable.bind fun _ => htable.bind fun _ => .pure _

theorem RecordingHeader.read_selfDelimiting : SelfDelimiting RecordingHeader.read := by
  simp only [RecordingHeader.read, throw_bind]
  exact (SelfDelimiting.exactly _ _).bind fun found => .ite (.throw _) <|
    (SelfDelimiting.uint32 _).bind fun fileLength =>
    (SelfDelimiting.uint32BigEndian _).bind fun sectionType =>
    (SelfDelimiting.uint32 _).bind fun version =>
    (SelfDelimiting.uint32BigEndian _).bind fun encryptType =>
    (SelfDelimiting.exactly _ _).bind fun uuid => (SelfDelimiting.uint32 _).bind fun channel =>
    (SelfDelimiting.uint64 _).bind fun createTime =>
    (SelfDelimiting.uint8 _).bind fun flag => .pure _

end KalayRecord
