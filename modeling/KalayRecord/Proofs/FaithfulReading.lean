import KalayRecord.Proofs.ReadingSteps
import KalayRecord.Proofs.WordCodes

namespace KalayRecord

namespace MeasuredReader

/-- The reader of a faithful stream, with its cursor at `p`. -/
def ofBytes (bytes : Bytes) (p : Nat) : MeasuredReader MemoryStream where
  source := { MemoryStream.ofBytes bytes with position := p }
  length := bytes.length

@[simp] theorem position_ofBytes (bytes : Bytes) (p : Nat) : (ofBytes bytes p).position = p := rfl

@[simp] theorem remaining_ofBytes (bytes : Bytes) (p : Nat) :
    (ofBytes bytes p).remaining = bytes.length - p := rfl

@[simp] theorem bytes_ofBytes (bytes : Bytes) (p : Nat) :
    (ofBytes bytes p).source.bytes = bytes :=
  MemoryStream.bytes_ofBytes bytes

theorem ofSource_ofBytes (bytes : Bytes) :
    ofSource (MemoryStream.ofBytes bytes) = ofBytes bytes 0 := by
  unfold ofSource
  rw [MemoryStream.source_size, MemoryStream.size_ofBytes]
  rfl

end MeasuredReader

theorem length_take_drop {b : Bytes} {p n : Nat} (h : n ≤ b.length - p) :
    ((b.drop p).take n).length = n := by
  rw [List.length_take, List.length_drop, Nat.min_eq_left h]

theorem length_le_of_drop {b bytes rest : Bytes} {p : Nat} (h : b.drop p = bytes ++ rest) :
    bytes.length ≤ b.length - p := by
  have hlen := congrArg List.length h
  rw [List.length_drop, List.length_append] at hlen
  omega

theorem drop_of_append {b bytes rest : Bytes} {p : Nat} (h : b.drop p = bytes ++ rest) :
    b.drop (p + bytes.length) = rest := by
  rw [← List.drop_drop, h, List.drop_left]

open MeasuredReader

namespace Reading

variable {α β : Type}

theorem seek_ofBytes (bytes : Bytes) (p q : Nat) :
    seek q (ofBytes bytes p) = .ok () (ofBytes bytes q) := rfl

theorem upTo_ofBytes (bytes : Bytes) (p n : Nat) :
    upTo n (ofBytes bytes p) = .ok ((bytes.drop p).take n)
      (ofBytes bytes (p + ((bytes.drop p).take n).length)) := by
  unfold upTo
  rw [MemoryStream.gather_eq _ _ rfl, MemoryStream.slice_eq, bytes_ofBytes]
  rfl

theorem exactly_ofBytes (bytes : Bytes) (p n : Nat) (field : String) :
    exactly n field (ofBytes bytes p) =
      if bytes.length - p < n then
        .error (.truncatedInput field n (bytes.length - p)) (ofBytes bytes p)
      else .ok ((bytes.drop p).take n) (ofBytes bytes (p + n)) := by
  simp only [exactly, throw_bind]
  rw [bind_of_ok (remaining_apply _), remaining_ofBytes]
  by_cases h : bytes.length - p < n
  · rw [if_pos h, if_pos h]
    rfl
  · rw [if_neg h, if_neg h, bind_of_ok (upTo_ofBytes bytes p n),
      length_take_drop (Nat.not_lt.mp h), if_neg (Nat.lt_irrefl n)]
    rfl

theorem skip_ofBytes (bytes : Bytes) (p n : Nat) (field : String) :
    skip n field (ofBytes bytes p) =
      if bytes.length - p < n then
        .error (.truncatedInput field n (bytes.length - p)) (ofBytes bytes p)
      else .ok () (ofBytes bytes (p + n)) := by
  simp only [skip, throw_bind]
  rw [bind_of_ok (remaining_apply _), remaining_ofBytes]
  split
  · rfl
  · rw [bind_of_ok (position_apply _)]
    rfl

/-- The step yields exactly the values whose bytes stand at the cursor, and moves past them. -/
def Reads (m : Reading MemoryStream α) (F : Bytes → α → Prop) : Prop :=
  ∀ b p a r', m (ofBytes b p) = .ok a r' ↔
    ∃ bytes rest, b.drop p = bytes ++ rest ∧ F bytes a ∧ r' = ofBytes b (p + bytes.length)

namespace Reads

theorem of_drop {m : Reading MemoryStream α} {F : Bytes → α → Prop} {b bytes rest : Bytes} {p : Nat}
    {a : α} (hm : Reads m F) (hb : b.drop p = bytes ++ rest) (ha : F bytes a) :
    m (ofBytes b p) = .ok a (ofBytes b (p + bytes.length)) :=
  (hm b p a _).mpr ⟨bytes, rest, hb, ha, rfl⟩

/-- A step that reads a format finds one value at a place, and one run of bytes for it. -/
theorem unique {m : Reading MemoryStream α} {F : Bytes → α → Prop}
    {bytes rest bytes' rest' : Bytes} {a a' : α} (hm : Reads m F)
    (h : bytes ++ rest = bytes' ++ rest') (ha : F bytes a) (ha' : F bytes' a') :
    a = a' ∧ bytes = bytes' ∧ rest = rest' := by
  have hfirst := hm.of_drop (p := 0) (List.drop_zero (l := bytes ++ rest)) ha
  have hsecond := hm.of_drop (p := 0) (List.drop_zero.trans h) ha'
  rw [hfirst] at hsecond
  obtain ⟨rfl, hr⟩ := EStateM.Result.ok.inj hsecond
  have hlength : 0 + bytes.length = 0 + bytes'.length := congrArg MeasuredReader.position hr
  exact ⟨rfl, List.append_inj h (by omega)⟩

theorem congr {m : Reading MemoryStream α} {F G : Bytes → α → Prop} (hm : Reads m F)
    (h : ∀ bytes a, F bytes a ↔ G bytes a) : Reads m G := by
  intro b p a r'
  simp only [hm b p a r', h]

theorem pure (a : α) : Reads (pure a) fun bytes x => bytes = [] ∧ x = a := by
  intro b p x r'
  rw [pure_eq_ok]
  constructor
  · rintro ⟨rfl, rfl⟩
    exact ⟨[], b.drop p, rfl, ⟨rfl, rfl⟩, rfl⟩
  · rintro ⟨_, _, -, ⟨rfl, rfl⟩, rfl⟩
    exact ⟨rfl, rfl⟩

theorem bind {m : Reading MemoryStream α} {f : α → Reading MemoryStream β}
    {F : Bytes → α → Prop} {G : α → Bytes → β → Prop} (hm : Reads m F)
    (hf : ∀ a, Reads (f a) (G a)) :
    Reads (m >>= f) fun bytes c =>
      ∃ first second a, bytes = first ++ second ∧ F first a ∧ G a second c := by
  intro b p c r''
  rw [bind_eq_ok]
  constructor
  · rintro ⟨a, r', hm', hf'⟩
    obtain ⟨first, rest, hfirst, ha, rfl⟩ := (hm b p a r').mp hm'
    obtain ⟨second, rest', hsecond, hc, rfl⟩ := (hf a b _ c r'').mp hf'
    rw [← List.drop_drop, hfirst, List.drop_left] at hsecond
    refine ⟨first ++ second, rest', ?_, ⟨first, second, a, rfl, ha, hc⟩, ?_⟩
    · rw [hfirst, hsecond, List.append_assoc]
    · rw [List.length_append, Nat.add_assoc]
  · rintro ⟨_, rest, hdrop, ⟨first, second, a, rfl, ha, hc⟩, rfl⟩
    rw [List.append_assoc] at hdrop
    refine ⟨a, _, (hm b p a _).mpr ⟨first, _, hdrop, ha, rfl⟩,
      (hf a b _ c _).mpr ⟨second, rest, ?_, hc, ?_⟩⟩
    · rw [← List.drop_drop, hdrop, List.drop_left]
    · rw [List.length_append, Nat.add_assoc]

/-- A part that each of its values writes in one way, and then the rest. -/
theorem part {m : Reading MemoryStream α} {f : α → Reading MemoryStream β} {encode : α → Bytes}
    {P : α → Prop} {G : α → Bytes → β → Prop} (hm : Reads m fun bytes a => bytes = encode a ∧ P a)
    (hf : ∀ a, Reads (f a) (G a)) :
    Reads (m >>= f) fun bytes c => ∃ a rest, bytes = encode a ++ rest ∧ P a ∧ G a rest c := by
  refine (hm.bind hf).congr fun bytes c => ?_
  constructor
  · rintro ⟨_, rest, a, rfl, ⟨rfl, ha⟩, hc⟩
    exact ⟨a, rest, rfl, ha, hc⟩
  · rintro ⟨a, rest, rfl, ha, hc⟩
    exact ⟨encode a, rest, a, rfl, ⟨rfl, ha⟩, hc⟩

theorem field {m : Reading MemoryStream α} {f : α → Reading MemoryStream β} {encode : α → Bytes}
    {G : α → Bytes → β → Prop} (hm : Reads m fun bytes a => bytes = encode a)
    (hf : ∀ a, Reads (f a) (G a)) :
    Reads (m >>= f) fun bytes c => ∃ a rest, bytes = encode a ++ rest ∧ G a rest c := by
  have hm' : Reads m fun bytes a => bytes = encode a ∧ True := by simpa only [and_true] using hm
  simpa only [true_and] using hm'.part hf

/-- The step that returns a value made from what was read last. -/
theorem yield {m : Reading MemoryStream α} {F : Bytes → α → Prop} (hm : Reads m F) (f : α → β) :
    Reads (do return f (← m)) fun bytes c => ∃ a, F bytes a ∧ c = f a := by
  refine (hm.bind fun a => pure (f a)).congr fun bytes c => ?_
  constructor
  · rintro ⟨bytes, _, a, rfl, ha, rfl, rfl⟩
    exact ⟨a, by rwa [List.append_nil], rfl⟩
  · rintro ⟨a, ha, rfl⟩
    exact ⟨bytes, [], a, (List.append_nil _).symm, ha, rfl, rfl⟩

theorem map {m : Reading MemoryStream α} {F : Bytes → α → Prop} (hm : Reads m F) (f : α → β) :
    Reads (f <$> m) fun bytes c => ∃ a, F bytes a ∧ c = f a := by
  rw [← bind_pure_comp]
  exact hm.yield f

/-- A check that throws leaves the values for which it passes. -/
theorem check {m : Reading MemoryStream α} {F : Bytes → α → Prop} {c : Prop} [Decidable c]
    (e : Error) (hm : Reads m F) :
    Reads (if c then throw e else m) fun bytes a => ¬c ∧ F bytes a := by
  intro b p a r'
  rw [check_eq_ok, hm b p a r']
  simp only [← exists_and_left]
  constructor
  · rintro ⟨bytes, rest, hc, hdrop, ha, hr⟩
    exact ⟨bytes, rest, hdrop, ⟨hc, ha⟩, hr⟩
  · rintro ⟨bytes, rest, hdrop, ⟨hc, ha⟩, hr⟩
    exact ⟨bytes, rest, hc, hdrop, ha, hr⟩

/-- A check of the remaining length refuses nothing that is at least so long. -/
theorem ensure {m : Reading MemoryStream α} {F : Bytes → α → Prop} {n : Nat} (e : Nat → Error)
    (hm : Reads m F) (hn : ∀ bytes a, F bytes a → n ≤ bytes.length) :
    Reads (do
      let available ← remaining
      if available < n then throw (e available) else m) F := by
  intro b p a r'
  rw [bind_of_ok (remaining_apply _), check_eq_ok, hm b p a r', remaining_ofBytes]
  constructor
  · exact And.right
  · rintro ⟨bytes, rest, hdrop, ha, hr⟩
    have hlen := Nat.le_trans (hn bytes a ha) (length_le_of_drop hdrop)
    exact ⟨Nat.not_lt.mpr hlen, bytes, rest, hdrop, ha, hr⟩

theorem exactly (n : Nat) (field : String) :
    Reads (exactly n field) fun bytes x => bytes.length = n ∧ x = bytes := by
  intro b p x r'
  rw [exactly_ofBytes]
  constructor
  · intro h
    split at h
    · cases h
    next hlen =>
      cases h
      have htake := length_take_drop (Nat.not_lt.mp hlen)
      exact ⟨(b.drop p).take n, (b.drop p).drop n, (List.take_append_drop n _).symm,
        ⟨htake, rfl⟩, by rw [htake]⟩
  · rintro ⟨bytes, rest, hdrop, ⟨rfl, rfl⟩, rfl⟩
    rw [if_neg (Nat.not_lt.mpr (length_le_of_drop hdrop)), hdrop, List.take_left]

theorem skip (n : Nat) (field : String) :
    Reads (skip n field) fun bytes _ => bytes.length = n := by
  intro b p x r'
  rw [skip_ofBytes]
  constructor
  · intro h
    split at h
    · cases h
    next hlen =>
      cases h
      have htake := length_take_drop (Nat.not_lt.mp hlen)
      exact ⟨(b.drop p).take n, (b.drop p).drop n, (List.take_append_drop n _).symm, htake,
        by rw [htake]⟩
  · rintro ⟨bytes, rest, hdrop, rfl, rfl⟩
    rw [if_neg (Nat.not_lt.mpr (length_le_of_drop hdrop))]

theorem ofCode {n : Nat} {decode : Bytes → α} {encode : α → Bytes} (name : String)
    (hlength : ∀ x, (encode x).length = n) (hdecode : ∀ x, decode (encode x) = x)
    (hencode : ∀ bytes, bytes.length = n → encode (decode bytes) = bytes) :
    Reads (do return decode (← Reading.exactly n name)) fun bytes x => bytes = encode x := by
  refine ((exactly n name).yield decode).congr fun bytes x => ?_
  constructor
  · rintro ⟨_, ⟨hlen, rfl⟩, rfl⟩
    exact (hencode _ hlen).symm
  · rintro rfl
    exact ⟨encode x, ⟨hlength x, rfl⟩, (hdecode x).symm⟩

theorem uint8 (name : String) : Reads (uint8 name) fun bytes x => bytes = [x] := by
  refine ofCode name (fun _ => rfl) (fun x => ?_) fun bytes h => ?_
  · simp [ofLittleEndian]
  · obtain ⟨b, rfl⟩ := List.length_eq_one_iff.mp h
    simp [ofLittleEndian]

theorem uint16 (name : String) :
    Reads (uint16 name) fun bytes x => bytes = toLittleEndian 2 x.toNat :=
  ofCode name (fun _ => toLittleEndian_length _ _) uint16_decode_encode fun _ => uint16_encode_decode

theorem uint32 (name : String) :
    Reads (uint32 name) fun bytes x => bytes = toLittleEndian 4 x.toNat :=
  ofCode name (fun _ => toLittleEndian_length _ _) uint32_decode_encode fun _ => uint32_encode_decode

theorem uint64 (name : String) :
    Reads (uint64 name) fun bytes x => bytes = toLittleEndian 8 x.toNat :=
  ofCode name (fun _ => toLittleEndian_length _ _) uint64_decode_encode fun _ => uint64_encode_decode

theorem uint32BigEndian (name : String) :
    Reads (uint32BigEndian name) fun bytes x => bytes = toBigEndian 4 x.toNat :=
  ofCode name (fun _ => toBigEndian_length _ _) uint32BigEndian_decode_encode fun _ =>
    uint32BigEndian_encode_decode

end Reads

end Reading

end KalayRecord
