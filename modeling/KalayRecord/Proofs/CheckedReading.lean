import KalayRecord.Proofs.RecordingFormat

namespace KalayRecord

open Reading MeasuredReader

namespace Reading

variable {α β : Type}

/-- A step that was run on `b` has come to a value and stands at `q`, or has failed. -/
def ComesTo (r : EStateM.Result Error (MeasuredReader MemoryStream) α) (b : Bytes) (q : Nat) :
    Except Error α → Prop
  | .ok a => r = .ok a (ofBytes b q)
  | .error e => ∃ r', r = .error e r'

/-- A failure of the first step is that of both; behind a value the second step decides. -/
theorem ComesTo.bind {m : Reading MemoryStream α} {f : α → Reading MemoryStream β} {b : Bytes}
    {p q q' : Nat} {result : Except Error α} {later : α → Except Error β}
    (hm : ComesTo (m (ofBytes b p)) b q result)
    (hf : ∀ a, result = .ok a → ComesTo (f a (ofBytes b q)) b q' (later a)) :
    ComesTo ((m >>= f) (ofBytes b p)) b q' (result >>= later) := by
  cases result with
  | error e =>
    obtain ⟨r', h⟩ := hm
    exact ⟨r', bind_of_error h⟩
  | ok a =>
    rw [bind_of_ok hm]
    exact hf a rfl

/-- From `bytes` the step comes to `result`, whatever stands around them; with a value it moves past
them. -/
def Gives (m : Reading MemoryStream α) (bytes : Bytes) (result : Except Error α) : Prop :=
  ∀ ⦃b rest p⦄, b.drop p = bytes ++ rest →
    ComesTo (m (ofBytes b p)) b (p + bytes.length) result

namespace Gives

theorem of_reads {m : Reading MemoryStream α} {F : Bytes → α → Prop} {bytes : Bytes} {a : α}
    (hm : Reads m F) (ha : F bytes a) : Gives m bytes (.ok a) :=
  fun _ _ _ hb => hm.of_drop hb ha

theorem bind {m : Reading MemoryStream α} {f : α → Reading MemoryStream β} {first second : Bytes}
    {result : Except Error α} {later : α → Except Error β} (hm : Gives m first result)
    (hf : ∀ a, result = .ok a → Gives (f a) second (later a)) :
    Gives (m >>= f) (first ++ second) (result >>= later) := by
  intro b rest p hb
  rw [List.append_assoc] at hb
  rw [List.length_append, ← Nat.add_assoc]
  apply (hm hb).bind
  intro a ha
  exact hf a ha (drop_of_append hb)

theorem bind_of_error {m : Reading MemoryStream α} {f : α → Reading MemoryStream β} {first : Bytes}
    {e : Error} (hm : Gives m first (.error e)) (second : Bytes) :
    Gives (m >>= f) (first ++ second) (.error e) := by
  have hf (a : α) (ha : (.error e : Except Error α) = .ok a) :
      Gives (f a) second (.error e) := by cases ha
  exact hm.bind hf

theorem field {m : Reading MemoryStream α} {f : α → Reading MemoryStream β} {F : Bytes → α → Prop}
    {first second : Bytes} {a : α} {result : Except Error β} (hm : Reads m F) (ha : F first a)
    (hf : Gives (f a) second result) : Gives (m >>= f) (first ++ second) result := by
  have hall : ∀ c, (.ok a : Except Error α) = .ok c → Gives (f c) second result := by
    intro c hc
    cases hc
    exact hf
  exact (of_reads hm ha).bind hall

end Gives

end Reading

namespace IndexTable

def sizeMatches (t : IndexTable) : Bool := t.size.toNat = headerSize + 4 * t.items.length

/-- The size field is checked and is off. -/
def misfits (checkSize : Bool) (t : IndexTable) : Bool := checkSize && !t.sizeMatches

/-- The result behind tables, of which the first that misfits refuses. -/
def refuseMisfit {α : Type} (checkSizes : Bool) (tables : List IndexTable) (result : Except Error α) :
    Except Error α :=
  match tables.find? (misfits checkSizes) with
  | some t => .error (.malformedTable t.size (.ofNat t.items.length))
  | none => result

section RefuseMisfit

variable {α β : Type} {checkSizes : Bool} {t : IndexTable} {ts us : List IndexTable}
  {result : Except Error α}

theorem refuseMisfit_cons_of_misfit (h : t.misfits checkSizes = true) :
    refuseMisfit checkSizes (t :: ts) result =
      .error (.malformedTable t.size (.ofNat t.items.length)) := by
  rw [refuseMisfit, List.find?_cons_of_pos h]

theorem refuseMisfit_cons_of_match (h : ¬t.misfits checkSizes = true) :
    refuseMisfit checkSizes (t :: ts) result = refuseMisfit checkSizes ts result := by
  rw [refuseMisfit, List.find?_cons_of_neg h]
  rfl

theorem refuseMisfit_append :
    refuseMisfit checkSizes (ts ++ us) result =
      refuseMisfit checkSizes ts (refuseMisfit checkSizes us result) := by
  induction ts with
  | nil => rfl
  | cons t ts ih =>
    by_cases h : t.misfits checkSizes = true
    · rw [List.cons_append, refuseMisfit_cons_of_misfit h, refuseMisfit_cons_of_misfit h]
    · rw [List.cons_append, refuseMisfit_cons_of_match h, refuseMisfit_cons_of_match h, ih]

theorem refuseMisfit_bind (f : α → Except Error β) :
    (refuseMisfit checkSizes ts result >>= f) = refuseMisfit checkSizes ts (result >>= f) := by
  unfold refuseMisfit
  split <;> rfl

theorem eq_of_refuseMisfit {a c : α} (h : refuseMisfit checkSizes ts (.ok a) = .ok c) : a = c := by
  unfold refuseMisfit at h
  split at h
  · cases h
  · exact Except.ok.inj h

theorem refuseMisfit_of_find? (hcheck : checkSizes = true)
    (h : ts.find? (!·.sizeMatches) = some t) :
    refuseMisfit checkSizes ts result =
      .error (.malformedTable t.size (.ofNat t.items.length)) := by
  have hmisfits : misfits checkSizes = (!·.sizeMatches) := by
    funext t
    rw [misfits, hcheck, Bool.true_and]
  rw [refuseMisfit, hmisfits, h]

theorem refuseMisfit_of_matches
    (h : checkSizes = true → ∀ t ∈ ts, t.sizeMatches = true) :
    refuseMisfit checkSizes ts result = result := by
  have hnone : ts.find? (misfits checkSizes) = none := by
    apply List.find?_eq_none.mpr
    intro t ht
    cases checkSizes with
    | false => simp [misfits]
    | true => simp [misfits, h rfl t ht]
  rw [refuseMisfit, hnone]

end RefuseMisfit

variable {t : IndexTable}

theorem expectedSize_count (h : t.items.length < 2 ^ 32) :
    expectedSize (.ofNat t.items.length) = headerSize + 4 * t.items.length := by
  rw [expectedSize, toNat_count h]

theorem readItems_gives_malformed {checkSize : Bool} (h : t.items.length < 2 ^ 32)
    (hmisfit : t.misfits checkSize = true) :
    Gives (readItems checkSize t.size t.type (.ofNat t.items.length)) (ofWords t.items)
      (.error (.malformedTable t.size (.ofNat t.items.length))) := by
  intro b rest p hb
  have hlength := length_le_of_drop hb
  rw [ofWords_length] at hlength
  have hrefused : checkSize = true ∧ t.size.toNat ≠ expectedSize (.ofNat t.items.length) := by
    rw [expectedSize_count h]
    simpa [misfits, sizeMatches] using hmisfit
  -- the items are all there, so the check of the size is reached
  refine ⟨ofBytes b p, ?_⟩
  rw [readItems, bind_of_ok (remaining_apply _), remaining_ofBytes, toNat_count h,
    if_neg (Nat.not_lt.mpr hlength), if_pos hrefused]
  rfl

/-- A table whose size field is off refuses, and behind another one the rest decides. -/
theorem read_bind_gives {β : Type} {checkSizes : Bool} {f : IndexTable → Reading MemoryStream β}
    {second : Bytes} {ts : List IndexTable} {result : Except Error β} (h : t.items.length < 2 ^ 32)
    (hf : Gives (f t) second (refuseMisfit checkSizes ts result)) :
    Gives (read checkSizes >>= f) (t.encode ++ second)
      (refuseMisfit checkSizes (t :: ts) result) := by
  by_cases hmisfit : t.misfits checkSizes = true
  · have hread : Gives (read checkSizes) t.encode
        (.error (.malformedTable t.size (.ofNat t.items.length))) := by
      simp only [read, throw_bind, encode, List.append_assoc]
      apply Gives.field (Reads.uint32 _) rfl
      apply Gives.field (Reads.uint32 _) rfl
      apply Gives.field (Reads.uint32 _) (by rw [toNat_count h])
      exact readItems_gives_malformed h hmisfit
    rw [refuseMisfit_cons_of_misfit hmisfit]
    exact hread.bind_of_error second
  · rw [refuseMisfit_cons_of_match hmisfit]
    apply Gives.field (read_reads checkSizes) ⟨rfl, h, fun hcheck => ?_⟩ hf
    rw [expectedSize_count h]
    simpa [misfits, sizeMatches, hcheck] using hmisfit

end IndexTable

namespace TrackRecord

theorem read_gives (kind : MediaKind) (checkSizes : Bool) {t : TrackRecord}
    (hkeyframes : t.keyframes.isSome ↔ kind = .video)
    (h : ∀ table ∈ t.tables, table.items.length < 2 ^ 32) :
    Gives (read kind checkSizes) t.encode (IndexTable.refuseMisfit checkSizes t.tables (.ok t)) := by
  have hencode : t.encode = toLittleEndian 4 t.size.toNat ++ (toLittleEndian 4 t.type.toNat ++
      ([t.codecByte] ++ ([t.flag] ++ (toLittleEndian 2 t.id.toNat ++
        (toLittleEndian 4 t.firstTimestamp.toNat ++ (toLittleEndian 4 t.lastTimestamp.toNat ++
          t.tables.flatMap IndexTable.encode)))))) := by
    simp only [encode, List.append_assoc]
    rfl
  rw [hencode, read]
  apply Gives.field (Reads.uint32 _) rfl
  apply Gives.field (Reads.uint32 _) rfl
  apply Gives.field (Reads.uint8 _) rfl
  apply Gives.field (Reads.uint8 _) rfl
  apply Gives.field (Reads.uint16 _) rfl
  apply Gives.field (Reads.uint32 _) rfl
  apply Gives.field (Reads.uint32 _) rfl
  -- only a video record has a keyframe table, and only there is one read
  cases kind with
  | video =>
    obtain ⟨keyframes, hk⟩ := Option.isSome_iff_exists.mp (hkeyframes.mpr rfl)
    have htables : t.tables = [t.timestamps, keyframes, t.sizes, t.offsets] := by
      rw [tables, hk]
      rfl
    rw [htables] at h ⊢
    apply IndexTable.read_bind_gives (h _ (by simp))
    dsimp only
    rw [bind_map_left]
    apply IndexTable.read_bind_gives (h _ (by simp))
    apply IndexTable.read_bind_gives (h _ (by simp))
    apply IndexTable.read_bind_gives (h _ (by simp))
    exact Gives.of_reads (Reads.pure _) ⟨rfl, by rw [← hk]⟩
  | audio =>
    have hnone : t.keyframes = none := by
      simpa using mt hkeyframes.mp (by decide)
    have htables : t.tables = [t.timestamps, t.sizes, t.offsets] := by
      rw [tables, hnone]
      rfl
    rw [htables] at h ⊢
    apply IndexTable.read_bind_gives (h _ (by simp))
    dsimp only
    rw [pure_bind]
    apply IndexTable.read_bind_gives (h _ (by simp))
    apply IndexTable.read_bind_gives (h _ (by simp))
    exact Gives.of_reads (Reads.pure _) ⟨rfl, by rw [← hnone]⟩

theorem read_bind_gives {β : Type} {kind : MediaKind} {checkSizes : Bool} {t : TrackRecord}
    {f : TrackRecord → Reading MemoryStream β} {second : Bytes} {ts : List IndexTable}
    {result : Except Error β} (hkeyframes : t.keyframes.isSome ↔ kind = .video)
    (h : ∀ table ∈ t.tables, table.items.length < 2 ^ 32)
    (hf : Gives (f t) second (IndexTable.refuseMisfit checkSizes ts result)) :
    Gives (read kind checkSizes >>= f) (t.encode ++ second)
      (IndexTable.refuseMisfit checkSizes (t.tables ++ ts) result) := by
  have hread : Gives (read kind checkSizes >>= f) (t.encode ++ second)
      (IndexTable.refuseMisfit checkSizes t.tables (.ok t) >>= fun _ =>
        IndexTable.refuseMisfit checkSizes ts result) := by
    apply (read_gives kind checkSizes hkeyframes h).bind
    intro a ha
    rw [← IndexTable.eq_of_refuseMisfit ha]
    exact hf
  rw [IndexTable.refuseMisfit_bind] at hread
  rw [IndexTable.refuseMisfit_append]
  exact hread

end TrackRecord

end KalayRecord
