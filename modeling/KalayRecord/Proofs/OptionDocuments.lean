import KalayRecord.Documents
import KalayRecord.Proofs.JsonFields
import KalayRecord.Proofs.JsonNesting
import KalayRecord.Proofs.JsonReading

namespace KalayRecord

open Json

namespace OpenOptions

/-- The scan bounds that a value stands for. -/
inductive ScanBound : Json → Option UInt64 → Prop
  | none : ScanBound .null none
  | some (n : UInt64) : ScanBound (.ofNat n.toNat) (some n)

inductive Flag : Json → Bool → Prop
  | mk (b : Bool) : Flag (.bool b) b

def flags : List String := ["validate_table_sizes", "strict_index", "reject_encrypted"]

/-- The options are the default ones but for the fields that the members give. -/
structure GivenBy (members : List (Text × Json)) (o : OpenOptions) : Prop where
  maxScan : FieldIs ScanBound ({} : OpenOptions).maxScan
    (valuesUnder "max_sync_scan" members) o.maxScan
  checkTableSizes : FieldIs Flag ({} : OpenOptions).checkTableSizes
    (valuesUnder "validate_table_sizes" members) o.checkTableSizes
  checkIndex : FieldIs Flag ({} : OpenOptions).checkIndex
    (valuesUnder "strict_index" members) o.checkIndex
  refuseEncrypted : FieldIs Flag ({} : OpenOptions).refuseEncrypted
    (valuesUnder "reject_encrypted" members) o.refuseEncrypted

/-- What keeps members from giving options. -/
inductive Faulty (members : List (Text × Json)) : Prop
  | illegible {m} (hm : m ∈ members) (h : ∀ key, m.1 ≠ Text.ofString key)
  | repeated {field} (hf : field ∈ fields) (h : 2 ≤ (valuesUnder field members).length)
  | scanBound {v} (hv : v ∈ valuesUnder "max_sync_scan" members) (h : ∀ bound, ¬ScanBound v bound)
  | flag {field v} (hf : field ∈ flags) (hv : v ∈ valuesUnder field members) (h : ∀ b, ¬Flag v b)

variable {members members' : List (Text × Json)} {o : OpenOptions} {v : Json}

theorem scanBound_iff {bound : Option UInt64} :
    ScanBound v bound ↔ v = .null ∧ bound = none ∨ ∃ n, bound = some n ∧ v = .ofNat n.toNat := by
  constructor
  · rintro (_ | n)
    · exact Or.inl ⟨rfl, rfl⟩
    · exact Or.inr ⟨n, rfl, rfl⟩
  · rintro (⟨rfl, rfl⟩ | ⟨n, rfl, rfl⟩)
    · exact .none
    · exact .some n

theorem scanBound?_eq_some (hv : Spellable v) {bound : Option UInt64} :
    scanBound? v = some bound ↔ ScanBound v bound := by
  have hnumber : (v.toNatBelow? UInt64.size).map (fun n => some (UInt64.ofNat n)) = some bound ↔
      ∃ n, bound = some n ∧ v = .ofNat n.toNat := by
    rw [Option.map_eq_some_iff]
    simp only [toNatBelow?_eq_some hv]
    constructor
    · rintro ⟨n, ⟨hn, rfl⟩, rfl⟩
      exact ⟨.ofNat n, rfl, by rw [UInt64.toNat_ofNat', Nat.mod_eq_of_lt hn]⟩
    · rintro ⟨n, rfl, rfl⟩
      exact ⟨n.toNat, ⟨n.toNat_lt, rfl⟩, by rw [UInt64.ofNat_toNat]⟩
  rw [scanBound_iff]
  cases v with
  | null => simp [scanBound?, Json.ofNat, eq_comm]
  | _ => exact hnumber.trans (by simp)

theorem toBool?_iff {b : Bool} : v.toBool? = some b ↔ Flag v b := by
  rw [toBool?_eq_some]
  constructor
  · rintro rfl
    exact .mk b
  · rintro ⟨⟩
    rfl

theorem ofJson?_of_fields {j : Json} {scan sizes strict encrypted : Option Json}
    (h : j.fieldValues? fields = some [scan, sizes, strict, encrypted]) :
    ofJson? j = some o ↔
      scan.elim (some ({} : OpenOptions).maxScan) scanBound? = some o.maxScan ∧
      sizes.elim (some ({} : OpenOptions).checkTableSizes) toBool? = some o.checkTableSizes ∧
      strict.elim (some ({} : OpenOptions).checkIndex) toBool? = some o.checkIndex ∧
      encrypted.elim (some ({} : OpenOptions).refuseEncrypted) toBool? =
        some o.refuseEncrypted := by
  rw [ofJson?, h]
  simp only [Option.bind_eq_bind, Option.bind_some, Option.bind_eq_some_iff]
  constructor
  · rintro ⟨maxScan, hscan, checkTableSizes, hsizes, checkIndex, hstrict, refuseEncrypted,
      hencrypted, h⟩
    cases h
    exact ⟨hscan, hsizes, hstrict, hencrypted⟩
  · rintro ⟨hscan, hsizes, hstrict, hencrypted⟩
    exact ⟨_, hscan, _, hsizes, _, hstrict, _, hencrypted, rfl⟩

theorem mem_of_mem_valuesUnder {key : String} (h : v ∈ valuesUnder key members) :
    ∃ m ∈ members, m.2 = v := by
  obtain ⟨m, hm, rfl⟩ := List.mem_map.mp h
  exact ⟨m, (List.mem_filter.mp hm).1, rfl⟩

theorem ofJson?_object (hv : ∀ m ∈ members, Spellable m.2) :
    ofJson? (.object members) = some o ↔ Legible members ∧ o.GivenBy members := by
  have hscanBound {value : Option Json}
      (h : valuesUnder "max_sync_scan" members = value.toList) :
      ∀ v ∈ value, ∀ bound, scanBound? v = some bound ↔ ScanBound v bound := by
    intro v hmem bound
    have hunder : v ∈ valuesUnder "max_sync_scan" members := by
      rw [h]
      exact Option.mem_toList.mpr hmem
    obtain ⟨m, hm, rfl⟩ := mem_of_mem_valuesUnder hunder
    exact scanBound?_eq_some (hv m hm)
  have hflag (value : Option Json) : ∀ v ∈ value, ∀ b, v.toBool? = some b ↔ Flag v b :=
    fun _ _ _ => toBool?_iff
  -- both directions know the values under each field, the one from reading, the other from `o`
  have hfields {scan sizes strict encrypted : Option Json}
      (hscan : valuesUnder "max_sync_scan" members = scan.toList)
      (hsizes : valuesUnder "validate_table_sizes" members = sizes.toList)
      (hstrict : valuesUnder "strict_index" members = strict.toList)
      (hencrypted : valuesUnder "reject_encrypted" members = encrypted.toList)
      (hlegible : Legible members) :
      ofJson? (.object members) = some o ↔ o.GivenBy members := by
    have hfound : fieldValues? fields (.object members) = some [scan, sizes, strict, encrypted] :=
      fieldValues?_object.mpr
        ⟨hlegible, .cons hscan (.cons hsizes (.cons hstrict (.cons hencrypted .nil)))⟩
    rw [ofJson?_of_fields hfound, FieldIs.elim_iff (hscanBound hscan), FieldIs.elim_iff (hflag _),
      FieldIs.elim_iff (hflag _), FieldIs.elim_iff (hflag _), ← hscan, ← hsizes, ← hstrict,
      ← hencrypted]
    exact ⟨fun ⟨h₁, h₂, h₃, h₄⟩ => ⟨h₁, h₂, h₃, h₄⟩, fun ⟨h₁, h₂, h₃, h₄⟩ => ⟨h₁, h₂, h₃, h₄⟩⟩
  constructor
  · intro h
    obtain ⟨values, hfound⟩ : ∃ values, fieldValues? fields (.object members) = some values := by
      rw [ofJson?, Option.bind_eq_bind, Option.bind_eq_some_iff] at h
      obtain ⟨values, hfound, -⟩ := h
      exact ⟨values, hfound⟩
    obtain ⟨hlegible, hall⟩ := fieldValues?_object.mp hfound
    obtain _ | ⟨hscan, _ | ⟨hsizes, _ | ⟨hstrict, _ | ⟨hencrypted, _⟩⟩⟩⟩ := hall
    exact ⟨hlegible, (hfields hscan hsizes hstrict hencrypted hlegible).mp h⟩
  · rintro ⟨hlegible, hgiven⟩
    obtain ⟨scan, hscan⟩ := hgiven.maxScan.exists_option
    obtain ⟨sizes, hsizes⟩ := hgiven.checkTableSizes.exists_option
    obtain ⟨strict, hstrict⟩ := hgiven.checkIndex.exists_option
    obtain ⟨encrypted, hencrypted⟩ := hgiven.refuseEncrypted.exists_option
    exact (hfields hscan hsizes hstrict hencrypted hlegible).mpr hgiven

theorem exists_givenBy_iff : (∃ o, GivenBy members o) ↔
    (∀ field ∈ fields, (valuesUnder field members).length < 2) ∧
      (∀ v ∈ valuesUnder "max_sync_scan" members, ∃ bound, ScanBound v bound) ∧
      ∀ field ∈ flags, ∀ v ∈ valuesUnder field members, ∃ b, Flag v b := by
  simp only [fields, flags, List.forall_mem_cons, List.not_mem_nil, false_implies, implies_true,
    and_true]
  constructor
  · rintro ⟨o, h⟩
    obtain ⟨hscan, hscanTyped⟩ := FieldIs.exists_iff.mp ⟨_, h.maxScan⟩
    obtain ⟨hsizes, hsizesTyped⟩ := FieldIs.exists_iff.mp ⟨_, h.checkTableSizes⟩
    obtain ⟨hstrict, hstrictTyped⟩ := FieldIs.exists_iff.mp ⟨_, h.checkIndex⟩
    obtain ⟨hencrypted, hencryptedTyped⟩ := FieldIs.exists_iff.mp ⟨_, h.refuseEncrypted⟩
    exact ⟨⟨hscan, hsizes, hstrict, hencrypted⟩, hscanTyped, hsizesTyped, hstrictTyped,
      hencryptedTyped⟩
  · rintro ⟨⟨hscan, hsizes, hstrict, hencrypted⟩, hscanTyped, hsizesTyped, hstrictTyped,
      hencryptedTyped⟩
    obtain ⟨maxScan, hmaxScan⟩ := FieldIs.exists_iff.mpr ⟨hscan, hscanTyped⟩
    obtain ⟨checkTableSizes, hcheckTableSizes⟩ := FieldIs.exists_iff.mpr ⟨hsizes, hsizesTyped⟩
    obtain ⟨checkIndex, hcheckIndex⟩ := FieldIs.exists_iff.mpr ⟨hstrict, hstrictTyped⟩
    obtain ⟨refuseEncrypted, hrefuse⟩ := FieldIs.exists_iff.mpr ⟨hencrypted, hencryptedTyped⟩
    exact ⟨{ maxScan, checkTableSizes, checkIndex, refuseEncrypted }, hmaxScan, hcheckTableSizes,
      hcheckIndex, hrefuse⟩

theorem faulty_iff : Faulty members ↔ ¬∃ o, Legible members ∧ GivenBy members o := by
  constructor
  · rintro hfault ⟨o, hlegible, hgiven⟩
    obtain ⟨honce, hscan, hflags⟩ := exists_givenBy_iff.mp ⟨o, hgiven⟩
    cases hfault with
    | illegible hm h =>
      obtain ⟨key, hkey⟩ := hlegible _ hm
      exact h key hkey
    | repeated hf h =>
      have hlt := honce _ hf
      omega
    | scanBound hv h =>
      obtain ⟨bound, hbound⟩ := hscan _ hv
      exact h bound hbound
    | flag hf hv h =>
      obtain ⟨b, hb⟩ := hflags _ hf _ hv
      exact h b hb
  · intro hnone
    by_contra hfault
    have hlegible : Legible members := fun m hm => by
      by_contra h
      exact hfault (.illegible hm (not_exists.mp h))
    have hgiven : ∃ o, GivenBy members o := by
      refine exists_givenBy_iff.mpr ⟨fun field hf => ?_, fun v hv => ?_, fun field hf v hv => ?_⟩
      · by_contra h
        exact hfault (.repeated hf (by omega))
      · by_contra h
        exact hfault (.scanBound hv (not_exists.mp h))
      · by_contra h
        exact hfault (.flag hf hv (not_exists.mp h))
    obtain ⟨o, ho⟩ := hgiven
    exact hnone ⟨o, hlegible, ho⟩

theorem GivenBy.perm (h : o.GivenBy members) (hp : members.Perm members') : o.GivenBy members' where
  maxScan := h.maxScan.perm (valuesUnder_perm hp _)
  checkTableSizes := h.checkTableSizes.perm (valuesUnder_perm hp _)
  checkIndex := h.checkIndex.perm (valuesUnder_perm hp _)
  refuseEncrypted := h.refuseEncrypted.perm (valuesUnder_perm hp _)

theorem ofText_eq_ok {s : String} : ofText s = .ok o ↔
    ∃ v, Document s.toList v ∧ ofJson? v = some o := by
  have hread : ofText s = .ok o ↔ (Json.ofText? s >>= ofJson?) = some o := by
    unfold ofText
    cases Json.ofText? s >>= ofJson? with
    | none => simp
    | some o' => simp
  rw [hread, Option.bind_eq_bind, Option.bind_eq_some_iff]
  simp only [Json.ofText?, ofChars?_eq_some]

theorem ofText_eq_error {s : String} (h : ∀ o, ofText s ≠ .ok o) :
    ofText s = .error (.config "config parse error: ") := by
  unfold ofText at h ⊢
  cases hread : Json.ofText? s >>= ofJson? with
  | none => rfl
  | some o =>
    rw [hread] at h
    exact absurd rfl (h o)

theorem ofText_of_document {s : String} (h : Document s.toList (.object members)) :
    ofText s = .ok o ↔ Legible members ∧ o.GivenBy members := by
  rw [ofText_eq_ok, ← ofJson?_object (spellable_of_document h)]
  constructor
  · rintro ⟨v, hv, hread⟩
    have heq := (ofChars?_of_document h).symm.trans (ofChars?_of_document hv)
    cases heq
    exact hread
  · exact fun hread => ⟨_, h, hread⟩

theorem ofText_perm {s s' : String} (hs : Document s.toList (.object members))
    (hs' : Document s'.toList (.object members')) (hp : members.Perm members') :
    ofText s' = ofText s := by
  have hsame (o : OpenOptions) : ofText s' = .ok o ↔ ofText s = .ok o := by
    rw [ofText_of_document hs, ofText_of_document hs']
    exact ⟨fun h => ⟨h.1.perm hp.symm, h.2.perm hp.symm⟩, fun h => ⟨h.1.perm hp, h.2.perm hp⟩⟩
  by_cases h : ∃ o, ofText s = .ok o
  · obtain ⟨o, ho⟩ := h
    rw [ho]
    exact (hsame o).mpr ho
  · have hnone := not_exists.mp h
    rw [ofText_eq_error hnone, ofText_eq_error fun o ho => hnone o ((hsame o).mp ho)]

theorem bracketed_of_ofJson? (h : ofJson? v = some o) : Bracketed v := by
  cases v with
  | array items => exact .array items
  | object members => exact .object members
  | _ => cases h

/-- The members that options are written as. -/
def written (o : OpenOptions) : List (String × Json) :=
  [("max_sync_scan", .ofOption (fun n => .ofNat n.toNat) o.maxScan),
   ("validate_table_sizes", .bool o.checkTableSizes),
   ("strict_index", .bool o.checkIndex),
   ("reject_encrypted", .bool o.refuseEncrypted)]

theorem spells_bool (b : Bool) : Spells (render (.bool b)) (.value (.bool b)) := by
  cases b with
  | true => exact .true
  | false => exact .false

theorem spells_written (o : OpenOptions) : ∀ m ∈ o.written, Spells m.2.render (.value m.2) := by
  have hscan : Spells (Json.ofOption (fun n : UInt64 => .ofNat n.toNat) o.maxScan).render
      (.value (.ofOption (fun n => .ofNat n.toNat) o.maxScan)) := by
    cases o.maxScan with
    | none => exact .null
    | some n => exact spells_ofNat n.toNat
  simp only [written, List.forall_mem_cons]
  exact ⟨hscan, spells_bool _, spells_bool _, spells_bool _, nofun⟩

theorem document_compact (o : OpenOptions) : Document o.toJson.compact.toList
    (.object (o.written.map fun m => (Text.ofString m.1, m.2))) := by
  have hobject := Spells.object (spells_renderMembers (spells_written o))
  have hdocument := Document.mk blank_nil hobject blank_nil
  rw [List.nil_append, List.append_nil] at hdocument
  rw [compact, String.toList_ofList]
  exact hdocument

theorem givenBy_written (o : OpenOptions) :
    o.GivenBy (o.written.map fun m => (Text.ofString m.1, m.2)) := by
  have hscan : ScanBound (.ofOption (fun n => .ofNat n.toNat) o.maxScan) o.maxScan := by
    cases o.maxScan with
    | none => exact .none
    | some n => exact .some n
  constructor
  · rw [valuesUnder_keyed]
    simpa [written] using FieldIs.given hscan
  · rw [valuesUnder_keyed]
    simpa [written] using FieldIs.given (Flag.mk o.checkTableSizes)
  · rw [valuesUnder_keyed]
    simpa [written] using FieldIs.given (Flag.mk o.checkIndex)
  · rw [valuesUnder_keyed]
    simpa [written] using FieldIs.given (Flag.mk o.refuseEncrypted)

/-- A scan bound, behind an unknown member that has the key of a field inside. -/
def nestedDocument : String :=
  " \x7b\"x\" : [\x7b\"strict_index\": [1e9, null]\x7d],\n\"max_sync_scan\":4096\x7d "

def nestedMembers : List (Text × Json) :=
  [(.ofString "x",
    .array [.object [(.ofString "strict_index", .array [.number ['1', 'e', '9'], .null])]]),
   (.ofString "max_sync_scan", .ofNat 4096)]

theorem nestedDocument_spells : Document nestedDocument.toList (.object nestedMembers) := by
  have hblank (c : Char) (hc : isBlank c = true) : Blank [c] := by simpa [Blank] using hc
  have hspace := hblank ' ' rfl
  have hwhole : Whole ['1'] := .digits ⟨by simp, by simp⟩ (by simp)
  have hexponent : Exponent ['e', '9'] := .bare (Or.inl rfl) ⟨by simp, by simp⟩
  have hnumber := NumberLiteral.mk .none hwhole .none hexponent
  have hitems := Spells.item blank_nil (.number hnumber) blank_nil
    (.lastItem hspace .null blank_nil)
  have hinner := Spells.object (.lastMember
    (.mk blank_nil (spells_renderText "strict_index") blank_nil) hspace (.array hitems) blank_nil)
  have hmembers := Spells.member (.mk blank_nil (spells_renderText "x") hspace) hspace
    (.array (.lastItem blank_nil hinner blank_nil)) blank_nil
    (.lastMember (.mk (hblank '\n' rfl) (spells_renderText "max_sync_scan") blank_nil) blank_nil
      (spells_ofNat 4096) blank_nil)
  have hdocument := Document.mk hspace (.object hmembers) hspace
  exact hdocument

def twiceDocument : String := "\x7b\"strict_index\":true,\"strict_index\":true\x7d"

def twiceMembers : List (Text × Json) :=
  [(.ofString "strict_index", .bool true), (.ofString "strict_index", .bool true)]

theorem twiceDocument_spells : Document twiceDocument.toList (.object twiceMembers) := by
  have htrue : ∀ m ∈ [("strict_index", Json.bool true), ("strict_index", Json.bool true)],
      Spells m.2.render (.value m.2) := by
    simpa using spells_bool true
  have hmembers := spells_renderMembers htrue
  exact Document.mk blank_nil (.object hmembers) blank_nil

end OpenOptions

end KalayRecord
