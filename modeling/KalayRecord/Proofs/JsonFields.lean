import Mathlib.Data.List.Forall2
import KalayRecord.JsonRecord
import KalayRecord.Proofs.JsonGrammar

namespace KalayRecord.Json

section Digits

theorem exists_digitChar {c : Char} (h : c.isDigit = true) :
    ∃ d, d < 10 ∧ d.digitChar = c := by
  obtain ⟨hlow, hhigh⟩ := Char.isDigit_iff_toNat.mp h
  have hzero : '0'.toNat = 48 := rfl
  have hnine : '9'.toNat = 57 := rfl
  have hd : c.toNat - '0'.toNat < 10 := by omega
  refine ⟨_, hd, Char.toNat_inj.mp ?_⟩
  rw [Nat.toNat_digitChar_of_lt_ten hd]
  omega

theorem toDigits_ofDigitChars {s : List Char} (h : ∀ c ∈ s, c.isDigit = true) {n : Nat}
    (hn : 0 < n) : Nat.toDigits 10 (Nat.ofDigitChars 10 s n) = Nat.toDigits 10 n ++ s := by
  induction s generalizing n with
  | nil => rw [Nat.ofDigitChars_nil, List.append_nil]
  | cons c s ih =>
    obtain ⟨hc, hs⟩ := List.forall_mem_cons.mp h
    obtain ⟨d, hd, rfl⟩ := exists_digitChar hc
    rw [Nat.ofDigitChars_cons_digitChar_of_lt_ten hd, ih hs (by omega),
      ← Nat.toDigits_append_toDigits (by decide) hn hd, Nat.toDigits_of_lt_base hd,
      List.append_assoc, List.singleton_append]

theorem toDigits_of_whole {s : List Char} (h : Whole s) :
    Nat.toDigits 10 (Nat.ofDigitChars 10 s 0) = s := by
  cases h with
  | zero => rfl
  | digits h hfirst =>
    cases s with
    | nil => exact absurd rfl h.1
    | cons c s =>
      obtain ⟨hc, hs⟩ := List.forall_mem_cons.mp h.2
      obtain ⟨d, hd, rfl⟩ := exists_digitChar hc
      have hpos : 0 < d := by
        apply Nat.pos_of_ne_zero
        rintro rfl
        exact hfirst rfl
      rw [Nat.ofDigitChars_cons_digitChar_of_lt_ten hd, toDigits_ofDigitChars hs (by omega),
        Nat.mul_zero, Nat.zero_add, Nat.toDigits_of_lt_base hd, List.singleton_append]

theorem head?_toDigits_ne {n : Nat} (hn : 0 < n) : (Nat.toDigits 10 n).head? ≠ some '0' := by
  induction n using Nat.strongRecOn with
  | ind n ih =>
    rw [Nat.toDigits_eq_if (by decide)]
    split
    · simpa using Nat.ne_of_gt hn
    · rw [List.head?_append_of_ne_nil _ Nat.toDigits_ne_nil]
      exact ih (n / 10) (by omega) (by omega)

theorem whole_toDigits (n : Nat) : Whole (Nat.toDigits 10 n) := by
  rcases Nat.eq_zero_or_pos n with rfl | hn
  · exact .zero
  · refine .digits ⟨Nat.toDigits_ne_nil, fun c hc => ?_⟩ (head?_toDigits_ne hn)
    exact Nat.isDigit_of_mem_toDigits (by decide) (by decide) hc

theorem spells_ofNat (n : Nat) : Spells (ofNat n).render (.value (ofNat n)) := by
  apply Spells.number
  have hliteral := NumberLiteral.mk .none (whole_toDigits n) .none .none
  rwa [List.nil_append, List.append_nil, List.append_nil] at hliteral

theorem whole_of_literal {s : List Char} (h : NumberLiteral s)
    (hdigits : ∀ c ∈ s, c.isDigit = true) : Whole s := by
  obtain ⟨hs, hw, hf, he⟩ := h
  simp only [List.forall_mem_append] at hdigits
  obtain ⟨⟨⟨hsign, -⟩, hfraction⟩, hexponent⟩ := hdigits
  cases hs with
  | minus => exact absurd (hsign '-' List.mem_cons_self) (by decide)
  | none =>
    cases hf with
    | point => exact absurd (hfraction '.' List.mem_cons_self) (by decide)
    | none =>
      cases he with
      | none => simpa using hw
      | bare he =>
        have hletter := hexponent _ List.mem_cons_self
        rcases he with rfl | rfl <;> cases hletter
      | signed he =>
        have hletter := hexponent _ List.mem_cons_self
        rcases he with rfl | rfl <;> cases hletter

end Digits

/-- Some characters spell the value. -/
def Spellable (v : Json) : Prop := ∃ s, Spells s (.value v)

theorem spellable_of_mem {s : List Char} {members : List (Text × Json)}
    (h : Spells s (.members members)) : ∀ m ∈ members, Spellable m.2 := by
  generalize hpart : Part.members members = part at h
  induction h generalizing members with
  | noMembers =>
    cases hpart
    exact nofun
  | lastMember hk hb h hb' ih =>
    cases hpart
    exact List.forall_mem_singleton.mpr ⟨_, h⟩
  | member hk hb h hb' hrest ih ihrest =>
    cases hpart
    exact List.forall_mem_cons.mpr ⟨⟨_, h⟩, ihrest rfl⟩
  | _ => cases hpart

theorem spellable_of_document {s : List Char} {members : List (Text × Json)}
    (h : Document s (.object members)) : ∀ m ∈ members, Spellable m.2 := by
  obtain ⟨hb, hspells, hb'⟩ := h
  cases hspells with
  | object hmembers => exact spellable_of_mem hmembers

theorem digitsValue?_eq_some {literal : List Char} (h : NumberLiteral literal) {n : Nat} :
    digitsValue? literal = some n ↔ literal = Nat.toDigits 10 n := by
  unfold digitsValue?
  constructor
  · intro hvalue
    split at hvalue
    next hdigits =>
      obtain rfl := Option.some.inj hvalue
      exact (toDigits_of_whole (whole_of_literal h (List.all_eq_true.mp hdigits.2))).symm
    · cases hvalue
  · rintro rfl
    obtain ⟨hne, hdigits⟩ : Nat.toDigits 10 n ≠ [] ∧ ∀ c ∈ Nat.toDigits 10 n, c.isDigit = true :=
      ⟨Nat.toDigits_ne_nil, fun c => Nat.isDigit_of_mem_toDigits (by decide) (by decide)⟩
    rw [if_pos ⟨hne, List.all_eq_true.mpr hdigits⟩]
    exact congrArg some Nat.ofDigitChars_ten_toDigits

theorem toNatBelow?_eq_some {v : Json} (hv : Spellable v) {bound n : Nat} :
    v.toNatBelow? bound = some n ↔ n < bound ∧ v = .ofNat n := by
  obtain ⟨s, hs⟩ := hv
  cases hs with
  | number h =>
    simp only [toNatBelow?, ofNat, number.injEq, Option.bind_eq_bind, Option.bind_eq_some_iff,
      digitsValue?_eq_some h]
    constructor
    · rintro ⟨m, rfl, hm⟩
      split at hm
      next hlt =>
        cases hm
        exact ⟨hlt, rfl⟩
      · cases hm
    · rintro ⟨hlt, rfl⟩
      exact ⟨n, rfl, if_pos hlt⟩
  | _ => simp [toNatBelow?, ofNat]

theorem toBool?_eq_some {v : Json} {b : Bool} : v.toBool? = some b ↔ v = .bool b := by
  cases v <;> simp [toBool?]

namespace Text

theorem toChars?_eq_some {t : Text} {s : List Char} : t.toChars? = some s ↔ t = s.map .char := by
  induction t generalizing s with
  | nil => cases s <;> simp [toChars?]
  | cons u t ih =>
    cases u with
    | char c => cases s <;> simp [toChars?, ih, and_comm]
    | half code => cases s <;> simp [toChars?]

theorem toString?_eq_some {t : Text} {s : String} : t.toString? = some s ↔ t = ofString s := by
  simp only [toString?, Option.map_eq_some_iff, toChars?_eq_some, ofString]
  constructor
  · rintro ⟨cs, rfl, rfl⟩
    rw [String.toList_ofList]
  · rintro rfl
    exact ⟨s.toList, rfl, String.ofList_toList⟩

end Text

/-- The values that members give under a key. -/
def valuesUnder (key : String) (members : List (Text × Json)) : List Json :=
  (members.filter (·.1 = Text.ofString key)).map Prod.snd

/-- All keys are texts of characters. -/
def Legible (members : List (Text × Json)) : Prop := ∀ m ∈ members, ∃ key, m.1 = Text.ofString key

section Members

variable {members : List (Text × Json)} {keyed : List (String × Json)}

theorem keyed?_eq_some :
    keyed? members = some keyed ↔ members = keyed.map fun m => (Text.ofString m.1, m.2) := by
  induction members generalizing keyed with
  | nil => cases keyed <;> simp [keyed?]
  | cons m members ih =>
    obtain ⟨key, value⟩ := m
    simp only [keyed?, Option.bind_eq_bind, Option.bind_eq_some_iff, Text.toString?_eq_some, ih]
    cases keyed with
    | nil => simp
    | cons m keyed =>
      rw [List.map_cons, List.cons.injEq, Prod.mk.injEq]
      constructor
      · rintro ⟨key', rfl, keyed', rfl, h⟩
        cases h
        exact ⟨⟨rfl, rfl⟩, rfl⟩
      · rintro ⟨⟨rfl, rfl⟩, rfl⟩
        exact ⟨m.1, rfl, keyed, rfl, rfl⟩

theorem legible_iff :
    Legible members ↔ ∃ keyed : List (String × Json),
      members = keyed.map fun m => (Text.ofString m.1, m.2) := by
  constructor
  · intro h
    induction members with
    | nil => exact ⟨[], rfl⟩
    | cons m members ih =>
      obtain ⟨⟨key, hkey⟩, hrest⟩ := List.forall_mem_cons.mp h
      obtain ⟨keyed, rfl⟩ := ih hrest
      exact ⟨(key, m.2) :: keyed, by rw [List.map_cons, ← hkey]⟩
  · rintro ⟨keyed, rfl⟩
    exact List.forall_mem_map.mpr fun m _ => ⟨m.1, rfl⟩

theorem ofString_inj {s t : String} : Text.ofString s = Text.ofString t ↔ s = t := by
  constructor
  · intro h
    apply String.toList_inj.mp
    exact List.map_injective_iff.mpr (fun _ _ h => TextUnit.char.inj h) h
  · rintro rfl
    rfl

theorem valuesUnder_keyed (key : String) (keyed : List (String × Json)) :
    valuesUnder key (keyed.map fun m => (Text.ofString m.1, m.2)) =
      (keyed.filter (·.1 = key)).map Prod.snd := by
  rw [valuesUnder, List.filter_map, List.map_map]
  simp only [Function.comp_def, ofString_inj]

/-- Under a field there is no value, one value, or too many. -/
theorem select?_cons {field : String} {fields : List String} {values : List (Option Json)} :
    select? (field :: fields) keyed = some values ↔
      ∃ value rest, (keyed.filter (·.1 = field)).map Prod.snd = value.toList ∧
        select? fields keyed = some rest ∧ values = value :: rest := by
  unfold select?
  simp only [List.mapM_cons, Option.bind_eq_bind, Option.bind_eq_some_iff, Option.pure_def,
    Option.some.injEq]
  generalize keyed.filter (·.1 = field) = found
  rcases found with _ | ⟨m, _ | ⟨m', found⟩⟩
  · constructor
    · rintro ⟨_, ⟨⟩, rest, hrest, rfl⟩
      exact ⟨none, rest, rfl, hrest, rfl⟩
    · rintro ⟨_ | v, rest, hvalue, hrest, rfl⟩
      · exact ⟨none, rfl, rest, hrest, rfl⟩
      · cases hvalue
  · constructor
    · rintro ⟨_, ⟨⟩, rest, hrest, rfl⟩
      exact ⟨some m.2, rest, rfl, hrest, rfl⟩
    · rintro ⟨_ | v, rest, hvalue, hrest, rfl⟩
      · cases hvalue
      · cases hvalue
        exact ⟨some m.2, rfl, rest, hrest, rfl⟩
  · constructor
    · rintro ⟨_, ⟨⟩, -⟩
    · rintro ⟨_ | v, rest, hvalue, -⟩ <;> cases hvalue

theorem select?_eq_some {fields : List String} {values : List (Option Json)} :
    select? fields keyed = some values ↔
      List.Forall₂ (fun field value => (keyed.filter (·.1 = field)).map Prod.snd = value.toList)
        fields values := by
  induction fields generalizing values with
  | nil => cases values <;> simp [select?]
  | cons field fields ih =>
    simp only [select?_cons, ih]
    constructor
    · rintro ⟨value, rest, hvalue, hrest, rfl⟩
      exact .cons hvalue hrest
    · rintro (_ | ⟨hvalue, hrest⟩)
      exact ⟨_, _, hvalue, hrest, rfl⟩

theorem fieldValues?_object {fields : List String} {values : List (Option Json)} :
    fieldValues? fields (.object members) = some values ↔
      Legible members ∧
        List.Forall₂ (fun field value => valuesUnder field members = value.toList) fields
          values := by
  simp only [fieldValues?, Option.bind_eq_bind, Option.bind_eq_some_iff, keyed?_eq_some,
    select?_eq_some, legible_iff]
  constructor
  · rintro ⟨keyed, rfl, h⟩
    simp only [valuesUnder_keyed]
    exact ⟨⟨keyed, rfl⟩, h⟩
  · rintro ⟨⟨keyed, rfl⟩, h⟩
    simp only [valuesUnder_keyed] at h
    exact ⟨keyed, rfl, h⟩

end Members

/-- What a field comes to: what its one value stands for, or its default where it has none. -/
inductive FieldIs {α : Type} (Stands : Json → α → Prop) (default : α) : List Json → α → Prop
  | absent : FieldIs Stands default [] default
  | given {v a} (h : Stands v a) : FieldIs Stands default [v] a

namespace FieldIs

variable {α : Type} {Stands : Json → α → Prop} {default a : α} {values values' : List Json}

theorem elim_iff {value : Option Json} {f : Json → Option α}
    (hf : ∀ v ∈ value, ∀ a, f v = some a ↔ Stands v a) :
    value.elim (some default) f = some a ↔ FieldIs Stands default value.toList a := by
  cases value with
  | none =>
    constructor
    · rintro ⟨⟩
      exact .absent
    · rintro ⟨⟩
      rfl
  | some v =>
    constructor
    · exact fun h => .given ((hf v rfl a).mp h)
    · rintro (_ | h)
      exact (hf v rfl a).mpr h

theorem exists_iff : (∃ a, FieldIs Stands default values a) ↔
    values.length < 2 ∧ ∀ v ∈ values, ∃ a, Stands v a := by
  constructor
  · rintro ⟨a, _ | h⟩
    · exact ⟨Nat.zero_lt_two, nofun⟩
    · exact ⟨Nat.one_lt_two, List.forall_mem_singleton.mpr ⟨_, h⟩⟩
  · rintro ⟨hlength, htyped⟩
    rcases values with _ | ⟨v, _ | ⟨v', values⟩⟩
    · exact ⟨_, .absent⟩
    · obtain ⟨a, h⟩ := htyped v List.mem_cons_self
      exact ⟨a, .given h⟩
    · simp only [List.length_cons] at hlength
      omega

theorem exists_option (h : FieldIs Stands default values a) :
    ∃ value : Option Json, values = value.toList := by
  cases h with
  | absent => exact ⟨none, rfl⟩
  | @given v a h => exact ⟨some v, rfl⟩

theorem perm (h : FieldIs Stands default values a) (hp : values.Perm values') :
    FieldIs Stands default values' a := by
  cases h with
  | absent =>
    rw [List.nil_perm.mp hp]
    exact .absent
  | given h =>
    rw [← List.singleton_perm.mp hp]
    exact .given h

end FieldIs

theorem Legible.perm {members members' : List (Text × Json)} (h : Legible members)
    (hp : members.Perm members') : Legible members' :=
  fun m hm => h m (hp.mem_iff.mpr hm)

theorem valuesUnder_perm {members members' : List (Text × Json)} (h : members.Perm members')
    (key : String) : (valuesUnder key members).Perm (valuesUnder key members') :=
  (h.filter _).map _

end KalayRecord.Json
