import Mathlib.Data.List.TakeWhile
import KalayRecord.Proofs.JsonGrammar

namespace KalayRecord.Json

section Blanks

variable {b s : List Char} {c : Char}

theorem skipBlanks_append (hb : Blank b) (s : List Char) : skipBlanks (b ++ s) = skipBlanks s :=
  List.dropWhile_append_of_pos hb

theorem skipBlanks_cons (hc : isBlank c = false) (s : List Char) :
    skipBlanks (c :: s) = c :: s := by
  rw [skipBlanks, List.dropWhile_cons_of_neg (by simp [hc])]

theorem exists_blank (s : List Char) : ∃ b, Blank b ∧ s = b ++ skipBlanks s :=
  ⟨s.takeWhile isBlank, fun _ hc => List.mem_takeWhile_imp hc, List.takeWhile_append_dropWhile.symm⟩

theorem skipBlanks_skipBlanks (s : List Char) : skipBlanks (skipBlanks s) = skipBlanks s := by
  obtain ⟨b, hb, hs⟩ := exists_blank s
  exact (skipBlanks_append hb _).symm.trans (congrArg skipBlanks hs.symm)

theorem skipBlanks_eq_nil : skipBlanks s = [] ↔ Blank s := List.dropWhile_eq_nil_iff

end Blanks

section Texts

variable {s rest : List Char} {units : Text}

theorem readUnits_of_plain {c : Char} (hplain : ¬(c < ' ' ∨ c = '"' ∨ c = '\\')) (s : List Char) :
    readUnits (c :: s) = (readUnits s).map fun (units, rest) => (.char c :: units, rest) := by
  simp only [not_or] at hplain
  obtain ⟨hlow, hquote, hslash⟩ := hplain
  rw [readUnits]
  · rw [if_neg (not_or.mpr ⟨hlow, hslash⟩)]
    cases readUnits s <;> rfl
  · exact hquote
  · rintro _ _ _ _ _ rfl
    exact absurd rfl hslash
  · rintro _ _ rfl
    exact absurd rfl hslash

theorem readUnits_of_spells (h : SpellsUnits s units) (rest : List Char) :
    readUnits (s ++ '"' :: rest) = some (units, rest) := by
  induction h with
  | nil => rfl
  | char hplain _ ih => rw [List.cons_append, readUnits_of_plain hplain, ih]; rfl
  | @escape e c s units he _ ih =>
    have hu : e ≠ 'u' := by
      rintro rfl
      cases he
    rw [List.cons_append, List.cons_append, readUnits]
    · simp [he, ih]
    · exact fun _ _ _ _ _ h => absurd h hu
  | code hcode _ ih => simp [readUnits, hcode, ih]

theorem spells_of_readUnits (h : readUnits s = some (units, rest)) :
    ∃ body, s = body ++ '"' :: rest ∧ SpellsUnits body units := by
  induction s using readUnits.induct generalizing units with
  | case1 => cases h
  | case2 s =>
    cases h
    exact ⟨[], rfl, .nil⟩
  | case3 a b c d s ih =>
    simp only [readUnits, Option.bind_eq_bind, Option.bind_eq_some_iff] at h
    obtain ⟨n, hcode, ⟨units', rest'⟩, hread, h⟩ := h
    cases h
    obtain ⟨body, rfl, hbody⟩ := ih hread
    exact ⟨'\\' :: 'u' :: a :: b :: c :: d :: body, rfl, .code hcode hbody⟩
  | case4 e s hu ih =>
    rw [readUnits.eq_4 _ _ hu] at h
    simp only [Option.bind_eq_bind, Option.bind_eq_some_iff] at h
    obtain ⟨c, hescape, ⟨units', rest'⟩, hread, h⟩ := h
    cases h
    obtain ⟨body, rfl, hbody⟩ := ih hread
    exact ⟨'\\' :: e :: body, rfl, .escape hescape hbody⟩
  | case5 c s hquote hcode hescape hlow =>
    rw [readUnits.eq_5 _ _ hquote hcode hescape] at h
    simp [hlow] at h
  | case6 c s hquote hcode hescape hlow ih =>
    have hplain : ¬(c < ' ' ∨ c = '"' ∨ c = '\\') := by
      rintro (h | h | h)
      · exact hlow (Or.inl h)
      · exact hquote h
      · exact hlow (Or.inr h)
    rw [readUnits_of_plain hplain, Option.map_eq_some_iff] at h
    obtain ⟨⟨units', rest'⟩, hread, h⟩ := h
    cases h
    obtain ⟨body, rfl, hbody⟩ := ih hread
    exact ⟨c :: body, rfl, .char hplain hbody⟩

theorem readText_of_spells (h : SpellsUnits s units) (rest : List Char) :
    readText (s ++ '"' :: rest) = some (joinPairs units, rest) := by
  rw [readText, readUnits_of_spells h]
  rfl

theorem spells_of_readText {text : Text} (h : readText s = some (text, rest)) :
    ∃ body, s = body ++ '"' :: rest ∧ SpellsText ('"' :: body ++ ['"']) text := by
  simp only [readText, Option.bind_eq_bind, Option.bind_eq_some_iff] at h
  obtain ⟨⟨units, rest'⟩, hread, h⟩ := h
  cases h
  obtain ⟨body, rfl, hbody⟩ := spells_of_readUnits hread
  exact ⟨body, rfl, .quoted hbody⟩

end Texts

/-- Only these may stand behind a value, if anything does. -/
def Follow (rest : List Char) : Prop :=
  ∀ c ∈ rest.head?, isBlank c = true ∨ c = ',' ∨ c = ']' ∨ c = '}'

/-- No digit goes on. -/
def NoDigit (rest : List Char) : Prop := ∀ c ∈ rest.head?, c.isDigit = false

section Numbers

variable {s rest d whole fraction exponent literal : List Char}

theorem NoDigit.cons {c : Char} (hc : c.isDigit = false) (rest : List Char) :
    NoDigit (c :: rest) := by
  rintro _ ⟨⟩
  exact hc

theorem Follow.cases {c : Char} (h : Follow (c :: rest)) :
    c = ' ' ∨ c = '\n' ∨ c = '\t' ∨ c = '\r' ∨ c = ',' ∨ c = ']' ∨ c = '}' := by
  have hc := h c rfl
  simpa [isBlank, or_assoc] using hc

theorem Follow.noDigit (h : Follow rest) : NoDigit rest := by
  cases rest with
  | nil => nofun
  | cons c rest =>
    apply NoDigit.cons
    rcases h.cases with rfl | rfl | rfl | rfl | rfl | rfl | rfl <;> rfl

theorem Follow.noExponent (h : Follow rest) : ∀ c ∈ rest.head?, c ≠ '.' ∧ c ≠ 'e' ∧ c ≠ 'E' := by
  cases rest with
  | nil => nofun
  | cons c rest =>
    rintro _ ⟨⟩
    rcases h.cases with rfl | rfl | rfl | rfl | rfl | rfl | rfl <;> decide

theorem readDigits_of_digits (h : Digits d) (hrest : NoDigit rest) :
    readDigits (d ++ rest) = some (d, rest) := by
  have htake : rest.takeWhile Char.isDigit = [] := by
    cases rest with
    | nil => rfl
    | cons c rest => exact List.takeWhile_cons_of_neg (by simp [hrest c rfl])
  have hdrop : rest.dropWhile Char.isDigit = rest := by
    cases rest with
    | nil => rfl
    | cons c rest => exact List.dropWhile_cons_of_neg (by simp [hrest c rfl])
  rw [readDigits, List.takeWhile_append_of_pos h.2, List.dropWhile_append_of_pos h.2, htake, hdrop,
    List.append_nil]
  cases d with
  | nil => exact absurd rfl h.1
  | cons c d => rfl

theorem digits_of_readDigits (h : readDigits s = some (d, rest)) : s = d ++ rest ∧ Digits d := by
  rw [readDigits] at h
  split at h
  · cases h
  next hne =>
    cases h
    exact ⟨List.takeWhile_append_dropWhile.symm, hne, fun _ hc => List.mem_takeWhile_imp hc⟩

theorem readWhole_of_whole (h : Whole whole) (hrest : NoDigit rest) :
    readWhole (whole ++ rest) = some (whole, rest) := by
  cases h with
  | zero => rfl
  | digits h hfirst =>
    rw [readWhole, readDigits_of_digits h hrest]
    intro s hs
    cases whole with
    | nil => exact h.1 rfl
    | cons c whole => exact hfirst (congrArg some (List.cons.inj hs).1)

theorem whole_of_readWhole (h : readWhole s = some (whole, rest)) :
    s = whole ++ rest ∧ Whole whole := by
  rw [readWhole.eq_def] at h
  split at h
  · cases h
    exact ⟨rfl, .zero⟩
  next hzero =>
    obtain ⟨rfl, hdigits⟩ := digits_of_readDigits h
    refine ⟨rfl, .digits hdigits fun hfirst => ?_⟩
    obtain ⟨whole', rfl⟩ := List.head?_eq_some_iff.mp hfirst
    exact hzero _ rfl

theorem readFraction_of_fraction (h : Fraction fraction) (hrest : NoDigit rest)
    (hpoint : rest.head? ≠ some '.') :
    readFraction (fraction ++ rest) = some (fraction, rest) := by
  cases h with
  | none =>
    rw [List.nil_append, readFraction]
    rintro s rfl
    exact hpoint rfl
  | point h =>
    rw [List.cons_append, readFraction, readDigits_of_digits h hrest]
    rfl

theorem fraction_of_readFraction (h : readFraction s = some (fraction, rest)) :
    s = fraction ++ rest ∧ Fraction fraction := by
  rw [readFraction.eq_def] at h
  split at h
  · simp only [Option.bind_eq_bind, Option.bind_eq_some_iff] at h
    obtain ⟨⟨d, rest'⟩, hread, h⟩ := h
    cases h
    obtain ⟨rfl, hdigits⟩ := digits_of_readDigits hread
    exact ⟨rfl, .point hdigits⟩
  · cases h
    exact ⟨rfl, .none⟩

theorem readExponent_of_exponent (h : Exponent exponent) (hrest : Follow rest) :
    readExponent (exponent ++ rest) = some (exponent, rest) := by
  cases h with
  | none =>
    cases rest with
    | nil => rfl
    | cons c rest =>
      have hc := (hrest.noExponent c rfl).2
      simp [readExponent, hc]
  | @bare e d he h =>
    have hread := readDigits_of_digits h hrest.noDigit
    cases d with
    | nil => exact absurd rfl h.1
    | cons c d =>
      have hc : ¬(c = '+' ∨ c = '-') := by
        rintro (rfl | rfl)
        · exact absurd (h.2 _ List.mem_cons_self) (by decide)
        · exact absurd (h.2 _ List.mem_cons_self) (by decide)
      rw [List.cons_append] at hread
      simp [readExponent, he, hc, hread]
  | signed he hc h =>
    simp [readExponent, he, hc, readDigits_of_digits h hrest.noDigit]

theorem exponent_of_readExponent (h : readExponent s = some (exponent, rest)) :
    s = exponent ++ rest ∧ Exponent exponent := by
  cases s with
  | nil =>
    cases h
    exact ⟨rfl, .none⟩
  | cons e s =>
    rw [readExponent.eq_def] at h
    dsimp only at h
    split at h
    next he =>
      simp only [Option.bind_eq_bind, Option.bind_eq_some_iff] at h
      obtain ⟨⟨d, rest'⟩, hread, h⟩ := h
      cases h
      obtain ⟨hs, hdigits⟩ := digits_of_readDigits hread
      cases s with
      | nil => exact absurd (List.append_eq_nil_iff.mp hs.symm).1 hdigits.1
      | cons c s =>
        by_cases hc : c = '+' ∨ c = '-'
        · simp only [if_pos hc] at hs ⊢
          rw [hs]
          exact ⟨rfl, .signed he hc hdigits⟩
        · simp only [if_neg hc] at hs ⊢
          rw [hs]
          exact ⟨rfl, .bare he hdigits⟩
    · cases h
      exact ⟨rfl, .none⟩

theorem readUnsigned (hw : Whole whole) (hf : Fraction fraction) (he : Exponent exponent)
    (hrest : Follow rest) :
    readWhole (whole ++ (fraction ++ (exponent ++ rest))) =
        some (whole, fraction ++ (exponent ++ rest)) ∧
      readFraction (fraction ++ (exponent ++ rest)) = some (fraction, exponent ++ rest) ∧
      readExponent (exponent ++ rest) = some (exponent, rest) := by
  have hletter {e : Char} {s : List Char} (he : e = 'e' ∨ e = 'E') :
      NoDigit (e :: s) ∧ (e :: s).head? ≠ some '.' := by
    rcases he with rfl | rfl
    · exact ⟨.cons rfl _, by simp⟩
    · exact ⟨.cons rfl _, by simp⟩
  have hexponent : NoDigit (exponent ++ rest) ∧ (exponent ++ rest).head? ≠ some '.' := by
    cases he with
    | none => exact ⟨hrest.noDigit, fun h => (hrest.noExponent _ h).1 rfl⟩
    | bare he => exact hletter he
    | signed he => exact hletter he
  have hfraction : NoDigit (fraction ++ (exponent ++ rest)) := by
    cases hf with
    | none => exact hexponent.1
    | point h => exact .cons rfl _
  exact ⟨readWhole_of_whole hw hfraction, readFraction_of_fraction hf hexponent.1 hexponent.2,
    readExponent_of_exponent he hrest⟩

theorem Whole.head (h : Whole whole) : ∃ c s, whole = c :: s ∧ c.isDigit = true := by
  cases h with
  | zero => exact ⟨_, _, rfl, rfl⟩
  | digits h =>
    cases whole with
    | nil => exact absurd rfl h.1
    | cons c whole => exact ⟨c, whole, rfl, h.2 _ List.mem_cons_self⟩

theorem NumberLiteral.head (h : NumberLiteral literal) :
    ∃ c s, literal = c :: s ∧ (c = '-' ∨ c.isDigit = true) := by
  obtain ⟨hs, hw, -, -⟩ := h
  cases hs with
  | none =>
    obtain ⟨c, whole, rfl, hc⟩ := hw.head
    exact ⟨c, _, rfl, Or.inr hc⟩
  | minus => exact ⟨_, _, rfl, Or.inl rfl⟩

theorem readNumber_of_literal (h : NumberLiteral literal) (hrest : Follow rest) :
    readNumber (literal ++ rest) = some (literal, rest) := by
  obtain ⟨hs, hw, hf, he⟩ := h
  obtain ⟨hwhole, hfraction, hexponent⟩ := readUnsigned hw hf he hrest
  cases hs with
  | none =>
    obtain ⟨c, whole', rfl, hc⟩ := hw.head
    have hminus : c ≠ '-' := by
      rintro rfl
      cases hc
    simp only [List.nil_append, List.append_assoc, List.cons_append] at hwhole ⊢
    simp [readNumber, hminus, hwhole, hfraction, hexponent]
  | minus =>
    simp only [List.append_assoc, List.cons_append, List.nil_append]
    simp [readNumber, hwhole, hfraction, hexponent]

theorem literal_of_readUnsigned {sign : List Char} (hs : Sign sign)
    (h : (do
      let (whole, s) ← readWhole s
      let (fraction, s) ← readFraction s
      let (exponent, s) ← readExponent s
      return (sign ++ whole ++ fraction ++ exponent, s)) = some (literal, rest)) :
    sign ++ s = literal ++ rest ∧ NumberLiteral literal := by
  simp only [Option.bind_eq_bind, Option.bind_eq_some_iff] at h
  obtain ⟨⟨whole, s₁⟩, hwhole, ⟨fraction, s₂⟩, hfraction, ⟨exponent, s₃⟩, hexponent, h⟩ := h
  cases h
  obtain ⟨rfl, hw⟩ := whole_of_readWhole hwhole
  obtain ⟨rfl, hf⟩ := fraction_of_readFraction hfraction
  obtain ⟨rfl, he⟩ := exponent_of_readExponent hexponent
  exact ⟨by simp only [List.append_assoc], .mk hs hw hf he⟩

theorem literal_of_readNumber (h : readNumber s = some (literal, rest)) :
    s = literal ++ rest ∧ NumberLiteral literal := by
  rw [readNumber.eq_def] at h
  split at h
  next sign s' hsign =>
    split at hsign
    · cases hsign
      exact literal_of_readUnsigned .minus h
    · cases hsign
      exact literal_of_readUnsigned .none h

end Numbers

section Values

variable {s b rest : List Char} {v : Json} {fuel : Nat}

theorem readValue_append (hb : Blank b) (fuel : Nat) (s : List Char) :
    readValue fuel (b ++ s) = readValue fuel s := by
  cases fuel with
  | zero => rfl
  | succ fuel => rw [readValue, readValue, skipBlanks_append hb]

theorem readItems_skipBlanks (fuel : Nat) (s : List Char) :
    readItems fuel (skipBlanks s) = readItems fuel s := by
  obtain ⟨b, hb, hs⟩ := exists_blank s
  cases fuel with
  | zero => rfl
  | succ fuel =>
    rw [readItems, readItems, ← readValue_append hb fuel (skipBlanks s), ← hs]

theorem readMembers_skipBlanks (fuel : Nat) (s : List Char) :
    readMembers fuel (skipBlanks s) = readMembers fuel s := by
  cases fuel with
  | zero => rfl
  | succ fuel => rw [readMembers, readMembers, skipBlanks_skipBlanks]

theorem opens_of_number {c : Char} (h : c = '-' ∨ c.isDigit = true) :
    isBlank c = false ∧ c ≠ ']' ∧ c ≠ '}' := by
  refine ⟨?_, ?_, ?_⟩
  · cases hc : isBlank c with
    | false => rfl
    | true =>
      simp only [isBlank, decide_eq_true_eq] at hc
      rcases hc with rfl | rfl | rfl | rfl <;> exact absurd h (by decide)
  · rintro rfl
    exact absurd h (by decide)
  · rintro rfl
    exact absurd h (by decide)

theorem exists_head (h : Spells s (.value v)) :
    ∃ c s', s = c :: s' ∧ isBlank c = false ∧ c ≠ ']' ∧ c ≠ '}' := by
  cases h with
  | null => exact ⟨_, _, rfl, by decide⟩
  | true => exact ⟨_, _, rfl, by decide⟩
  | false => exact ⟨_, _, rfl, by decide⟩
  | number h =>
    obtain ⟨c, s, rfl, hc⟩ := h.head
    exact ⟨c, s, rfl, opens_of_number hc⟩
  | string h =>
    cases h
    exact ⟨_, _, rfl, by decide⟩
  | array h => exact ⟨_, _, rfl, by decide⟩
  | object h => exact ⟨_, _, rfl, by decide⟩

theorem readValue_emptyArray (h : skipBlanks s = ']' :: rest) :
    readValue (fuel + 1) ('[' :: s) = some (.array [], rest) := by
  rw [readValue, skipBlanks_cons rfl]
  simp only [h]

theorem readValue_array (h : (skipBlanks s).head? ≠ some ']') :
    readValue (fuel + 1) ('[' :: s) =
      (readItems fuel s).map fun (items, rest) => (.array items, rest) := by
  rw [readValue, skipBlanks_cons rfl, ← readItems_skipBlanks fuel s]
  simp only
  split
  next heq => simp [heq] at h
  · cases readItems fuel (skipBlanks s) <;> rfl

theorem readValue_emptyObject (h : skipBlanks s = '}' :: rest) :
    readValue (fuel + 1) ('{' :: s) = some (.object [], rest) := by
  rw [readValue, skipBlanks_cons rfl]
  simp only [h]

theorem readValue_object (h : (skipBlanks s).head? ≠ some '}') :
    readValue (fuel + 1) ('{' :: s) =
      (readMembers fuel s).map fun (members, rest) => (.object members, rest) := by
  rw [readValue, skipBlanks_cons rfl, ← readMembers_skipBlanks fuel s]
  simp only
  split
  next heq => simp [heq] at h
  · cases readMembers fuel (skipBlanks s) <;> rfl

theorem readValue_string (s : List Char) :
    readValue (fuel + 1) ('"' :: s) =
      (readText s).map fun (text, rest) => (.string text, rest) := by
  rw [readValue, skipBlanks_cons rfl]
  simp only
  cases readText s <;> rfl

theorem readValue_number {c : Char} (hc : c = '-' ∨ c.isDigit = true) (s : List Char) :
    readValue (fuel + 1) (c :: s) =
      (readNumber (c :: s)).map fun (literal, rest) => (.number literal, rest) := by
  rw [readValue, skipBlanks_cons (opens_of_number hc).1]
  split
  case h_7 => cases readNumber (c :: s) <;> rfl
  all_goals
    next heq =>
      cases heq
      exact absurd hc (by decide)

theorem readItems_last {s' : List Char} (h : readValue fuel s = some (v, s'))
    (hs' : skipBlanks s' = ']' :: rest) : readItems (fuel + 1) s = some ([v], rest) := by
  rw [readItems, h]
  simp [hs']

theorem readItems_item {s' s'' : List Char} (h : readValue fuel s = some (v, s'))
    (hs' : skipBlanks s' = ',' :: s'') :
    readItems (fuel + 1) s = (readItems fuel s'').map fun (items, rest) => (v :: items, rest) := by
  rw [readItems, h]
  simp only [Option.bind_eq_bind, Option.bind_some, hs']
  cases readItems fuel s'' <;> rfl

theorem readMembers_key {k : List Char} {key : Text} (hk : SpellsKey k key) (fuel : Nat)
    (s : List Char) :
    readMembers (fuel + 1) (k ++ s) = (do
      let (value, s) ← readValue fuel s
      match skipBlanks s with
      | ',' :: s => do
        let (members, s) ← readMembers fuel s
        return ((key, value) :: members, s)
      | '}' :: s => return ([(key, value)], s)
      | _ => none) := by
  obtain @⟨b, _, b', _, hb, @⟨t, units, hunits⟩, hb'⟩ := hk
  have htext : b ++ ('"' :: t ++ ['"']) ++ b' ++ [':'] ++ s =
      b ++ '"' :: (t ++ '"' :: (b' ++ ':' :: s)) := by simp
  have hquote : skipBlanks (b ++ '"' :: (t ++ '"' :: (b' ++ ':' :: s))) =
      '"' :: (t ++ '"' :: (b' ++ ':' :: s)) := by
    rw [skipBlanks_append hb, skipBlanks_cons rfl]
  have hcolon : skipBlanks (b' ++ ':' :: s) = ':' :: s := by
    rw [skipBlanks_append hb', skipBlanks_cons rfl]
  rw [htext, readMembers]
  simp only [hquote, readText_of_spells hunits, Option.bind_eq_bind, Option.bind_some]
  generalize skipBlanks (b' ++ ':' :: s) = after at hcolon ⊢
  subst hcolon
  rfl

theorem readMembers_last {k s' : List Char} {key : Text} (hk : SpellsKey k key)
    (h : readValue fuel s = some (v, s')) (hs' : skipBlanks s' = '}' :: rest) :
    readMembers (fuel + 1) (k ++ s) = some ([(key, v)], rest) := by
  rw [readMembers_key hk, h]
  simp [hs']

theorem readMembers_member {k s' s'' : List Char} {key : Text} (hk : SpellsKey k key)
    (h : readValue fuel s = some (v, s')) (hs' : skipBlanks s' = ',' :: s'') :
    readMembers (fuel + 1) (k ++ s) =
      (readMembers fuel s'').map fun (members, rest) => ((key, v) :: members, rest) := by
  rw [readMembers_key hk, h]
  simp only [Option.bind_eq_bind, Option.bind_some, hs']
  cases readMembers fuel s'' <;> rfl

theorem follow_append {b : List Char} (hb : Blank b) {c : Char}
    (hc : c = ',' ∨ c = ']' ∨ c = '}') (rest : List Char) : Follow (b ++ c :: rest) := by
  cases b with
  | nil =>
    rintro _ ⟨⟩
    exact Or.inr hc
  | cons c' b =>
    rintro _ ⟨⟩
    exact Or.inl (hb _ List.mem_cons_self)

theorem skipBlanks_mark {b : List Char} (hb : Blank b) {c : Char}
    (hc : c = ',' ∨ c = ']' ∨ c = '}') (rest : List Char) :
    skipBlanks (b ++ c :: rest) = c :: rest := by
  rw [skipBlanks_append hb]
  rcases hc with rfl | rfl | rfl <;> exact skipBlanks_cons rfl _

theorem head_ne_of_items {item : Json} {items : List Json} (h : Spells s (.items (item :: items)))
    (rest : List Char) : (skipBlanks (s ++ rest)).head? ≠ some ']' := by
  have hfirst {b s : List Char} {v : Json} (hb : Blank b) (h : Spells s (.value v))
      (rest : List Char) : (skipBlanks (b ++ (s ++ rest))).head? ≠ some ']' := by
    obtain ⟨c, s', rfl, hc, hclose, -⟩ := exists_head h
    rw [skipBlanks_append hb, List.cons_append, skipBlanks_cons hc]
    simpa using hclose
  cases h with
  | lastItem hb h hb' =>
    simp only [List.append_assoc]
    exact hfirst hb h _
  | item hb h hb' hrest =>
    simp only [List.append_assoc]
    exact hfirst hb h _

theorem head_ne_of_members {m : Text × Json} {members : List (Text × Json)}
    (h : Spells s (.members (m :: members))) (rest : List Char) :
    (skipBlanks (s ++ rest)).head? ≠ some '}' := by
  have hfirst {k : List Char} {key : Text} (hk : SpellsKey k key) (rest : List Char) :
      (skipBlanks (k ++ rest)).head? ≠ some '}' := by
    obtain ⟨hb, ⟨hunits⟩, hb'⟩ := hk
    simp only [List.append_assoc, List.cons_append]
    rw [skipBlanks_append hb, skipBlanks_cons rfl]
    simp
  cases h with
  | lastMember hk hb h hb' =>
    simp only [List.append_assoc]
    exact hfirst hk _
  | member hk hb h hb' hrest =>
    simp only [List.append_assoc]
    exact hfirst hk _

/-- With steps enough for its characters, reading takes the part that is spelled. The bracket behind
a run of items or members is taken with it. -/
def ReadBack (s : List Char) : Part → Prop
  | .value v => ∀ fuel rest, 2 * s.length ≤ fuel → Follow rest →
      readValue fuel (s ++ rest) = some (v, rest)
  | .items items => items ≠ [] → ∀ fuel rest, 2 * s.length < fuel →
      readItems fuel (s ++ ']' :: rest) = some (items, rest)
  | .members members => members ≠ [] → ∀ fuel rest, 2 * s.length < fuel →
      readMembers fuel (s ++ '}' :: rest) = some (members, rest)

theorem exists_succ {c : Char} {s : List Char} (h : 2 * (c :: s).length ≤ fuel) :
    ∃ n, fuel = n + 1 :=
  Nat.exists_eq_succ_of_ne_zero (by simp at h; omega)

theorem readBack_of_spells {part : Part} (h : Spells s part) : ReadBack s part := by
  -- a value and the run that it stands in take a step each, hence two for a character
  induction h with
  | null =>
    rintro (_ | fuel) rest hfuel _
    · cases hfuel
    · rfl
  | true =>
    rintro (_ | fuel) rest hfuel _
    · cases hfuel
    · rfl
  | false =>
    rintro (_ | fuel) rest hfuel _
    · cases hfuel
    · rfl
  | @number s h =>
    intro fuel rest hfuel hrest
    have hread := readNumber_of_literal h hrest
    obtain ⟨c, s', hs, hc⟩ := h.head
    subst hs
    obtain ⟨fuel, rfl⟩ := exists_succ hfuel
    rw [List.cons_append] at hread ⊢
    rw [readValue_number hc, hread]
    rfl
  | @string s text h =>
    intro fuel rest hfuel _
    obtain ⟨hunits⟩ := h
    obtain ⟨fuel, rfl⟩ := exists_succ hfuel
    simp only [List.cons_append, List.append_assoc, List.nil_append]
    rw [readValue_string, readText_of_spells hunits]
    rfl
  | @array s items h ih =>
    intro fuel rest hfuel _
    obtain ⟨fuel, rfl⟩ := exists_succ hfuel
    simp only [List.cons_append, List.append_assoc, List.nil_append]
    cases items with
    | nil =>
      cases h with
      | noItems hb => exact readValue_emptyArray (skipBlanks_mark hb (by decide) rest)
    | cons item items =>
      simp only [List.length_cons, List.length_append] at hfuel
      rw [readValue_array (head_ne_of_items h _), ih (List.cons_ne_nil _ _) fuel rest (by omega)]
      rfl
  | @object s members h ih =>
    intro fuel rest hfuel _
    obtain ⟨fuel, rfl⟩ := exists_succ hfuel
    simp only [List.cons_append, List.append_assoc, List.nil_append]
    cases members with
    | nil =>
      cases h with
      | noMembers hb => exact readValue_emptyObject (skipBlanks_mark hb (by decide) rest)
    | cons m members =>
      simp only [List.length_cons, List.length_append] at hfuel
      rw [readValue_object (head_ne_of_members h _), ih (List.cons_ne_nil _ _) fuel rest (by omega)]
      rfl
  | noItems => exact fun h => absurd rfl h
  | @lastItem b s b' v hb h hb' ih =>
    rintro - (_ | fuel) rest hfuel
    · cases hfuel
    simp only [List.length_append] at hfuel
    have hread := ih fuel (b' ++ ']' :: rest) (by omega) (follow_append hb' (by decide) rest)
    rw [← readValue_append hb] at hread
    simp only [List.append_assoc]
    exact readItems_last hread (skipBlanks_mark hb' (by decide) rest)
  | @item b s b' v s' v' items hb h hb' hrest ih ihrest =>
    rintro - (_ | fuel) rest hfuel
    · cases hfuel
    simp only [List.length_append, List.length_cons] at hfuel
    have hread := ih fuel (b' ++ ',' :: (s' ++ ']' :: rest)) (by omega)
      (follow_append hb' (by decide) _)
    rw [← readValue_append hb] at hread
    have hitems := ihrest (List.cons_ne_nil _ _) fuel rest (by omega)
    simp only [List.append_assoc, List.cons_append]
    rw [readItems_item hread (skipBlanks_mark hb' (by decide) _), hitems]
    rfl
  | noMembers => exact fun h => absurd rfl h
  | @lastMember k key b s b' v hk hb h hb' ih =>
    rintro - (_ | fuel) rest hfuel
    · cases hfuel
    simp only [List.length_append] at hfuel
    have hread := ih fuel (b' ++ '}' :: rest) (by omega) (follow_append hb' (by decide) rest)
    rw [← readValue_append hb] at hread
    simp only [List.append_assoc]
    exact readMembers_last hk hread (skipBlanks_mark hb' (by decide) rest)
  | @member k key b s b' v s' m members hk hb h hb' hrest ih ihrest =>
    rintro - (_ | fuel) rest hfuel
    · cases hfuel
    simp only [List.length_append, List.length_cons] at hfuel
    have hread := ih fuel (b' ++ ',' :: (s' ++ '}' :: rest)) (by omega)
      (follow_append hb' (by decide) _)
    rw [← readValue_append hb] at hread
    have hmembers := ihrest (List.cons_ne_nil _ _) fuel rest (by omega)
    simp only [List.append_assoc, List.cons_append]
    rw [readMembers_member hk hread (skipBlanks_mark hb' (by decide) _), hmembers]
    rfl

/-- The value stands in front of the rest, behind blanks. -/
def ValueBefore (s : List Char) (v : Json) (rest : List Char) : Prop :=
  ∃ b body, s = b ++ body ++ rest ∧ Blank b ∧ Spells body (.value v)

/-- A run of items, one at least, stands in front of its bracket and the rest. -/
def ItemsBefore (s : List Char) (items : List Json) (rest : List Char) : Prop :=
  ∃ body, s = body ++ ']' :: rest ∧ items ≠ [] ∧ Spells body (.items items)

def MembersBefore (s : List Char) (members : List (Text × Json)) (rest : List Char) : Prop :=
  ∃ body, s = body ++ '}' :: rest ∧ members ≠ [] ∧ Spells body (.members members)

/-- What is read with this many steps is spelled before the rest. -/
structure ReadsSpelled (fuel : Nat) : Prop where
  value : ∀ {s v rest}, readValue fuel s = some (v, rest) → ValueBefore s v rest
  items : ∀ {s items rest}, readItems fuel s = some (items, rest) → ItemsBefore s items rest
  members : ∀ {s members rest}, readMembers fuel s = some (members, rest) →
    MembersBefore s members rest

namespace ReadsSpelled

variable {items : List Json} {members : List (Text × Json)}

theorem value_succ (ih : ReadsSpelled fuel) (h : readValue (fuel + 1) s = some (v, rest)) :
    ValueBefore s v rest := by
  obtain ⟨b, hb, hs⟩ := exists_blank s
  rw [readValue] at h
  generalize skipBlanks s = t at h hs
  subst hs
  suffices ∃ body, t = body ++ rest ∧ Spells body (.value v) by
    obtain ⟨body, rfl, hbody⟩ := this
    exact ⟨b, body, by rw [List.append_assoc], hb, hbody⟩
  split at h
  · cases h
    exact ⟨_, rfl, .null⟩
  · cases h
    exact ⟨_, rfl, .true⟩
  · cases h
    exact ⟨_, rfl, .false⟩
  next t =>
    simp only [Option.bind_eq_bind, Option.bind_eq_some_iff] at h
    obtain ⟨⟨text, rest'⟩, hread, h⟩ := h
    cases h
    obtain ⟨body, rfl, hbody⟩ := spells_of_readText hread
    exact ⟨'"' :: body ++ ['"'], by simp, .string hbody⟩
  next t =>
    obtain ⟨b', hb', ht⟩ := exists_blank t
    split at h
    next t' hclose =>
      cases h
      exact ⟨'[' :: b' ++ [']'], by rw [ht, hclose]; simp, .array (.noItems hb')⟩
    next t' hopen =>
      simp only [Option.bind_eq_bind, Option.bind_eq_some_iff] at h
      obtain ⟨⟨items, rest'⟩, hread, h⟩ := h
      cases h
      rw [readItems_skipBlanks] at hread
      obtain ⟨body, rfl, -, hbody⟩ := ih.items hread
      exact ⟨'[' :: body ++ [']'], by simp, .array hbody⟩
  next t =>
    obtain ⟨b', hb', ht⟩ := exists_blank t
    split at h
    next t' hclose =>
      cases h
      exact ⟨'{' :: b' ++ ['}'], by rw [ht, hclose]; simp, .object (.noMembers hb')⟩
    next t' hopen =>
      simp only [Option.bind_eq_bind, Option.bind_eq_some_iff] at h
      obtain ⟨⟨members, rest'⟩, hread, h⟩ := h
      cases h
      rw [readMembers_skipBlanks] at hread
      obtain ⟨body, rfl, -, hbody⟩ := ih.members hread
      exact ⟨'{' :: body ++ ['}'], by simp, .object hbody⟩
  · simp only [Option.bind_eq_bind, Option.bind_eq_some_iff] at h
    obtain ⟨⟨literal, rest'⟩, hread, h⟩ := h
    cases h
    obtain ⟨rfl, hliteral⟩ := literal_of_readNumber hread
    exact ⟨literal, rfl, .number hliteral⟩

theorem items_succ (ih : ReadsSpelled fuel) (h : readItems (fuel + 1) s = some (items, rest)) :
    ItemsBefore s items rest := by
  rw [readItems] at h
  simp only [Option.bind_eq_bind, Option.bind_eq_some_iff] at h
  obtain ⟨⟨v, s'⟩, hread, h⟩ := h
  obtain ⟨b, body, rfl, hb, hbody⟩ := ih.value hread
  obtain ⟨b', hb', hs'⟩ := exists_blank s'
  split at h
  next t hcomma =>
    simp only [Option.bind_eq_some_iff] at h
    obtain ⟨⟨items', rest'⟩, hitems, h⟩ := h
    cases h
    obtain ⟨body', rfl, hne, hbody'⟩ := ih.items hitems
    obtain ⟨v', items, rfl⟩ := List.exists_cons_of_ne_nil hne
    exact ⟨_, by rw [hs', hcomma]; simp, List.cons_ne_nil _ _, .item hb hbody hb' hbody'⟩
  next t hclose =>
    cases h
    exact ⟨_, by rw [hs', hclose]; simp, List.cons_ne_nil _ _, .lastItem hb hbody hb'⟩
  · cases h

theorem members_succ (ih : ReadsSpelled fuel)
    (h : readMembers (fuel + 1) s = some (members, rest)) : MembersBefore s members rest := by
  rw [readMembers] at h
  split at h
  next t hquote =>
    simp only [Option.bind_eq_bind, Option.bind_eq_some_iff] at h
    obtain ⟨⟨key, s₁⟩, hkey, h⟩ := h
    obtain ⟨b, hb, hs⟩ := exists_blank s
    obtain ⟨b₁, hb₁, hs₁⟩ := exists_blank s₁
    obtain ⟨text, rfl, htext⟩ := spells_of_readText hkey
    split at h
    next s₂ hcolon =>
      have hk : SpellsKey (b ++ ('"' :: text ++ ['"']) ++ b₁ ++ [':']) key := .mk hb htext hb₁
      simp only [Option.bind_eq_some_iff] at h
      obtain ⟨⟨v, s₃⟩, hread, h⟩ := h
      obtain ⟨b₂, body, rfl, hb₂, hbody⟩ := ih.value hread
      obtain ⟨b₃, hb₃, hs₃⟩ := exists_blank s₃
      split at h
      next s₄ hcomma =>
        simp only [Option.bind_eq_some_iff] at h
        obtain ⟨⟨members', rest'⟩, hmembers, h⟩ := h
        cases h
        obtain ⟨body', rfl, hne, hbody'⟩ := ih.members hmembers
        obtain ⟨m, members, rfl⟩ := List.exists_cons_of_ne_nil hne
        refine ⟨_, ?_, List.cons_ne_nil _ _, .member hk hb₂ hbody hb₃ hbody'⟩
        rw [hs, hquote, hs₁, hcolon, hs₃, hcomma]
        simp
      next s₄ hclose =>
        cases h
        refine ⟨_, ?_, List.cons_ne_nil _ _, .lastMember hk hb₂ hbody hb₃⟩
        rw [hs, hquote, hs₁, hcolon, hs₃, hclose]
        simp
      · cases h
    · cases h
  · cases h

end ReadsSpelled

theorem readsSpelled (fuel : Nat) : ReadsSpelled fuel := by
  -- the three readers call each other, so they go together
  induction fuel with
  | zero => exact ⟨nofun, nofun, nofun⟩
  | succ fuel ih => exact ⟨ih.value_succ, ih.items_succ, ih.members_succ⟩

theorem ofChars?_of_document (h : Document s v) : ofChars? s = some v := by
  obtain @⟨b, s, b', v, hb, h, hb'⟩ := h
  have hfollow : Follow b' := fun c hc => Or.inl (hb' c (List.mem_of_mem_head? hc))
  have hfuel : 2 * s.length ≤ 2 * (b ++ s ++ b').length := by
    simp only [List.length_append]
    omega
  have hread := readBack_of_spells h _ b' hfuel hfollow
  rw [← readValue_append hb, ← List.append_assoc] at hread
  rw [ofChars?, hread]
  simp [skipBlanks_eq_nil.mpr hb']

/-- The documents that are read are those that spell a value, which is then the one that is read. -/
theorem ofChars?_eq_some : ofChars? s = some v ↔ Document s v := by
  refine ⟨fun h => ?_, ofChars?_of_document⟩
  simp only [ofChars?, Option.bind_eq_bind, Option.bind_eq_some_iff] at h
  obtain ⟨⟨v', rest⟩, hread, h⟩ := h
  split at h
  next hrest =>
    cases h
    obtain ⟨b, body, rfl, hb, hbody⟩ := (readsSpelled _).value hread
    exact .mk hb hbody (skipBlanks_eq_nil.mp hrest)
  · cases h

end Values

end KalayRecord.Json
