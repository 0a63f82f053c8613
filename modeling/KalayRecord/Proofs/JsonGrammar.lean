import KalayRecord.JsonReader

namespace KalayRecord.Json

def Blank (s : List Char) : Prop := ∀ c ∈ s, isBlank c = true

/-- The characters between the quotes of a text, against the units that they stand for. -/
inductive SpellsUnits : List Char → Text → Prop
  | nil : SpellsUnits [] []
  | char {c s units} (hplain : ¬(c < ' ' ∨ c = '"' ∨ c = '\\')) (h : SpellsUnits s units) :
      SpellsUnits (c :: s) (.char c :: units)
  | escape {e c s units} (he : escaped? e = some c) (h : SpellsUnits s units) :
      SpellsUnits ('\\' :: e :: s) (.char c :: units)
  | code {a b c d n s units} (hcode : code? a b c d = some n) (h : SpellsUnits s units) :
      SpellsUnits ('\\' :: 'u' :: a :: b :: c :: d :: s) (unitOfCode n :: units)

/-- A text with its quotes. Halves that are written one after the other make one character. -/
inductive SpellsText : List Char → Text → Prop
  | quoted {s units} (h : SpellsUnits s units) : SpellsText ('"' :: s ++ ['"']) (joinPairs units)

def Digits (s : List Char) : Prop := s ≠ [] ∧ ∀ c ∈ s, c.isDigit = true

/-- The digits before the point: only zero itself begins with a zero. -/
inductive Whole : List Char → Prop
  | zero : Whole ['0']
  | digits {s} (h : Digits s) (hfirst : s.head? ≠ some '0') : Whole s

inductive Fraction : List Char → Prop
  | none : Fraction []
  | point {s} (h : Digits s) : Fraction ('.' :: s)

inductive Exponent : List Char → Prop
  | none : Exponent []
  | bare {e s} (he : e = 'e' ∨ e = 'E') (h : Digits s) : Exponent (e :: s)
  | signed {e c s} (he : e = 'e' ∨ e = 'E') (hc : c = '+' ∨ c = '-') (h : Digits s) :
      Exponent (e :: c :: s)

inductive Sign : List Char → Prop
  | none : Sign []
  | minus : Sign ['-']

inductive NumberLiteral : List Char → Prop
  | mk {sign whole fraction exponent} (hs : Sign sign) (hw : Whole whole) (hf : Fraction fraction)
      (he : Exponent exponent) : NumberLiteral (sign ++ whole ++ fraction ++ exponent)

inductive SpellsKey : List Char → Text → Prop
  | mk {b s b' key} (hb : Blank b) (h : SpellsText s key) (hb' : Blank b') :
      SpellsKey (b ++ s ++ b' ++ [':']) key

/-- What a run of characters can stand for: a value, or what is between the brackets of one. -/
inductive Part where
  | value (v : Json)
  | items (items : List Json)
  | members (members : List (Text × Json))

/-- The spelling of a part, from its first character to its last. Blanks may stand before and behind
each value and each key. -/
inductive Spells : List Char → Part → Prop
  | null : Spells "null".toList (.value .null)
  | true : Spells "true".toList (.value (.bool .true))
  | false : Spells "false".toList (.value (.bool .false))
  | number {s} (h : NumberLiteral s) : Spells s (.value (.number s))
  | string {s text} (h : SpellsText s text) : Spells s (.value (.string text))
  | array {s items} (h : Spells s (.items items)) :
      Spells ('[' :: s ++ [']']) (.value (.array items))
  | object {s members} (h : Spells s (.members members)) :
      Spells ('{' :: s ++ ['}']) (.value (.object members))
  | noItems {s} (h : Blank s) : Spells s (.items [])
  | lastItem {b s b' v} (hb : Blank b) (h : Spells s (.value v)) (hb' : Blank b') :
      Spells (b ++ s ++ b') (.items [v])
  | item {b s b' v s' v' items} (hb : Blank b) (h : Spells s (.value v)) (hb' : Blank b')
      (hrest : Spells s' (.items (v' :: items))) :
      Spells (b ++ s ++ b' ++ ',' :: s') (.items (v :: v' :: items))
  | noMembers {s} (h : Blank s) : Spells s (.members [])
  | lastMember {k key b s b' v} (hk : SpellsKey k key) (hb : Blank b) (h : Spells s (.value v))
      (hb' : Blank b') : Spells (k ++ b ++ s ++ b') (.members [(key, v)])
  | member {k key b s b' v s' m members} (hk : SpellsKey k key) (hb : Blank b)
      (h : Spells s (.value v)) (hb' : Blank b') (hrest : Spells s' (.members (m :: members))) :
      Spells (k ++ b ++ s ++ b' ++ ',' :: s') (.members ((key, v) :: m :: members))

/-- A value by itself, with blanks around it. -/
inductive Document : List Char → Json → Prop
  | mk {b s b' v} (hb : Blank b) (h : Spells s (.value v)) (hb' : Blank b') :
      Document (b ++ s ++ b') v

theorem blank_nil : Blank [] := nofun

theorem code_of_codeDigits : ∀ n < 32,
    codeDigits n = ['0', '0', (n / 16).digitChar, (n % 16).digitChar] ∧
      code? '0' '0' (n / 16).digitChar (n % 16).digitChar = some n := by
  decide +kernel

theorem spells_renderUnit (c : Char) {s : List Char} {units : Text} (h : SpellsUnits s units) :
    SpellsUnits (renderUnit (.char c) ++ s) (.char c :: units) := by
  rw [renderUnit]
  by_cases hquote : c = '"' ∨ c = '\\'
  · rw [if_pos hquote]
    refine .escape ?_ h
    rcases hquote with rfl | rfl <;> rfl
  rw [if_neg hquote]
  -- the five that have a letter
  iterate 5
    split
    next hc =>
      subst hc
      exact .escape rfl h
  split
  next hlow =>
    have hn : c.toNat < 32 := hlow
    obtain ⟨hdigits, hcode⟩ := code_of_codeDigits _ hn
    have hunit : unitOfCode c.toNat = .char c := by
      rw [unitOfCode, if_neg (by omega), Char.ofNat_toNat]
    rw [hdigits, ← hunit]
    exact .code hcode h
  next hlow =>
    refine .char ?_ h
    rintro (hc | hc)
    · exact hlow hc
    · exact hquote hc

theorem spells_renderText (s : String) :
    SpellsText (renderText (Text.ofString s)) (Text.ofString s) := by
  have hunits (cs : List Char) :
      SpellsUnits ((cs.map TextUnit.char).flatMap renderUnit) (cs.map .char) := by
    induction cs with
    | nil => exact .nil
    | cons c cs ih => exact spells_renderUnit c ih
  have hjoin (cs : List Char) : joinPairs (cs.map .char) = cs.map .char := by
    induction cs with
    | nil => rfl
    | cons c cs ih =>
      rw [List.map_cons, joinPairs, ih]
      rintro _ _ _ ⟨⟩
  have htext := SpellsText.quoted (hunits s.toList)
  rwa [hjoin] at htext

theorem spells_renderMembers {members : List (String × Json)}
    (h : ∀ m ∈ members, Spells m.2.render (.value m.2)) :
    Spells (renderMembers (members.map fun m => (Text.ofString m.1, m.2)))
      (.members (members.map fun m => (Text.ofString m.1, m.2))) := by
  have hkey (key : String) :
      SpellsKey (renderText (Text.ofString key) ++ [':']) (Text.ofString key) := by
    simpa using SpellsKey.mk blank_nil (spells_renderText key) blank_nil
  induction members with
  | nil => exact .noMembers blank_nil
  | cons m members ih =>
    obtain ⟨hm, hrest⟩ := List.forall_mem_cons.mp h
    cases members with
    | nil => simpa [renderMembers] using Spells.lastMember (hkey m.1) blank_nil hm blank_nil
    | cons m' members =>
      simpa [renderMembers] using Spells.member (hkey m.1) blank_nil hm blank_nil (ih hrest)

end KalayRecord.Json
