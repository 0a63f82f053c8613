import KalayRecord.Proofs.JsonGrammar

namespace KalayRecord.Json

/-- Where the next character of an object or an array stands. The depth counts the open brackets
besides the outermost. -/
inductive Place where
  | before
  | between (depth : Nat)
  | quoted (depth : Nat)
  | escaped (depth : Nat)
  | after
  | nowhere
  deriving DecidableEq, Repr

namespace Place

/-- The place behind a character. Backslashes only stand in texts. -/
def step : Place → Char → Place
  | before, c => if isBlank c then before else if c = '{' ∨ c = '[' then between 0 else nowhere
  | between depth, c =>
    if c = '"' then quoted depth
    else if c = '\\' then nowhere
    else if c = '{' ∨ c = '[' then between (depth + 1)
    else if c = '}' ∨ c = ']' then match depth with
      | 0 => after
      | depth + 1 => between depth
    else between depth
  | quoted depth, c =>
    if c = '"' then between depth else if c = '\\' then escaped depth else quoted depth
  | escaped depth, _ => quoted depth
  | after, c => if isBlank c then after else nowhere
  | nowhere, _ => nowhere

def run (p : Place) (s : List Char) : Place := s.foldl step p

variable {p : Place} {s : List Char} {c : Char}

@[simp] theorem run_nil (p : Place) : p.run [] = p := rfl

@[simp] theorem run_cons (p : Place) (c : Char) (s : List Char) :
    p.run (c :: s) = (p.step c).run s := rfl

@[simp] theorem run_append (p : Place) (s t : List Char) : p.run (s ++ t) = (p.run s).run t :=
  List.foldl_append

@[simp] theorem run_nowhere (s : List Char) : nowhere.run s = nowhere := by
  induction s with
  | nil => rfl
  | cons c s ih => exact ih

theorem step_ne_before (h : p ≠ before) (c : Char) : p.step c ≠ before := by
  unfold step
  repeat' split
  all_goals first | exact absurd rfl h | exact Place.noConfusion

theorem step_eq_before : p.step c = before ↔ p = before ∧ isBlank c = true := by
  by_cases hp : p = before
  · subst hp
    by_cases hc : isBlank c = true
    · simp [step, hc]
    · by_cases hopen : c = '{' ∨ c = '['
      · simp [step, hc, hopen]
      · simp [step, hc, hopen]
  · simp [hp, step_ne_before hp c]

theorem run_eq_before : p.run s = before ↔ p = before ∧ Blank s := by
  induction s generalizing p with
  | nil => simp [Blank]
  | cons c s ih =>
    have hrest : (p.step c).run s = before ↔ p.step c = before ∧ Blank s := ih
    rw [run_cons, hrest, step_eq_before, and_assoc, Blank, Blank, List.forall_mem_cons]

theorem run_after_eq_after : after.run s = after ↔ Blank s := by
  induction s with
  | nil => simp [Blank]
  | cons c s ih =>
    by_cases hc : isBlank c = true
    · simp [step, hc, ih, Blank]
    · simp [step, hc, Blank]

/-- The character means nothing outside texts, and nothing special in them. -/
def Inert (c : Char) : Prop := c ≠ '"' ∧ c ≠ '\\' ∧ c ≠ '{' ∧ c ≠ '[' ∧ c ≠ '}' ∧ c ≠ ']'

instance (c : Char) : Decidable (Inert c) := inferInstanceAs (Decidable (_ ∧ _))

theorem Inert.plain (h : Inert c) : c ≠ '"' ∧ c ≠ '\\' := ⟨h.1, h.2.1⟩

theorem run_inert (h : ∀ c ∈ s, Inert c) (depth : Nat) : (between depth).run s = between depth := by
  induction s with
  | nil => rfl
  | cons c s ih =>
    obtain ⟨hc, hs⟩ := List.forall_mem_cons.mp h
    rw [run_cons, show (between depth).step c = between depth by simp [step, hc.1, hc.2], ih hs]

theorem step_quoted (hc : c ≠ '"' ∧ c ≠ '\\') (depth : Nat) :
    (quoted depth).step c = quoted depth := by
  simp [step, hc]

/-- In a text, behind what may have been no text at all. -/
def Quoted (p : Place) : Prop := (∃ depth, p = quoted depth) ∨ p = nowhere

theorem Quoted.step (h : p.Quoted) (hc : c ≠ '"' ∧ c ≠ '\\') : (p.step c).Quoted := by
  obtain ⟨depth, rfl⟩ | rfl := h
  · exact Or.inl ⟨depth, step_quoted hc depth⟩
  · exact Or.inr rfl

theorem Quoted.run (h : p.Quoted) (hs : ∀ c ∈ s, c ≠ '"' ∧ c ≠ '\\') : (p.run s).Quoted := by
  induction s generalizing p with
  | nil => exact h
  | cons c s ih =>
    obtain ⟨hc, hs⟩ := List.forall_mem_cons.mp hs
    exact ih (h.step hc) hs

/-- Outside texts, if anywhere. -/
def Loose (p : Place) : Prop := (∃ depth, p = between depth) ∨ p = after ∨ p = nowhere

theorem Loose.step (h : p.Loose) (hc : c ≠ '"') : (p.step c).Loose := by
  obtain ⟨depth, rfl⟩ | rfl | rfl := h
  · simp only [Place.step, if_neg hc]
    repeat' split
    all_goals simp [Loose]
  · simp only [Place.step]
    split
    · simp [Loose]
    · simp [Loose]
  · simp [Place.step, Loose]

theorem Loose.step_backslash (h : p.Loose) : p.step '\\' = nowhere := by
  obtain ⟨depth, rfl⟩ | rfl | rfl := h <;> rfl

theorem Loose.step_quote (h : p.Loose) : (p.step '"').Quoted := by
  obtain ⟨depth, rfl⟩ | rfl | rfl := h
  · exact Or.inl ⟨depth, rfl⟩
  · exact Or.inr rfl
  · exact Or.inr rfl

theorem Quoted.step_quote (h : p.Quoted) : (p.step '"').Loose := by
  obtain ⟨depth, rfl⟩ | rfl := h
  · exact Or.inl ⟨depth, rfl⟩
  · exact Or.inr (Or.inr rfl)

theorem Quoted.ne_after (h : p.Quoted) : p ≠ after := by
  obtain ⟨depth, rfl⟩ | rfl := h
  · exact Place.noConfusion
  · exact Place.noConfusion

end Place

inductive Bracketed : Json → Prop
  | array (items) : Bracketed (.array items)
  | object (members) : Bracketed (.object members)

section Inert

open Place

variable {s : List Char} {c : Char}

theorem inert_of_digit (h : c.isDigit = true) : Inert c := by
  refine ⟨?_, ?_, ?_, ?_, ?_, ?_⟩ <;> (rintro rfl; cases h)

theorem inert_of_blank (h : isBlank c = true) : Inert c := by
  refine ⟨?_, ?_, ?_, ?_, ?_, ?_⟩ <;> (rintro rfl; cases h)

theorem inert_of_hexValue {n : Nat} (h : hexValue? c = some n) : Inert c := by
  refine ⟨?_, ?_, ?_, ?_, ?_, ?_⟩ <;> (rintro rfl; cases h)

theorem inert_of_literal (h : NumberLiteral s) : ∀ c ∈ s, Inert c := by
  have hdigits {s : List Char} (h : Digits s) : ∀ c ∈ s, Inert c :=
    fun c hc => inert_of_digit (h.2 c hc)
  have hletter {e : Char} (he : e = 'e' ∨ e = 'E') : Inert e := by
    rcases he with rfl | rfl <;> decide
  obtain ⟨hs, hw, hf, he⟩ := h
  simp only [List.forall_mem_append]
  refine ⟨⟨⟨?_, ?_⟩, ?_⟩, ?_⟩
  · cases hs <;> simp [Inert]
  · cases hw with
    | zero => simp [Inert]
    | digits h => exact hdigits h
  · cases hf with
    | none => nofun
    | point h => exact List.forall_mem_cons.mpr ⟨by decide, hdigits h⟩
  · cases he with
    | none => nofun
    | bare he h => exact List.forall_mem_cons.mpr ⟨hletter he, hdigits h⟩
    | @signed e c s he hc h =>
      have hsign : Inert c := by rcases hc with rfl | rfl <;> decide
      exact List.forall_mem_cons.mpr ⟨hletter he, List.forall_mem_cons.mpr ⟨hsign, hdigits h⟩⟩

theorem inert_of_code {a b c d : Char} {n : Nat} (h : code? a b c d = some n) :
    Inert a ∧ Inert b ∧ Inert c ∧ Inert d := by
  simp only [code?, Option.bind_eq_bind, Option.bind_eq_some_iff] at h
  obtain ⟨_, ha, _, hb, _, hc, _, hd, -⟩ := h
  exact ⟨inert_of_hexValue ha, inert_of_hexValue hb, inert_of_hexValue hc, inert_of_hexValue hd⟩

end Inert

section Runs

open Place

variable {s : List Char} {text : Text} {part : Part} {p : Place}

theorem run_units (h : SpellsUnits s text) (depth : Nat) : (quoted depth).run s = quoted depth := by
  induction h with
  | nil => rfl
  | char hplain h ih =>
    simp only [not_or] at hplain
    rw [run_cons, step_quoted hplain.2, ih]
  | escape he h ih => exact ih
  | @code a b c d n s units hcode h ih =>
    obtain ⟨ha, hb, hc, hd⟩ := inert_of_code hcode
    have hescape : ((quoted depth).step '\\').step 'u' = quoted depth := rfl
    simp only [run_cons]
    rw [hescape, step_quoted ha.plain, step_quoted hb.plain, step_quoted hc.plain,
      step_quoted hd.plain, ih]

theorem loose_run_units (h : SpellsUnits s text) (hp : p.Loose) : (p.run s).Loose := by
  induction h generalizing p with
  | nil => exact hp
  | char hplain h ih =>
    simp only [not_or] at hplain
    exact ih (hp.step hplain.2.1)
  | escape he h ih =>
    rw [run_cons, hp.step_backslash, run_nowhere]
    exact Or.inr (Or.inr rfl)
  | code hcode h ih =>
    rw [run_cons, hp.step_backslash, run_nowhere]
    exact Or.inr (Or.inr rfl)

theorem run_text (h : SpellsText s text) (depth : Nat) : (between depth).run s = between depth := by
  obtain ⟨hunits⟩ := h
  rw [List.cons_append, run_cons, run_append, show (between depth).step '"' = quoted depth from rfl,
    run_units hunits]
  rfl

theorem quoted_run_text (h : SpellsText s text) (hp : p.Quoted) : (p.run s).Quoted := by
  obtain ⟨hunits⟩ := h
  rw [List.cons_append, run_cons, run_append]
  exact (loose_run_units hunits hp.step_quote).step_quote

theorem run_key {key : Text} (h : SpellsKey s key) (depth : Nat) :
    (between depth).run s = between depth := by
  obtain ⟨hb, htext, hb'⟩ := h
  simp only [run_append]
  rw [run_inert fun c hc => inert_of_blank (hb c hc), run_text htext,
    run_inert fun c hc => inert_of_blank (hb' c hc)]
  rfl

theorem quoted_run_blank (h : Blank s) (hp : p.Quoted) : (p.run s).Quoted :=
  hp.run fun c hc => (inert_of_blank (h c hc)).plain

theorem quoted_run_key {key : Text} (h : SpellsKey s key) (hp : p.Quoted) : (p.run s).Quoted := by
  obtain ⟨hb, htext, hb'⟩ := h
  simp only [run_append]
  exact (quoted_run_blank hb' (quoted_run_text htext (quoted_run_blank hb hp))).step (by decide)

theorem run_blank (h : Blank s) (depth : Nat) : (between depth).run s = between depth :=
  run_inert (fun c hc => inert_of_blank (h c hc)) depth

/-- What is spelled closes all brackets that it opens. -/
theorem run_of_spells (h : Spells s part) (depth : Nat) :
    (between depth).run s = between depth := by
  induction h generalizing depth with
  | null => exact run_inert (by simp [Inert]) depth
  | true => exact run_inert (by simp [Inert]) depth
  | false => exact run_inert (by simp [Inert]) depth
  | number h => exact run_inert (inert_of_literal h) depth
  | string h => exact run_text h depth
  | array h ih =>
    rw [List.cons_append, run_cons, run_append,
      show (between depth).step '[' = between (depth + 1) from rfl, ih]
    rfl
  | object h ih =>
    rw [List.cons_append, run_cons, run_append,
      show (between depth).step '{' = between (depth + 1) from rfl, ih]
    rfl
  | noItems hb => exact run_blank hb depth
  | lastItem hb h hb' ih => simp only [run_append, run_blank hb, ih, run_blank hb']
  | item hb h hb' hrest ih ihrest =>
    simp only [run_append, run_blank hb, ih, run_blank hb', run_cons]
    exact ihrest depth
  | noMembers hb => exact run_blank hb depth
  | lastMember hk hb h hb' ih =>
    simp only [run_append, run_key hk, run_blank hb, ih, run_blank hb']
  | member hk hb h hb' hrest ih ihrest =>
    simp only [run_append, run_key hk, run_blank hb, ih, run_blank hb', run_cons]
    exact ihrest depth

theorem quoted_run (h : Spells s part) (hp : p.Quoted) : (p.run s).Quoted := by
  induction h generalizing p with
  | null => exact hp.run (by simp)
  | true => exact hp.run (by simp)
  | false => exact hp.run (by simp)
  | number h => exact hp.run fun c hc => (inert_of_literal h c hc).plain
  | string h => exact quoted_run_text h hp
  | array h ih =>
    rw [List.cons_append, run_cons, run_append]
    exact (ih (hp.step (by decide))).step (by decide)
  | object h ih =>
    rw [List.cons_append, run_cons, run_append]
    exact (ih (hp.step (by decide))).step (by decide)
  | noItems hb => exact quoted_run_blank hb hp
  | lastItem hb h hb' ih =>
    simp only [run_append]
    exact quoted_run_blank hb' (ih (quoted_run_blank hb hp))
  | item hb h hb' hrest ih ihrest =>
    simp only [run_append, run_cons]
    exact ihrest ((quoted_run_blank hb' (ih (quoted_run_blank hb hp))).step (by decide))
  | noMembers hb => exact quoted_run_blank hb hp
  | lastMember hk hb h hb' ih =>
    simp only [run_append]
    exact quoted_run_blank hb' (ih (quoted_run_blank hb (quoted_run_key hk hp)))
  | member hk hb h hb' hrest ih ihrest =>
    simp only [run_append, run_cons]
    exact ihrest ((quoted_run_blank hb' (ih (quoted_run_blank hb (quoted_run_key hk hp)))).step
      (by decide))

theorem exists_brackets {v : Json} (h : Spells s (.value v)) (hv : Bracketed v) :
    ∃ first inner last, s = first :: inner ++ [last] ∧ (first = '{' ∨ first = '[') ∧
      (last = '}' ∨ last = ']') ∧ ∃ part, Spells inner part := by
  cases hv with
  | array items =>
    cases h with
    | array h => exact ⟨_, _, _, rfl, Or.inr rfl, Or.inr rfl, _, h⟩
  | object members =>
    cases h with
    | object h => exact ⟨_, _, _, rfl, Or.inl rfl, Or.inl rfl, _, h⟩

/-- A document of a value with brackets is left with the last of them. -/
theorem run_bracketed {v : Json} (h : Spells s (.value v)) (hv : Bracketed v) :
    before.run s = after := by
  obtain ⟨first, inner, last, rfl, hfirst, hlast, part, hinner⟩ := exists_brackets h hv
  have hopen : before.step first = between 0 := by
    rcases hfirst with rfl | rfl <;> rfl
  have hclose : (between 0).step last = after := by
    rcases hlast with rfl | rfl <;> rfl
  rw [List.cons_append, run_cons, run_append, hopen, run_of_spells hinner, run_cons, hclose,
    run_nil]

theorem run_document {v : Json} (h : Document s v) (hv : Bracketed v) : before.run s = after := by
  obtain ⟨hb, h, hb'⟩ := h
  rw [run_append, run_append, run_eq_before.mpr ⟨rfl, hb⟩, run_bracketed h hv]
  exact run_after_eq_after.mpr hb'

theorem run_after_bracketed {v : Json} (h : Spells s (.value v)) (hv : Bracketed v) :
    after.run s = nowhere := by
  obtain ⟨first, inner, last, rfl, hfirst, -⟩ := exists_brackets h hv
  have hstray : after.step first = nowhere := by
    rcases hfirst with rfl | rfl <;> rfl
  rw [List.cons_append, run_cons, hstray, run_nowhere]

theorem run_escaped_bracketed {v : Json} (h : Spells s (.value v)) (hv : Bracketed v)
    (depth : Nat) : (escaped depth).run s = (quoted depth).run s := by
  obtain ⟨first, inner, last, rfl, hfirst, -⟩ := exists_brackets h hv
  have hstep : (quoted depth).step first = quoted depth := by
    rcases hfirst with rfl | rfl <;> rfl
  rw [List.cons_append, run_cons, run_cons, hstep]
  rfl

/-- Where a value with brackets has only blanks on one of its sides, a document around it, which has
brackets as well, has only blanks on the other. -/
theorem blank_around {t t' : List Char} {v w : Json} (hv : Spells s (.value v)) (hvb : Bracketed v)
    (hw : Document (t ++ s ++ t') w) (hwb : Bracketed w) (hblank : Blank t ∨ Blank t') :
    Blank t ∧ Blank t' := by
  have hrun := run_document hw hwb
  rw [run_append, run_append] at hrun
  rcases hblank with ht | ht'
  · rw [run_eq_before.mpr ⟨rfl, ht⟩, run_bracketed hv hvb] at hrun
    exact ⟨ht, run_after_eq_after.mp hrun⟩
  · -- each place that the text in front may lead to but the first one misses the end
    refine ⟨?_, ht'⟩
    have hquoted {p : Place} (hp : p.Quoted) (hrun : p.run t' = after) : False :=
      (quoted_run_blank ht' hp).ne_after hrun
    cases hplace : before.run t with
    | before => exact (run_eq_before.mp hplace).2
    | between depth =>
      rw [hplace, run_of_spells hv, run_blank ht'] at hrun
      cases hrun
    | quoted depth =>
      rw [hplace] at hrun
      exact (hquoted (quoted_run hv (Or.inl ⟨depth, rfl⟩)) hrun).elim
    | escaped depth =>
      rw [hplace, run_escaped_bracketed hv hvb] at hrun
      exact (hquoted (quoted_run hv (Or.inl ⟨depth, rfl⟩)) hrun).elim
    | after =>
      rw [hplace, run_after_bracketed hv hvb, run_nowhere] at hrun
      cases hrun
    | nowhere =>
      rw [hplace, run_nowhere, run_nowhere] at hrun
      cases hrun

end Runs

end KalayRecord.Json
