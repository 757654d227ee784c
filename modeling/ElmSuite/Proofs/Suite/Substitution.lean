import Mathlib.Data.List.Basic
import ElmSuite.Proofs.Elm.WhiteSpace
import ElmSuite.Proofs.Lists
import ElmSuite.Proofs.OrderedMap
import ElmSuite.Proofs.Suite.RunnerText

/-!
Rendering as substitution.  A template is literal text with placeholders between, and a rendered one is
the same text with a value in the place of every placeholder, whatever the literals and the values hold:
no hole is found across a seam, and no value is looked at again.
-/

namespace ElmSuite.Template

open Text

/-- A piece of literal text: no two open braces stand next to each other in it. -/
structure Literal where
  chars : List Char
  noOpening : ¬ ['{', '{'] <:+: chars

/-- A placeholder as it is written: a word in double braces, with white space around it. -/
structure Placeholder where
  before : List Char
  name : String
  after : List Char
  blank_before : ∀ c ∈ before, isBlank c = true
  nonempty : name ≠ ""
  word : ∀ c ∈ name.toList, isWord c = true
  blank_after : ∀ c ∈ after, isBlank c = true

/-- The text of a placeholder. -/
def Placeholder.text (p : Placeholder) : List Char :=
  '{' :: '{' :: (p.before ++ (p.name.toList ++ (p.after ++ ['}', '}'])))

/-- A template as literal text with placeholders between. -/
structure Written where
  first : Literal
  rest : List (Placeholder × Literal)

namespace Written

/-- What placeholders with literal text behind each become, if `fill` says what stands for a
placeholder. -/
def spell (fill : Placeholder → List Char) (rest : List (Placeholder × Literal)) : List Char :=
  rest.flatMap fun part => fill part.1 ++ part.2.chars

/-- The text of a template. -/
def text (t : Written) : List Char :=
  t.first.chars ++ spell Placeholder.text t.rest

/-- The names of the placeholders, from left to right. -/
def names (t : Written) : List String :=
  t.rest.map fun part => part.1.name

/-- The text with the value of its name in the place of every placeholder, if each name has one. -/
def substitute? (t : Written) (values : OrderedMap String (List Char)) : Option (List Char) := do
  let parts ← t.rest.mapM fun part => (values.get? part.1.name).map (· ++ part.2.chars)
  return t.first.chars ++ parts.flatten

end Written

/-! ### Seams -/

/-- What may stand behind literal text: nothing, or a placeholder. -/
def Opens (rest : List Char) : Prop :=
  rest = [] ∨ ∃ (p : Placeholder) (more : List Char), rest = p.text ++ more

theorem Placeholder.exists_cons (p : Placeholder) : ∃ c more, p.name.toList = c :: more := by
  refine List.exists_cons_of_ne_nil fun hnil => p.nonempty ?_
  rw [← String.toList_inj, hnil]
  rfl

theorem isWord_brace : isWord '{' = false ∧ isWord '}' = false := by
  decide +kernel

theorem isBlank_brace : isBlank '{' = false ∧ isBlank '}' = false := by
  decide

/-- A placeholder is read as the hole of its name, whatever stands behind it. -/
theorem holeAt?_text (p : Placeholder) (rest : List Char) :
    holeAt? (p.text ++ rest) = some (p.name, rest) := by
  obtain ⟨c, more, hname⟩ := p.exists_cons
  have hc : isBlank c = false := by
    have hword : isWord c = true := p.word c (by simp [hname])
    by_contra hblank
    rw [not_isWord_of_isBlank (by simpa using hblank)] at hword
    cases hword
  have hnamed : (p.before ++ (p.name.toList ++ (p.after ++ '}' :: '}' :: rest))).dropWhile isBlank =
      p.name.toList ++ (p.after ++ '}' :: '}' :: rest) :=
    dropWhile_append_of_head p.blank_before (by simp [hname, hc])
  have hboundary : ∀ d ∈ (p.after ++ '}' :: '}' :: rest).head?, isWord d = false := by
    cases hafter : p.after with
    | nil => simp [isWord_brace]
    | cons d after =>
        have hd : isBlank d = true := p.blank_after d (by simp [hafter])
        simp [not_isWord_of_isBlank hd]
  have hclose : (p.after ++ '}' :: '}' :: rest).dropWhile isBlank = '}' :: '}' :: rest :=
    dropWhile_append_of_head p.blank_after (by simp [isBlank_brace])
  have htext : p.text ++ rest =
      '{' :: '{' :: (p.before ++ (p.name.toList ++ (p.after ++ '}' :: '}' :: rest))) := by
    simp [Placeholder.text]
  rw [htext, holeAt?]
  simp only [hnamed, takeWhile_append_of_head p.word hboundary,
    dropWhile_append_of_head p.word hboundary, hclose, String.ofList_toList]
  rw [if_neg (by simp [hname])]

/-- No hole starts in literal text, also not where its last brace meets those of a placeholder. -/
theorem holeAt?_literal {c : Char} {text rest : List Char} (h : ¬ ['{', '{'] <:+: c :: text)
    (hrest : Opens rest) : holeAt? (c :: (text ++ rest)) = none := by
  unfold holeAt?
  split
  · next inner heq =>
    obtain ⟨rfl, htext⟩ := List.cons.inj heq
    cases text with
    | cons d text =>
        obtain ⟨rfl, -⟩ := List.cons.inj htext
        exact absurd ⟨[], text, rfl⟩ h
    | nil =>
        -- Three open braces: the word would have to start with the third.
        obtain rfl | ⟨p, more, rfl⟩ := hrest
        · cases htext
        · obtain ⟨-, hinner⟩ := List.cons.inj htext
          rw [← hinner]
          simp [isBlank_brace, isWord_brace]
  · rfl

theorem not_opening_of_cons {c : Char} {text : List Char} (h : ¬ ['{', '{'] <:+: c :: text) :
    ¬ ['{', '{'] <:+: text := by
  rintro ⟨front, back, rfl⟩
  exact h ⟨c :: front, back, rfl⟩

theorem pieces_literal {text rest : List Char} (h : ¬ ['{', '{'] <:+: text) (hrest : Opens rest) :
    pieces (text ++ rest) = text.map .char ++ pieces rest := by
  induction text with
  | nil => rfl
  | cons c text ih =>
      have hnone := holeAt?_literal h hrest
      rw [List.cons_append, pieces]
      split
      · next name after hsome =>
        rw [hnone] at hsome
        cases hsome
      · rw [ih (not_opening_of_cons h)]
        rfl

namespace Written

theorem opens_spell (rest : List (Placeholder × Literal)) : Opens (spell Placeholder.text rest) := by
  cases rest with
  | nil => exact .inl rfl
  | cons part rest =>
      refine .inr ⟨part.1, part.2.chars ++ spell Placeholder.text rest, ?_⟩
      rw [spell, List.flatMap_cons, List.append_assoc]
      rfl

theorem pieces_spell (rest : List (Placeholder × Literal)) :
    pieces (spell Placeholder.text rest) =
      rest.flatMap fun part => .hole part.1.name :: part.2.chars.map .char := by
  induction rest with
  | nil =>
      rw [spell, List.flatMap_nil, pieces]
      rfl
  | cons part rest ih =>
      have hspell : spell Placeholder.text (part :: rest) =
          part.1.text ++ (part.2.chars ++ spell Placeholder.text rest) := by
        rw [spell, List.flatMap_cons, List.append_assoc]
        rfl
      rw [hspell, pieces_hole (holeAt?_text part.1 _),
        pieces_literal part.2.noOpening (opens_spell rest), ih]
      rfl

/-- A template is read as it is written. -/
theorem pieces_text (t : Written) :
    pieces t.text = t.first.chars.map .char ++
      t.rest.flatMap fun part => .hole part.1.name :: part.2.chars.map .char := by
  rw [text, pieces_literal t.first.noOpening (opens_spell t.rest), pieces_spell]

theorem mem_holeNames_text (t : Written) (name : String) : name ∈ holeNames t.text ↔ name ∈ t.names := by
  have hparts : (t.rest.flatMap fun part => Piece.hole part.1.name :: part.2.chars.map .char).filterMap
      Piece.name? = t.names := by
    rw [names]
    induction t.rest with
    | nil => rfl
    | cons part rest ih =>
        rw [List.flatMap_cons, List.filterMap_append, ih, List.filterMap_cons, filterMap_name?_chars]
        rfl
  rw [holeNames, List.mem_eraseDups, pieces_text, List.filterMap_append, filterMap_name?_chars, hparts,
    List.nil_append]

theorem mapM_value {values : OrderedMap String (List Char)} {rest : List (Placeholder × Literal)}
    (h : ∀ part ∈ rest, (values.get? part.1.name).isSome = true) :
    (rest.mapM fun part => (values.get? part.1.name).map (· ++ part.2.chars)) =
      some (rest.map fun part => (values.get? part.1.name).getD [] ++ part.2.chars) := by
  induction rest with
  | nil => rfl
  | cons part rest ih =>
      rw [List.forall_mem_cons] at h
      obtain ⟨value, hvalue⟩ := Option.isSome_iff_exists.1 h.1
      rw [List.mapM_cons, ih h.2, hvalue]
      simp [hvalue]

/-- If every name has a value, the filled pieces are the substituted text. -/
theorem substitute?_eq (t : Written) {values : OrderedMap String (List Char)}
    (h : ∀ name ∈ t.names, (values.get? name).isSome = true) :
    t.substitute? values = some ((pieces t.text).flatMap (Piece.fill values)) := by
  have hfill : (t.rest.flatMap fun part => Piece.hole part.1.name :: part.2.chars.map .char).flatMap
      (Piece.fill values) =
        (t.rest.map fun part => (values.get? part.1.name).getD [] ++ part.2.chars).flatten := by
    rw [List.flatMap_assoc, ← List.flatMap_def]
    refine List.flatMap_congr fun part _ => ?_
    rw [List.flatMap_cons, flatMap_fill_chars]
    rfl
  rw [substitute?, mapM_value fun part hpart => h _ (List.mem_map_of_mem hpart), pieces_text,
    List.flatMap_append, flatMap_fill_chars, hfill]
  rfl

end Written

/-- How the rendering of a template goes: it has a result exactly if the names of its placeholders are
the keys that have values, and the result is the template with these values in place of the
placeholders; otherwise the names that lack a value and the values that lack a placeholder are told. -/
structure Substituted (t : Written) (values : OrderedMap String (List Char)) (title : Option String)
    (result : Except Failure (List Char)) : Prop where
  succeeds_iff : (∃ content, result = .ok content) ↔ ∀ name, name ∈ t.names ↔ name ∈ values.keys
  content : ∀ content, result = .ok content → t.substitute? values = some content
  mismatch : ∀ failure, result = .error failure → ∃ missing unused,
    failure = .templateMismatch missing unused title ∧ missing.Nodup ∧ unused.Nodup ∧
      (∀ name, name ∈ missing ↔ name ∈ t.names ∧ name ∉ values.keys) ∧
        ∀ name, name ∈ unused ↔ name ∈ values.keys ∧ name ∉ t.names

/-- Rendering substitutes values for placeholders. -/
theorem render_substitutes (t : Written) (values : OrderedMap String (List Char))
    (title : Option String) : Substituted t values title (render t.text values title) := by
  have hmissing (name : String) : name ∈ (holeNames t.text).filter (fun hole => !values.contains hole) ↔
      name ∈ t.names ∧ name ∉ values.keys := by
    rw [List.mem_filter, t.mem_holeNames_text, Bool.not_eq_true', ← values.contains_iff,
      Bool.not_eq_true]
  have hunused (name : String) : name ∈ values.keys.filter (fun key => !(holeNames t.text).contains key) ↔
      name ∈ values.keys ∧ name ∉ t.names := by
    rw [List.mem_filter, Bool.not_eq_true', ← Bool.not_eq_true, List.contains_iff_mem,
      t.mem_holeNames_text]
  have hsame : (∀ name, name ∈ t.names ↔ name ∈ values.keys) ↔
      (holeNames t.text).filter (fun hole => !values.contains hole) = [] ∧
        values.keys.filter (fun key => !(holeNames t.text).contains key) = [] := by
    simp only [List.eq_nil_iff_forall_not_mem, hmissing, hunused, not_and, not_not]
    exact ⟨fun h => ⟨fun name => (h name).1, fun name => (h name).2⟩,
      fun h name => ⟨h.1 name, h.2 name⟩⟩
  have hnodup : ((holeNames t.text).filter fun hole => !values.contains hole).Nodup :=
    (nodup_eraseDups _).filter _
  unfold render
  dsimp only
  split
  · next hempty =>
    rw [Bool.and_eq_true, List.isEmpty_iff, List.isEmpty_iff, ← hsame] at hempty
    have hvalues : ∀ name ∈ t.names, (values.get? name).isSome = true := fun name hname =>
      (values.isSome_get?_iff name).2 ((hempty name).1 hname)
    refine ⟨⟨fun _ => hempty, fun _ => ⟨_, rfl⟩⟩, ?_, fun failure h => by cases h⟩
    rintro content h
    cases h
    exact t.substitute?_eq hvalues
  · next hempty =>
    rw [Bool.and_eq_true, List.isEmpty_iff, List.isEmpty_iff, ← hsame] at hempty
    refine ⟨⟨?_, fun h => absurd h hempty⟩, fun content h => (by cases h), ?_⟩
    · rintro ⟨content, h⟩
      cases h
    · rintro failure h
      cases h
      exact ⟨_, _, rfl, hnodup, values.keys_nodup.filter _, hmissing, hunused⟩

end ElmSuite.Template
