import ElmSuite.Text.Digits
import ElmSuite.Text.Reading

/-!
The definitions of compiled code that matter to the patch: constructors of tests, the placeholder of
the check function, and a check function that is in place already.  Every one starts a line.
-/

namespace ElmSuite.Script

open ElmSuite.Text

/-- What follows `var` and white space. -/
def afterVar? (text : List Char) : Option (List Char) := do
  afterBlanks? (← after? "var".toList text)

/-- What follows an equals sign with white space around it. -/
def afterEquals? (text : List Char) : Option (List Char) := do
  return (← afterBlanksThen? ['='] text).dropWhile isBlank

/-- The start of the names of test constructors. -/
def variantLead : List Char :=
  "$elm_explorations$test$Test$Internal$".toList

/-- The constructors of libraries that name each one on its own. -/
def plainVariants : List (List Char) :=
  ["UnitTest".toList, "FuzzTest".toList, "Labeled".toList, "Skipped".toList, "Only".toList,
    "Batch".toList]

/-- The start of the constructor names of other libraries. -/
def markedVariant : List Char :=
  "ElmTestVariant__".toList

/-- Whether a word names a constructor of tests. -/
def isVariantWord (word : List Char) : Bool :=
  plainVariants.contains word ||
    (markedVariant.isPrefixOf word && markedVariant.length < word.length)

/-- What follows the word of a constructor of tests. -/
def afterVariantWord? (text : List Char) : Option (List Char) :=
  if isVariantWord (text.takeWhile isWord) then some (text.dropWhile isWord) else none

/-- What follows the call of a wrapper up to its argument. -/
def afterWrapper? (text : List Char) : Option (List Char) :=
  if (text.takeWhile isWord).isEmpty then none
  else do return (← after? ['('] (text.dropWhile isWord)).dropWhile isBlank

/-- A character of a parameter list. -/
def isParameterChar (c : Char) : Bool :=
  isWord c || c == ',' || c == ' '

/-- What follows the open brace of the record that a function returns at once. -/
def afterRecordBrace? (text : List Char) : Option (List Char) := do
  let parameters ← afterBlanksThen? ['('] (← after? "function".toList text)
  let body ← afterBlanksThen? ['{'] (← after? [')'] (parameters.dropWhile isParameterChar))
  afterBlanksThen? ['{'] (← after? "return".toList (body.dropWhile isBlank))

/-- What follows the open brace of the record of a constructor of tests. -/
def afterVariant? (text : List Char) : Option (List Char) := do
  let value ← afterEquals? (← afterVariantWord? (← after? variantLead (← afterVar? text)))
  match (afterWrapper? value).bind afterRecordBrace? with
  | some record => some record
  | none => afterRecordBrace? value

/-- The start of the definition of the check function. -/
def checkName : List Char :=
  "$author$project$Runner$check".toList

/-- The value of the check function as the compiler leaves it. -/
def placeholderName : List Char :=
  "$author$project$Runner$checkHelperReplaceMe___".toList

/-- What follows the name of the check function in its definition. -/
def afterCheckName? (text : List Char) : Option (List Char) := do
  after? checkName (← afterVar? text)

/-- The rest of a text, if it starts at the end of a line. -/
def atLineEnd? : List Char → Option (List Char)
  | [] => some []
  | c :: rest => if c = '\n' then some (c :: rest) else none

/-- What follows the placeholder definition, up to the end of its line; a semicolon belongs to
it. -/
def afterPlaceholder? (text : List Char) : Option (List Char) := do
  let value ← after? placeholderName (← afterEquals? text)
  match value with
  | ';' :: rest => atLineEnd? rest
  | rest => atLineEnd? rest

/-- Whether a text holds another one that starts in its first line. -/
def lineMentions (word : List Char) : List Char → Bool
  | [] => word.isEmpty
  | c :: rest => word.isPrefixOf (c :: rest) || (c != '\n' && lineMentions word rest)

/-- Whether a text starts with a check function that looks for a field. -/
def isPatchedCheck (field : List Char) (text : List Char) : Bool :=
  let value? : Option (List Char) := do
    let value ← after? "value".toList (← afterEquals? (← afterCheckName? text))
    afterBlanksThen? ['=', '>'] value
  match value? with
  | some value => lineMentions field value
  | none => false

theorem length_of_afterVar? {text rest : List Char} (h : afterVar? text = some rest) :
    rest.length < text.length := by
  simp only [afterVar?, Option.bind_eq_bind, Option.bind_eq_some_iff] at h
  obtain ⟨a, ha, hr⟩ := h
  have := length_of_after? ha
  have := length_of_afterBlanks? hr
  omega

theorem length_of_afterEquals? {text rest : List Char} (h : afterEquals? text = some rest) :
    rest.length ≤ text.length := by
  simp only [afterEquals?, Option.bind_eq_bind, Option.bind_eq_some_iff, Option.pure_def,
    Option.some.injEq] at h
  obtain ⟨a, ha, rfl⟩ := h
  have := length_of_afterBlanksThen? ha
  have := length_dropWhile_le isBlank a
  omega

theorem length_of_afterVariantWord? {text rest : List Char}
    (h : afterVariantWord? text = some rest) : rest.length ≤ text.length := by
  unfold afterVariantWord? at h
  split at h
  · simp only [Option.some.injEq] at h
    exact h ▸ length_dropWhile_le isWord text
  · cases h

theorem length_of_afterWrapper? {text rest : List Char} (h : afterWrapper? text = some rest) :
    rest.length ≤ text.length := by
  unfold afterWrapper? at h
  split at h
  · cases h
  · simp only [Option.bind_eq_bind, Option.bind_eq_some_iff, Option.pure_def,
      Option.some.injEq] at h
    obtain ⟨a, ha, rfl⟩ := h
    have := length_of_after? ha
    have := length_dropWhile_le isBlank a
    have := length_dropWhile_le isWord text
    omega

theorem length_of_afterRecordBrace? {text rest : List Char}
    (h : afterRecordBrace? text = some rest) : rest.length ≤ text.length := by
  simp only [afterRecordBrace?, Option.bind_eq_bind, Option.bind_eq_some_iff] at h
  obtain ⟨a, ha, b, hb, c, hc, d, hd, e, he, hr⟩ := h
  have := length_of_after? ha
  have := length_of_afterBlanksThen? hb
  have := length_of_after? hc
  have := length_of_afterBlanksThen? hd
  have := length_of_after? he
  have := length_of_afterBlanksThen? hr
  have := length_dropWhile_le isParameterChar b
  have := length_dropWhile_le isBlank d
  omega

theorem length_of_afterVariant? {text rest : List Char} (h : afterVariant? text = some rest) :
    rest.length < text.length := by
  simp only [afterVariant?, Option.bind_eq_bind, Option.bind_eq_some_iff] at h
  obtain ⟨a, ha, b, hb, c, hc, d, hd, hr⟩ := h
  have := length_of_afterVar? ha
  have := length_of_after? hb
  have := length_of_afterVariantWord? hc
  have := length_of_afterEquals? hd
  split at hr
  · next record hrecord =>
    simp only [Option.some.injEq] at hr
    obtain ⟨inner, hinner, hbody⟩ := Option.bind_eq_some_iff.1 hrecord
    have := length_of_afterWrapper? hinner
    have := length_of_afterRecordBrace? hbody
    subst hr
    omega
  · have := length_of_afterRecordBrace? hr
    omega

end ElmSuite.Script
