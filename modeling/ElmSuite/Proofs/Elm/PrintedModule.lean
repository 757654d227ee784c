import ElmSuite.Proofs.Elm.CommentRemoval
import ElmSuite.Proofs.Elm.PrintedHeader

/-!
The exposed values of a module as it is printed: a header and top-level items, each of them at the
start of a line and with its further lines indented.  A line in which an item goes on is no place where
a value may be declared, so of the text of an item only the start counts.
-/

namespace ElmSuite.Elm

open Text

variable {c : Char} {code behind : List Char}

/-! ### Items -/

/-- A parameter of a function, with the white space in front of it. -/
structure Param where
  gap : List Char
  pattern : List Char
deriving DecidableEq, Repr

def Param.text (param : Param) : List Char :=
  param.gap ++ param.pattern

/-- What a module declares at its top level. -/
inductive Item
  /-- A value without parameters. -/
  | value (name : String) (gap body : List Char)
  /-- A function of some parameters. -/
  | function (name : String) (params : List Param) (gap body : List Char)
  /-- The type of a value or of a function. -/
  | signature (name : String) (gap type : List Char)
  /-- An import, a type, a type alias or a port, with what stands behind its first word. -/
  | keyword (word : String) (gap subject : List Char)
deriving DecidableEq, Repr

namespace Item

def text : Item → List Char
  | value name gap body => name.toList ++ (gap ++ '=' :: body)
  | function name params gap body => name.toList ++ (params.flatMap Param.text ++ (gap ++ '=' :: body))
  | signature name gap type => name.toList ++ (gap ++ ':' :: type)
  | keyword word gap subject => word.toList ++ (gap ++ subject)

/-- The value without parameters that an item declares. -/
def value? : Item → Option String
  | value name _ _ => some name
  | _ => none

def IsPrinted : Item → Prop
  | value name gap body =>
      isLowerName name.toList = true ∧ (∀ c ∈ gap, isBlank c = true) ∧ body.head? ≠ some '='
  | function name params _ _ =>
      isLowerName name.toList = true ∧ params ≠ [] ∧
        ∀ param ∈ params, IsGap param.gap ∧ StartsPlain param.pattern
  | signature name gap _ => isLowerName name.toList = true ∧ ∀ c ∈ gap, isBlank c = true
  | keyword word gap subject => word ∈ ["import", "type", "port"] ∧ IsGap gap ∧ StartsPlain subject

end Item

/-- Whether every line behind the first one is empty or starts with a space. -/
def isFolded : List Char → Bool
  | [] => true
  | c :: rest => (c != '\n' || rest.head?.all fun d => d == '\n' || d == ' ') && isFolded rest

theorem isWord_of_isLowerName {name : List Char} (h : isLowerName name = true) :
    ∀ d ∈ name, isWord d = true := by
  cases name with
  | nil => cases h
  | cons first name =>
      have hfirst := isNameChar_of_mem_isLowerName h first List.mem_cons_self
      rw [isLowerName, Bool.and_eq_true, List.all_eq_true] at h
      have hdot : first ≠ '.' := by
        rintro rfl
        exact absurd h.1 (by decide)
      rw [List.forall_mem_cons]
      exact ⟨by simpa [isNameChar, hdot] using hfirst, h.2⟩

/-- A word, white space and what follows them: a declaration if that is an equals sign. -/
theorem declared?_word {name gap : List Char} (hname : isLowerName name = true)
    (hgap : ∀ d ∈ gap, isBlank d = true) (hc : isBlank c = false)
    (hapart : gap ≠ [] ∨ isWord c = false) (rest : List Char) :
    declared? (name ++ (gap ++ c :: rest)) =
      if startsEquals (c :: rest) then some (String.ofList name) else none := by
  have hwords := isWord_of_isLowerName hname
  have hhead : ∀ d ∈ (gap ++ c :: rest).head?, isWord d = false := by
    cases gap with
    | nil => simpa using hapart.resolve_left (not_not_intro rfl)
    | cons first gap => simpa using not_isWord_of_isBlank (hgap first List.mem_cons_self)
  have htake : (name ++ (gap ++ c :: rest)).takeWhile isWord = name :=
    takeWhile_append_of_head hwords hhead
  have hdrop : ((name ++ (gap ++ c :: rest)).dropWhile isWord).dropWhile isBlank = c :: rest := by
    rw [dropWhile_append_of_head hwords hhead, List.dropWhile_append_of_pos hgap,
      List.dropWhile_cons_of_neg (by simp [hc])]
  rw [declared?_eq, htake, hdrop, hname, Bool.true_and]

theorem declared?_plain {name gap : List Char} (hname : isLowerName name = true) (hgap : IsGap gap)
    (hcode : StartsPlain code) (rest : List Char) :
    declared? (name ++ (gap ++ (code ++ rest))) = none := by
  obtain ⟨c, more, rfl, hc, hne⟩ := hcode
  have hstart : startsEquals (c :: (more ++ rest)) = false := by simp [startsEquals, hne]
  rw [List.cons_append, declared?_word hname hgap.blank hc (.inl hgap.nonempty), hstart]
  rfl

/-- The start of an item declares what the item does. -/
theorem Item.IsPrinted.declared? {item : Item} (h : item.IsPrinted) (hbehind : behind.head? ≠ some '=') :
    Elm.declared? (item.text ++ behind) = item.value? := by
  cases item with
  | value name gap body =>
      obtain ⟨hname, hgap, hbody⟩ := h
      have hhead : (body ++ behind).head? ≠ some '=' := by
        cases body with
        | nil => exact hbehind
        | cons d body => exact hbody
      have hstart : startsEquals ('=' :: (body ++ behind)) = true := by
        cases hmore : body ++ behind with
        | nil => rfl
        | cons d more =>
            rw [hmore] at hhead
            have hd : d ≠ '=' := fun heq => hhead (by rw [heq, List.head?_cons])
            simp [startsEquals, hd]
      rw [text, List.append_assoc, List.append_assoc, List.cons_append,
        declared?_word hname hgap (by decide) (.inr (by decide +kernel)), hstart, if_pos rfl,
        String.ofList_toList]
      rfl
  | function name params gap body =>
      obtain ⟨hname, hne, hparams⟩ := h
      obtain ⟨param, params, rfl⟩ := List.exists_cons_of_ne_nil hne
      obtain ⟨hgap, hpattern⟩ := hparams param List.mem_cons_self
      rw [text, List.flatMap_cons, Param.text, List.append_assoc, List.append_assoc, List.append_assoc,
        List.append_assoc, declared?_plain hname hgap hpattern]
      rfl
  | signature name gap type =>
      obtain ⟨hname, hgap⟩ := h
      rw [text, List.append_assoc, List.append_assoc, List.cons_append,
        declared?_word hname hgap (by decide) (.inr (by decide +kernel))]
      rfl
  | keyword word gap subject =>
      obtain ⟨hword, hgap, hsubject⟩ := h
      have hname : isLowerName word.toList = true := by
        have hwords : ∀ word ∈ ["import", "type", "port"], isLowerName word.toList = true := by
          decide +kernel
        exact hwords word hword
      rw [text, List.append_assoc, List.append_assoc, declared?_plain hname hgap hsubject]
      rfl

/-! ### The lines of an item -/

theorem declaredFrom_true (code : List Char) :
    declaredFrom true code = (declared? code).toList ++ declaredFrom false code := by
  cases code with
  | nil => rfl
  | cons c rest =>
      rw [declaredFrom_cons, declaredFrom_cons]
      rfl

theorem declared?_eq_none_of_head (h : ∀ d ∈ code.head?, isWord d = false) : declared? code = none := by
  have htake : code.takeWhile isWord = [] := by
    cases code with
    | nil => rfl
    | cons d code => simp [h d rfl]
  rw [declared?_eq, htake]
  rfl

/-- Nothing is declared between the start of a folded text and the line behind it. -/
theorem declaredFrom_folded (h : isFolded code = true) (hbehind : ∀ d ∈ behind.head?, d = '\n') :
    declaredFrom false (code ++ behind) = declaredFrom false behind := by
  induction code with
  | nil => rfl
  | cons c rest ih =>
      rw [isFolded, Bool.and_eq_true] at h
      have hrest := ih h.2
      rw [List.cons_append, declaredFrom_cons, if_neg (by simp), List.nil_append]
      by_cases hc : c = '\n'
      · subst hc
        have hhead : ∀ d ∈ (rest ++ behind).head?, isWord d = false := by
          have hline : isWord '\n' = false := by decide +kernel
          have hspace : isWord ' ' = false := by decide +kernel
          cases rest with
          | nil => exact fun d hd => hbehind d hd ▸ hline
          | cons e rest =>
              have he : e = '\n' ∨ e = ' ' := by simpa using h.1
              rcases he with rfl | rfl
              · simpa using hline
              · simpa using hspace
        rw [beq_self_eq_true, declaredFrom_true, declared?_eq_none_of_head hhead, hrest]
        rfl
      · rw [beq_eq_false_iff_ne.2 hc, hrest]

/-- The text of some items, each of them on lines of its own. -/
def itemsText (items : List Item) : List Char :=
  items.flatMap fun item => '\n' :: item.text

theorem head?_itemsText (items : List Item) : ∀ d ∈ (itemsText items).head?, d = '\n' := by
  cases items with
  | nil => simp [itemsText]
  | cons item items => simp [itemsText]

theorem declaredFrom_itemsText {items : List Item} (h : ∀ item ∈ items, item.IsPrinted)
    (hfolded : ∀ item ∈ items, isFolded item.text = true) :
    declaredFrom false (itemsText items) = items.filterMap Item.value? := by
  induction items with
  | nil => rfl
  | cons item items ih =>
      rw [List.forall_mem_cons] at h hfolded
      have hnext := head?_itemsText items
      have hequals : (itemsText items).head? ≠ some '=' := fun heq => absurd (hnext '=' heq) (by decide)
      have hcons : itemsText (item :: items) = '\n' :: (item.text ++ itemsText items) := by
        rw [itemsText, List.flatMap_cons]
        rfl
      rw [hcons, declaredFrom_cons, if_neg (by simp), List.nil_append, beq_self_eq_true,
        declaredFrom_true, h.1.declared? hequals, declaredFrom_folded hfolded.1 hnext,
        ih h.2 hfolded.2, List.filterMap_cons]
      cases item.value? <;> rfl

/-! ### The header -/

/-- The header starts with a word that is not declared. -/
theorem Header.IsSpaced.declared? {header : Header} (h : header.IsSpaced) (rest : List Char) :
    Elm.declared? (header.text ++ rest) = none := by
  unfold text
  split
  · rw [moduleText, List.append_assoc, List.append_assoc, List.append_assoc]
    exact declared?_plain (by decide +kernel) h.beforeName h.startsPlain_name _
  · next wide hport =>
    rw [List.append_assoc, List.append_assoc]
    have hmodule : StartsPlain header.moduleText := ⟨'m', _, rfl, by decide, by decide⟩
    exact declared?_plain (by decide +kernel) (h.port wide hport) hmodule _

/-! ### The whole module -/

/-- A text without comments and literals is left as it is. -/
theorem stripComments_eq_self (hmark : '"' ∉ code) (hquote : '\'' ∉ code)
    (hline : ¬ ['-', '-'] <:+: code) (hopen : ¬ ['{', '-'] <:+: code) : stripComments code = code := by
  rw [stripComments]
  induction code with
  | nil => rfl
  | cons c code ih =>
      rw [List.mem_cons, not_or] at hmark hquote
      have hcode : (Lexeme.code c).EndsBefore code :=
        ⟨fun heq => hmark.1 heq.symm, fun heq => hquote.1 heq.symm,
          fun hprefix => hopen hprefix.isInfix, fun hprefix => hline hprefix.isInfix⟩
      have htail : code <:+: c :: code := (List.suffix_cons c code).isInfix
      have hrest := ih hmark.2 hquote.2 (fun hin => hline (hin.trans htail))
        (fun hin => hopen (hin.trans htail))
      have hstep := stripFrom_spelling hcode
      rw [hrest] at hstep
      exact hstep

/-- A module: its header and its top-level items. -/
structure PrintedModule where
  header : Header
  items : List Item
deriving DecidableEq, Repr

namespace PrintedModule

def text (m : PrintedModule) : List Char :=
  m.header.text ++ itemsText m.items

/-- The values without parameters, in the order of their declarations. -/
def values (m : PrintedModule) : List String :=
  m.items.filterMap Item.value?

structure IsPrinted (m : PrintedModule) : Prop where
  header : m.header.IsPrinted
  items : ∀ item ∈ m.items, item.IsPrinted
  foldedHeader : isFolded m.header.text = true
  foldedItems : ∀ item ∈ m.items, isFolded item.text = true
  noMark : '"' ∉ m.text
  noQuote : '\'' ∉ m.text
  noLineComment : ¬ ['-', '-'] <:+: m.text
  noBlockComment : ¬ ['{', '-'] <:+: m.text

variable {m : PrintedModule}

theorem IsPrinted.isLowerName_of_mem_values (h : m.IsPrinted) {name : String} (hname : name ∈ m.values) :
    isLowerName name.toList = true := by
  obtain ⟨item, hitem, hvalue⟩ := List.mem_filterMap.1 hname
  have hprinted := h.items item hitem
  cases item with
  | value other gap body =>
      obtain rfl : other = name := Option.some.inj hvalue
      exact hprinted.1
  | _ => cases hvalue

theorem IsPrinted.declaredFrom (h : m.IsPrinted) : Elm.declaredFrom true m.text = m.values := by
  rw [text, declaredFrom_true, h.header.isSpaced.declared?,
    declaredFrom_folded h.foldedHeader (head?_itemsText m.items),
    declaredFrom_itemsText h.items h.foldedItems]
  rfl

/-- The exposed values that are found in a printed module are those that it declares without
parameters and exposes, each once, in the order of the first declarations. -/
theorem exposedValues_text (h : m.IsPrinted) :
    exposedValues m.text = m.values.eraseDups.filter m.header.listing.exposes := by
  have hcode : stripComments m.text = m.text :=
    stripComments_eq_self h.noMark h.noQuote h.noLineComment h.noBlockComment
  have hexposed : exposedNames m.text = exposedItems (listItems m.header.listing.inside) :=
    h.header.isSpaced.exposedNames h.header.listing.paired _
  rw [exposedValues, hcode, hexposed, h.declaredFrom]
  refine List.filter_congr fun name hname => ?_
  exact h.header.listing.allows_exposedItems (h.isLowerName_of_mem_values (List.mem_eraseDups.1 hname))

/-- A module with two declarations of one value, one that is not exposed, and a name that a comparison
and a nested definition stand behind. -/
def repeated : PrintedModule where
  header :=
    { port := some [' '], beforeName := [' '], name := "A.B".toList
      beforeExposing := "\n    ".toList, beforeList := []
      listing := .only [⟨[' '], ['b'], []⟩, ⟨[' '], "Msg(..)".toList, "\n    ".toList⟩, ⟨[' '], ['a'], [' ']⟩]
      ending := ['\n'] }
  items :=
    [ .keyword "import" [' '] "Html exposing (..)\n".toList
    , .signature "a" [' '] " Int".toList
    , .value "a" [' '] "\n    b == 1\n".toList
    , .function "f" [⟨[' '], ['x']⟩] [' '] " x == a".toList
    , .value "b" [] " let\n    c = 2 in c".toList
    , .keyword "type" [' '] "alias T = Int".toList
    , .value "hidden" [' '] " a".toList
    , .value "a" "\n  ".toList " 3".toList ]

theorem exposedValues_text_of_repeated :
    repeated.IsPrinted ∧ exposedValues repeated.text = ["a", "b"] := by
  have hname {c : Char} (hc : c ≠ '(' ∧ c ≠ ')' ∧ c ≠ ',') : Paired true [c] :=
    .char hc.1 hc.2.1 (fun _ => hc.2.2) .nil
  have hdots : Paired false ['.', '.'] :=
    .char (by decide) (by decide) (fun _ => by decide)
      (.char (by decide) (by decide) (fun _ => by decide) .nil)
  have hmsg : Paired true "Msg(..)".toList :=
    .char (by decide) (by decide) (fun _ => by decide) <|
      .char (by decide) (by decide) (fun _ => by decide) <|
        .char (by decide) (by decide) (fun _ => by decide) <|
          .group hdots .nil
  have hblank : ∀ c ∈ [' '], isBlank c = true := List.all_eq_true.1 (by decide)
  have hbreak : ∀ c ∈ "\n    ".toList, isBlank c = true := List.all_eq_true.1 (by decide)
  have hnone : ∀ c ∈ ([] : List Char), isBlank c = true := by simp
  have hspace : IsGap [' '] := ⟨by decide, hblank⟩
  have hheader : repeated.header.IsPrinted :=
    { port := by simpa [repeated] using hspace
      beforeName := hspace
      name := ⟨by decide, List.all_eq_true.1 (by decide +kernel)⟩
      beforeExposing := ⟨by decide, hbreak⟩
      beforeList := hnone
      listing := by
        simp only [repeated, Listing.IsPrinted, List.forall_mem_cons]
        exact ⟨⟨hblank, hnone, hname (by decide), by decide +kernel, by decide, by decide⟩,
          ⟨hblank, hbreak, hmsg, by decide +kernel, by decide, by decide⟩,
          ⟨hblank, hblank, hname (by decide), by decide +kernel, by decide, by decide⟩, by simp⟩
      ending := List.all_eq_true.1 (by decide) }
  have hitems : ∀ item ∈ repeated.items, item.IsPrinted := by
    simp only [repeated, List.forall_mem_cons]
    exact ⟨⟨by decide, hspace, 'H', _, rfl, by decide, by decide⟩, ⟨by decide +kernel, hblank⟩,
      ⟨by decide +kernel, hblank, by decide⟩,
      ⟨by decide +kernel, by decide, by simpa using ⟨hspace, 'x', _, rfl, by decide, by decide⟩⟩,
      ⟨by decide +kernel, hnone, by decide⟩,
      ⟨by decide, hspace, 'a', _, rfl, by decide, by decide⟩,
      ⟨by decide +kernel, hblank, by decide⟩,
      ⟨by decide +kernel, List.all_eq_true.1 (by decide), by decide⟩, by simp⟩
  have hprinted : repeated.IsPrinted :=
    ⟨hheader, hitems, by decide +kernel, by decide +kernel, by decide +kernel, by decide +kernel,
      by decide +kernel, by decide +kernel⟩
  have hvalues : repeated.values.eraseDups.filter repeated.header.listing.exposes = ["a", "b"] := by
    decide +kernel
  exact ⟨hprinted, (exposedValues_text hprinted).trans hvalues⟩

end PrintedModule

end ElmSuite.Elm
