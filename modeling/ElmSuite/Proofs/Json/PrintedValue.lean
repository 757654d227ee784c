import ElmSuite.Proofs.Json.WrittenString
import ElmSuite.Proofs.OrderedMap

/-!
Printed values read back.  A value that is made of texts, lists and objects is read from its printed
form as itself, except that what is no text is lost from its strings and that names which are the
same without it become one member.
-/

namespace ElmSuite.Json

/-- A value made of texts, lists and objects, with at most `depth` lists and objects inside each
other. -/
def IsTextual : Nat → Json → Prop
  | _, .string _ => True
  | depth + 1, .list items => ∀ item ∈ items, IsTextual depth item
  | depth + 1, .object members => ∀ member ∈ members, IsTextual depth member.2
  | _, _ => False

mutual

/-- What is read back from the printed form of a value made of texts, lists and objects. -/
def reread : Json → Json
  | .string codes => .ofText codes.lossy
  | .list items => .list (rereadItems items)
  | .object members => .object (rereadMembers [] members)
  | value => value

/-- What is read back of the items of a list. -/
def rereadItems : List Json → List Json
  | [] => []
  | item :: rest => item.reread :: rereadItems rest

/-- What is read back of the members of an object, after the members `found`. -/
def rereadMembers (found : List (Codes × Json)) : List (Codes × Json) → List (Codes × Json)
  | [] => found
  | (name, value) :: rest => rereadMembers (putPair (.ofString name.lossy) value.reread found) rest

end

/-! ### Lines -/

theorem skipSpace_cons {c : Char} (h : isSpace c = false) (text : List Char) :
    skipSpace (c :: text) = c :: text := by
  rw [skipSpace, List.dropWhile_cons_of_neg (by simp [h])]

theorem skipSpace_lineStart (level : Nat) (text : List Char) :
    skipSpace (lineStart level ++ text) = skipSpace text := by
  have hspaces (count : Nat) : (List.replicate count ' ' ++ text).dropWhile isSpace =
      text.dropWhile isSpace := by
    induction count with
    | zero => rfl
    | succ count ih => exact ih
  exact hspaces (4 * level)

/-- Pieces on lines of their own, each after a comma. -/
def furtherLines (level : Nat) (pieces : List (List Char)) : List Char :=
  pieces.flatMap fun piece => ',' :: (lineStart level ++ piece)

theorem flatten_intersperse (first : List Char) (others : List (List Char)) :
    (List.intersperse [','] (first :: others)).flatten = first ++ others.flatMap (',' :: ·) := by
  induction others generalizing first with
  | nil => simp
  | cons second others ih =>
      rw [List.intersperse_cons_cons, List.flatten_cons, List.flatten_cons, ih, List.flatMap_cons]
      simp

theorem bracketed_cons (opening closing : Char) (level : Nat) (first : List Char)
    (others : List (List Char)) :
    bracketed opening closing level (first :: others) =
      opening :: (lineStart (level + 1) ++ (first ++ (furtherLines (level + 1) others ++
        (lineStart level ++ [closing])))) := by
  rw [bracketed, if_neg (by simp)]
  dsimp only
  rw [List.map_cons, flatten_intersperse, List.flatMap_map, furtherLines]
  simp only [List.append_assoc]

/-- Where a written value starts. -/
theorem exists_written_eq_cons {depth : Nat} {value : Json} (h : IsTextual depth value)
    (level : Nat) : ∃ c more, value.written level = c :: more ∧ (c = '"' ∨ c = '[' ∨ c = '\x7b') := by
  have hbracketed (opening closing : Char) (pieces : List (List Char)) :
      ∃ more, bracketed opening closing level pieces = opening :: more := by
    unfold bracketed
    split <;> exact ⟨_, rfl⟩
  cases value with
  | string codes => exact ⟨'"', _, by rw [written, writtenString], .inl rfl⟩
  | list items =>
      obtain ⟨more, hmore⟩ := hbracketed '[' ']' (writtenItems level items)
      exact ⟨'[', more, by rw [written, hmore], .inr (.inl rfl)⟩
  | object members =>
      obtain ⟨more, hmore⟩ := hbracketed '\x7b' '\x7d' (writtenMembers level members)
      exact ⟨'\x7b', more, by rw [written, hmore], .inr (.inr rfl)⟩
  | _ => cases depth <;> exact h.elim

/-- A written value that starts a text is what follows white space. -/
theorem skipSpace_written {depth : Nat} {value : Json} (h : IsTextual depth value) (level : Nat)
    (rest : List Char) : skipSpace (value.written level ++ rest) = value.written level ++ rest := by
  obtain ⟨c, more, hwritten, hc⟩ := exists_written_eq_cons h level
  rw [hwritten, List.cons_append]
  apply skipSpace_cons
  rcases hc with rfl | rfl | rfl <;> decide

/-! ### Reading -/

/-- The written form of a value is read as some value, whatever follows it. -/
def ReadsAs (depth level : Nat) (value read : Json) : Prop :=
  ∀ fuel rest, (value.written level).length ≤ fuel →
    readValue fuel depth (value.written level ++ rest) = .ok (read, rest)

theorem readsAs_string (depth level : Nat) (codes : Codes) :
    ReadsAs depth level (.string codes) (.ofText codes.lossy) := by
  intro fuel rest hfuel
  rw [written, writtenString, List.length_cons] at hfuel
  obtain ⟨fuel, rfl⟩ : ∃ more, fuel = more + 1 := ⟨fuel - 1, by omega⟩
  rw [written, writtenString, List.cons_append, List.append_assoc, List.singleton_append, readValue,
    readString_written]
  rfl

variable {depth level fuel : Nat}

section Steps

variable {text first afterName beforeValue afterValue rest : List Char} {value : Json}

theorem readValue_list (hfirst : skipSpace text = first) (hnonempty : first.head? ≠ some ']') :
    readValue (fuel + 1) (depth + 1) ('[' :: text) = readItems fuel depth [] first := by
  simp only [readValue, hfirst, Nat.succ_ne_zero, if_false, Nat.add_sub_cancel]
  split
  · simp at hnonempty
  · rfl

theorem readValue_object (hfirst : skipSpace text = first)
    (hnonempty : first.head? ≠ some '\x7d') :
    readValue (fuel + 1) (depth + 1) ('\x7b' :: text) = readMembers fuel depth [] first := by
  simp only [readValue, hfirst, Nat.succ_ne_zero, if_false, Nat.add_sub_cancel]
  split
  · simp at hnonempty
  · rfl

theorem readItems_last (hvalue : readValue fuel depth text = .ok (value, afterValue))
    (hrest : skipSpace afterValue = ']' :: rest) (found : List Json) :
    readItems (fuel + 1) depth found text = .ok (.list (value :: found).reverse, rest) := by
  simp only [readItems, hvalue, hrest]

theorem readItems_next (hvalue : readValue fuel depth text = .ok (value, afterValue))
    (hrest : skipSpace afterValue = ',' :: rest) (found : List Json) :
    readItems (fuel + 1) depth found text =
      readItems fuel depth (value :: found) (skipSpace rest) := by
  simp only [readItems, hvalue, hrest]

variable {name : Codes} (hname : readString ('"' :: text).length text = .ok (name, afterName))
  (hcolon : skipSpace afterName = ':' :: beforeValue)
  (hvalue : readValue fuel depth (skipSpace beforeValue) = .ok (value, afterValue))
include hname hcolon hvalue

theorem readMembers_last (hrest : skipSpace afterValue = '\x7d' :: rest)
    (found : List (Codes × Json)) :
    readMembers (fuel + 1) depth found ('"' :: text) =
      .ok (.object (putPair name value found), rest) := by
  simp only [readMembers, hname, hcolon, hvalue, hrest]

theorem readMembers_next (hrest : skipSpace afterValue = ',' :: rest)
    (found : List (Codes × Json)) :
    readMembers (fuel + 1) depth found ('"' :: text) =
      readMembers fuel depth (putPair name value found) (skipSpace rest) := by
  simp only [readMembers, hname, hcolon, hvalue, hrest]

end Steps

/-- The rest of a list or object after one of its pieces. -/
def linesFrom (level : Nat) (closing : Char) (pieces : List (List Char)) : List Char :=
  furtherLines (level + 1) pieces ++ (lineStart level ++ [closing])

theorem skipSpace_linesFrom_nil {closing : Char} (h : isSpace closing = false) (level : Nat)
    (rest : List Char) : skipSpace (linesFrom level closing [] ++ rest) = closing :: rest := by
  rw [linesFrom, furtherLines, List.flatMap_nil, List.nil_append, List.append_assoc,
    skipSpace_lineStart, List.singleton_append, skipSpace_cons h]

theorem skipSpace_linesFrom_cons (level : Nat) (closing : Char) (piece : List Char)
    (pieces : List (List Char)) (rest : List Char) :
    skipSpace (linesFrom level closing (piece :: pieces) ++ rest) =
      ',' :: (lineStart (level + 1) ++ (piece ++ (linesFrom level closing pieces ++ rest))) := by
  rw [linesFrom, furtherLines, List.flatMap_cons, List.cons_append, List.cons_append,
    List.cons_append, skipSpace_cons (by decide), linesFrom, furtherLines]
  simp only [List.append_assoc]

theorem length_linesFrom_nil (level : Nat) (closing : Char) :
    0 < (linesFrom level closing []).length := by
  rw [linesFrom, List.length_append, List.length_append, List.length_singleton]
  omega

theorem length_linesFrom_cons (level : Nat) (closing : Char) (piece : List Char)
    (pieces : List (List Char)) :
    piece.length + (linesFrom level closing pieces).length <
      (linesFrom level closing (piece :: pieces)).length := by
  simp only [linesFrom, furtherLines, List.flatMap_cons, List.length_append, List.length_cons]
  omega

/-- The items of a list are read up to its closing bracket. -/
theorem readItems_written {item : Json} {items : List Json}
    (htextual : ∀ other ∈ item :: items, IsTextual depth other)
    (hread : ∀ other ∈ item :: items, ReadsAs depth (level + 1) other other.reread)
    (hfuel : (item.written (level + 1)).length +
      (linesFrom level ']' (writtenItems level items)).length ≤ fuel)
    (found : List Json) (rest : List Char) :
    readItems fuel depth found
        (item.written (level + 1) ++ (linesFrom level ']' (writtenItems level items) ++ rest)) =
      .ok (.list (found.reverse ++ rereadItems (item :: items)), rest) := by
  induction items generalizing item fuel found with
  | nil =>
      have hpositive := length_linesFrom_nil level ']'
      rw [writtenItems] at hfuel ⊢
      obtain ⟨fuel, rfl⟩ : ∃ more, fuel = more + 1 := ⟨fuel - 1, by omega⟩
      have hitem := hread item List.mem_cons_self fuel (linesFrom level ']' [] ++ rest) (by omega)
      rw [readItems_last hitem (skipSpace_linesFrom_nil (by decide) level rest)]
      simp [rereadItems]
  | cons next items ih =>
      rw [writtenItems] at hfuel ⊢
      have hshorter := length_linesFrom_cons level ']' (next.written (level + 1))
        (writtenItems level items)
      obtain ⟨fuel, rfl⟩ : ∃ more, fuel = more + 1 := ⟨fuel - 1, by omega⟩
      rw [List.forall_mem_cons] at htextual hread
      have hitem := hread.1 fuel (linesFrom level ']'
        (next.written (level + 1) :: writtenItems level items) ++ rest) (by omega)
      rw [readItems_next hitem (skipSpace_linesFrom_cons level _ _ _ rest), skipSpace_lineStart,
        skipSpace_written (htextual.2 next List.mem_cons_self),
        ih htextual.2 hread.2 (by omega) (item.reread :: found)]
      simp [rereadItems]

/-- The written form of a member. -/
def writtenMember (level : Nat) (name : Codes) (value : Json) : List Char :=
  writtenString name.lossy.toList ++ ':' :: ' ' :: value.written level

theorem length_writtenMember (level : Nat) (name : Codes) (value : Json) :
    (value.written level).length + 4 ≤ (writtenMember level name value).length := by
  simp only [writtenMember, writtenString, List.length_append, List.length_cons]
  omega

/-- A member is read up to its colon. -/
theorem writtenMember_append (level : Nat) (name : Codes) (value : Json) (rest : List Char) :
    ∃ text, writtenMember level name value ++ rest = '"' :: text ∧ ∀ opened,
      readString opened text =
        .ok (.ofString name.lossy, ':' :: ' ' :: (value.written level ++ rest)) := by
  refine ⟨_, rfl, fun opened => ?_⟩
  simp only [List.append_eq, List.append_assoc, List.cons_append, List.nil_append]
  exact readString_written opened name.lossy.toList _

theorem skipSpace_writtenMember (level : Nat) (name : Codes) (value : Json) (rest : List Char) :
    skipSpace (writtenMember level name value ++ rest) = writtenMember level name value ++ rest :=
  skipSpace_cons (by decide) _

/-- The members of an object are read up to its closing brace. -/
theorem readMembers_written {name : Codes} {value : Json} {members : List (Codes × Json)}
    (htextual : ∀ member ∈ (name, value) :: members, IsTextual depth member.2)
    (hread : ∀ member ∈ (name, value) :: members,
      ReadsAs depth (level + 1) member.2 member.2.reread)
    (hfuel : (writtenMember (level + 1) name value).length +
      (linesFrom level '\x7d' (writtenMembers level members)).length ≤ fuel)
    (found : List (Codes × Json)) (rest : List Char) :
    readMembers fuel depth found (writtenMember (level + 1) name value ++
        (linesFrom level '\x7d' (writtenMembers level members) ++ rest)) =
      .ok (.object (rereadMembers found ((name, value) :: members)), rest) := by
  induction members generalizing name value fuel found with
  | nil =>
      have hpositive := length_writtenMember (level + 1) name value
      rw [writtenMembers] at hfuel ⊢
      obtain ⟨fuel, rfl⟩ : ∃ more, fuel = more + 1 := ⟨fuel - 1, by omega⟩
      obtain ⟨text, htext, hname⟩ := writtenMember_append (level + 1) name value
        (linesFrom level '\x7d' [] ++ rest)
      have hvalue := hread _ List.mem_cons_self fuel (linesFrom level '\x7d' [] ++ rest)
        (show (value.written (level + 1)).length ≤ fuel by omega)
      rw [← skipSpace_written (htextual _ List.mem_cons_self)] at hvalue
      rw [htext, readMembers_last (hname _) (skipSpace_cons (by decide) _) hvalue
        (skipSpace_linesFrom_nil (by decide) level rest), rereadMembers, rereadMembers]
  | cons next members ih =>
      obtain ⟨name', value'⟩ := next
      rw [writtenMembers, ← writtenMember] at hfuel ⊢
      have hpositive := length_writtenMember (level + 1) name value
      have hshorter := length_linesFrom_cons level '\x7d' (writtenMember (level + 1) name' value')
        (writtenMembers level members)
      obtain ⟨fuel, rfl⟩ : ∃ more, fuel = more + 1 := ⟨fuel - 1, by omega⟩
      rw [List.forall_mem_cons] at htextual hread
      obtain ⟨text, htext, hname⟩ := writtenMember_append (level + 1) name value
        (linesFrom level '\x7d' (writtenMember (level + 1) name' value' ::
          writtenMembers level members) ++ rest)
      have hvalue := hread.1 fuel (linesFrom level '\x7d' (writtenMember (level + 1) name' value' ::
        writtenMembers level members) ++ rest)
        (show (value.written (level + 1)).length ≤ fuel by omega)
      rw [← skipSpace_written htextual.1] at hvalue
      rw [htext, readMembers_next (hname _) (skipSpace_cons (by decide) _) hvalue
        (skipSpace_linesFrom_cons level _ _ _ rest), skipSpace_lineStart]
      rw [skipSpace_writtenMember]
      exact ih htextual.2 hread.2 (by omega) _

theorem head?_written_append {value : Json} (h : IsTextual depth value) {closing : Char}
    (hclosing : closing = ']' ∨ closing = '\x7d') (level : Nat) (rest : List Char) :
    (value.written level ++ rest).head? ≠ some closing := by
  obtain ⟨c, more, hwritten, hc⟩ := exists_written_eq_cons h level
  rw [hwritten, List.cons_append, List.head?_cons, ne_eq, Option.some.injEq]
  rcases hc with rfl | rfl | rfl <;> rcases hclosing with rfl | rfl <;> decide

section Deeper

variable (hread : ∀ {value : Json}, IsTextual depth value →
  ReadsAs depth (level + 1) value value.reread)
include hread

theorem readsAs_list {items : List Json} (h : IsTextual (depth + 1) (.list items)) :
    ReadsAs (depth + 1) level (.list items) (Json.list items).reread := by
  rw [IsTextual] at h
  intro fuel rest hfuel
  rw [written] at hfuel ⊢
  cases items with
  | nil =>
      change 2 ≤ fuel at hfuel
      obtain ⟨fuel, rfl⟩ : ∃ more, fuel = more + 1 := ⟨fuel - 1, by omega⟩
      rfl
  | cons item items =>
      rw [writtenItems, bracketed_cons, ← linesFrom] at hfuel ⊢
      simp only [List.length_cons, List.length_append] at hfuel
      obtain ⟨fuel, rfl⟩ : ∃ more, fuel = more + 1 := ⟨fuel - 1, by omega⟩
      have hitem := h item List.mem_cons_self
      rw [List.cons_append, List.append_assoc, List.append_assoc,
        readValue_list ((skipSpace_lineStart _ _).trans (skipSpace_written hitem _ _))
          (head?_written_append hitem (.inl rfl) _ _),
        readItems_written h (fun other hother => hread (h other hother)) (by omega), reread,
        List.reverse_nil, List.nil_append]

theorem readsAs_object {members : List (Codes × Json)}
    (h : IsTextual (depth + 1) (.object members)) :
    ReadsAs (depth + 1) level (.object members) (Json.object members).reread := by
  rw [IsTextual] at h
  intro fuel rest hfuel
  rw [written] at hfuel ⊢
  cases members with
  | nil =>
      change 2 ≤ fuel at hfuel
      obtain ⟨fuel, rfl⟩ : ∃ more, fuel = more + 1 := ⟨fuel - 1, by omega⟩
      rfl
  | cons member members =>
      obtain ⟨name, value⟩ := member
      rw [writtenMembers, bracketed_cons, ← linesFrom, ← writtenMember] at hfuel ⊢
      simp only [List.length_cons, List.length_append] at hfuel
      obtain ⟨fuel, rfl⟩ : ∃ more, fuel = more + 1 := ⟨fuel - 1, by omega⟩
      rw [List.cons_append, List.append_assoc, List.append_assoc,
        readValue_object ((skipSpace_lineStart _ _).trans (skipSpace_writtenMember _ _ _ _))
          (by simp [writtenMember, writtenString]),
        readMembers_written h (fun other hother => hread (h other hother)) (by omega), reread]

end Deeper

/-- The written form of a textual value is read as what is read back of the value. -/
theorem readsAs_reread {value : Json} (h : IsTextual depth value) (level : Nat) :
    ReadsAs depth level value value.reread := by
  -- Every list and every object takes one of the levels that are left for what is in it.
  induction depth generalizing value level with
  | zero =>
      cases value with
      | string codes => exact readsAs_string 0 level codes
      | _ => exact h.elim
  | succ depth ih =>
      cases value with
      | string codes => exact readsAs_string (depth + 1) level codes
      | list items => exact readsAs_list (fun hitem => ih hitem (level + 1)) h
      | object members => exact readsAs_object (fun hmember => ih hmember (level + 1)) h
      | _ => exact h.elim

/-- The printed form of a value is read as what is read back of the value. -/
theorem readText_print {value : Json} (h : IsTextual depthLimit value) :
    readText value.print = .ok value.reread := by
  obtain ⟨c, more, hwritten, hc⟩ := exists_written_eq_cons h 0
  have hread := readsAs_reread h 0 (2 * value.print.length + 2) ['\n']
    (by simp only [print, List.length_append]; omega)
  have hspace := skipSpace_written h 0 ['\n']
  unfold readText
  split
  · next heq =>
    rw [print, hwritten, List.cons_append, List.cons.injEq] at heq
    rcases hc with rfl | rfl | rfl <;> exact absurd heq.1 (by decide)
  · rw [print, hspace, ← print]
    rw [← print] at hread
    rw [hread]
    rfl

/-! ### Line ends -/

theorem not_mem_bracketed {opening closing : Char} (hopening : opening ≠ '\r')
    (hclosing : closing ≠ '\r') (level : Nat) {pieces : List (List Char)}
    (h : ∀ piece ∈ pieces, '\r' ∉ piece) : '\r' ∉ bracketed opening closing level pieces := by
  have hstart (level : Nat) : '\r' ∉ lineStart level := by simp [lineStart]
  cases pieces with
  | nil =>
      simp only [bracketed, List.isEmpty_nil, if_true, List.mem_cons, List.not_mem_nil, or_false,
        not_or]
      exact ⟨hopening.symm, hclosing.symm⟩
  | cons first others =>
      rw [List.forall_mem_cons] at h
      simp only [bracketed_cons, furtherLines, List.mem_cons, List.mem_append, List.mem_flatMap,
        List.not_mem_nil, or_false, not_or, not_exists, not_and]
      refine ⟨hopening.symm, hstart _, h.1, fun piece hpiece => ?_, hstart _, hclosing.symm⟩
      exact ⟨by decide, hstart _, h.2 piece hpiece⟩

theorem writtenItems_eq_map (level : Nat) (items : List Json) :
    writtenItems level items = items.map fun item => item.written (level + 1) := by
  induction items with
  | nil => rfl
  | cons item items ih => rw [writtenItems, ih, List.map_cons]

theorem writtenMembers_eq_map (level : Nat) (members : List (Codes × Json)) :
    writtenMembers level members =
      members.map fun member => writtenMember (level + 1) member.1 member.2 := by
  induction members with
  | nil => rfl
  | cons member members ih => rw [writtenMembers, ih, List.map_cons, writtenMember]

theorem not_mem_writtenString (text : List Char) : '\r' ∉ writtenString text :=
  fun h => absurd (le_of_mem_writtenString h) (by decide)

/-- No carriage return stands in the written form of a textual value. -/
theorem not_mem_written {value : Json} (h : IsTextual depth value) (level : Nat) :
    '\r' ∉ value.written level := by
  induction depth generalizing value level with
  | zero =>
      cases value with
      | string codes => exact not_mem_writtenString _
      | _ => exact h.elim
  | succ depth ih =>
      cases value with
      | string codes => exact not_mem_writtenString _
      | list items =>
          rw [written]
          apply not_mem_bracketed (by decide) (by decide)
          rw [writtenItems_eq_map, List.forall_mem_map]
          exact fun item hitem => ih (h item hitem) (level + 1)
      | object members =>
          rw [written]
          apply not_mem_bracketed (by decide) (by decide)
          rw [writtenMembers_eq_map, List.forall_mem_map]
          intro member hmember
          have hvalue := ih (h member hmember) (level + 1)
          simp only [writtenMember, List.mem_append, List.mem_cons, not_or]
          exact ⟨not_mem_writtenString _, by decide, by decide, hvalue⟩
      | _ => exact h.elim

theorem not_mem_print {value : Json} (h : IsTextual depth value) : '\r' ∉ value.print := by
  rw [print, List.mem_append, not_or]
  exact ⟨not_mem_written h 0, by decide⟩

/-! ### Values that are read back as they are -/

theorem rereadItems_eq_self {items : List Json} (h : ∀ item ∈ items, item.reread = item) :
    rereadItems items = items := by
  induction items with
  | nil => rfl
  | cons item items ih =>
      rw [List.forall_mem_cons] at h
      rw [rereadItems, h.1, ih h.2]

/-- Members whose names differ are read back as they are if their names and values are. -/
theorem rereadMembers_eq_append {members : List (Codes × Json)}
    (hnames : ∀ member ∈ members, Codes.ofString member.1.lossy = member.1)
    (hvalues : ∀ member ∈ members, member.2.reread = member.2) {found : List (Codes × Json)}
    (hnodup : ((found ++ members).map Prod.fst).Nodup) :
    rereadMembers found members = found ++ members := by
  induction members generalizing found with
  | nil => rw [rereadMembers, List.append_nil]
  | cons member members ih =>
      obtain ⟨name, value⟩ := member
      rw [List.forall_mem_cons] at hnames hvalues
      have hfresh : name ∉ found.map Prod.fst := by
        rw [List.map_append, List.nodup_append] at hnodup
        exact fun hmem => hnodup.2.2 name hmem name (by simp) rfl
      rw [rereadMembers, hnames.1, hvalues.1, putPair_of_not_mem hfresh,
        ih hnames.2 hvalues.2 (by rwa [List.append_assoc]), List.append_assoc]
      rfl

end ElmSuite.Json
