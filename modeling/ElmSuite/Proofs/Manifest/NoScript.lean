import ElmSuite.Manifest.Printer
import ElmSuite.Proofs.Manifest.Printed
import ElmSuite.Script.Patch

/-!
A printed manifest is no compiled code.  Every definition that the patch looks for starts a line with
`var`, and no line of printed JSON starts with that letter.
-/

namespace ElmSuite

namespace Script

/-- No line of a text starts with the first letter of `var`. -/
def hasNoVar : Bool → List Char → Bool
  | _, [] => true
  | atLineStart, c :: rest => !(atLineStart && c == 'v') && hasNoVar (c == '\n') rest

theorem hasNoVar_true {text : List Char} :
    hasNoVar true text = true ↔ text.head? ≠ some 'v' ∧ hasNoVar false text = true := by
  cases text <;> simp [hasNoVar]

theorem hasNoVar_append {front : List Char} (h : '\n' ∉ front) (rest : List Char) :
    hasNoVar false (front ++ rest) = hasNoVar false rest := by
  induction front with
  | nil => rfl
  | cons c front ih =>
      rw [List.mem_cons, not_or] at h
      have hc : (c == '\n') = false := beq_false_of_ne (Ne.symm h.1)
      rw [List.cons_append, hasNoVar, hc, ih h.2]
      rfl

theorem head?_of_afterVar? {text rest : List Char} (h : afterVar? text = some rest) :
    text.head? = some 'v' := by
  simp only [afterVar?, Option.bind_eq_bind, Option.bind_eq_some_iff] at h
  obtain ⟨after, hafter, -⟩ := h
  unfold Text.after? at hafter
  split at hafter
  · next hlead =>
    obtain ⟨more, rfl⟩ := List.isPrefixOf_iff_prefix.1 hlead
    rfl
  · cases hafter

theorem record?_eq_none {atLineStart : Bool} {text : List Char}
    (h : hasNoVar atLineStart text = true) : record? atLineStart text = none := by
  unfold record?
  cases atLineStart with
  | false => rfl
  | true =>
      rw [if_pos rfl]
      cases hvariant : afterVariant? text with
      | none => rfl
      | some record =>
          simp only [afterVariant?, Option.bind_eq_bind, Option.bind_eq_some_iff] at hvariant
          obtain ⟨after, hafter, -⟩ := hvariant
          exact absurd (head?_of_afterVar? hafter) (hasNoVar_true.1 h).1

/-- A text without such a line has no constructors of tests. -/
theorem pieces_of_hasNoVar (tag : IdentityTag) {atLineStart : Bool} {text : List Char}
    (h : hasNoVar atLineStart text = true) : pieces tag atLineStart text = text.map .char := by
  induction text generalizing atLineStart with
  | nil => rw [pieces, List.map_nil]
  | cons c rest ih =>
      have hrecord := record?_eq_none h
      rw [hasNoVar, Bool.and_eq_true] at h
      rw [pieces]
      split
      · next record heq =>
        rw [hrecord] at heq
        cases heq
      · rw [ih h.2, List.map_cons]

theorem patch_of_hasNoVar (tag : IdentityTag) {text : List Char} (h : hasNoVar true text = true) :
    patch tag text = .error (.patternNotFound "the Test variant definitions") := by
  have hcount : constructorCount tag text = 0 := by
    rw [constructorCount, pieces_of_hasNoVar tag h, List.countP_map, List.countP_eq_zero]
    simp [Piece.isConstructor]
  rw [patch, tagConstructors, if_pos hcount]
  rfl

end Script

namespace Json

open Script

variable {rest : List Char}

theorem hasNoVar_lineStart (level : Nat) (hhead : rest.head? ≠ some 'v')
    (h : hasNoVar false rest = true) : hasNoVar false (lineStart level ++ rest) = true := by
  have hspaces : '\n' ∉ List.replicate (4 * level) ' ' := by simp
  rw [lineStart, List.cons_append, hasNoVar]
  simp only [Bool.false_and, Bool.not_false, Bool.true_and, beq_self_eq_true]
  rw [hasNoVar_true]
  refine ⟨?_, (hasNoVar_append hspaces rest).trans h⟩
  cases 4 * level with
  | zero => exact hhead
  | succ count => simp [List.replicate_succ]

/-- A piece that starts no line with the letter, wherever it is put. -/
def StartsNoVar (piece : List Char) : Prop :=
  (∃ c more, piece = c :: more ∧ c ≠ 'v') ∧
    ∀ rest, hasNoVar false rest = true → hasNoVar false (piece ++ rest) = true

theorem hasNoVar_cons {c : Char} (hc : c ≠ '\n') : hasNoVar false (c :: rest) = hasNoVar false rest :=
  hasNoVar_append (fun hmem => hc (List.mem_singleton.1 hmem).symm) rest

theorem StartsNoVar.line {piece : List Char} (h : StartsNoVar piece) (level : Nat)
    (hrest : hasNoVar false rest = true) :
    hasNoVar false (lineStart level ++ (piece ++ rest)) = true := by
  obtain ⟨⟨c, more, rfl, hc⟩, hkeep⟩ := h
  exact hasNoVar_lineStart level (by simpa using hc) (hkeep rest hrest)

theorem hasNoVar_furtherLines {level : Nat} {pieces : List (List Char)}
    (h : ∀ piece ∈ pieces, StartsNoVar piece) (hrest : hasNoVar false rest = true) :
    hasNoVar false (furtherLines level pieces ++ rest) = true := by
  induction pieces with
  | nil => exact hrest
  | cons piece pieces ih =>
      rw [List.forall_mem_cons] at h
      rw [furtherLines, List.flatMap_cons, ← furtherLines, List.append_assoc, List.cons_append,
        hasNoVar_cons (by decide), List.append_assoc]
      exact h.1.line level (ih h.2)

/-- Brackets around pieces start no line with the letter. -/
theorem startsNoVar_bracketed {opening closing : Char} (hopening : opening ≠ '\n' ∧ opening ≠ 'v')
    (hclosing : closing ≠ '\n' ∧ closing ≠ 'v') (level : Nat) {pieces : List (List Char)}
    (h : ∀ piece ∈ pieces, StartsNoVar piece) :
    StartsNoVar (bracketed opening closing level pieces) := by
  cases pieces with
  | nil =>
      refine ⟨⟨opening, [closing], rfl, hopening.2⟩, fun rest hrest => ?_⟩
      exact (hasNoVar_cons hopening.1).trans ((hasNoVar_cons hclosing.1).trans hrest)
  | cons piece pieces =>
      rw [List.forall_mem_cons] at h
      rw [bracketed_cons]
      refine ⟨⟨opening, _, rfl, hopening.2⟩, fun rest hrest => ?_⟩
      simp only [List.cons_append, List.append_assoc, hasNoVar_cons hopening.1]
      apply h.1.line
      apply hasNoVar_furtherLines h.2
      exact hasNoVar_lineStart level (by simpa using hclosing.2) ((hasNoVar_cons hclosing.1).trans hrest)

theorem startsNoVar_writtenString (text : List Char) : StartsNoVar (writtenString text) := by
  refine ⟨⟨'"', _, rfl, by decide⟩, fun rest hrest => ?_⟩
  have hline : '\n' ∉ writtenString text := fun hmem =>
    absurd (le_of_mem_writtenString hmem) (by decide)
  exact (hasNoVar_append hline rest).trans hrest

theorem startsNoVar_writtenMember {level : Nat} (name : Codes) {value : Json}
    (h : StartsNoVar (value.written level)) : StartsNoVar (writtenMember level name value) := by
  refine ⟨⟨'"', _, rfl, by decide⟩, fun rest hrest => ?_⟩
  rw [writtenMember, List.append_assoc, List.cons_append, List.cons_append]
  apply (startsNoVar_writtenString _).2
  rw [hasNoVar_cons (by decide), hasNoVar_cons (by decide)]
  exact h.2 rest hrest

/-- The written form of a textual value starts no line with the letter. -/
theorem startsNoVar_written {depth : Nat} {value : Json} (h : IsTextual depth value) (level : Nat) :
    StartsNoVar (value.written level) := by
  induction depth generalizing value level with
  | zero =>
      cases value with
      | string codes => exact startsNoVar_writtenString _
      | _ => exact h.elim
  | succ depth ih =>
      cases value with
      | string codes => exact startsNoVar_writtenString _
      | list items =>
          rw [written, writtenItems_eq_map]
          apply startsNoVar_bracketed (by decide) (by decide)
          exact List.forall_mem_map.2 fun item hitem => ih (h item hitem) (level + 1)
      | object members =>
          rw [written, writtenMembers_eq_map]
          apply startsNoVar_bracketed (by decide) (by decide)
          exact List.forall_mem_map.2 fun member hmember =>
            startsNoVar_writtenMember _ (ih (h member hmember) (level + 1))
      | _ => exact h.elim

end Json

/-- The printed text of an application cannot be patched. -/
theorem Application.patch_print (tag : Script.IdentityTag) {app : Application} {text : List Char}
    (h : app.print = .ok text) :
    Script.patch tag text = .error (.patternNotFound "the Test variant definitions") := by
  apply Script.patch_of_hasNoVar
  rw [eq_print_of_print h, Json.print, Script.hasNoVar_true]
  obtain ⟨⟨c, more, hwritten, hc⟩, hkeep⟩ := Json.startsNoVar_written (app.isTextual_toJson 0) 0
  refine ⟨?_, hkeep _ (by decide)⟩
  rw [hwritten]
  simpa using hc

end ElmSuite
