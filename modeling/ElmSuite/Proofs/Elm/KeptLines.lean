import ElmSuite.Elm.Comments
import Mathlib.Data.List.Forall2

/-!
The lines of a source without its comments.  The removal drops characters inside of lines and never
the end of one, wherever a literal or a comment ends and whether it ends at all, so every declaration
stays in the line in which it was.
-/

namespace ElmSuite.Elm

/-- A text of which some characters are dropped, none of them the end of a line. -/
inductive Thinned : List Char → List Char → Prop
  | nil : Thinned [] []
  | keep (c : Char) {kept text : List Char} (h : Thinned kept text) : Thinned (c :: kept) (c :: text)
  | drop {c : Char} {kept text : List Char} (hline : c ≠ '\n') (h : Thinned kept text) :
      Thinned kept (c :: text)

namespace Thinned

variable {kept text : List Char}

theorem count_eq (h : Thinned kept text) : kept.count '\n' = text.count '\n' := by
  induction h with
  | nil => rfl
  | keep c _ ih => rw [List.count_cons, List.count_cons, ih]
  | drop hline _ ih => rw [ih, List.count_cons_of_ne hline]

/-- What is left of a line stands in the place of the line. -/
theorem forall₂_splitOn (h : Thinned kept text) :
    List.Forall₂ List.Sublist (kept.splitOn '\n') (text.splitOn '\n') := by
  induction h with
  | nil => exact .cons (List.Sublist.refl []) .nil
  | @keep c kept text _ ih =>
      rw [List.splitOn_cons_eq_if_modifyHead, List.splitOn_cons_eq_if_modifyHead]
      generalize kept.splitOn '\n' = keptLines, text.splitOn '\n' = lines at ih ⊢
      split
      · exact .cons (List.Sublist.refl []) ih
      · cases ih with
        | nil => exact .nil
        | cons hline hlines => exact .cons (hline.cons_cons c) hlines
  | @drop c kept text hline _ ih =>
      have hbeq : ¬ (c == '\n') = true := by rwa [beq_iff_eq]
      rw [List.splitOn_cons_eq_if_modifyHead, if_neg hbeq]
      generalize kept.splitOn '\n' = keptLines, text.splitOn '\n' = lines at ih ⊢
      cases ih with
      | nil => exact .nil
      | cons hfirst hlines => exact .cons (hfirst.cons c) hlines

end Thinned

theorem thinned_stripFrom (zone : Zone) (source : List Char) : Thinned (stripFrom zone source) source := by
  -- The cases are the equations of the scan: what it drops is no line end, or a mark of a comment.
  fun_induction stripFrom zone source with
  | case1 => exact .nil
  | case2 _ ih | case3 _ ih | case11 _ _ ih | case12 _ ih | case13 _ _ ih =>
      exact .drop (by decide) (.drop (by decide) ih)
  | case10 _ _ hline ih => exact .drop hline ih
  | case15 _ _ _ _ _ _ hline ih => exact .drop hline ih
  | case4 _ ih | case6 _ _ ih | case20 _ ih => exact .keep _ (.keep _ (.keep _ ih))
  | case7 _ _ _ ih | case18 _ _ ih => exact .keep _ (.keep _ ih)
  | _ => exact .keep _ ‹_›

/-- A source without its comments has as many line ends as before, and each of its lines is what is
left of the line in the same place. -/
theorem stripComments_lines (source : List Char) :
    (stripComments source).count '\n' = source.count '\n' ∧
      List.Forall₂ List.Sublist ((stripComments source).splitOn '\n') (source.splitOn '\n') :=
  ⟨(thinned_stripFrom .code source).count_eq, (thinned_stripFrom .code source).forall₂_splitOn⟩

/-- A block comment that never ends, behind a string that ends with its line. -/
example : stripComments "x = \"a\ny \x7b- b\n\"z".toList = "x = \"a\ny \n".toList := by
  decide

end ElmSuite.Elm
