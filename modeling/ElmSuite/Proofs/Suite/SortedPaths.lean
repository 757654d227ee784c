import Mathlib.Data.List.Lex
import Mathlib.Data.String.Basic
import ElmSuite.Proofs.Disk.PathText
import ElmSuite.Suite.Module

/-!
The order of paths.  Paths are compared part by part, and texts that denote paths that compare the same
denote the same path, so a collection of files has one order, whichever way it was gathered.
-/

namespace ElmSuite

namespace Path

variable {p q : Path}

theorem le_iff (p q : Path) : p.le q = true ↔ p.components ≤ q.components := by
  rw [le, Bool.not_eq_true', ← not_lt, ← Bool.not_eq_true, List.lex_eq_true_iff_lex]
  simp only [decide_eq_true_eq]
  rfl

theorem components_of_relative (h : p.anchor = .here) : p.components = p.parts := by
  rw [components, h]

theorem components_of_anchored (h : p.anchor ≠ .here) : p.components = p.anchor.text :: p.parts := by
  unfold components
  split
  · next hanchor => exact absurd hanchor h
  · rfl

theorem slash_mem_text (h : p.anchor ≠ .here) : '/' ∈ p.anchor.text.toList := by
  cases hanchor : p.anchor with
  | here => exact absurd hanchor h
  | root => decide
  | doubleRoot => decide

/-- No part of a path is an anchor, so the components of a path tell where it starts. -/
theorem eq_of_components (hp : ∀ part ∈ p.parts, IsPart part) (hq : ∀ part ∈ q.parts, IsPart part)
    (h : p.components = q.components) : p = q := by
  have happart {p q : Path} (hp : ∀ part ∈ p.parts, IsPart part) (hrelative : p.anchor = .here)
      (hanchored : q.anchor ≠ .here) : p.components ≠ q.components := by
    rw [components_of_relative hrelative, components_of_anchored hanchored]
    intro heq
    exact (hp q.anchor.text (heq ▸ List.mem_cons_self)).noSlash (slash_mem_text hanchored)
  have htext : p.anchor.text = q.anchor.text → p.anchor = q.anchor := by
    cases p.anchor <;> cases q.anchor <;> decide
  have hboth : p.anchor = q.anchor ∧ p.parts = q.parts := by
    by_cases hrelative : p.anchor = .here <;> by_cases hother : q.anchor = .here
    · rw [components_of_relative hrelative, components_of_relative hother] at h
      exact ⟨hrelative.trans hother.symm, h⟩
    · exact absurd h (happart hp hrelative hother)
    · exact absurd h.symm (happart hq hother hrelative)
    · rw [components_of_anchored hrelative, components_of_anchored hother, List.cons.injEq] at h
      exact ⟨htext h.1, h.2⟩
  calc
    p = ⟨p.anchor, p.parts⟩ := rfl
    _ = q := by rw [hboth.1, hboth.2]

end Path

variable {files others : List Path}

theorem pairwise_sortPaths (files : List Path) :
    (sortPaths files).Pairwise fun p q => p.le q = true := by
  refine List.pairwise_mergeSort (fun p q r hpq hqr => ?_) (fun p q => ?_) files
  · rw [Path.le_iff] at hpq hqr ⊢
    exact le_trans hpq hqr
  · rw [Bool.or_eq_true, Path.le_iff, Path.le_iff]
    exact le_total _ _

/-- The same files are sorted the same way, in whatever order they come. -/
theorem sortPaths_eq_of_perm (h : files.Perm others)
    (hparts : ∀ file ∈ files, ∀ part ∈ file.parts, Path.IsPart part) :
    sortPaths files = sortPaths others := by
  have hfiles : (sortPaths files).Perm files := List.mergeSort_perm files _
  have hothers : (sortPaths others).Perm others := List.mergeSort_perm others _
  refine List.Perm.eq_of_pairwise (fun p q hp hq hpq hqp => ?_) (pairwise_sortPaths files)
    (pairwise_sortPaths others) (hfiles.trans (h.trans hothers.symm))
  rw [Path.le_iff] at hpq hqp
  exact Path.eq_of_components (hparts p (hfiles.mem_iff.1 hp))
    (hparts q (h.mem_iff.2 (hothers.mem_iff.1 hq))) (le_antisymm hpq hqp)

/-- Test modules do not depend on the order in which the texts of their paths are given, nor does the
trouble that keeps one of them from being read or named. -/
theorem findTests_eq_of_perm {texts others : List String} (h : texts.Perm others) (roots : List Path)
    (read : Path → Except Trouble (List Char)) :
    findTests roots read (texts.map Path.ofString) = findTests roots read (others.map Path.ofString) := by
  have hparts : ∀ file ∈ texts.map Path.ofString, ∀ part ∈ file.parts, Path.IsPart part := by
    intro file hfile part hpart
    obtain ⟨text, -, rfl⟩ := List.mem_map.1 hfile
    exact Path.isPart_of_mem_ofString hpart
  rw [findTests, findTests, sortPaths_eq_of_perm (h.map Path.ofString) hparts]

end ElmSuite
