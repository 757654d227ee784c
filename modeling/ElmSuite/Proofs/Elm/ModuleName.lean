import ElmSuite.Elm.ModuleName
import ElmSuite.Proofs.Lists

/-!
Module names and the files that they stand for.  A file that has a name lies below one source
directory, and the way to it from there can be read off the name.
-/

namespace ElmSuite

theorem Path.afterParts?_eq_some {front whole rest : List String}
    (h : afterParts? front whole = some rest) : whole = front ++ rest := by
  induction front generalizing whole with
  | nil =>
      cases h
      rfl
  | cons name front ih =>
      cases whole with
      | nil => cases h
      | cons other whole =>
          rw [afterParts?] at h
          split at h
          · next heq => rw [heq, ih h, List.cons_append]
          · cases h

theorem Path.partsBelow?_eq_some {p root : Path} {rest : List String}
    (h : p.partsBelow? root = some rest) : p.anchor = root.anchor ∧ p.parts = root.parts ++ rest := by
  unfold partsBelow? at h
  split at h
  · next hanchor => exact ⟨hanchor, afterParts?_eq_some h⟩
  · cases h

namespace Elm

/-- The way to the file of a module from its source directory. -/
def modulePath (name : String) : String :=
  String.ofList (name.toList.map fun c => if c = '.' then '/' else c) ++ sourceSuffix

/-- A name with the suffix of source files is what is left without it, and the suffix. -/
theorem withoutSuffix_append {name : String} (h : sourceSuffix.toList <:+ name.toList) :
    withoutSuffix name ++ sourceSuffix = name := by
  obtain ⟨front, hfront⟩ := h
  have hreverse : name.toList.reverse = sourceSuffix.toList.reverse ++ front.reverse := by
    rw [← hfront, List.reverse_append]
  have hprefix : sourceSuffix.toList.reverse.isPrefixOf name.toList.reverse = true := by
    rw [List.isPrefixOf_iff_prefix, hreverse]
    exact List.prefix_append _ _
  have hrest : name.toList.reverse.drop sourceSuffix.toList.reverse.length = front.reverse := by
    rw [hreverse, List.drop_left]
  rw [withoutSuffix, if_pos hprefix, hrest, List.reverse_reverse]
  apply String.toList_inj.1
  rw [String.toList_append, String.toList_ofList, hfront]

theorem moduleSegments_concat (front : List String) (last : String) :
    moduleSegments (front ++ [last]) = front ++ [withoutSuffix last] := by
  induction front with
  | nil => rfl
  | cons name front ih =>
      cases front with
      | nil => rfl
      | cons next front => exact congrArg (name :: ·) ih

theorem of_mem_isUpperName {segment : String} (h : isUpperName segment = true) {c : Char}
    (hc : c ∈ segment.toList) : Text.isLetter c = true ∨ Text.isDecimal c = true ∨ c = '_' := by
  unfold isUpperName at h
  split at h
  · cases h
  · next first rest hchars =>
    simp only [Bool.and_eq_true, List.all_eq_true, Bool.or_eq_true, beq_iff_eq, or_assoc] at h
    rw [hchars] at hc
    rcases List.mem_cons.1 hc with rfl | hc
    · exact .inl h.1.1
    · exact h.2 c hc

/-- No part of a module name holds a dot. -/
theorem not_mem_of_isUpperName {segment : String} (h : isUpperName segment = true) :
    '.' ∉ segment.toList := by
  have hletter : Text.isLetter '.' = false := by decide +kernel
  have hdecimal : Text.isDecimal '.' = false := by decide +kernel
  intro hmem
  simpa [hletter, hdecimal] using of_mem_isUpperName h hmem

theorem of_mem_intercalate {separator : String} {texts : List String} {c : Char}
    (h : c ∈ (separator.intercalate texts).toList) :
    c ∈ separator.toList ∨ ∃ text ∈ texts, c ∈ text.toList := by
  induction texts with
  | nil => simp at h
  | cons text texts ih =>
      cases texts with
      | nil => exact .inr ⟨text, List.mem_cons_self, by simpa using h⟩
      | cons next texts =>
          rw [String.intercalate_cons_cons, String.toList_append, String.toList_append,
            List.mem_append, List.mem_append] at h
          rcases h with (h | h) | h
          · exact .inr ⟨text, List.mem_cons_self, h⟩
          · exact .inl h
          · rcases ih h with h | ⟨other, hother, h⟩
            · exact .inl h
            · exact .inr ⟨other, List.mem_cons_of_mem _ hother, h⟩

theorem intercalate_concat_append (texts : List String) (last more : String) :
    "/".intercalate (texts ++ [last ++ more]) = "/".intercalate (texts ++ [last]) ++ more := by
  induction texts with
  | nil => simp
  | cons text texts ih =>
      rw [List.cons_append, List.cons_append, String.intercalate_cons_of_ne_nil (by simp), ih,
        String.intercalate_cons_of_ne_nil (by simp), ← String.append_assoc]

/-- Slashes in place of the dots of a name. -/
theorem map_intercalate {segments : List String} (h : ∀ segment ∈ segments, '.' ∉ segment.toList) :
    String.ofList ((".".intercalate segments).toList.map fun c => if c = '.' then '/' else c) =
      "/".intercalate segments := by
  have hself {segment : String} (hsegment : '.' ∉ segment.toList) :
      (segment.toList.map fun c => if c = '.' then '/' else c) = segment.toList := by
    have hid : ∀ c ∈ segment.toList, (if c = '.' then '/' else c) = id c := by
      intro c hc
      have hne : c ≠ '.' := fun heq => hsegment (heq ▸ hc)
      exact if_neg hne
    rw [List.map_congr_left hid, List.map_id]
  apply String.toList_inj.1
  rw [String.toList_ofList]
  induction segments with
  | nil => rfl
  | cons segment segments ih =>
      rw [List.forall_mem_cons] at h
      by_cases hsegments : segments = []
      · subst hsegments
        simpa using hself h.1
      · rw [String.intercalate_cons_of_ne_nil hsegments, String.intercalate_cons_of_ne_nil hsegments,
          String.toList_append, String.toList_append, String.toList_append, String.toList_append,
          List.map_append, List.map_append, hself h.1, ih h.2]
        rfl

/-- A file that has a module name lies below a source directory, and the way to it from there is that
of the name. -/
theorem exists_parts_of_moduleNameOf {roots : List Path} {file : Path} {name : String}
    (h : moduleNameOf roots file = .ok name) (hsuffix : sourceSuffix.toList <:+ file.name.toList) :
    ∃ root ∈ roots, ∃ parts, file.anchor = root.anchor ∧ file.parts = root.parts ++ parts ∧
      parts ≠ [] ∧ "/".intercalate parts = modulePath name := by
  obtain ⟨root, hroot, h⟩ := bind_eq_ok.1 h
  have hmem : root ∈ roots.filter file.isWithin := by
    unfold sourceDirectoryOf at hroot
    split at hroot
    · cases hroot
    · next found hfound =>
      cases hroot
      rw [hfound]
      exact List.mem_singleton_self _
    · cases hroot
  obtain ⟨hroots, hwithin⟩ := List.mem_filter.1 hmem
  obtain ⟨parts, hbelow⟩ := Option.isSome_iff_exists.1 hwithin
  obtain ⟨hanchor, hparts⟩ := Path.partsBelow?_eq_some hbelow
  rw [hbelow, Option.getD_some] at h
  refine ⟨root, hroots, parts, hanchor, hparts, ?_⟩
  rcases List.eq_nil_or_concat parts with rfl | ⟨front, last, heq⟩
  · cases h
  · rw [List.concat_eq_append] at heq
    subst heq
    refine ⟨by simp, ?_⟩
    rw [moduleSegments_concat] at h
    have hupper : ∀ segment ∈ front ++ [withoutSuffix last], '.' ∉ segment.toList := by
      split at h
      · next hempty => simp at hempty
      · split at h
        · cases h
        · next hfind =>
          intro segment hsegment
          have hvalid := List.find?_eq_none.1 hfind segment hsegment
          exact not_mem_of_isUpperName (by simpa using hvalid)
    have hname : name = ".".intercalate (front ++ [withoutSuffix last]) := by
      split at h
      · next hempty => simp at hempty
      · split at h
        · cases h
        · cases h
          rfl
    have hlast : file.name = last := by
      rw [Path.name, hparts, ← List.append_assoc, List.getLast?_concat, Option.getD_some]
    rw [hlast] at hsuffix
    rw [modulePath, hname, map_intercalate hupper, ← intercalate_concat_append,
      withoutSuffix_append hsuffix]

end Elm

end ElmSuite
