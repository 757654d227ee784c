import Mathlib.Data.List.Basic
import ElmSuite.Proofs.Disk.PathText
import ElmSuite.Proofs.Elm.ModuleName

/-!
When a file has a module name, which one, and why else it has none.  The name is made of the parts of
the path below the source directory, and the path can be read off it again.
-/

namespace ElmSuite

namespace Path

/-- A path is another one or lies below it, part by part. -/
def LiesUnder (file root : Path) : Prop :=
  file.anchor = root.anchor ∧ root.parts <+: file.parts

instance (file root : Path) : Decidable (file.LiesUnder root) :=
  inferInstanceAs (Decidable (_ ∧ _))

theorem afterParts?_append (front rest : List String) : afterParts? front (front ++ rest) = some rest := by
  induction front with
  | nil => rfl
  | cons name front ih => rw [List.cons_append, afterParts?, if_pos rfl, ih]

theorem partsBelow?_eq_some_iff {file root : Path} {rest : List String} :
    file.partsBelow? root = some rest ↔ file.anchor = root.anchor ∧ file.parts = root.parts ++ rest := by
  refine ⟨partsBelow?_eq_some, ?_⟩
  rintro ⟨hanchor, hparts⟩
  rw [partsBelow?, if_pos hanchor, hparts, afterParts?_append]

theorem isWithin_eq (file root : Path) : file.isWithin root = decide (file.LiesUnder root) := by
  rw [Bool.eq_iff_iff, decide_eq_true_eq, isWithin, Option.isSome_iff_exists]
  constructor
  · rintro ⟨rest, hrest⟩
    obtain ⟨hanchor, hparts⟩ := partsBelow?_eq_some hrest
    exact ⟨hanchor, rest, hparts.symm⟩
  · rintro ⟨hanchor, rest, hparts⟩
    exact ⟨rest, partsBelow?_eq_some_iff.2 ⟨hanchor, hparts.symm⟩⟩

/-- Joined parts are read as a path from the working directory. -/
theorem ofString_intercalate {parts : List String} (h : ∀ part ∈ parts, IsPart part) :
    ofString ("/".intercalate parts) = ⟨.here, parts⟩ := by
  have hanchor : anchorOf ("/".intercalate parts).toList = .here := by
    have hhead := head?_intercalate_ne h
    unfold anchorOf
    split <;> simp_all
  have hnamed : named ("/".intercalate parts) = parts := by
    rw [named_intercalate_eq]
    exact flatMap_named fun part hpart => named_of_not_slash (h part hpart).nonempty (h part hpart).noSlash
  have hparts : (ofString ("/".intercalate parts)).parts = parts := by
    rw [parts_ofString, hnamed, List.filter_eq_self]
    exact fun part hpart => by simpa using (h part hpart).notHere
  calc
    ofString ("/".intercalate parts) =
        ⟨anchorOf ("/".intercalate parts).toList, (ofString ("/".intercalate parts)).parts⟩ := rfl
    _ = ⟨.here, parts⟩ := by rw [hanchor, hparts]

end Path

namespace Elm

/-- The entries of a list of roots that a file lies under, in their order. -/
def containing (roots : List Path) (file : Path) : List Path :=
  roots.filter fun root => decide (file.LiesUnder root)

/-- The parts of a path without the suffix of source files at the end of the last one. -/
inductive Unsuffixed : List String → List String → Prop
  | nil : Unsuffixed [] []
  | suffixed (front : List String) (stem : String) :
      Unsuffixed (front ++ [stem ++ sourceSuffix]) (front ++ [stem])
  | plain (front : List String) (last : String) (h : ¬ sourceSuffix.toList <:+ last.toList) :
      Unsuffixed (front ++ [last]) (front ++ [last])

/-- The parts that the name of a file below a root is made of. -/
def SegmentsBelow (root file : Path) (segments : List String) : Prop :=
  ∃ parts, file.anchor = root.anchor ∧ file.parts = root.parts ++ parts ∧ Unsuffixed parts segments

theorem withoutSuffix_of_not_suffix {name : String} (h : ¬ sourceSuffix.toList <:+ name.toList) :
    withoutSuffix name = name := by
  unfold withoutSuffix
  rw [if_neg]
  rwa [List.isPrefixOf_iff_prefix, List.reverse_prefix]

theorem suffix_append (stem : String) : sourceSuffix.toList <:+ (stem ++ sourceSuffix).toList := by
  rw [String.toList_append]
  exact List.suffix_append _ _

theorem withoutSuffix_append_suffix (stem : String) : withoutSuffix (stem ++ sourceSuffix) = stem := by
  have h := withoutSuffix_append (suffix_append stem)
  apply String.toList_inj.1
  have hchars := congrArg String.toList h
  rwa [String.toList_append, String.toList_append, List.append_cancel_right_eq] at hchars

theorem unsuffixed_iff {parts segments : List String} :
    Unsuffixed parts segments ↔ moduleSegments parts = segments := by
  constructor
  · rintro (_ | ⟨front, stem⟩ | ⟨front, last, h⟩)
    · rfl
    · rw [moduleSegments_concat, withoutSuffix_append_suffix]
    · rw [moduleSegments_concat, withoutSuffix_of_not_suffix h]
  · rintro rfl
    rcases List.eq_nil_or_concat' parts with rfl | ⟨front, last, rfl⟩
    · exact .nil
    · rw [moduleSegments_concat]
      by_cases hsuffix : sourceSuffix.toList <:+ last.toList
      · have hlast := withoutSuffix_append hsuffix
        have hsuffixed := Unsuffixed.suffixed front (withoutSuffix last)
        rwa [hlast] at hsuffixed
      · rw [withoutSuffix_of_not_suffix hsuffix]
        exact .plain front last hsuffix

theorem Unsuffixed.length_eq {parts segments : List String} (h : Unsuffixed parts segments) :
    parts.length = segments.length := by
  cases h <;> simp

variable {roots : List Path} {root file : Path} {segments : List String} {name : String}

theorem sourceDirectoryOf_eq (roots : List Path) (file : Path) :
    sourceDirectoryOf roots file = match containing roots file with
      | [] => .error (.noSourceDirectory file.toString)
      | [root] => .ok root
      | several => .error (.ambiguousSourceDirectory file.toString (several.map Path.toString)) := by
  have hfilter : roots.filter file.isWithin = containing roots file :=
    List.filter_congr fun root _ => Path.isWithin_eq file root
  rw [← hfilter]
  rfl

theorem moduleNameOf_of_none (h : containing roots file = []) :
    moduleNameOf roots file = .error (.noSourceDirectory file.toString) := by
  rw [moduleNameOf, sourceDirectoryOf_eq, h]
  rfl

theorem moduleNameOf_of_several (h : 2 ≤ (containing roots file).length) :
    moduleNameOf roots file =
      .error (.ambiguousSourceDirectory file.toString ((containing roots file).map Path.toString)) := by
  rw [moduleNameOf, sourceDirectoryOf_eq]
  match hroots : containing roots file, h with
  | _ :: _ :: _, _ => rfl

theorem liesUnder_of_containing (h : containing roots file = [root]) : file.LiesUnder root := by
  have hmem : root ∈ containing roots file := by simp [h]
  simpa using (List.mem_filter.1 hmem).2

/-- A file below a root has segments, and only one list of them. -/
theorem exists_segmentsBelow (h : file.LiesUnder root) :
    ∃ segments, ∀ others, SegmentsBelow root file others ↔ others = segments := by
  obtain ⟨hanchor, parts, hparts⟩ := h
  refine ⟨moduleSegments parts, fun others => ?_⟩
  constructor
  · rintro ⟨parts', -, hparts', hsegments⟩
    obtain rfl : parts = parts' := by
      rw [← hparts] at hparts'
      exact List.append_cancel_left hparts'
    exact (unsuffixed_iff.1 hsegments).symm
  · rintro rfl
    exact ⟨parts, hanchor, hparts.symm, unsuffixed_iff.2 rfl⟩

theorem segmentsBelow_nil_iff : SegmentsBelow root file [] ↔ file = root := by
  constructor
  · rintro ⟨parts, hanchor, hparts, hsegments⟩
    obtain rfl := List.length_eq_zero_iff.1 hsegments.length_eq
    rw [List.append_nil] at hparts
    calc
      file = ⟨file.anchor, file.parts⟩ := rfl
      _ = root := by rw [hanchor, hparts]
  · rintro rfl
    exact ⟨[], rfl, by simp, .nil⟩

theorem moduleNameOf_of_segments (h : containing roots file = [root])
    (hsegments : SegmentsBelow root file segments) :
    moduleNameOf roots file =
      if segments = [] then .error (.invalidModuleName file.toString "")
      else match segments.find? fun segment => !isUpperName segment with
        | some segment => .error (.invalidModuleName file.toString segment)
        | none => .ok (".".intercalate segments) := by
  obtain ⟨parts, hanchor, hparts, hunsuffixed⟩ := hsegments
  rw [moduleNameOf, sourceDirectoryOf_eq, h]
  simp only [ok_bind, Path.partsBelow?_eq_some_iff.2 ⟨hanchor, hparts⟩, Option.getD_some,
    unsuffixed_iff.1 hunsuffixed]
  cases segments <;> rfl

/-- What comes of naming a file. -/
inductive Naming (roots : List Path) (file : Path) : Except Failure String → Prop
  | nowhere (h : containing roots file = []) :
      Naming roots file (.error (.noSourceDirectory file.toString))
  | ambiguous (h : 2 ≤ (containing roots file).length) :
      Naming roots file
        (.error (.ambiguousSourceDirectory file.toString ((containing roots file).map Path.toString)))
  | self (h : containing roots file = [file]) :
      Naming roots file (.error (.invalidModuleName file.toString ""))
  | invalid {root : Path} {valid rest : List String} {segment : String}
      (h : containing roots file = [root]) (hsegments : SegmentsBelow root file (valid ++ segment :: rest))
      (hvalid : ∀ other ∈ valid, isUpperName other = true) (hsegment : isUpperName segment = false) :
      Naming roots file (.error (.invalidModuleName file.toString segment))
  | named {root : Path} {segments : List String} (h : containing roots file = [root])
      (hne : file ≠ root) (hsegments : SegmentsBelow root file segments)
      (hupper : ∀ segment ∈ segments, isUpperName segment = true) :
      Naming roots file (.ok (".".intercalate segments))

theorem find?_invalid_eq_none_iff :
    (segments.find? fun segment => !isUpperName segment) = none ↔
      ∀ segment ∈ segments, isUpperName segment = true := by
  simp

theorem naming_moduleNameOf (roots : List Path) (file : Path) :
    Naming roots file (moduleNameOf roots file) := by
  match hroots : containing roots file with
  | [] =>
      rw [moduleNameOf_of_none hroots]
      exact .nowhere hroots
  | _ :: _ :: _ =>
      have hseveral : 2 ≤ (containing roots file).length := by simp [hroots]
      rw [moduleNameOf_of_several hseveral]
      exact .ambiguous hseveral
  | [root] =>
      obtain ⟨segments, hunique⟩ := exists_segmentsBelow (liesUnder_of_containing hroots)
      have hsegments := (hunique segments).2 rfl
      rw [moduleNameOf_of_segments hroots hsegments]
      by_cases hnil : segments = []
      · rw [if_pos hnil]
        obtain rfl := segmentsBelow_nil_iff.1 (hnil ▸ hsegments)
        exact .self hroots
      · have hne : file ≠ root := by
          rintro rfl
          exact hnil ((hunique []).1 (segmentsBelow_nil_iff.2 rfl)).symm
        rw [if_neg hnil]
        split
        · next segment hfind =>
          obtain ⟨hsegment, valid, rest, rfl, hvalid⟩ := List.find?_eq_some_iff_append.1 hfind
          exact .invalid hroots hsegments (by simpa using hvalid) (by simpa using hsegment)
        · next hfind => exact .named hroots hne hsegments (find?_invalid_eq_none_iff.1 hfind)

theorem moduleNameOf_of_naming {result : Except Failure String} (h : Naming roots file result) :
    moduleNameOf roots file = result := by
  cases h with
  | nowhere h => exact moduleNameOf_of_none h
  | ambiguous h => exact moduleNameOf_of_several h
  | self h => rw [moduleNameOf_of_segments h (segmentsBelow_nil_iff.2 rfl), if_pos rfl]
  | invalid h hsegments hvalid hsegment =>
      rw [moduleNameOf_of_segments h hsegments, if_neg (by simp), List.find?_append,
        List.find?_eq_none.2 (by simpa using hvalid), Option.none_or, List.find?_cons_of_pos (by simp [hsegment])]
  | named h hne hsegments hupper =>
      rw [moduleNameOf_of_segments h hsegments, if_neg, find?_invalid_eq_none_iff.2 hupper]
      rintro rfl
      exact hne (segmentsBelow_nil_iff.1 hsegments)

theorem isPart_append_of_isUpperName {segment more : String} (h : isUpperName segment = true)
    (hmore : '/' ∉ more.toList) : Path.IsPart (segment ++ more) := by
  have hletter : Text.isLetter '/' = false := by decide +kernel
  have hdecimal : Text.isDecimal '/' = false := by decide +kernel
  have hslash : '/' ∉ segment.toList := by
    intro hmem
    simpa [hletter, hdecimal] using of_mem_isUpperName h hmem
  obtain ⟨first, rest, hchars⟩ : ∃ first rest, segment.toList = first :: rest := by
    unfold isUpperName at h
    split at h
    · cases h
    · next first rest hchars => exact ⟨first, rest, hchars⟩
  have hdot := not_mem_of_isUpperName h
  have hwhole : (segment ++ more).toList = first :: (rest ++ more.toList) := by
    rw [String.toList_append, hchars, List.cons_append]
  constructor
  · intro hempty
    rw [hempty] at hwhole
    cases hwhole
  · rw [String.toList_append, List.mem_append, not_or]
    exact ⟨hslash, hmore⟩
  · intro hhere
    rw [hhere] at hwhole
    have hfirst : '.' = first := (List.cons.inj hwhole).1
    rw [hchars, ← hfirst] at hdot
    exact hdot List.mem_cons_self

theorem moduleNameOf_eq_ok :
    moduleNameOf roots file = .ok name ↔
      ∃ root segments, containing roots file = [root] ∧ file ≠ root ∧ SegmentsBelow root file segments ∧
        (∀ segment ∈ segments, isUpperName segment = true) ∧ ".".intercalate segments = name := by
  constructor
  · intro h
    have hnaming := naming_moduleNameOf roots file
    rw [h] at hnaming
    cases hnaming with
    | named hroots hne hsegments hupper => exact ⟨_, _, hroots, hne, hsegments, hupper, rfl⟩
  · rintro ⟨root, segments, hroots, hne, hsegments, hupper, rfl⟩
    exact moduleNameOf_of_naming (.named hroots hne hsegments hupper)

/-- A file that is named is found again from its root by its name. -/
theorem join_modulePath (h : moduleNameOf roots file = .ok name) (hroots : containing roots file = [root])
    (hsuffix : sourceSuffix.toList <:+ file.name.toList) :
    root.join (.ofString (modulePath name)) = file := by
  obtain ⟨root', segments, hroots', hne, ⟨parts, hanchor, hparts, hunsuffixed⟩, hupper, rfl⟩ :=
    moduleNameOf_eq_ok.1 h
  obtain rfl : root = root' := by simpa [hroots] using hroots'
  cases hunsuffixed with
  | nil => exact absurd (segmentsBelow_nil_iff.1 ⟨[], hanchor, hparts, .nil⟩) hne
  | plain front last hlast =>
      have hname : file.name = last := by
        rw [Path.name, hparts, ← List.append_assoc, List.getLast?_concat, Option.getD_some]
      exact absurd (hname ▸ hsuffix) hlast
  | suffixed front stem =>
      rw [List.forall_mem_append, List.forall_mem_singleton] at hupper
      have hfront (segment : String) (hmem : segment ∈ front) : Path.IsPart segment := by
        simpa using isPart_append_of_isUpperName (hupper.1 segment hmem) (show '/' ∉ "".toList by simp)
      have hlast : Path.IsPart (stem ++ sourceSuffix) :=
        isPart_append_of_isUpperName hupper.2 (by decide)
      have hdots : ∀ segment ∈ front ++ [stem], '.' ∉ segment.toList := by
        intro segment hmem
        refine not_mem_of_isUpperName ?_
        rcases List.mem_append.1 hmem with hmem | hmem
        · exact hupper.1 segment hmem
        · rw [List.mem_singleton.1 hmem]
          exact hupper.2
      calc
        root.join (.ofString (modulePath (".".intercalate (front ++ [stem])))) =
            root.join (.ofString ("/".intercalate (front ++ [stem ++ sourceSuffix]))) := by
          rw [modulePath, map_intercalate hdots, intercalate_concat_append]
        _ = root.join ⟨.here, front ++ [stem ++ sourceSuffix]⟩ := by
          rw [Path.ofString_intercalate (List.forall_mem_append.2 ⟨hfront, by simpa using hlast⟩)]
        _ = ⟨root.anchor, root.parts ++ (front ++ [stem ++ sourceSuffix])⟩ := if_pos rfl
        _ = ⟨file.anchor, file.parts⟩ := by rw [hanchor, hparts]
        _ = file := rfl

/-- A file is named exactly if it lies below one entry of the roots, along parts that are upper names
up to the suffix of the last one; every other file is rejected for what is wrong with it.  A named
source file is found again from its root by its name, so no other one has the same name. -/
theorem moduleNameOf_exact (roots : List Path) (file : Path) :
    (∀ name, moduleNameOf roots file = .ok name ↔
      ∃ root segments, containing roots file = [root] ∧ file ≠ root ∧ SegmentsBelow root file segments ∧
        (∀ segment ∈ segments, isUpperName segment = true) ∧ ".".intercalate segments = name) ∧
    (moduleNameOf roots file = .error (.noSourceDirectory file.toString) ↔
      containing roots file = []) ∧
    (moduleNameOf roots file =
        .error (.ambiguousSourceDirectory file.toString ((containing roots file).map Path.toString)) ↔
      2 ≤ (containing roots file).length) ∧
    (∀ segment, moduleNameOf roots file = .error (.invalidModuleName file.toString segment) ↔
      ∃ root, containing roots file = [root] ∧
        (file = root ∧ segment = "" ∨
          ∃ valid rest, SegmentsBelow root file (valid ++ segment :: rest) ∧
            (∀ other ∈ valid, isUpperName other = true) ∧ isUpperName segment = false)) ∧
    (∀ name root, moduleNameOf roots file = .ok name → containing roots file = [root] →
      sourceSuffix.toList <:+ file.name.toList →
        root.join (.ofString (modulePath name)) = file ∧
        ∀ roots' file', moduleNameOf roots' file' = .ok name → containing roots' file' = [root] →
          sourceSuffix.toList <:+ file'.name.toList → file' = file) := by
  refine ⟨fun name => moduleNameOf_eq_ok, ⟨fun h => ?_, moduleNameOf_of_none⟩,
    ⟨fun h => ?_, moduleNameOf_of_several⟩, fun segment => ⟨fun h => ?_, ?_⟩,
    fun name root h hroots hsuffix => ⟨join_modulePath h hroots hsuffix, ?_⟩⟩
  · have hnaming := naming_moduleNameOf roots file
    rw [h] at hnaming
    cases hnaming with
    | nowhere hnone => exact hnone
  · have hnaming := naming_moduleNameOf roots file
    rw [h] at hnaming
    cases hnaming with
    | ambiguous hseveral => exact hseveral
  · have hnaming := naming_moduleNameOf roots file
    rw [h] at hnaming
    cases hnaming with
    | self hroots => exact ⟨file, hroots, .inl ⟨rfl, rfl⟩⟩
    | invalid hroots hsegments hvalid hsegment =>
        exact ⟨_, hroots, .inr ⟨_, _, hsegments, hvalid, hsegment⟩⟩
  · rintro ⟨root, hroots, ⟨rfl, rfl⟩ | ⟨valid, rest, hsegments, hvalid, hsegment⟩⟩
    · exact moduleNameOf_of_naming (.self hroots)
    · exact moduleNameOf_of_naming (.invalid hroots hsegments hvalid hsegment)
  · intro roots' file' h' hroots' hsuffix'
    rw [← join_modulePath h' hroots' hsuffix', join_modulePath h hroots hsuffix]

theorem moduleNameOf_exact_nested_file :
    moduleNameOf [.ofLocation ["p", "src"], .ofLocation ["p", "tests"]]
        (.ofLocation ["p", "tests", "Api", "DecodeTest.elm"]) = .ok "Api.DecodeTest" ∧
      (Path.ofLocation ["p", "tests"]).join (.ofString (modulePath "Api.DecodeTest")) =
        .ofLocation ["p", "tests", "Api", "DecodeTest.elm"] := by
  have hname : moduleNameOf [.ofLocation ["p", "src"], .ofLocation ["p", "tests"]]
      (.ofLocation ["p", "tests", "Api", "DecodeTest.elm"]) = .ok "Api.DecodeTest" := by rfl
  have hroots : containing [.ofLocation ["p", "src"], .ofLocation ["p", "tests"]]
      (.ofLocation ["p", "tests", "Api", "DecodeTest.elm"]) = [.ofLocation ["p", "tests"]] := by
    decide +kernel
  have hsuffix : sourceSuffix.toList <:+
      (Path.ofLocation ["p", "tests", "Api", "DecodeTest.elm"]).name.toList := by
    decide +kernel
  obtain ⟨-, -, -, -, hreverse⟩ := moduleNameOf_exact [.ofLocation ["p", "src"], .ofLocation ["p", "tests"]]
    (.ofLocation ["p", "tests", "Api", "DecodeTest.elm"])
  exact ⟨hname, (hreverse _ _ hname hroots hsuffix).1⟩

end Elm

end ElmSuite
