import ElmSuite.Proofs.Manifest.PinnedPackage

/-!
The version that a text is pinned to.  Pinning decides the grammar of constraints, refuses every other
text by name, and has nothing left to do on its own results.
-/

namespace ElmSuite.Constraint

open Text

variable {codes version : Codes} {text : List Char}

/-- A version and nothing around it. -/
def IsBare (version : Codes) : Prop :=
  ∃ text ∈ versions, version = .ofChars text ∧ ∀ c ∈ text, isBlank c = false

/-- A version has nothing but digits and dots in it. -/
theorem isDecimal_or_eq_of_mem_versions (h : text ∈ versions) {c : Char} (hc : c ∈ text) :
    isDecimal c = true ∨ c = '.' := by
  obtain ⟨_, ⟨_, ⟨major, hmajor, _, rfl, rfl⟩, _, ⟨minor, hminor, _, rfl, rfl⟩, rfl⟩, patch, hpatch, rfl⟩ := h
  simp only [List.mem_append, List.mem_singleton] at hc
  rcases hc with ((hc | rfl) | (hc | rfl)) | hc
  · exact .inl (hmajor.2 c hc)
  · exact .inr rfl
  · exact .inl (hminor.2 c hc)
  · exact .inr rfl
  · exact .inl (hpatch.2 c hc)

theorem isBare_of_mem_versions (h : text ∈ versions) : IsBare (.ofChars text) := by
  refine ⟨text, h, rfl, fun c hc => ?_⟩
  rcases isDecimal_or_eq_of_mem_versions h hc with hdigit | rfl
  · exact not_isBlank_of_isDecimal hdigit
  · decide

/-- A version spells the constraint that it is. -/
theorem mem_spellings_self (text : List Char) : text ∈ spellings text := by
  have hempty : [] ∈ blanks := fun c hc => absurd hc List.not_mem_nil
  refine ⟨text, ⟨[], hempty, text, ?_, rfl⟩, [], hempty, List.append_nil text⟩
  exact mem_singleton_mul_one_add.2 (.inl rfl)

theorem pin_eq_ok_iff_isPin : pin codes = .ok version ↔ Package.IsPin codes version := by
  have hread : pin codes = .ok version ↔
      ∃ constraint, ofCodes? codes = some constraint ∧ .ofString constraint.version = version := by
    rw [pin]
    cases ofCodes? codes <;> simp
  rw [hread]
  constructor
  · rintro ⟨constraint, hconstraint, rfl⟩
    rw [ofCodes?_eq_some_iff.1 hconstraint]
    exact ⟨_, _, rfl, rfl, pin?_eq_some_iff.1 constraint.pinned⟩
  · rintro ⟨spelled, lower, rfl, rfl, hlower, hspelled⟩
    have hpinned : pin? (String.ofList spelled) = some (String.ofList lower) := by
      rw [pin?_eq_some_iff, String.toList_ofList, String.toList_ofList]
      exact ⟨hlower, hspelled⟩
    refine ⟨⟨_, _, hpinned⟩, ofCodes?_eq_some_iff.2 ?_, ?_⟩ <;> rw [Codes.ofString, String.toList_ofList]

/-- A text is pinned to a version exactly if it spells a constraint from that version on.  The version
comes out bare and is pinned to itself, and a text that spells none is refused by name. -/
theorem pin_decides_spellings (codes : Codes) :
    (∀ version, pin codes = .ok version ↔ Package.IsPin codes version) ∧
    match pin codes with
    | .ok version => IsBare version ∧ pin version = .ok version
    | .error cause => cause = .badConstraint codes := by
  refine ⟨fun version => pin_eq_ok_iff_isPin, ?_⟩
  cases hpin : pin codes with
  | ok version =>
      obtain ⟨_, lower, -, rfl, hlower, -⟩ := pin_eq_ok_iff_isPin.1 hpin
      refine ⟨isBare_of_mem_versions hlower, pin_eq_ok_iff_isPin.2 ?_⟩
      exact ⟨lower, lower, rfl, rfl, hlower, mem_spellings_self lower⟩
  | error cause =>
      rw [pin] at hpin
      split at hpin
      · cases hpin
      · exact (Except.error.inj hpin).symm

/-- A range over several lines, and a text that is none for its dot. -/
example : pin (.ofString "\n1.10.2<=v\t<2.0.0\n") = .ok (.ofString "1.10.2") ∧
    pin (.ofString "1.0. 0") = .error (.badConstraint (.ofString "1.0. 0")) := by
  decide +kernel

end ElmSuite.Constraint
