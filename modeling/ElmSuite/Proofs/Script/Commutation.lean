import ElmSuite.Proofs.Script.Passes

/-!
The passes of the patch in any order.  No pass brings in, hides or takes away what another one looks
for, and what two of them make of a code does not depend on which comes first.
-/

namespace ElmSuite.Script

open Text

/-- A pass of the patch. -/
inductive Pass
  | constructors
  | check
  | symbol
deriving DecidableEq, Repr

namespace Pass

variable {tag : IdentityTag} {code out : List Char} {passes : List Pass} {pass other : Pass}

/-- All passes, in the order of the patch. -/
def all : List Pass :=
  [.constructors, .check, .symbol]

/-- A pass on its own. -/
def apply (tag : IdentityTag) : Pass → List Char → Except Failure (List Char)
  | .constructors, code => tagConstructors tag code
  | .check, code => replaceCheck tag code
  | .symbol, code => .ok (allocateSymbol tag code)

/-- Passes one after the other. -/
def applyAll (tag : IdentityTag) : List Pass → List Char → Except Failure (List Char)
  | [], code => .ok code
  | pass :: rest, code => pass.apply tag code >>= applyAll tag rest

theorem applyAll_all (tag : IdentityTag) (code : List Char) : applyAll tag all code = patch tag code := by
  simp only [all, applyAll, apply, patch]
  cases tagConstructors tag code with
  | error cause => rfl
  | ok tagged =>
      rw [ok_bind, ok_bind]
      cases replaceCheck tag tagged <;> rfl

/-- A pass finds what it looks for. -/
def Finds (tag : IdentityTag) : Pass → List Char → Prop
  | .constructors, code => constructorCount tag code ≠ 0
  | .check, code => placeholderCount true code ≠ 0 ∨ hasPatchedCheck tag.field.toList true code = true
  | .symbol, _ => True

/-- What a pass makes of a code in which it finds what it looks for. -/
def made (tag : IdentityTag) : Pass → List Char → List Char
  | .constructors, code => taggedCode tag code
  | .check, code => replacedCode tag code
  | .symbol, code => allocateSymbol tag code

/-- What a pass looks for decides whether it fails, and with which failure. -/
theorem apply_cases (tag : IdentityTag) (pass : Pass) : ∃ lack : Failure, ∀ code,
    pass.Finds tag code ∧ pass.apply tag code = .ok (pass.made tag code) ∨
      ¬ pass.Finds tag code ∧ pass.apply tag code = .error lack := by
  cases pass with
  | constructors =>
      refine ⟨.patternNotFound "the Test variant definitions", fun code => ?_⟩
      rw [Finds, apply, tagConstructors_eq]
      split
      · next hnone => exact .inr ⟨not_not_intro hnone, rfl⟩
      · next hsome => exact .inl ⟨hsome, rfl⟩
  | check =>
      refine ⟨.patternNotFound "the check function definition", fun code => ?_⟩
      simp only [Finds, apply, replaceCheck_eq, isSome_splitPlaceholder?, Bool.or_eq_true,
        decide_eq_true_eq]
      split
      · next hcheck => exact .inl ⟨hcheck, rfl⟩
      · next hno => exact .inr ⟨hno, rfl⟩
  | symbol => exact ⟨.other "", fun code => .inl ⟨trivial, rfl⟩⟩

theorem apply_eq_ok : pass.apply tag code = .ok out ↔ pass.Finds tag code ∧ pass.made tag code = out := by
  obtain ⟨lack, h⟩ := apply_cases tag pass
  rcases h code with ⟨hfinds, heq⟩ | ⟨hlacks, heq⟩
  · simp [heq, hfinds]
  · simp [heq, hlacks]

/-- A pass fails in the same way on codes of which either both or none have what it looks for. -/
theorem apply_eq_error_congr (h : pass.Finds tag out ↔ pass.Finds tag code) (cause : Failure) :
    pass.apply tag out = .error cause ↔ pass.apply tag code = .error cause := by
  obtain ⟨lack, hcases⟩ := apply_cases tag pass
  rcases hcases code with ⟨hfinds, heq⟩ | ⟨hlacks, heq⟩ <;>
    rcases hcases out with ⟨hfinds', heq'⟩ | ⟨hlacks', heq'⟩
  · simp [heq, heq']
  · exact absurd (h.2 hfinds) hlacks'
  · exact absurd (h.1 hfinds') hlacks
  · rw [heq, heq']

/-- No pass brings in or takes away what another one looks for. -/
theorem finds_made (htag : tag.Plain) (hne : pass ≠ other) (code : List Char) :
    pass.Finds tag (other.made tag code) ↔ pass.Finds tag code := by
  cases pass with
  | constructors =>
      cases other with
      | constructors => exact absurd rfl hne
      | check => rw [Finds, Finds, made, constructorCount_replacedCode htag]
      | symbol =>
          rw [Finds, Finds, made, allocateSymbol_eq]
          split
          · rfl
          · rw [constructorCount_allocation htag]
  | check =>
      cases other with
      | constructors =>
          rw [Finds, Finds, made, placeholderCount_taggedCode htag, hasPatchedCheck_taggedCode htag]
      | check => exact absurd rfl hne
      | symbol =>
          rw [Finds, Finds, made, allocateSymbol_eq]
          split
          · rfl
          · rw [placeholderCount_allocation htag, hasPatchedCheck_allocation htag]
  | symbol => rfl

/-- The line in front stays in front of what the other passes make of the rest. -/
theorem allocateSymbol_made (htag : tag.Plain) (hne : pass ≠ .symbol) (code : List Char) :
    pass.made tag (allocateSymbol tag code) = allocateSymbol tag (pass.made tag code) := by
  have hline : tag.allocationLine.toList.isPrefixOf (pass.made tag code) =
      tag.allocationLine.toList.isPrefixOf code := by
    rw [Bool.eq_iff_iff, List.isPrefixOf_iff_prefix, List.isPrefixOf_iff_prefix]
    cases pass with
    | constructors => exact allocationLine_prefix_taggedCode htag code
    | check => exact allocationLine_prefix_replacedCode htag code
    | symbol => exact absurd rfl hne
  rw [allocateSymbol_eq, allocateSymbol_eq, hline]
  split
  · rfl
  · cases pass with
    | constructors => exact taggedCode_allocation htag code
    | check => exact replacedCode_allocation htag code
    | symbol => exact absurd rfl hne

/-- Two passes make the same of a code, whichever comes first. -/
theorem made_comm (htag : tag.Plain) (pass other : Pass) (code : List Char) :
    pass.made tag (other.made tag code) = other.made tag (pass.made tag code) := by
  by_cases hpass : pass = .symbol
  · by_cases hother : other = .symbol
    · rw [hpass, hother]
    · rw [hpass]
      exact (allocateSymbol_made htag hother code).symm
  · by_cases hother : other = .symbol
    · rw [hother]
      exact allocateSymbol_made htag hpass code
    · cases pass <;> cases other <;> first
        | rfl
        | exact absurd rfl hpass
        | exact absurd rfl hother
        | exact taggedCode_replacedCode htag code
        | exact (taggedCode_replacedCode htag code).symm

/-- Passes that have been made leave what another one looks for. -/
theorem finds_applyAll (htag : tag.Plain) (hpass : pass ∉ passes) (h : applyAll tag passes code = .ok out) :
    pass.Finds tag out ↔ pass.Finds tag code := by
  induction passes generalizing code with
  | nil =>
      cases h
      rfl
  | cons first rest ih =>
      rw [List.mem_cons, not_or] at hpass
      obtain ⟨between, hfirst, hrest⟩ := bind_eq_ok.1 h
      obtain ⟨-, rfl⟩ := apply_eq_ok.1 hfirst
      exact (ih hpass.2 hrest).trans (finds_made htag hpass.1 code)

/-- Different passes one after the other succeed if each of them finds in the code at hand what it looks
for. -/
theorem applyAll_eq_ok (htag : tag.Plain) (hpasses : passes.Nodup) :
    applyAll tag passes code = .ok out ↔ (∀ pass ∈ passes, pass.Finds tag code) ∧
      passes.foldl (fun code pass => pass.made tag code) code = out := by
  induction passes generalizing code with
  | nil => simp [applyAll]
  | cons first rest ih =>
      obtain ⟨hfirst, hrest⟩ := List.nodup_cons.1 hpasses
      have hkept : (∀ pass ∈ rest, pass.Finds tag (first.made tag code)) ↔
          ∀ pass ∈ rest, pass.Finds tag code :=
        forall₂_congr fun _ hmem => finds_made htag (fun heq => hfirst (by rwa [← heq])) code
      rw [List.forall_mem_cons, List.foldl_cons, and_assoc, ← hkept, ← ih hrest, applyAll, bind_eq_ok]
      constructor
      · rintro ⟨between, hbetween, h⟩
        obtain ⟨hfinds, rfl⟩ := apply_eq_ok.1 hbetween
        exact ⟨hfinds, h⟩
      · rintro ⟨hfinds, h⟩
        exact ⟨_, apply_eq_ok.2 ⟨hfinds, rfl⟩, h⟩

end Pass

open Pass

/-- The passes of the patch commute: in every order they succeed on the codes on which the patch does and
give what it gives, and a pass that comes after others fails exactly where it fails on its own. -/
theorem passes_commute {tag : IdentityTag} (htag : tag.Plain) (code : List Char) :
    (∀ passes : List Pass, passes.Perm Pass.all → ∀ out,
      applyAll tag passes code = .ok out ↔ patch tag code = .ok out) ∧
    ∀ (pass : Pass) (before : List Pass) (out : List Char), pass ∉ before →
      applyAll tag before code = .ok out → ∀ cause,
        pass.apply tag out = .error cause ↔ pass.apply tag code = .error cause := by
  constructor
  · intro passes hperm out
    have hall : Pass.all.Nodup := by decide
    have hmade : passes.foldl (fun code pass => pass.made tag code) code =
        Pass.all.foldl (fun code pass => pass.made tag code) code :=
      hperm.foldl_eq' (fun first _ second _ code => made_comm htag second first code) code
    rw [← applyAll_all, applyAll_eq_ok htag (hperm.nodup_iff.2 hall), applyAll_eq_ok htag hall, hmade]
    exact and_congr_left' (forall_congr' fun pass => by rw [hperm.mem_iff])
  · intro pass before out hpass h cause
    exact apply_eq_error_congr (finds_applyAll htag hpass h) cause

/-- The line first and the constructors last. -/
theorem passes_commute_small_script :
    ({} : IdentityTag).Plain ∧ ∃ out, patch {} smallScript = .ok out ∧
      applyAll {} [.symbol, .check, .constructors] smallScript = .ok out ∧
      ∀ between, applyAll {} [.symbol, .check] smallScript = .ok between →
        ∀ cause, Pass.constructors.apply {} between ≠ .error cause := by
  obtain ⟨hconstructors, hcount, -⟩ := smallScript_spec
  have hplaceholder : placeholderCount true smallScript ≠ 0 := by
    rw [hcount]
    exact Nat.one_ne_zero
  obtain ⟨horders, hfailures⟩ := passes_commute plain_default smallScript
  have hpatch := (patch_eq_ok plain_default).2 ⟨hconstructors, .inl hplaceholder, rfl⟩
  refine ⟨plain_default, _, hpatch, (horders _ (by decide) _).2 hpatch, fun between hbetween cause herror => ?_⟩
  have hfails := (hfailures .constructors [.symbol, .check] between (by decide) hbetween cause).1 herror
  have hok : Pass.constructors.apply {} smallScript = .ok _ := apply_eq_ok.2 ⟨hconstructors, rfl⟩
  rw [hok] at hfails
  cases hfails

end ElmSuite.Script
