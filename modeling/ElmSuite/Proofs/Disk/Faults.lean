import ElmSuite.Proofs.Disk.Glob
import ElmSuite.Proofs.Disk.MadeFolders

/-!
The faults that operations on the disk end with.  As long as a path holds no U+0000, reading and
writing end with nothing but what the operating system refuses, and with a file that is no text; to
make a path canonical may also end with a loop of links.
-/

namespace ElmSuite

/-- Whether a fault is a refusal of the operating system. -/
def Fault.isRefusal : Fault → Bool
  | .os _ => true
  | _ => false

/-- Whether a fault is one of a path on the way: U+0000, or a loop of links. -/
def Fault.isOfPath : Fault → Bool
  | .nullByte => true
  | .linkLoop _ => true
  | _ => false

namespace Path

/-- A path without the character U+0000. -/
def NoNull (p : Path) : Prop :=
  ∀ part ∈ p.parts, '\x00' ∉ part.toList

variable {p q : Path}

theorem null_mem_toString_iff : '\x00' ∈ p.toString.toList ↔ ∃ part ∈ p.parts, '\x00' ∈ part.toList := by
  unfold toString
  split
  · next h => simp [h.2]
  · have hanchor : '\x00' ∉ p.anchor.text.toList := by
      cases p.anchor <;> decide
    rw [String.toList_append, List.mem_append, or_iff_right hanchor, null_mem_intercalate_iff]

theorem noNull_iff : p.NoNull ↔ '\x00' ∉ p.toString.toList := by
  rw [null_mem_toString_iff]
  simp [NoNull]

theorem NoNull.parent (h : p.NoNull) : p.parent.NoNull :=
  fun part hpart => h part (List.dropLast_subset _ hpart)

theorem NoNull.child (h : p.NoNull) {name : String} (hname : '\x00' ∉ name.toList) :
    (p.child name).NoNull :=
  List.forall_mem_append.2 ⟨h, List.forall_mem_singleton.2 hname⟩

theorem NoNull.join (h : p.NoNull) (hq : q.NoNull) : (p.join q).NoNull := by
  unfold Path.join
  split
  · exact List.forall_mem_append.2 ⟨h, hq⟩
  · exact hq

theorem noNull_ofString {text : String} (h : '\x00' ∉ text.toList) : (ofString text).NoNull := by
  intro part hpart hnull
  rw [ofString, List.mem_filter, pieces, List.mem_map] at hpart
  obtain ⟨⟨chars, hchars, rfl⟩, -⟩ := hpart
  rw [String.toList_ofList] at hnull
  exact h (subset_of_mem_splitOn hchars hnull)

end Path

namespace Disk

variable {disk : Disk} {path : String}

section NoNull

variable (hnull : '\x00' ∉ path.toList)
include hnull

theorem failsOnly_place (follow : Bool) :
    FailsOnly (fun fault => fault.isRefusal = true) (disk.place follow path) := by
  unfold place
  rw [if_neg (by simpa using hnull)]
  split
  · exact .error rfl
  · split
    · exact .error rfl
    · dsimp only
      split
      · exact .ok _
      · exact .error rfl

theorem failsOnly_find : FailsOnly (fun fault => fault.isRefusal = true) (disk.find path) := by
  refine .bind (failsOnly_place hnull true) fun place _ => ?_
  cases place with
  | taken location node => exact .ok _
  | free folder name => exact .error rfl

theorem failsOnly_readBytes :
    FailsOnly (fun fault => fault.isRefusal = true) (disk.readBytes path) := by
  refine .bind (failsOnly_find hnull) fun found _ => ?_
  split
  · exact .ok _
  · exact .error rfl
  · exact .ok _

/-- A text is not read because the operating system refuses it, or because it is none. -/
theorem failsOnly_readText :
    FailsOnly
      (fun fault => fault.isRefusal = true ∨ ∃ bytes defect, disk.readBytes path = .ok bytes ∧
        Text.Utf8.decode bytes = .error defect ∧ fault = .undecodable defect)
      (disk.readText path) := by
  refine .bind ((failsOnly_readBytes hnull).mono fun _ => .inl) fun bytes hbytes => ?_
  split
  · exact .ok _
  · next defect hdefect => exact .error (.inr ⟨bytes, defect, hbytes, hdefect, rfl⟩)

theorem failsOnly_writeBytes (bytes : List UInt8) :
    FailsOnly (fun fault => fault.isRefusal = true) (disk.writeBytes path bytes) := by
  refine .bind (failsOnly_place hnull true) fun place _ => ?_
  split
  · exact .ok _
  · exact .error rfl
  · exact .ok _
  · exact .ok _

theorem failsOnly_makeFolder :
    FailsOnly (fun fault => fault.isRefusal = true) (disk.makeFolder path) := by
  refine .bind (failsOnly_place hnull false) fun place _ => ?_
  split
  · exact .error rfl
  · exact .ok _

theorem failsOnly_makeLink (target : String) :
    FailsOnly (fun fault => fault.isRefusal = true) (disk.makeLink path target) := by
  refine .bind (failsOnly_place hnull false) fun place _ => ?_
  split
  · exact .error rfl
  · exact .ok _

end NoNull

theorem failsOnly_tryFolder {text : String} {missing : String → Except Fault Unit × Disk}
    (hnull : '\x00' ∉ text.toList)
    (hmissing : ∀ refused, FailsOnly (fun fault => fault.isRefusal = true) (missing refused).1) :
    FailsOnly (fun fault => fault.isRefusal = true) (disk.tryFolder text missing).1 := by
  unfold tryFolder
  split
  · exact .ok _
  · exact hmissing _
  · split
    · exact .ok _
    · exact .error rfl
  · next hmade => exact .error (failsOnly_makeFolder hnull _ hmade)

theorem failsOnly_makeFoldersUpTo {path : Path} (h : path.NoNull) (depth : Nat) (disk : Disk) :
    FailsOnly (fun fault => fault.isRefusal = true) (makeFoldersUpTo depth path disk).1 := by
  have hnull := Path.noNull_iff.1 h
  induction depth generalizing path disk with
  | zero =>
      rw [makeFoldersUpTo_zero]
      exact failsOnly_tryFolder hnull fun _ => .error rfl
  | succ depth ih =>
      have habove := ih h.parent disk (Path.noNull_iff.1 h.parent)
      rw [makeFoldersUpTo_succ]
      refine failsOnly_tryFolder hnull fun _ => ?_
      generalize makeFoldersUpTo depth path.parent disk = ended at habove ⊢
      rcases ended with ⟨fault | _, below⟩
      · exact .error (habove fault rfl)
      · exact failsOnly_tryFolder hnull fun _ => .error rfl

theorem failsOnly_makeFolders {path : Path} (h : path.NoNull) (disk : Disk) :
    FailsOnly (fun fault => fault.isRefusal = true) (makeFolders path disk).1 :=
  failsOnly_makeFoldersUpTo h _ disk

/-! ### Canonical paths -/

/-- A canonical path can be looked for. -/
theorem noNull_of_locateLeniently {path found : Path} (h : disk.locateLeniently path = .ok found) :
    found.NoNull := by
  obtain ⟨resolution, -, h⟩ := bind_eq_ok.1 h
  dsimp only at h
  split at h
  · cases h
  · cases h
  · next hfind =>
    cases h
    rw [Path.noNull_iff]
    intro hnull
    apply hfind
    unfold find place
    rw [if_pos (by simpa using hnull)]
    rfl

theorem noNull_of_find {path : String} {found : List String × Node} (h : disk.find path = .ok found) :
    '\x00' ∉ path.toList :=
  (place_eq_ok.1 (find_eq_ok.1 h)).1

theorem noNull_of_isFile {path : Path} (h : disk.isFile path.toString = true) : path.NoNull := by
  unfold isFile at h
  split at h
  · next hfind => exact Path.noNull_iff.2 (noNull_of_find hfind)
  · cases h

end Disk

namespace Glob

variable {disk : Disk}

end Glob

end ElmSuite
