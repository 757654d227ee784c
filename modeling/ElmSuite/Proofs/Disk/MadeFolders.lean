import ElmSuite.Disk.Walk

/-!
How folders are made.  A folder is tried, and if what it is to stand in is missing, it is tried again after
the folders above it; so what every single folder keeps is kept by all of them.
-/

namespace ElmSuite.Disk

variable {disk : Disk} {text : String} {missing : String → Except Fault Unit × Disk}

/-- Makes a folder if what it is to stand in is there, and else goes on as told.  A folder that is there
already may stay. -/
def tryFolder (disk : Disk) (text : String) (missing : String → Except Fault Unit × Disk) :
    Except Fault Unit × Disk :=
  match disk.makeFolder text with
  | .ok made => (.ok (), made)
  | .error (.os ⟨.notFound, refused⟩) => missing refused
  | .error (.os error) => if disk.isFolder text then (.ok (), disk) else (.error (.os error), disk)
  | .error fault => (.error fault, disk)

theorem makeFoldersUpTo_zero (path : Path) (disk : Disk) : makeFoldersUpTo 0 path disk =
    disk.tryFolder path.toString fun refused => (.error (.refused .notFound refused), disk) := by
  rw [makeFoldersUpTo]
  rfl

theorem makeFoldersUpTo_succ (depth : Nat) (path : Path) (disk : Disk) :
    makeFoldersUpTo (depth + 1) path disk = disk.tryFolder path.toString fun _ =>
      match makeFoldersUpTo depth path.parent disk with
      | (.error fault, below) => (.error fault, below)
      | (.ok (), below) => below.tryFolder path.toString fun refused => (.error (.refused .notFound refused), below) := by
  rw [makeFoldersUpTo]
  rfl

/-- What is left is the disk with the folder, what is left where more is missing, or the disk as it was. -/
theorem tryFolder_keeps {property : Disk → Prop} (hsame : property disk)
    (hmade : ∀ made, disk.makeFolder text = .ok made → property made)
    (hmissing : ∀ refused, property (missing refused).2) : property (disk.tryFolder text missing).2 := by
  unfold tryFolder
  split
  · next made hmake => exact hmade made hmake
  · exact hmissing _
  · split <;> exact hsame
  · exact hsame

/-- A relation between disks, for a path, that each folder made keeps and that is handed down from the
folder above is one between the disks before and after all are made. -/
theorem makeFoldersUpTo_keeps (relation : Path → Disk → Disk → Prop)
    (hrefl : ∀ (path : Path) (disk : Disk), relation path disk disk)
    (hbelow : ∀ {path before after}, relation (Path.parent path) before after → relation path before after)
    (hmade : ∀ {path before between after}, relation path before between →
      between.makeFolder path.toString = .ok after → relation path before after)
    (depth : Nat) (path : Path) (disk : Disk) : relation path disk (makeFoldersUpTo depth path disk).2 := by
  induction depth generalizing path disk with
  | zero =>
      rw [makeFoldersUpTo_zero]
      exact tryFolder_keeps (hrefl path disk) (fun _ => hmade (hrefl path disk)) fun _ => hrefl path disk
  | succ depth ih =>
      have habove := hbelow (ih path.parent disk)
      rw [makeFoldersUpTo_succ]
      refine tryFolder_keeps (hrefl path disk) (fun _ => hmade (hrefl path disk)) fun _ => ?_
      generalize makeFoldersUpTo depth path.parent disk = ended at habove ⊢
      rcases ended with ⟨fault | _, between⟩
      · exact habove
      · exact tryFolder_keeps habove (fun _ => hmade habove) fun _ => habove

end ElmSuite.Disk
