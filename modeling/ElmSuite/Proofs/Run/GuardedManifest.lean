import ElmSuite.Proofs.Disk.NewLink
import ElmSuite.Proofs.Manifest.NoScript
import ElmSuite.Proofs.Manifest.RoundTrip
import ElmSuite.Proofs.Run.PatchedScript

/-!
The manifest of the generated project, once it is written.  The other files of the project stand at
locations of their own, so writing them leaves it alone.  The compiler may put a link at its output,
and that may lead to the manifest; but nothing is written there again except by the patch, and the
patch does not fit a manifest.
-/

namespace ElmSuite

open Act Path

/-- The names of the manifest below the root of its project. -/
def manifestNames : List String :=
  ["elm-stuff", "tests-0.19.1", "elm.json"]

/-- The root of a project leads to a folder, and no link stands at or below `elm-stuff` in it, except
at some scripts. -/
structure Sheltered (root : Path) (linked folder : List String) (disk : Disk) : Prop where
  leads : Disk.Leads disk [] (root.parts.flatMap named) folder
  links : ∀ below target, disk.nodeAt? (folder ++ "elm-stuff" :: below) = some (.link target) →
    ∃ name ∈ linked, below = ["tests-0.19.1", "js", name]

/-- In a sheltered project, the manifest holds some bytes. -/
structure Guarded (root : Path) (linked folder : List String) (bytes : List UInt8) (disk : Disk) : Prop
    extends Sheltered root linked folder disk where
  found : disk.find (Layout.mk root defaultElmVersion).manifest.toString =
    .ok (folder ++ manifestNames, .file bytes)

variable {root : Path} {linked folder : List String} {bytes : List UInt8} {disk before after : Disk}
  {name : String} {node : Node} {location : List String}

/-! ### Paths in the generated project -/

theorem root_eq (root : Path) :
    (Layout.mk root defaultElmVersion).root =
      ⟨root.anchor, root.parts ++ ["elm-stuff", "tests-0.19.1"]⟩ := by
  have hversion : ofString ("tests-" ++ defaultElmVersion) = ⟨.here, ["tests-0.19.1"]⟩ := by decide
  simp [Layout.root, child, join, hversion]

/-- The steps to an entry below the root of a project. -/
theorem steps_below (hroot : root.anchor ≠ .here) {names : List String}
    (hnames : ∀ name ∈ names, named name = [name]) (hname : ProperName name) :
    Disk.steps (Path.child ⟨root.anchor, root.parts ++ names⟩ name).toString =
      root.parts.flatMap named ++ (names ++ [name]) := by
  have hanchor : (⟨root.anchor, root.parts ++ names⟩ : Path).anchor ≠ .here := hroot
  rw [steps_child hanchor hname, List.flatMap_append, flatMap_named hnames, List.append_assoc]

theorem steps_manifest (hroot : root.anchor ≠ .here) :
    Disk.steps (Layout.mk root defaultElmVersion).manifest.toString =
      root.parts.flatMap named ++ manifestNames := by
  rw [Layout.manifest, root_eq]
  exact steps_below hroot (by decide) (by decide)

theorem steps_runnerSource (hroot : root.anchor ≠ .here) :
    Disk.steps (Layout.mk root defaultElmVersion).runnerSource.toString =
      root.parts.flatMap named ++ ["elm-stuff", "tests-0.19.1", "src", "Runner.elm"] := by
  have hsources : (Layout.mk root defaultElmVersion).sources =
      ⟨root.anchor, root.parts ++ ["elm-stuff", "tests-0.19.1", "src"]⟩ := by
    simp [Layout.sources, root_eq, child]
  rw [Layout.runnerSource, hsources]
  exact steps_below hroot (by decide) (by decide)

theorem isAbsolute_manifest (hroot : root.anchor ≠ .here) :
    Disk.isAbsolute (Layout.mk root defaultElmVersion).manifest.toString = true := by
  apply isAbsolute_toString
  rw [Layout.manifest, root_eq]
  exact hroot

theorem isAbsolute_runnerSource (hroot : root.anchor ≠ .here) :
    Disk.isAbsolute (Layout.mk root defaultElmVersion).runnerSource.toString = true := by
  apply isAbsolute_toString
  rw [Layout.runnerSource, Layout.sources, root_eq]
  exact hroot

theorem told_noOutput (layout : Layout) : layout.told Compiler.noOutput = Compiler.noOutput := by
  have hself : ofString Compiler.noOutput.toString = Compiler.noOutput := by decide
  rw [Layout.told, hself, join, if_neg (by decide)]

theorem spells_noOutput : Spells Compiler.noOutput.toString ["dev", "null"] :=
  ⟨by decide, by decide, by decide⟩

/-! ### What leaves the manifest alone -/

theorem Sheltered.location_eq (h : Sheltered root linked folder disk) {text : String}
    {way rest : List String} (hway : Disk.Leads disk [] way folder)
    (habsolute : Disk.isAbsolute text = true) (hsteps : Disk.steps text = way ++ "elm-stuff" :: rest)
    (hplain : ∀ step ∈ rest, step ≠ "." ∧ step ≠ "..")
    (hfree : ∀ name ∈ linked, ¬ ["tests-0.19.1", "js", name] <+: rest)
    (hfind : disk.find text = .ok (location, node)) : location = folder ++ "elm-stuff" :: rest := by
  apply Disk.location_of_find hway habsolute hsteps _ _ hfind
  · exact List.forall_mem_cons.2 ⟨by decide, hplain⟩
  · intro count target hlink
    obtain ⟨name, hname, heq⟩ := h.links _ target hlink
    exact hfree name hname (heq ▸ List.take_prefix count rest)

theorem Sheltered.location_manifest (h : Sheltered root linked folder disk)
    (hroot : root.anchor ≠ .here)
    (hfind : disk.find (Layout.mk root defaultElmVersion).manifest.toString = .ok (location, node)) :
    location = folder ++ manifestNames := by
  refine h.location_eq h.leads (isAbsolute_manifest hroot) (steps_manifest hroot) (by decide) ?_ hfind
  intro name _ hprefix
  simp at hprefix

theorem Guarded.retain {more : List String} (h : Guarded root linked folder bytes before)
    (hkept : before.Retains (fun other => other = folder ++ manifestNames) after)
    (hlinks : ∀ below target, after.nodeAt? (folder ++ "elm-stuff" :: below) = some (.link target) →
      ∃ name ∈ more, below = ["tests-0.19.1", "js", name]) :
    Guarded root more folder bytes after where
  leads := h.leads.retain hkept
  links := hlinks
  found := by
    obtain ⟨later, hlater, hfind⟩ := Disk.find_retain hkept h.found
    rw [hkept.file rfl (Disk.nodeAt?_of_find_eq h.found), Option.some.injEq] at hlater
    rw [hlater]
    exact hfind

theorem Guarded.grow (h : Guarded root linked folder bytes before)
    (hgrows : before.Grows (fun other => other = folder ++ manifestNames) after) :
    Guarded root linked folder bytes after :=
  h.retain hgrows.toRetains fun below target hlink => h.links below target (hgrows.links _ _ hlink)

theorem Sheltered.grow {spared : List String → Prop} (h : Sheltered root linked folder before)
    (hgrows : before.Grows spared after) : Sheltered root linked folder after where
  leads := h.leads.retain hgrows.toRetains
  links below target hlink := h.links below target (hgrows.links _ _ hlink)

theorem Guarded.mono {more : List String} (h : Guarded root linked folder bytes disk)
    (hmore : linked ⊆ more) : Guarded root more folder bytes disk where
  leads := h.leads
  links below target hlink := by
    obtain ⟨name, hname, heq⟩ := h.links below target hlink
    exact ⟨name, hmore hname, heq⟩
  found := h.found

/-- The manifest is as guarded as it was. -/
def Guards (root : Path) (linked folder : List String) (bytes : List UInt8) (before after : World) :
    Prop :=
  Guarded root linked folder bytes before.disk → Guarded root linked folder bytes after.disk

theorem permissive_guards (root : Path) (linked folder : List String) (bytes : List UInt8) :
    Permissive (Guards root linked folder bytes) (fun _ => True) fun text =>
      ∀ disk found node, Sheltered root linked folder disk → disk.find text = .ok (found, node) →
        found ≠ folder ++ manifestNames where
  refl _ h := h
  trans hfirst hsecond h := hsecond (hfirst h)
  lines _ _ h := h
  folders world path _ h := h.grow (Disk.makeFolders_grow _ path world.disk)
  files world path written disk hwritable hdisk h := by
    rcases Disk.writeBytes_eq_ok hdisk with ⟨found, hfind, hgrows⟩ | ⟨rfl, -⟩
    · have hne := hwritable disk found _ (h.toSheltered.grow hgrows) hfind
      apply h.grow (hgrows.mono _)
      rintro other rfl
      exact Ne.symm hne
    · exact h

/-- A script at which no link stands is not the manifest. -/
theorem Sheltered.script_ne (h : Sheltered root linked folder disk) (hroot : root.anchor ≠ .here)
    (hname : ProperName name) (hfree : name ∉ linked)
    (hfind : disk.find ((Layout.mk root defaultElmVersion).scripts.child name).toString =
      .ok (location, node)) : location ≠ folder ++ manifestNames := by
  have hlocation : location = folder ++ scriptNames name := by
    refine h.location_eq h.leads (isAbsolute_script hroot name) (steps_script hroot hname) ?_ ?_ hfind
    · simpa using ⟨hname.notHere, hname.notAbove⟩
    · rintro other hother ⟨rest, hrest⟩
      cases hrest
      exact hfree hother
  rw [hlocation]
  simp [scriptNames, manifestNames]

theorem Sheltered.runnerSource_ne (h : Sheltered root linked folder disk)
    (hroot : root.anchor ≠ .here)
    (hfind : disk.find (Layout.mk root defaultElmVersion).runnerSource.toString =
      .ok (location, node)) : location ≠ folder ++ manifestNames := by
  have hlocation : location = folder ++ ["elm-stuff", "tests-0.19.1", "src", "Runner.elm"] := by
    refine h.location_eq h.leads (isAbsolute_runnerSource hroot) (steps_runnerSource hroot) (by decide)
      ?_ hfind
    intro name _ hprefix
    simp at hprefix
  rw [hlocation]
  simp [manifestNames]

/-! ### Patches -/

/-- A script is patched in place, or nothing is written. -/
theorem Generation.disk_patchFile (tag : Script.IdentityTag) (path : Path) (world : World) :
    ((patchFile tag path).run world).2.disk = world.disk ∨
      ∃ code patched, world.disk.readText path.toString = .ok code ∧
        Script.patch tag code = .ok patched ∧
        world.disk.writeText path.toString patched =
          .ok ((patchFile tag path).run world).2.disk := by
  rw [patchFile, run_bind, Act.readText, run_look]
  cases hread : world.disk.readText path.toString with
  | error fault => exact .inl rfl
  | ok code =>
      dsimp only [Except.mapError]
      rw [run_bind, run_ofFailure]
      cases htag : Script.tagConstructors tag code with
      | error cause => exact .inl rfl
      | ok tagged =>
          dsimp only [Except.mapError]
          rw [run_bind, run_note]
          dsimp only
          rw [run_bind, run_ofFailure]
          cases hcheck : Script.replaceCheck tag tagged with
          | error cause => exact .inl rfl
          | ok checked =>
              dsimp only [Except.mapError]
              rw [run_bind, Act.writeText, run_change]
              split
              · next disk hwrite =>
                split at hwrite
                · next written hdisk =>
                  cases hwrite
                  refine .inr ⟨code, Script.allocateSymbol tag checked, rfl, ?_, hdisk⟩
                  rw [Script.patch, htag, ok_bind, hcheck]
                  rfl
                · cases hwrite
              · next hwrite =>
                split at hwrite <;> cases hwrite
                exact .inl rfl

/-- A patch never changes the manifest: a script that leads to it cannot be patched. -/
theorem Guarded.patchFile {app : Application} {text : List Char} (hprint : app.print = .ok text)
    (h : Guarded root linked folder (Text.Utf8.encode text) disk) (tag : Script.IdentityTag)
    (path : Path) {world : World} (hworld : world.disk = disk) :
    Guarded root linked folder (Text.Utf8.encode text)
      ((Generation.patchFile tag path).run world).2.disk := by
  subst hworld
  rcases Generation.disk_patchFile tag path world with hsame | ⟨code, patched, hread, hpatch, hwrite⟩
  · rw [hsame]
    exact h
  · rcases Disk.writeBytes_eq_ok hwrite with ⟨location, hfind, hgrows⟩ | ⟨hsame, -⟩
    · refine h.grow (hgrows.mono ?_)
      rintro other rfl rfl
      -- The script and the manifest are one file.
      obtain ⟨found, node, hbefore⟩ := exists_location_of_readText hread
      obtain ⟨later, -, hafter⟩ := Disk.find_retain hgrows.toRetains hbefore
      rw [hfind] at hafter
      cases hafter
      have hnode := Disk.nodeAt?_of_find_eq h.found
      rw [Disk.nodeAt?_of_find_eq hbefore, Option.some.injEq] at hnode
      rw [hnode] at hbefore
      rw [ManifestFile.readText_of_find hbefore (Application.not_mem_print hprint)] at hread
      cases hread
      rw [Application.patch_print tag hprint] at hpatch
      cases hpatch
    · rw [hsame]
      exact h

/-! ### What the compiler puts at its output -/

/-- A link that is put at a path stands at the last name of the path, in the folder to which the way
in front leads; all else stays. -/
theorem Act.place_link_cases {spared : List String → Prop} {path : Path} {target : String}
    {front : List String} (habsolute : Disk.isAbsolute path.toString = true)
    (hsteps : Disk.steps path.toString = front ++ [name]) (hdot : name ≠ ".") (hup : name ≠ "..")
    (world : World) :
    world.disk.Grows spared ((place path (.link target)).run world).2.disk ∨
      ∃ made above, world.disk.Grows spared made ∧ Disk.Leads made [] front above ∧
        made.Retains spared ((place path (.link target)).run world).2.disk ∧
        ∀ other found, ((place path (.link target)).run world).2.disk.nodeAt? other =
          some (.link found) → other = above ++ [name] ∨ made.nodeAt? other = some (.link found) := by
  have hgrows := Disk.makeFolders_grow spared path.parent world.disk
  rw [place, run_bind, run_makeFolders]
  cases (Disk.makeFolders path.parent world.disk).1 with
  | error fault => exact .inl hgrows
  | ok _ =>
      dsimp only [Except.mapError]
      rw [run_change]
      split
      · next disk hmade =>
        obtain ⟨above, hleads, hkept, hlinks⟩ := Disk.makeLink_eq_ok hmade habsolute hsteps hdot hup
        exact .inr ⟨_, above, hgrows, hleads, hkept, hlinks⟩
      · exact .inl hgrows

/-- Whatever is put at a script is no manifest, and where a link is put, a link may stand from then
on. -/
theorem Guarded.place_script (h : Guarded root linked folder bytes disk) (hroot : root.anchor ≠ .here)
    (hname : ProperName name) (hfree : name ∉ linked) (content : Content) {world : World}
    (hworld : world.disk = disk) :
    Guarded root (name :: linked) folder bytes ((place ((Layout.mk root defaultElmVersion).told
      ((Layout.mk root defaultElmVersion).scripts.child name)) content).run world).2.disk := by
  subst hworld
  have hguards := permissive_guards root linked folder bytes
  obtain ⟨anchor, hanchor, htold⟩ := exists_told_eq hroot hname
  have habsolute : Disk.isAbsolute ((Layout.mk root defaultElmVersion).told
      ((Layout.mk root defaultElmVersion).scripts.child name)).toString = true := by
    rw [htold]
    exact isAbsolute_toString hanchor
  have hsteps := steps_told hroot hname
  have hplain : ∀ step ∈ ["tests-0.19.1", "js", name], step ≠ "." ∧ step ≠ ".." := by
    simpa using ⟨hname.notHere, hname.notAbove⟩
  have hbefore : ∀ other ∈ linked, ¬ ["tests-0.19.1", "js", other] <+: ["tests-0.19.1", "js", name] := by
    rintro other hother ⟨rest, hrest⟩
    cases hrest
    exact hfree hother
  cases content with
  | file written =>
      refine Guarded.mono ?_ (List.subset_cons_self name linked)
      refine hguards.placeFile trivial ?_ written world h
      intro disk found node hsheltered hfind
      rw [hsheltered.location_eq hsheltered.leads.skip habsolute hsteps hplain hbefore hfind]
      simp [manifestNames]
  | folder => exact (hguards.makeFolders trivial world h).mono (List.subset_cons_self name linked)
  | link target =>
      have hfront : Disk.steps ((Layout.mk root defaultElmVersion).told
          ((Layout.mk root defaultElmVersion).scripts.child name)).toString =
          ((root.parts.flatMap named).filter (fun step => !(step == ".")) ++
            ["elm-stuff", "tests-0.19.1", "js"]) ++ [name] := by
        rw [hsteps, List.append_assoc]
        rfl
      rcases place_link_cases habsolute hfront hname.notHere hname.notAbove world with
        hgrows | ⟨made, above, hgrows, hleads, hkept, hlinks⟩
      · exact (h.grow hgrows).mono (List.subset_cons_self name linked)
      · have hmade := h.grow hgrows
        obtain ⟨between, hfirst, hrest⟩ := hleads.split
        rw [hfirst.unique hmade.leads.skip] at hrest
        have habove : above = folder ++ ["elm-stuff", "tests-0.19.1", "js"] := by
          refine hrest.eq_append_of_no_link (by decide) fun count found hlink => ?_
          obtain ⟨other, hother, heq⟩ := hmade.links _ found hlink
          exact hbefore other hother (heq ▸ (List.take_prefix count _).trans ⟨[name], rfl⟩)
        refine hmade.retain hkept fun below found hlink => ?_
        rcases hlinks _ found hlink with hlocation | hold
        · rw [habove, List.append_assoc, List.append_cancel_left_eq, List.cons_append,
            List.cons.injEq] at hlocation
          exact ⟨name, List.mem_cons_self, hlocation.2⟩
        · obtain ⟨other, hother, heq⟩ := hmade.links below found hold
          exact ⟨other, List.mem_cons_of_mem name hother, heq⟩

/-- Whatever is put at the output of a compilation that only checks its sources is no manifest, if no
link stands there. -/
theorem Guarded.place_noOutput (h : Guarded root linked folder bytes disk)
    (hnull : disk.NoLinkOn ["dev", "null"]) (content : Content) {world : World}
    (hworld : world.disk = disk) :
    Guarded root linked folder bytes ((place Compiler.noOutput content).run world).2.disk := by
  subst hworld
  have hproper : ∀ name ∈ ["dev", "null"], ProperName name := by decide
  have hkeep {after : Disk} (hgrows : world.disk.Grows (fun _ => False) after) :
      after.NoLinkOn ["dev", "null"] := fun count target hlink =>
    hnull count target (hgrows.links _ _ hlink)
  cases content with
  | file written =>
      rw [place, run_bind, run_makeFolders]
      have hgrows := Disk.makeFolders_grow (fun _ => False) Compiler.noOutput.parent world.disk
      have hmade := h.grow (Disk.makeFolders_grow _ Compiler.noOutput.parent world.disk)
      cases (Disk.makeFolders Compiler.noOutput.parent world.disk).1 with
      | error fault => exact hmade
      | ok _ =>
          dsimp only [Except.mapError]
          rw [run_change]
          split
          · next disk hwrite =>
            rcases Disk.writeBytes_eq_ok hwrite with ⟨found, hfind, hgrows'⟩ | ⟨rfl, -⟩
            · obtain ⟨-, hlocation, -⟩ := Disk.nodeAt?_of_find spells_noOutput hproper
                (hkeep (hgrows.trans (hgrows'.mono fun _ hfalse => hfalse.elim))) hfind
              subst hlocation
              apply hmade.grow (hgrows'.mono _)
              rintro other rfl heq
              have hlength := congrArg List.length heq
              simp [manifestNames] at hlength
            · exact hmade
          · exact hmade
  | folder => exact (permissive_guards root linked folder bytes).makeFolders trivial world h
  | link target =>
      have habsolute : Disk.isAbsolute Compiler.noOutput.toString = true := by decide
      have hsteps : Disk.steps Compiler.noOutput.toString = ["dev"] ++ ["null"] := by decide
      rcases place_link_cases habsolute hsteps (by decide) (by decide) world with
        hgrows | ⟨made, above, hgrows, hleads, hkept, hlinks⟩
      · exact h.grow hgrows
      · have hmade := h.grow hgrows
        have habove : above = ["dev"] := by
          have hnone := hkeep (hgrows.mono fun _ hfalse => hfalse.elim) 1
          simpa using hleads.eq_append_of_no_link (by decide) fun count => by simpa using hnone
        refine hmade.retain hkept fun below found hlink => ?_
        rcases hlinks _ found hlink with hlocation | hold
        · rw [habove] at hlocation
          rcases folder with _ | ⟨first, _ | ⟨second, rest⟩⟩ <;> simp at hlocation
        · exact hmade.links below found hold

end ElmSuite
