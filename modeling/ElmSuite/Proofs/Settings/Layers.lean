import ElmSuite.Proofs.Lists
import ElmSuite.Settings.File

/-!
Settings in layers.  A layer gives values for some settings by name, and an update lays it over the
settings there are: a setting has the value that is given for it, and keeps the one it has if none is
given.  What is laid on top of another layer wins, for each setting on its own.
-/

namespace ElmSuite

/-- What a given value is taken as, or a value by default if none is given. -/
def Given.taken {α : Type} (take : Given → Except Complaint α) (default : α) (given : Option Given) :
    Except Complaint α :=
  given.elim (.ok default) take

theorem Given.taken_or {α : Type} {take : Given → Except Complaint α} {default below value : α}
    {upper lower : Option Given} (hlower : taken take default lower = .ok below)
    (hupper : taken take below upper = .ok value) : taken take default (upper.or lower) = .ok value := by
  cases upper with
  | none =>
      cases hupper
      exact hlower
  | some given => exact hupper

namespace Settings

/-- What a layer gives for settings, by their names. -/
abbrev Layer := String → Option Given

/-- Settings that a layer makes of older ones. -/
structure Layered (layer : Layer) (old new : Settings) : Prop where
  compiler : Given.taken Given.asText old.compiler (layer "compiler") = .ok new.compiler
  seed : Given.taken Given.asWhole (old.seed : Int) (layer "seed") = .ok (new.seed : Int)
  fuzz : Given.taken Given.asWhole (old.fuzz : Int) (layer "fuzz") = .ok (new.fuzz : Int)
  workers : Given.taken Given.asWhole (old.workers : Int) (layer "workers") = .ok (new.workers : Int)
  report : Given.taken Given.asText old.report (layer "report") = .ok new.report

theorem Layered.nothing (settings : Settings) : Layered (fun _ => none) settings settings :=
  ⟨rfl, rfl, rfl, rfl, rfl⟩

/-- A layer on top of another. -/
theorem Layered.over {lower upper : Layer} {old between new : Settings} (hlower : Layered lower old between)
    (hupper : Layered upper between new) :
    Layered (fun name => (upper name).or (lower name)) old new where
  compiler := Given.taken_or hlower.compiler hupper.compiler
  seed := Given.taken_or hlower.seed hupper.seed
  fuzz := Given.taken_or hlower.fuzz hupper.fuzz
  workers := Given.taken_or hlower.workers hupper.workers
  report := Given.taken_or hlower.report hupper.report

/-- The layer of a list of entries. -/
def layerOf (entries : List (Key × Given)) : Layer :=
  fun name => entries.lookup (.name (.ofString name))

theorem asWhole_of_takeSeed {given : Given} {value : Fin seedBound} (h : takeSeed given = .ok value) :
    given.asWhole = .ok (value.1 : Int) := by
  obtain ⟨whole, hwhole, h⟩ := bind_eq_ok.1 h
  split at h
  · cases h
  · next hsign =>
    split at h
    · cases h
      rw [hwhole, Int.toNat_of_nonneg (by omega)]
    · cases h

theorem asWhole_of_takeCount {given : Given} {value : { n : Nat // 0 < n }}
    (h : takeCount given = .ok value) : given.asWhole = .ok (value.1 : Int) := by
  obtain ⟨whole, hwhole, h⟩ := bind_eq_ok.1 h
  split at h
  · next hpos =>
    cases h
    rw [hwhole, Int.toNat_of_nonneg (by omega)]
  · cases h

/-- A field of an update has the value of the layer, seen in another way. -/
theorem taken_of_field {α β : Type} {entries : List (Key × Given)} {name : String} {old value : α}
    {take : Given → Except Given.Complaint α} {see : Given → Except Given.Complaint β} (view : α → β)
    (h : field entries name old take = .ok value)
    (hsee : ∀ given value, take given = .ok value → see given = .ok (view value)) :
    Given.taken see (view old) (layerOf entries name) = .ok (view value) := by
  unfold field at h
  unfold layerOf
  split at h
  · next hnone =>
    cases h
    rw [hnone]
    rfl
  · next given hsome =>
    rw [hsome]
    exact hsee given value (mapError_eq_ok.1 h)

theorem layered_of_update {current settings : Settings} {entries : List (Key × Given)}
    (h : current.update entries = .ok settings) : Layered (layerOf entries) current settings := by
  unfold update at h
  split at h
  · cases h
  unfold updateFields at h
  dsimp only at h
  split at h
  · next hcompiler hseed hfuzz hworkers hreport _ =>
    cases h
    exact
      { compiler := taken_of_field id hcompiler fun _ _ h => h
        seed := taken_of_field (fun seed => (seed.1 : Int)) hseed fun _ _ => asWhole_of_takeSeed
        fuzz := taken_of_field (fun count => (count.1 : Int)) hfuzz fun _ _ => asWhole_of_takeCount
        workers := taken_of_field (fun count => (count.1 : Int)) hworkers fun _ _ => asWhole_of_takeCount
        report := taken_of_field id hreport fun _ _ h => h }
  · cases h

/-! ### Settings files -/

variable {surroundings : Surroundings} {disk : Disk} {config : Option String} {settings : Settings}

theorem load_some (surroundings : Surroundings) (disk : Disk) (given : String) :
    load surroundings disk (some given) =
      (disk.checkFile (Path.ofString given).toString).mapError Trouble.fault >>= fun found =>
        if found = true then
          match disk.readText (Path.ofString given).toString with
          | .ok text => ofText surroundings (Path.ofString given).toString text
          | .error fault =>
              .error (.failure (.settings (unreadable fault) (some (Path.ofString given).toString)))
        else
          .error (.failure (.settings ("Settings file not found: " ++ (Path.ofString given).toString)
            (some (Path.ofString given).toString))) := by
  unfold load
  dsimp only
  rcases disk.checkFile (Path.ofString given).toString with fault | found
  · rfl
  · cases found
    · rfl
    · cases disk.readText (Path.ofString given).toString <;> rfl

/-- The entries of the text of a settings file. -/
def textEntries (text : List Char) : List (Key × Given) :=
  match Yaml.Data.ofText text with
  | .error _ => []
  | .ok data => (entriesOf data).toOption.getD []

theorem layered_of_ofText {path : String} {text : List Char}
    (h : ofText surroundings path text = .ok settings) :
    Layered (layerOf (textEntries text)) (initial surroundings) settings := by
  unfold ofText at h
  unfold textEntries
  split at h
  · cases h
  · cases h
  · next data hdata =>
    rw [hdata]
    dsimp only
    split at h
    · cases h
    · next entries hentries =>
      rw [hentries]
      exact layered_of_update (mapError_eq_ok.1 h)

/-- The entries of a settings file, as far as it can be read; without a file there are none. -/
def fileEntries (disk : Disk) : Option String → List (Key × Given)
  | none => []
  | some given =>
      match disk.readText (Path.ofString given).toString with
      | .error _ => []
      | .ok text => textEntries text

/-- Settings that are loaded are those that the entries of the file make of the initial ones. -/
theorem layered_of_load (h : load surroundings disk config = .ok settings) :
    Layered (layerOf (fileEntries disk config)) (initial surroundings) settings := by
  cases config with
  | none =>
      cases h
      exact .nothing _
  | some given =>
      rw [load_some] at h
      obtain ⟨found, -, h⟩ := bind_eq_ok.1 h
      cases found with
      | false => cases h
      | true =>
          rw [if_pos rfl] at h
          cases hread : disk.readText (Path.ofString given).toString with
          | error fault =>
              rw [hread] at h
              cases h
          | ok text =>
              rw [hread] at h
              dsimp only at h
              unfold fileEntries
              dsimp only
              rw [hread]
              exact layered_of_ofText h

/-- A trouble is a mistake of the user, unless it is a fault. -/
def IsMistake (trouble : Trouble) : Prop :=
  ∀ cause, trouble = .failure cause → cause.exitCode = 2

theorem isMistake_settings (words : String) (path : Option String) :
    IsMistake (.failure (.settings words path)) := by
  intro cause hcause
  cases hcause
  rfl

theorem isMistake_fault (fault : Fault) : IsMistake (.fault fault) := by
  intro cause hcause
  cases hcause

theorem failsOnly_ofText (surroundings : Surroundings) (path : String) (text : List Char) :
    FailsOnly IsMistake (ofText surroundings path text) := by
  unfold ofText
  split
  · exact .error (isMistake_fault _)
  · exact .error (isMistake_settings _ _)
  · split
    · exact .error (isMistake_settings _ _)
    · exact .mapError fun _ _ => isMistake_settings _ _

/-- A settings file that is rejected is a mistake of the user. -/
theorem failsOnly_load (surroundings : Surroundings) (disk : Disk) (config : Option String) :
    FailsOnly IsMistake (load surroundings disk config) := by
  cases config with
  | none => exact .ok _
  | some given =>
      rw [load_some]
      refine .bind (.mapError fun _ _ => isMistake_fault _) fun found _ => ?_
      split
      · split
        · exact failsOnly_ofText _ _ _
        · exact .error (isMistake_settings _ _)
      · exact .error (isMistake_settings _ _)

/-- So are values that settings cannot have. -/
theorem failsOnly_merge (settings : Settings) (values : List (String × Given)) :
    FailsOnly IsMistake ((settings.merge values).mapError .failure) :=
  .mapError (.mapError fun _ _ => isMistake_settings _ _)

end Settings

end ElmSuite
