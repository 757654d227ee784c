import ElmSuite.Disk.Walk
import ElmSuite.Settings.Basic

/-!
Settings files: YAML documents that give values to settings by name.
-/

namespace ElmSuite.Settings

/-- The key of an entry of a settings file. -/
def Key.ofYaml : Yaml.Value → Key
  | .string codes => .name codes
  | key => .other key.keyLabel

/-- The values that a document gives; a document without content gives none. -/
def entriesOf (data : Yaml.Data) : Except String (List (Key × Given)) :=
  match data.root with
  | .null => .ok []
  | .collection .mapping =>
      .ok (data.entries.map fun (key, value) => (.ofYaml key, .ofYaml value))
  | other => .error ("Expected YAML mapping at root, got " ++ other.kindName)

/-- The settings that the text of a file leads to. -/
def ofText (surroundings : Surroundings) (path : String) (text : List Char) :
    Except Trouble Settings :=
  match Yaml.Data.ofText text with
  | .error (.badScalar fault) => .error (.fault (.badScalar fault))
  | .error defect => .error (.failure (.settings ("Invalid YAML: " ++ defect.message) (some path)))
  | .ok data =>
      match entriesOf data with
      | .error words => .error (.failure (.settings words (some path)))
      | .ok entries =>
          ((initial surroundings).update entries).mapError fun found =>
            .failure (.settings (describe found) (some path))

/-- The words for why a file cannot be read. -/
def unreadable : Fault → String
  | .undecodable defect => "Cannot read file: " ++ defect.inPieces.message
  | fault => "Cannot read file: " ++ fault.message

/-- The settings that a file leads to; without a file nothing is said about them. -/
def load (surroundings : Surroundings) (disk : Disk) : Option String → Except Trouble Settings
  | none => .ok (initial surroundings)
  | some given => do
      let path := (Path.ofString given).toString
      let found ← (disk.checkFile path).mapError Trouble.fault
      if !found then throw (.failure (.settings ("Settings file not found: " ++ path) (some path)))
      match disk.readText path with
      | .ok text => ofText surroundings path text
      | .error fault => throw (.failure (.settings (unreadable fault) (some path)))

end ElmSuite.Settings
