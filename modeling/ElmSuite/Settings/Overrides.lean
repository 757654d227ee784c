import ElmSuite.OrderedMap
import ElmSuite.Settings.Basic

/-!
Overrides of settings: values that are given by name, for some names maybe nothing.  They take the
place of the values that the settings have, and all values together are checked once more.
-/

namespace ElmSuite

/-- What is given by name for settings, in the order of the names. -/
abbrev Overrides := OrderedMap Codes (Option Given)

namespace Overrides

/-- The name and the value of an override, if a value is given. -/
def givenEntry? (entry : Codes × Option Given) : Option (Codes × Given) :=
  entry.2.map fun given => (entry.1, given)

theorem nodup_given (entries : List (Codes × Option Given)) (h : (entries.map Prod.fst).Nodup) :
    ((entries.filterMap givenEntry?).map Prod.fst).Nodup := by
  refine h.sublist ?_
  clear h
  induction entries with
  | nil => exact List.Sublist.refl []
  | cons entry entries ih =>
      obtain ⟨name, value⟩ := entry
      cases value with
      | none => exact ih.cons name
      | some given => exact ih.cons_cons name

/-- The values that are given, without the names for which nothing is. -/
def given (overrides : Overrides) : OrderedMap Codes Given :=
  ⟨overrides.entries.filterMap givenEntry?, nodup_given _ overrides.keys_nodup⟩

/-- The value that is given for a name, if one is. -/
def value? (overrides : Overrides) (name : Codes) : Option Given :=
  (overrides.get? name).join

/-- Overrides with the values of others in the place of their own. -/
def combine (below above : Overrides) : Overrides :=
  (below.given.update above.given).mapValues fun _ given => some given

end Overrides

namespace Settings

theorem nodup_names :
    [Codes.ofString "compiler", .ofString "seed", .ofString "fuzz", .ofString "workers",
      .ofString "report"].Nodup := by
  decide +kernel

/-- The settings as values that are given for them. -/
def dump (settings : Settings) : OrderedMap Codes Given where
  entries :=
    [ (.ofString "compiler", .text settings.compiler)
    , (.ofString "seed", .whole settings.seed)
    , (.ofString "fuzz", .whole settings.fuzz)
    , (.ofString "workers", .whole settings.workers)
    , (.ofString "report", .text settings.report) ]
  keys_nodup := nodup_names

/-- The entries of a map of values by name. -/
def namedEntries (values : OrderedMap Codes Given) : List (Key × Given) :=
  values.entries.map fun entry => (.name entry.1, entry.2)

/-- The failure for values that settings cannot have. -/
def rejection (found : List Objection) : Failure :=
  .settings (describe found) none

/-- The settings with overrides for some of them.  The values that they have are checked again along
with the new ones, so that none of them is left to a default. -/
def merged (current : Settings) (overrides : Overrides) : Except Failure Settings :=
  (current.update (namedEntries (current.dump.update overrides.given))).mapError rejection

end Settings

end ElmSuite
