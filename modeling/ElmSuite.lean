import ElmSuite.CommandLine.Command
import ElmSuite.Json.Reader
import ElmSuite.Main
import ElmSuite.Settings.Overrides
import ElmSuite.Proofs.CommandLine.WorkingFolder
import ElmSuite.Proofs.Elm.Literal
import ElmSuite.Proofs.Elm.BlankedComments
import ElmSuite.Proofs.Elm.KeptLines
import ElmSuite.Proofs.Suite.Discovery
import ElmSuite.Proofs.Elm.ModuleNaming
import ElmSuite.Proofs.Run.CanonicalPaths
import ElmSuite.Proofs.Run.CoherentManifest
import ElmSuite.Proofs.Run.Footprint
import ElmSuite.Proofs.Run.Leftovers
import ElmSuite.Proofs.Run.Reported
import ElmSuite.Proofs.Run.SourceDirectories
import ElmSuite.Proofs.Run.TargetOrder
import ElmSuite.Proofs.Run.DefaultTargets
import ElmSuite.Proofs.Elm.PrintedModule
import ElmSuite.Proofs.Suite.ReadableRunner
import ElmSuite.Proofs.Suite.Substitution
import ElmSuite.Proofs.Manifest.PinnedPackage
import ElmSuite.Proofs.Script.Edits
import ElmSuite.Proofs.Script.Stability
import ElmSuite.Proofs.Script.Commutation
import ElmSuite.Proofs.Manifest.PinnedVersion
import ElmSuite.Proofs.Suite.Transcription
