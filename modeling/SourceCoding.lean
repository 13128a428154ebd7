import SourceCoding.Text.Quoted
import SourceCoding.Tree.Access
import SourceCoding.Config.Issue
import SourceCoding.Session
import SourceCoding.Failure
import SourceCoding.Pass
import SourceCoding.Report
import SourceCoding.SelfTest
import SourceCoding.Config.Load
import SourceCoding.Pattern
import SourceCoding.Main
import SourceCoding.Proofs.Actions
import SourceCoding.Proofs.Places
import SourceCoding.Proofs.CleanPass
import SourceCoding.Proofs.Interruption
import SourceCoding.Proofs.SecondPass
import SourceCoding.Proofs.Survival
import SourceCoding.Proofs.Apart
import SourceCoding.Proofs.Prediction
import SourceCoding.Proofs.Collected
import SourceCoding.Proofs.ExactCheck
import SourceCoding.Proofs.Separation
import SourceCoding.Proofs.Account
import SourceCoding.Proofs.Changes
import SourceCoding.Proofs.FirstFailure
import SourceCoding.Proofs.Calls
import SourceCoding.Proofs.Ways
import SourceCoding.Proofs.Exclusion
import SourceCoding.Proofs.Inspection
import SourceCoding.Proofs.Partition
import SourceCoding.Proofs.Scratch
import SourceCoding.Proofs.Rehearsal
import SourceCoding.Proofs.Hindsight
import SourceCoding.Proofs.Texts
import SourceCoding.Proofs.Commands
import SourceCoding.Proofs.Untouched
import SourceCoding.Proofs.ExitStatus
import SourceCoding.Proofs.TomlString
import SourceCoding.Proofs.TomlValue
import SourceCoding.Proofs.TomlStatements
import SourceCoding.Proofs.TomlReport
import SourceCoding.Proofs.Grammar
import SourceCoding.Proofs.Splice
import SourceCoding.Proofs.Remains
import SourceCoding.Proofs.Escapes
import SourceCoding.Proofs.JsonReport
import SourceCoding.Proofs.YamlScalar
import SourceCoding.Proofs.FaithfulReport
import SourceCoding.Proofs.CodingName
import SourceCoding.Proofs.Order
import SourceCoding.Proofs.Shelf
import SourceCoding.Proofs.Recoveries
import SourceCoding.Proofs.Workshop
import SourceCoding.Proofs.PassedScenarios
import SourceCoding.Proofs.TopLevel
import SourceCoding.Proofs.Settings
