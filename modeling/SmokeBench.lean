import SmokeBench.Listing
import SmokeBench.Machine.Host
import SmokeBench.Machine.Image
import SmokeBench.Program
import SmokeBench.Proofs.Requests
import SmokeBench.Proofs.Rendering
import SmokeBench.Proofs.Agreement
import SmokeBench.Proofs.Files
import SmokeBench.Proofs.Visits
import SmokeBench.Proofs.ScopeLife
import SmokeBench.Proofs.ProcessGroup
import SmokeBench.Proofs.TimeBounds
import SmokeBench.Proofs.Lifecycle
import SmokeBench.Proofs.Isolation
import SmokeBench.Proofs.OneLine
import SmokeBench.Proofs.PositiveTimes
import SmokeBench.Proofs.Sightings
import SmokeBench.Proofs.ScopePaths
import SmokeBench.Proofs.ScopeNames
import SmokeBench.Proofs.Encoding
import SmokeBench.Proofs.JsonReader
import SmokeBench.Proofs.SummaryReader
import SmokeBench.Proofs.DocumentKeys
import SmokeBench.Proofs.DocumentLeaves
import SmokeBench.Proofs.SectionFields
import SmokeBench.Proofs.SettingsLeaves
import SmokeBench.Proofs.Lowercasing
import SmokeBench.Proofs.Probing
import SmokeBench.Proofs.TextSearch
import SmokeBench.Proofs.Decoding
import SmokeBench.Proofs.Places
import SmokeBench.Proofs.Evaluators
import SmokeBench.Proofs.SuiteSequence
import SmokeBench.Proofs.SummaryFiles
import SmokeBench.Proofs.ProgramSteps
import SmokeBench.Proofs.ExitStatus
import SmokeBench.Proofs.SuiteListing
import SmokeBench.Proofs.HandedPaths
import SmokeBench.Proofs.ScopeArguments
import SmokeBench.Proofs.ScopeNeeds
import SmokeBench.Proofs.ScopeTenants
import SmokeBench.Proofs.ScopeYard
import SmokeBench.Proofs.Strangers
import SmokeBench.Proofs.SubjectEnds
import SmokeBench.Proofs.LeaderLife
import SmokeBench.Proofs.Signalling
import SmokeBench.Proofs.RunFlags
import SmokeBench.Proofs.HelpSize
import SmokeBench.Proofs.WatchPolls
import SmokeBench.Proofs.WatchMemory
import SmokeBench.Proofs.WatchLooks
import SmokeBench.Proofs.WatchTime
import SmokeBench.Proofs.EarlyExit
import SmokeBench.Proofs.DataVerdicts
import SmokeBench.Proofs.DataFiles
import SmokeBench.Proofs.FullSink
import SmokeBench.Proofs.Announcing
import SmokeBench.Proofs.Layers
import SmokeBench.Proofs.ReleasedTexts
import SmokeBench.Proofs.Trimming
import SmokeBench.Proofs.Variables
import SmokeBench.Proofs.WrittenSettings
import SmokeBench.Proofs.BlankSettings
import SmokeBench.Proofs.AsciiCase
import SmokeBench.Proofs.RunVerdicts
import SmokeBench.Proofs.FirstPass
import SmokeBench.Proofs.RenderedArguments
import SmokeBench.Proofs.DigestReader
import SmokeBench.Proofs.ScopeFrame
