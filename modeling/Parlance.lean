import Parlance.Main
import Parlance.Proofs.ActionTitles
import Parlance.Proofs.AddressPatterns
import Parlance.Proofs.Bodies
import Parlance.Proofs.ChainDeeds
import Parlance.Proofs.ChainSpellings
import Parlance.Proofs.CheckTitles
import Parlance.Proofs.CommentInvariance
import Parlance.Proofs.ConvertCommand
import Parlance.Proofs.DeclarationKinds
import Parlance.Proofs.MatchIteration
import Parlance.Proofs.MatchingBraces
import Parlance.Proofs.NamedAdvisories
import Parlance.Proofs.OpenBlocks
import Parlance.Proofs.PageCalls
import Parlance.Proofs.PerformedSteps
import Parlance.Proofs.Requoting
import Parlance.Proofs.Restyling
import Parlance.Proofs.SettingsFile
import Parlance.Proofs.SourceScan
import Parlance.Proofs.StatementSpans
import Parlance.Proofs.StepRoundTrip
import Parlance.Proofs.StringValues
import Parlance.Proofs.UnderstoodSteps
import Parlance.Proofs.Verbatim
import Parlance.Proofs.WrittenArguments
