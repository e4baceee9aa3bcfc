import Activation.Files.Tree
import Activation.Main
import Activation.Proofs.Candidates.FirstOccurrence
import Activation.Proofs.Command.Agreement
import Activation.Proofs.Command.Features
import Activation.Proofs.Command.Layers
import Activation.Proofs.Command.SelfIndexed
import Activation.Proofs.Exclusion.Standing
import Activation.Proofs.Filter.Chain
import Activation.Proofs.Filter.Verdicts
import Activation.Proofs.Index.Hint
import Activation.Proofs.Index.Listing
import Activation.Proofs.Index.Records
import Activation.Proofs.Manifest.Grammar
import Activation.Proofs.Manifest.Requirements
import Activation.Proofs.Order.Conflict
import Activation.Proofs.Order.Precomputed
import Activation.Proofs.Order.Redeclaration
import Activation.Proofs.Pass.Conversation
import Activation.Proofs.Selection.Accounts
import Activation.Proofs.Selection.Effect
import Activation.Proofs.Selection.Indifference
import Activation.Proofs.Selection.Outcome
import Activation.Proofs.Selection.Progress
import Activation.Proofs.Selection.Traceless
import Activation.Proofs.Settings.Properties
import Activation.Proofs.Settings.Spelling
import Activation.Proofs.Text.Tokens
import Activation.Proofs.Walk.Recursion
import Activation.Proofs.Walk.Work
