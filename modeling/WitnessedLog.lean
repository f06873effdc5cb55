import WitnessedLog.Capability.Prescribed
import WitnessedLog.Files.Tree
import WitnessedLog.LoggingProof.Written
import WitnessedLog.Main
import WitnessedLog.Merkle.Joined
import WitnessedLog.Merkle.PathLength
import WitnessedLog.Policy.Written
import WitnessedLog.Program.Listing
import WitnessedLog.Proofs.Merkle.Soundness
import WitnessedLog.Proofs.Verification.TwoForms
import WitnessedLog.Quorum.Demand
import WitnessedLog.Proofs.Quorum.Rearrangement
import WitnessedLog.Proofs.Verification.Acceptance
import WitnessedLog.Proofs.Program.BlockOrder
import WitnessedLog.Proofs.Policy.DeclarationOrder
import WitnessedLog.Proofs.Program.Decompiling
import WitnessedLog.Proofs.Policy.Faithfulness
import WitnessedLog.Proofs.Verification.CompletionOrder
import WitnessedLog.Proofs.Verification.TrustedKeys
import WitnessedLog.Proofs.Text.Spellings
import WitnessedLog.Proofs.CompiledPolicy.Format
import WitnessedLog.Proofs.Verification.Statements
import WitnessedLog.Proofs.Policy.Directives
import WitnessedLog.Proofs.Verification.Failures
import WitnessedLog.Proofs.Policy.LineOrder
import WitnessedLog.Proofs.Policy.EmptyGroups
import WitnessedLog.Proofs.Verification.Evidence
import WitnessedLog.Proofs.Verification.DefaultDeny
import WitnessedLog.Proofs.Policy.WrittenLines
import WitnessedLog.Proofs.Policy.TextRoundTrip
import WitnessedLog.Proofs.Merkle.PathLength
import WitnessedLog.Proofs.Program.Register
import WitnessedLog.Proofs.Policy.Limits
import WitnessedLog.Proofs.LoggingProof.TextRoundTrip
import WitnessedLog.Proofs.Verification.QuorumRun
import WitnessedLog.Proofs.Verification.CosignerCount
import WitnessedLog.Proofs.Policy.ClosedNames
import WitnessedLog.Proofs.LoggingProof.LinesRead
import WitnessedLog.Proofs.LoggingProof.UnreadLines
import WitnessedLog.Proofs.Policy.Drafting
import WitnessedLog.Proofs.CommandLine.Changes
import WitnessedLog.Proofs.Program.OperandSpelling
import WitnessedLog.Proofs.CompiledPolicy.Sums
import WitnessedLog.Proofs.Text.Hexadecimal
