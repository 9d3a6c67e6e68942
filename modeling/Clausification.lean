import Clausification.Main
import Clausification.Proofs.Archive.History
import Clausification.Proofs.Clause.Acceptance
import Clausification.Proofs.Clause.Decoding
import Clausification.Proofs.Derivation.FixedPoint
import Clausification.Proofs.Derivation.Freshness
import Clausification.Proofs.Derivation.Lines
import Clausification.Proofs.Derivation.OpenFormulas
import Clausification.Proofs.Derivation.Polarity
import Clausification.Proofs.Derivation.Restart
import Clausification.Proofs.Derivation.Rules
import Clausification.Proofs.Form.DistributionRules
import Clausification.Proofs.Form.Rejected
import Clausification.Proofs.Form.RenamingInTurn
import Clausification.Proofs.Form.Settled
import Clausification.Proofs.Formula.Rounds
import Clausification.Proofs.Reader.Layouts
import Clausification.Proofs.Reader.Lookahead
import Clausification.Proofs.Reader.Order
import Clausification.Proofs.Reader.Unambiguity
import Clausification.Proofs.Token.LongestMatch
import Clausification.Proofs.Token.Spacing
import Clausification.Proofs.Token.Spans
