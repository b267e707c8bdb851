import OneUnknown.Main
import OneUnknown.Grammar.Derivation
import OneUnknown.Proofs.NormalForm
import OneUnknown.Proofs.Evaluation
import OneUnknown.Proofs.Reduction
import OneUnknown.Proofs.Rewriting
import OneUnknown.Proofs.Terms
import OneUnknown.Proofs.Flattening
import OneUnknown.Proofs.Linearity
import OneUnknown.Proofs.Solving
import OneUnknown.Proofs.Passes
import OneUnknown.Proofs.Working
import OneUnknown.Proofs.Agreement
import OneUnknown.Proofs.DecimalLiteral
import OneUnknown.Proofs.DecimalReading
import OneUnknown.Proofs.Grammar.Atoms
import OneUnknown.Proofs.Grammar.Soundness
import OneUnknown.Proofs.Grammar.Completeness
import OneUnknown.Proofs.Grammar.Unambiguity
import OneUnknown.Proofs.Grammar.Acceptance
import OneUnknown.Proofs.Grammar.Height
import OneUnknown.Proofs.Grammar.Vocabulary
import OneUnknown.Proofs.Grammar.Limit
import OneUnknown.Proofs.Grammar.Outlook
import OneUnknown.Proofs.Grammar.Readings
import OneUnknown.Proofs.Grammar.AtomOutlook
import OneUnknown.Proofs.Grammar.Prolongation
import OneUnknown.Proofs.Grammar.Lookahead
import OneUnknown.Proofs.Grammar.Discipline
import OneUnknown.Proofs.Rendering.Tokens
import OneUnknown.Proofs.Rendering.Regrouping
import OneUnknown.Proofs.Rendering.Derivation
import OneUnknown.Proofs.Rendering.RoundTrip
import OneUnknown.Proofs.FixedPoint
import OneUnknown.Proofs.Lines
import OneUnknown.Proofs.Session.Entry
import OneUnknown.Proofs.Session.Modes
import OneUnknown.Proofs.Session.Independence
import OneUnknown.Proofs.CommandLine
