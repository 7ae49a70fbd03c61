import Propositional.Main
import Propositional.Proofs.CommandLine.ExitCode
import Propositional.Proofs.Formula.Extension
import Propositional.Proofs.Formula.Walk
import Propositional.Proofs.Grammar.Parentheses
import Propositional.Proofs.Grammar.Viable
import Propositional.Proofs.Inquiry.ReadBack
import Propositional.Proofs.Inquiry.Tables
import Propositional.Proofs.Inquiry.Typed
import Propositional.Proofs.Inquiry.Warnings
import Propositional.Proofs.Simplification.Implications
import Propositional.Proofs.Simplification.Log
import Propositional.Proofs.Simplification.SingleVariable
import Propositional.Proofs.Simplification.Symmetry
import Propositional.Proofs.Spelling.Idempotence
import Propositional.Proofs.Table.Decomposition
import Propositional.Proofs.Table.Enumeration
import Propositional.Proofs.Table.Text
import Propositional.Proofs.Token.Respaced
