import Betik.CommandLine.Basic
import Betik.Directory
import Betik.Program.Listing
import Betik.Main
import Betik.Program.Decode
import Betik.Tree.Derivation
import Betik.Tree.Printer
import Betik.Tree.Semantics
import Betik.Proofs.Machine.Adequacy
import Betik.Proofs.Parsing.ErrorPosition
import Betik.Proofs.Tree.RoundTrip
import Betik.Proofs.Machine.Interpretation
import Betik.Proofs.Machine.Truncation
import Betik.Proofs.Machine.Limit
import Betik.Proofs.Program.References
import Betik.Proofs.Tree.Alike
import Betik.Proofs.Program.Spelling
import Betik.Proofs.Parsing.TopLevel
import Betik.Proofs.Machine.Sequence
import Betik.Proofs.CommandLine.Chunks
import Betik.Proofs.CommandLine.WholeText
import Betik.Proofs.Text.Bytes
import Betik.Proofs.Token.Feeding
import Betik.Proofs.Machine.Refusal
import Betik.Proofs.Token.Held
import Betik.Proofs.Token.Spacing
import Betik.Proofs.CommandLine.Scripts
import Betik.Proofs.Machine.PlainRecursion
import Betik.Proofs.Machine.ExactArithmetic
import Betik.Proofs.Machine.LoopExpansion
import Betik.Proofs.Token.Unknown
import Betik.Proofs.Program.EntryCount
import Betik.Proofs.Machine.Variables
import Betik.Proofs.Machine.Causes
import Betik.Proofs.Machine.Dependence
import Betik.Proofs.Machine.PrintedNumeral
import Betik.Proofs.Machine.Renaming
import Betik.Proofs.Program.Locality
import Betik.Proofs.Program.Listings
