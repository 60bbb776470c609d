import BlockLang.Decimal.Text
import BlockLang.Main
import BlockLang.Proofs.Decimal.Quotient
import BlockLang.Proofs.Division
import BlockLang.Proofs.Exchange.Waking
import BlockLang.Proofs.Grammar.Joining
import BlockLang.Proofs.Grammar.Sentences
import BlockLang.Proofs.Integers
import BlockLang.Proofs.Layout.Scanning
import BlockLang.Proofs.Loops
import BlockLang.Proofs.Numerals
import BlockLang.Proofs.Placement.Running
import BlockLang.Proofs.Printing.Parsing
import BlockLang.Proofs.Renaming
import BlockLang.Proofs.Scan.Stripping
import BlockLang.Proofs.Scope.Soundness
import BlockLang.Proofs.Store.Blocks
import BlockLang.Proofs.Store.Frame
import BlockLang.Proofs.Store.Outcomes
import BlockLang.Proofs.Typing
import BlockLang.Proofs.Store.Log
import BlockLang.Proofs.Scan.Spans
import BlockLang.Proofs.Tree.Blame
import BlockLang.Proofs.Listing
import BlockLang.Proofs.Descent.Agreement
