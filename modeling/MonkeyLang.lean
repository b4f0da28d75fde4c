import MonkeyLang.Main
import MonkeyLang.Program.Equality
import MonkeyLang.Value.Equality
import MonkeyLang.Proofs.Spelling
import MonkeyLang.Proofs.Acceptance
import MonkeyLang.Proofs.Stratified
import MonkeyLang.Proofs.BlockAcceptance
import MonkeyLang.Proofs.Canonical
import MonkeyLang.Proofs.RoundTrip
import MonkeyLang.Proofs.Nesting
import MonkeyLang.Proofs.Invariant
import MonkeyLang.Proofs.Frame
import MonkeyLang.Proofs.Reach
import MonkeyLang.Proofs.Return
import MonkeyLang.Proofs.Failure
import MonkeyLang.Proofs.Chain
import MonkeyLang.Proofs.Extent
import MonkeyLang.Proofs.Mirror
import MonkeyLang.Proofs.Unmentioned
import MonkeyLang.Proofs.Relocation
import MonkeyLang.Proofs.Braces
import MonkeyLang.Proofs.Concatenation
import MonkeyLang.Proofs.Positions
import MonkeyLang.Proofs.Subscripts
import MonkeyLang.Proofs.HashKeys
import MonkeyLang.Proofs.HashLiterals
import MonkeyLang.Proofs.Arithmetic
import MonkeyLang.Proofs.ValueEquality
import MonkeyLang.Proofs.Respelling
import MonkeyLang.Proofs.ReadingInvariant
import MonkeyLang.Proofs.Termination
import MonkeyLang.Proofs.DiagnosticOrder
import MonkeyLang.Proofs.JsonDecoding
import MonkeyLang.Proofs.Listing
import MonkeyLang.Proofs.Transcripts
import MonkeyLang.Proofs.Depth
import MonkeyLang.Proofs.FunctionFree
import MonkeyLang.Proofs.Counter
