import Stubwright.CommandLine.FileTree
import Stubwright.Main
import Stubwright.Proofs.Fingerprint
import Stubwright.Proofs.Generation
import Stubwright.Proofs.Source.ErrorPositions
import Stubwright.Proofs.Source.ReferenceRoundTrip
import Stubwright.Proofs.Source.StatementTexts
import Stubwright.Proofs.Source.TypeGrammar
import Stubwright.Proofs.Composition
import Stubwright.Proofs.Decision
import Stubwright.Proofs.Escaping
import Stubwright.Proofs.Naming
import Stubwright.Proofs.Numbering
import Stubwright.Proofs.Options
import Stubwright.Proofs.Program
import Stubwright.Proofs.Replay
import Stubwright.Proofs.WordBoundaries
import Stubwright.Proofs.Concern.Constants
import Stubwright.Proofs.Concern.FrameworkPieces
import Stubwright.Proofs.Concern.RequestPaths
import Stubwright.Proofs.Concern.SupportTypes
import Stubwright.Proofs.Generation.Acceptance
import Stubwright.Proofs.Generation.Getters
import Stubwright.Proofs.Generation.LibraryTypes
import Stubwright.Proofs.Generation.Logging
import Stubwright.Proofs.Generation.Parents
import Stubwright.Proofs.Generation.Refusals
import Stubwright.Proofs.Generation.SchemaOrder
import Stubwright.Proofs.Generation.Signatures
