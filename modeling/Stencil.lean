import Stencil.Builder
import Stencil.Compiler.Basic
import Stencil.Proofs.Soundness
import Stencil.Proofs.Outline
import Stencil.Proofs.Tally
import Stencil.Proofs.Interleaving
import Stencil.Proofs.Words
import Stencil.Proofs.Edits
import Stencil.Proofs.Handle
import Stencil.Proofs.Reinsertion
import Stencil.Proofs.Abstraction
import Stencil.Proofs.Agreement
import Stencil.Proofs.Acceptance
import Stencil.Proofs.NormalForm
import Stencil.Proofs.Validation
import Stencil.Proofs.Variables
import Stencil.Proofs.Frames
import Stencil.Proofs.Inference
import Stencil.Proofs.Signature
import Stencil.Proofs.Circles
import Stencil.Proofs.Reading
import Stencil.Proofs.Exactness
import Stencil.Proofs.Tables
import Stencil.Proofs.Depth
