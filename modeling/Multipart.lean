import Multipart.Request
import Multipart.Decoder.Summary
import Multipart.Proofs.Search
import Multipart.Proofs.Utf8
import Multipart.Proofs.HeaderText
import Multipart.Proofs.Handle
import Multipart.Proofs.Steps
import Multipart.Proofs.Feeding
import Multipart.Proofs.Issuing
import Multipart.Proofs.Lockstep
import Multipart.Proofs.EntryWise
import Multipart.Proofs.Renaming
import Multipart.Proofs.Keeping
import Multipart.Proofs.Ledger
import Multipart.Proofs.Renumbering
import Multipart.Proofs.Twins
import Multipart.Proofs.Parallel
import Multipart.Proofs.ChunkInvariance
import Multipart.Proofs.Ownership
import Multipart.Proofs.Decoding
import Multipart.Proofs.Cells
import Multipart.Proofs.Finality
import Multipart.Proofs.Labels
import Multipart.Proofs.Reading
import Multipart.Proofs.Grammar
import Multipart.Proofs.Accepting
import Multipart.Proofs.Publication
import Multipart.Proofs.ServerVariables
import Multipart.Proofs.Interference
import Multipart.Proofs.Worlds
import Multipart.Proofs.Shadows
import Multipart.Proofs.Isolation
import Multipart.Proofs.Rendering
import Multipart.Proofs.RoundTrip
import Multipart.Proofs.Excerpts
import Multipart.Proofs.Moments
import Multipart.Proofs.FileSizes
import Multipart.Proofs.Reaching
import Multipart.Proofs.Consistency
import Multipart.Proofs.Streaming
import Multipart.Proofs.Ceilings
import Multipart.Proofs.Buffering
import Multipart.Proofs.Completion
import Multipart.Proofs.ReadSize
import Multipart.Proofs.Delivery
import Multipart.Proofs.Obstacles
import Multipart.Proofs.Answers
import Multipart.Proofs.Slices
import Multipart.Proofs.Totality
import Multipart.Proofs.Framing
import Multipart.Proofs.Truncation
import Multipart.Proofs.BodyEnd
import Multipart.Proofs.HeaderBlocks
import Multipart.Proofs.HeaderOrder
import Multipart.Proofs.Confinement
import Multipart.Proofs.ClientNames
import Multipart.Proofs.Lifetime
import Multipart.Proofs.Replacing
import Multipart.Proofs.BoundaryParameter
import Multipart.Proofs.BufferHistory
import Multipart.Proofs.Prefilter
import Multipart.Proofs.Holdback
import Multipart.Proofs.QuotedParameters
import Multipart.Proofs.Separators
import Multipart.Proofs.AttributeReader
