import TextIndex.Main
import TextIndex.Packed.Cursor
import TextIndex.Proofs.CommandLine.SourceGrammar
import TextIndex.Proofs.Generate.Shapes
import TextIndex.Proofs.Index.CompressedOrDelayed
import TextIndex.Proofs.Index.Copies
import TextIndex.Proofs.Index.MemoryByMode
import TextIndex.Proofs.Index.Stepwise
import TextIndex.Proofs.Index.Widths
import TextIndex.Proofs.Packed.BothEnds
import TextIndex.Proofs.Packed.Canonical
import TextIndex.Proofs.Packed.Lossless
import TextIndex.Proofs.Packed.Storage
import TextIndex.Proofs.Plan.Account
import TextIndex.Proofs.Plan.Growth
import TextIndex.Proofs.Plan.Modes
import TextIndex.Proofs.Plan.Orderly
import TextIndex.Proofs.Plan.Retry
import TextIndex.Proofs.Plan.Turns
import TextIndex.Proofs.Plan.Validation
import TextIndex.Proofs.Structure.InPlacePrefixes
import TextIndex.Proofs.Structure.ReadBack
import TextIndex.Proofs.Structure.SuffixSort
import TextIndex.Proofs.Store.Zeroed
import TextIndex.WordCount
