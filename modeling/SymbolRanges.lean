import SymbolRanges.Extraction.Run
import SymbolRanges.Rename.Load
import SymbolRanges.Tree.Builder
import SymbolRanges.Proofs.Scan.Decision
import SymbolRanges.Proofs.Walk.Resolution
import SymbolRanges.Proofs.Extraction.Failure
import SymbolRanges.Proofs.IndexTable
import SymbolRanges.Proofs.Scan.Visits
import SymbolRanges.Proofs.Walk.Steps
import SymbolRanges.Proofs.Walk.Numbering
import SymbolRanges.Proofs.Walk.Declarations
import SymbolRanges.Proofs.Tree.Tokens
import SymbolRanges.Proofs.Walk.Places
import SymbolRanges.Proofs.Walk.References
import SymbolRanges.Proofs.Scan.Records
import SymbolRanges.Proofs.Text.Offset
import SymbolRanges.Proofs.Tree.Text
import SymbolRanges.Proofs.Walk.Records
import SymbolRanges.Proofs.Extraction.Classes
import SymbolRanges.Proofs.Extraction.Coverage
import SymbolRanges.Proofs.Walk.TypeNames
import SymbolRanges.Proofs.Walk.Regions
import SymbolRanges.Proofs.Walk.Injection
import SymbolRanges.Proofs.Extraction.Runs
import SymbolRanges.Proofs.Walk.Acts
import SymbolRanges.Proofs.Walk.Collisions
import SymbolRanges.Proofs.Walk.Occurrences
import SymbolRanges.Proofs.Tree.Ranges
import SymbolRanges.Proofs.Extraction.Entries
import SymbolRanges.Proofs.Extraction.Structure
import SymbolRanges.Proofs.Text.Split
import SymbolRanges.Proofs.Text.Utf8
import SymbolRanges.Proofs.Rename.Contents
import SymbolRanges.Proofs.Rename.Bytes
import SymbolRanges.Proofs.RangeMap.Reading
import SymbolRanges.Proofs.Extraction.Reports
import SymbolRanges.Proofs.Extraction.Announcements
import SymbolRanges.Proofs.Extraction.Layout
import SymbolRanges.Proofs.Extraction.Units
import SymbolRanges.Proofs.Type.Erasure
import SymbolRanges.Proofs.Rename.Written
import SymbolRanges.Proofs.Walk.SourceOrder
import SymbolRanges.Proofs.Extraction.Members
import SymbolRanges.Proofs.IndexRuns
import SymbolRanges.Proofs.Extraction.Workspaces
import SymbolRanges.Proofs.Tree.Building
import SymbolRanges.Proofs.Text.CheckedOffset
import SymbolRanges.Proofs.Walk.Overflow
import SymbolRanges.Proofs.Extraction.Overflow
