import Unwinder.Bytes.LittleEndian
import Unwinder.Error.Message
import Unwinder.Cfi.PointerEncoding
import Unwinder.Cfi.Program
import Unwinder.Architecture
import Unwinder.Stack.Snapshot
import Unwinder.Frame
import Unwinder.Text.Quoted
import Unwinder.Image
import Unwinder.Cfi.Section
import Unwinder.Module
import Unwinder.Sample
import Unwinder.Pool
import Unwinder.FileTree
import Unwinder.Target.Session
import Unwinder.Target.LiveProcess
import Unwinder.Capture
import Unwinder.Proofs.Reading
import Unwinder.Proofs.RuleTable
import Unwinder.Proofs.Numerals
import Unwinder.Proofs.FrameWriting
import Unwinder.Proofs.FrameRoundTrip
import Unwinder.Proofs.Faults
import Unwinder.Proofs.RecordFraming
import Unwinder.Proofs.FrameRecords
import Unwinder.Proofs.Magnitudes
import Unwinder.Proofs.SectionCuts
import Unwinder.Proofs.Indexing
import Unwinder.Proofs.CodeLookup
import Unwinder.Proofs.AugmentationBlocks
import Unwinder.Proofs.Images.Layouts
import Unwinder.Proofs.Images.Acceptance
import Unwinder.Proofs.Images.Lookups
import Unwinder.Proofs.Relocation
import Unwinder.Proofs.Programs.Items
import Unwinder.Proofs.Programs.Spelling
import Unwinder.Proofs.Programs.Runs
import Unwinder.Proofs.Programs.Rewriting
import Unwinder.Proofs.Programs.Columns
import Unwinder.Proofs.Pool.Calls
import Unwinder.Proofs.Pool.Recency
import Unwinder.Proofs.Pool.Handles
import Unwinder.Proofs.Pool.AtRest
import Unwinder.Proofs.Pool.Soundness
import Unwinder.Proofs.Pool.Records
import Unwinder.Proofs.Pool.OneSlot
import Unwinder.Proofs.Target.Calls
import Unwinder.Proofs.Walk.Trail
import Unwinder.Proofs.Walk.Callers
import Unwinder.Proofs.Capture.Outcomes
import Unwinder.Proofs.Walk.ReplayFaults
import Unwinder.Proofs.Capture.Histories
import Unwinder.Proofs.Capture.Independence
import Unwinder.Proofs.Capture.Room
import Unwinder.Proofs.Capture.Shapes
import Unwinder.Proofs.Capture.Returning
import Unwinder.Proofs.Capture.Attachment
import Unwinder.Proofs.Recovery.Plans
import Unwinder.Proofs.Target.OneWay
import Unwinder.Proofs.Recovery.Failures
import Unwinder.Proofs.Recovery.Snapshots
import Unwinder.Proofs.Samples
import Unwinder.Proofs.SampleRoundTrip
import Unwinder.Proofs.Windows
import Unwinder.Proofs.Capture.Sampled
import Unwinder.Proofs.Padding
import Unwinder.Proofs.Programs.Pieces
import Unwinder.Proofs.Cursors.Steps
import Unwinder.Proofs.Cursors.Numerals
import Unwinder.Proofs.Cursors.Sections
