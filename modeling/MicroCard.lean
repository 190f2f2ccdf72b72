import MicroCard.Journal.Flash
import MicroCard.Journal.Record
import MicroCard.Journal.Append
import MicroCard.Journal.Journal
import MicroCard.Journal.FlashSpec
import MicroCard.Journal.Epoch
import MicroCard.Journal.Recovery
import MicroCard.Journal.Commit
import MicroCard.Journal.AppendSpec
import MicroCard.Journal.Atomicity
import MicroCard.Journal.FirstCommit
import MicroCard.Board.NvmSpec
import MicroCard.Journal.Nonces
import MicroCard.Library.Lineage
import MicroCard.Journal.Chains
import MicroCard.Journal.Rollback
import MicroCard.Jcvm.Basic
import MicroCard.Jcvm.LoadFile
import MicroCard.Jcvm.Class
import MicroCard.Jcvm.Method
import MicroCard.Jcvm.Code
import MicroCard.Jcvm.Verify
import MicroCard.Jcvm.Package
import MicroCard.Library.Checks
import MicroCard.Jcvm.Boundaries
import MicroCard.Jcvm.ControlFlow
import MicroCard.Library.UndoLog
import MicroCard.Jcvm.Api
import MicroCard.Jcvm.Heap
import MicroCard.Jcvm.Switches
import MicroCard.Jcvm.Tiling
import MicroCard.Jcvm.Effects
import MicroCard.Jcvm.Abort
import MicroCard.Card.Cbor
import MicroCard.Card.Changes
import MicroCard.Card.LoadHistory
import MicroCard.Card.Store
import MicroCard.Card.StoreSpec
import MicroCard.Transport.Apdu
import MicroCard.Transport.CounterBlocks
import MicroCard.Card.CborItems
import MicroCard.Card.ImageStore
import MicroCard.Engine.Devices
import MicroCard.Engine.Engine
import MicroCard.Engine.Enumeration
import MicroCard.Engine.Listing
import MicroCard.Engine.Reception
import MicroCard.Mc04.NativeAbi
import MicroCard.Transport.SequenceCounters
import MicroCard.Mc04.Scopes
import MicroCard.Mc04.IntegerSpec
import MicroCard.Mc04.CallGraph
import MicroCard.Journal.Capacity
import MicroCard.Journal.Reopening
import MicroCard.Journal.Admission
import MicroCard.Jcvm.Projection
import MicroCard.JcvmStorage.Replay
import MicroCard.JcvmStorage.WriterSpec
import MicroCard.Jcvm.Windows
import MicroCard.Jcvm.WordSize
import MicroCard.Jcvm.Seeds
import MicroCard.Transport.ShortApdu
import MicroCard.Tlv.Agreement
import MicroCard.Tlv.DerCalls
import MicroCard.Versions.Agreement
import MicroCard.Mc04.ManifestAgreement
import MicroCard.JcvmStorage.SessionSpec
import MicroCard.Jcvm.PendingSpans
import MicroCard.Jcvm.Frame
import MicroCard.Board.CounterRuns
import MicroCard.Transport.CcidRuns
import MicroCard.Mc04.InPlaceRuns
import MicroCard.Der.Codecs
import MicroCard.Mc04.TransactionRuns
