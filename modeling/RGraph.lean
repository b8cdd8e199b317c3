import RGraph.Cli.Import
import RGraph.Proofs.SuperblockCrash
import RGraph.Proofs.PageRun
import RGraph.Proofs.WalLoader
import RGraph.Proofs.GroupCommit
import RGraph.Proofs.SessionLog
import RGraph.Proofs.LockCompat
import RGraph.Proofs.AbortLog
import RGraph.Proofs.WriteSkew
import RGraph.Proofs.BTreeRange
import RGraph.Proofs.RdfStore
import RGraph.Proofs.WriteBack
import RGraph.Proofs.Latch
import RGraph.Proofs.IndexCommit
import RGraph.Proofs.EngineTransactions
import RGraph.Proofs.AtomicFailure
import RGraph.Proofs.StoreLedger
import RGraph.Proofs.CreateRows
import RGraph.Proofs.ValueCodec
import RGraph.Proofs.RedoScan
import RGraph.Proofs.BTreePageRun
import RGraph.Proofs.PageCompact
import RGraph.Proofs.FailedCommit
import RGraph.Proofs.Csr
import RGraph.Proofs.CatalogCodec
import RGraph.Proofs.FlushBatch
import RGraph.Proofs.Prefetch
import RGraph.Proofs.FlushAll
import RGraph.Proofs.Operators
import RGraph.Proofs.Precedence
import RGraph.Proofs.RdfTerm
import RGraph.Proofs.Scheduler
import RGraph.Proofs.Acceptor
import RGraph.Proofs.ParserError
