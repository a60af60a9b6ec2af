import Zccache.Artifact.Reload
import Zccache.Artifact.Tampering
import Zccache.Artifact.Wal
import Zccache.Context.SetDigest
import Zccache.Core.PathLaws
import Zccache.Daemon.CompatRace
import Zccache.Daemon.ErrorReplay
import Zccache.Daemon.MissRace
import Zccache.Daemon.RequestCache
import Zccache.Daemon.RustcPromise
import Zccache.Daemon.VerdictRows
import Zccache.Depfile.Leak
import Zccache.Depfile.ShowIncludesAgreement
import Zccache.Exec.Freshness
import Zccache.Fingerprint.Aggregate
import Zccache.Fingerprint.PchInputs
import Zccache.Fscache.Log
import Zccache.Fscache.Trust
import Zccache.Graph.AtomicSave
import Zccache.Graph.Dirty
import Zccache.Graph.EnvFlips
import Zccache.Graph.IncludeSearch
import Zccache.Graph.Invalidation
import Zccache.Graph.Restarts
import Zccache.Graph.SystemIncludes
import Zccache.Graph.Worktrees
import Zccache.Link.Archives
import Zccache.Link.KeyBytes
import Zccache.Link.Libraries
import Zccache.Link.Lossless
import Zccache.Persist.Completion
import Zccache.Persist.Soundness
import Zccache.Request.Cursor
import Zccache.Request.FlagOrder
import Zccache.Request.MsvcValues
import Zccache.Request.MultiContext
import Zccache.Request.OutputKind
import Zccache.Request.ResponseAgreement
import Zccache.Watcher.Recovery
import Zccache.Wire.Stream
