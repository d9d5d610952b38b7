import TraceFS.Lib.Run
import TraceFS.Trfs.Failure
import TraceFS.Trfs.Transparent
import TraceFS.Trfs.Recorded
import TraceFS.Trfs.Critical
import TraceFS.Trfs.Steps
import TraceFS.Treplay.Decode
import TraceFS.Treplay.Descriptors
import TraceFS.Trfs.Invariants
import TraceFS.Trfs.Contiguous
import TraceFS.Trfs.Order
import TraceFS.Trfs.Unmount
import TraceFS.Treplay.Verdict
import TraceFS.Treplay.Cursor
import TraceFS.Treplay.Reissue
import TraceFS.Treplay.Shared
import TraceFS.Lib.Observed
import TraceFS.Lib.Precedes
import TraceFS.Trfs.Bitmap
import TraceFS.Trfs.Directories
import TraceFS.Trfs.Files
import TraceFS.Trfs.Heap
import TraceFS.Lib.Faulting
import TraceFS.Trfs.Lifetime
import TraceFS.Lib.Waiting
import TraceFS.Trfs.Synced
import TraceFS.Trfs.Deadlock
import TraceFS.Lib.Slots
import TraceFS.Treplay.Map
import TraceFS.Treplay.Safety
import TraceFS.Lib.CString
import TraceFS.Treplay.Paths
import TraceFS.Treplay.Main
import TraceFS.Treplay.Modes
import TraceFS.Treplay.Whole
import TraceFS.Trfs.Seek
import TraceFS.Trfs.Options
import TraceFS.Lib.Numeral
import TraceFS.Trctl.Main
import TraceFS.Trfs.Captured
import TraceFS.Lib.Table
import TraceFS.Trfs.Inodes
import TraceFS.Trfs.Dentries
import TraceFS.Linux.Vfs
import TraceFS.Trfs.Untraced
import TraceFS.Linux.Watched
import TraceFS.Trfs.Balance
import TraceFS.Trfs.OpenFiles
import TraceFS.Trfs.Filed
import TraceFS.Treplay.Pipeline
import TraceFS.Lib.Renaming
import TraceFS.Treplay.Restored
import TraceFS.Lib.Blocks
import TraceFS.Trfs.Memory
