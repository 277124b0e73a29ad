import Etle.Ipc.Listener

/-!
# When the loop returns

A connection is dealt with, keeps the loop waiting, or ends it.  Which of these happens is read off
the bytes it delivers and the answer it is to receive.
-/

namespace Etle

namespace Ipc

section

variable {commands : Bincode IpcCommand} {responses : Bincode IpcResponse} {client : Client}

end

end Ipc

end Etle
