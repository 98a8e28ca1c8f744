import LogSocket.Outcomes
import LogSocket.Session

/-! The loader of the Default protocol keeps no handles and looks at no name, so that a prolog names the
class asked for exactly where the peer takes care of it, as the log4cxx client does. -/

namespace LogSocket.Default

open Lib ByteBuf

variable {env : Env} {byteBuf : ByteBuf} {pos : UInt64}

end LogSocket.Default
