/-
No breakpoint is passed over silently, unless a signal disturbs.
-/
import Spray.Proofs.Disturbed

namespace Spray

variable {run : Run} {enabled : RealAddr → Bool} {d : Debugger Runner}

def nop : Byte := 0x90

end Spray
