import Unwinder.Registers
import Unwinder.Text.Quoted

/-!
# `Unwinder.Capture.Request` — what a capture is asked for
-/

namespace Unwinder

/-- A request to unwind a sampled register set with the frame records of a module. -/
structure Request where
  module : Path
  registers : RegisterSet
  /-- The process whose stack may be read, when it is positive. -/
  pid : Int
  /-- The thread to stop while its stack is read; the main thread when it is not positive. -/
  tid : Int
  deriving DecidableEq

/-- A request as diagnostics show it, with whether a memory comes with it. -/
def Request.text (request : Request) (withMemory : Bool) : String :=
  "CaptureRequest \x7b module_path: " ++ Quoted.quote request.module.text ++ ", registers: "
    ++ request.registers.text ++ ", reader: " ++ toString withMemory ++ ", pid: " ++ toString request.pid
    ++ ", tid: " ++ toString request.tid ++ " \x7d"

end Unwinder
