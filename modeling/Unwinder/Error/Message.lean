import Unwinder.Error
import Unwinder.Text.Hex

/-!
# `Unwinder.Error.Message` — the wording of errors

Addresses, offsets and tag bytes are written in hexadecimal, counts and ids in decimal. How a process or
thread id is written is the caller's choice, `Error.message` taking a function for it, so that a diagnostic
can name a process instead of numbering it.
-/

namespace Unwinder

open Hex (numeral byteNumeral)

/-- A fault of a byte string as diagnostics show it. -/
def Utf8.Fault.text (fault : Utf8.Fault) : String :=
  let length := match fault.length with
    | none => "None"
    | some n => "Some(" ++ toString n ++ ")"
  "Utf8Error \x7b valid_up_to: " ++ toString fault.validUpTo ++ ", error_len: " ++ length ++ " \x7d"

/-- The wording of a broken contract. -/
def Misuse.message (showId : Int → String) : Misuse → String
  | .registerVersion found => s!"register set version {found} (expected 1)"
  | .recordVersion found => s!"register format version {found} (expected 1)"
  | .processId pid => "pid " ++ showId pid
  | .threadId tid => "tid " ++ showId tid
  | .outsideRange pc first last =>
      "pc " ++ numeral pc.toNat ++ " outside FDE [" ++ numeral first.toNat ++ ", " ++ numeral last.toNat ++ ")"
  | .staleHandle handle => "stale module handle " ++ handle.text
  | .unheldHandle handle => "module handle " ++ handle.text ++ " released more often than acquired"
  | .shutDown => "context is shut down"
  | .noPath => "empty module path"
  | .noFrames => "no room for frames"
  | .noContext => "no context"
  | .noRequest => "no request"
  | .attachDisabled => "stack reader is disabled"
  | .emptyRead => "zero-length read"
  | .detached pid => "session for " ++ showId pid ++ " is detached"

/-- The wording of a feature that is not interpreted. -/
def Feature.message : Feature → String
  | .wideRecord offset => "64-bit DWARF record at " ++ numeral offset
  | .pointerForm form encoding =>
      "pointer format " ++ numeral form.toNat ++ " in encoding " ++ byteNumeral encoding
  | .pointerEncoding encoding => "pointer encoding " ++ byteNumeral encoding
  | .pointerBase base => "pointer application " ++ base.name
  | .expression opcode => "DWARF expression (DW_CFA " ++ byteNumeral opcode ++ ")"
  | .instruction opcode => "call frame instruction " ++ byteNumeral opcode
  | .frameAddressOf architecture => architecture ++ ": CFA derivation"
  | .returnAddressOf architecture => architecture ++ ": return address"
  | .noFrameRule => "no CFA rule at this pc"
  | .frameRegister register => s!"CFA based on register {register}"
  | .returnColumn column => s!"return address in column {column}"
  | .returnLost => "return address is undefined"

/-- The wording of a defect of the input. -/
def Defect.message : Defect → String
  | .shortRecord size expected => s!"probe event of {size} bytes, expected {expected}"
  | .noMagic => "missing ELF magic"
  | .byteOrder mark => s!"unsupported byte order {mark} (only little endian is read)"
  | .fileClass mark => s!"unknown ELF class {mark}"
  | .shortHeader => "truncated ELF header"
  | .noSections => "no section header table"
  | .smallEntries size => s!"section header entry size {size} too small"
  | .tableOverflow => "section header table overflows"
  | .tableOutside finish size =>
      "section header table ends at " ++ numeral finish ++ ", image is " ++ numeral size
  | .nameTableIndex index count => s!"string table index {index} out of {count} sections"
  | .sectionOutside offset length size =>
      "section [" ++ numeral offset ++ ", +" ++ numeral length ++ ") outside image of " ++ numeral size ++ " bytes"
  | .nameOutside offset => "section name " ++ numeral offset
  | .nameOpen => "unterminated section name"
  | .emptyFile path => path.text ++ " is empty"
  | .frameSectionOutside => "frame section outside image"
  | .recordOverrun offset length size =>
      "record at " ++ numeral offset ++ " with length " ++ numeral length ++ " overruns section of "
        ++ numeral size ++ " bytes"
  | .truncated wanted left => s!"record truncated: {wanted} bytes wanted, {left} left"
  | .unknownCie offset id => "FDE at " ++ numeral offset ++ " refers to unknown CIE (id " ++ numeral id ++ ")"
  | .cieVersion version => s!"CIE version {version}"
  | .augmentationOpen => "no null terminator found for string"
  | .augmentationText fault => "invalid utf8: " ++ fault.text
  | .unsignedOverflow => "uleb128 does not fit 64 bits"
  | .signedOverflow => "sleb128 does not fit 64 bits"
  | .addressSize size => s!"address size {size}"
  | .programOutside => "instruction range outside image"
  | .orphan offset => "FDE at " ++ numeral offset ++ " has no CIE"

/-- The wording of what was being done. -/
def Activity.message (showId : Int → String) : Activity → String
  | .snapshot base => "stack snapshot at " ++ numeral base.toNat
  | .file path => path.text
  | .attaching tid => "PTRACE_ATTACH " ++ showId tid
  | .awaiting tid => "waiting for " ++ showId tid ++ " to stop"
  | .memory pid => "memory of " ++ showId pid
  | .remoteRead pid address => "process_vm_readv " ++ showId pid ++ " at " ++ numeral address.toNat
  | .openingMemory pid => "/proc/" ++ showId pid ++ "/mem"
  | .memoryRead pid address => "/proc/" ++ showId pid ++ "/mem at " ++ numeral address.toNat

/-- The wording of how it was refused. -/
def IoFault.message (showId : Int → String) : IoFault → String
  | .errno e => e.message
  | .terminatorInPath => "file name contained an unexpected NUL byte"
  | .notCaptured length address => toString length ++ " bytes at " ++ numeral address.toNat ++ " not captured"
  | .short got wanted address =>
      "read " ++ toString got ++ " of " ++ toString wanted ++ " bytes at " ++ numeral address.toNat
  | .notStopped tid status =>
      "thread " ++ showId tid ++ " did not stop (wait status " ++ numeral status.toNat ++ ")"

/-- The wording of an error, process and thread ids being written by `showId`. -/
def Error.message (showId : Int → String) : Error → String
  | .misuse cause => "invalid argument: " ++ cause.message showId
  | .unsupportedArchitecture tag => s!"unsupported architecture tag {tag}"
  | .unsupported feature => "not implemented: " ++ feature.message
  | .io activity fault => "I/O error on " ++ activity.message showId ++ ": " ++ fault.message showId
  | .malformed defect => "bad format: " ++ defect.message
  | .noDebugData path => "no debug data in " ++ path.text
  | .poolFull slots => s!"module cache is full ({slots} active slots)"

end Unwinder
