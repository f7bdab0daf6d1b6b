/-!
# `Unwinder.Cfi.PointerKind` — the two halves of a pointer encoding

A pointer encoding byte says how a value is stored (its form, in the low four bits) and what it is counted
from (its base, in the three bits above them).
-/

namespace Unwinder.Cfi

/-- How the value of an encoded pointer is stored. -/
inductive PointerForm where
  /-- As wide as an address of the target. -/
  | absolute
  | unsignedLeb
  | unsigned2
  | unsigned4
  | unsigned8
  | signedLeb
  | signed2
  | signed4
  | signed8
  deriving DecidableEq

/-- What the value of an encoded pointer is counted from. Only the first two can be resolved from the frame
    section alone. -/
inductive PointerBase where
  /-- From zero. -/
  | absolute
  /-- From the address of the encoded field itself. -/
  | field
  | text
  | data
  | function
  | aligned
  deriving DecidableEq

/-- The standard's name of a form. -/
def PointerForm.name : PointerForm → String
  | .absolute => "DW_EH_PE_absptr"
  | .unsignedLeb => "DW_EH_PE_uleb128"
  | .unsigned2 => "DW_EH_PE_udata2"
  | .unsigned4 => "DW_EH_PE_udata4"
  | .unsigned8 => "DW_EH_PE_udata8"
  | .signedLeb => "DW_EH_PE_sleb128"
  | .signed2 => "DW_EH_PE_sdata2"
  | .signed4 => "DW_EH_PE_sdata4"
  | .signed8 => "DW_EH_PE_sdata8"

/-- The standard's name of a base. -/
def PointerBase.name : PointerBase → String
  | .absolute => "DW_EH_PE_absptr"
  | .field => "DW_EH_PE_pcrel"
  | .text => "DW_EH_PE_textrel"
  | .data => "DW_EH_PE_datarel"
  | .function => "DW_EH_PE_funcrel"
  | .aligned => "DW_EH_PE_aligned"

end Unwinder.Cfi
