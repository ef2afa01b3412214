import Mathlib.Init

/-!
# Strings of bytes
-/

namespace Ipxe

/-- What is sent, stored, read or parsed. -/
abbrev Bytes : Type := List UInt8

end Ipxe
