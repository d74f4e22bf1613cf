import ProtocolFakes.Config
import ProtocolFakes.FilePath

/-!
# Documents

A document is the file that a selection comes from.  Its path decides where a
fake goes, beside the document unless the configuration says otherwise, and
which header the fake imports: the one with the stem of the document's name.
-/

namespace ProtocolFakes

set_option autoImplicit false

/-- Where a fake goes and what it imports. -/
@[ext] structure FakeLocation where
  directory : String
  /-- The header that declares the protocol. -/
  headerImport : String
  deriving DecidableEq, Inhabited

/-- The file that a selection comes from. -/
@[ext] structure Document where
  path : String
  deriving DecidableEq, Inhabited

/-- The directory for the files of a fake, seen from the document's directory. -/
def OutputConfig.directoryFrom (c : OutputConfig) (documentDirectory : String) : String :=
  FilePath.within documentDirectory c.directory

namespace Document

/-- The directory of a document. -/
def directory (d : Document) : String := (FilePath.parent? d.path).getD ""

/-- The header that declares what a document holds. -/
def headerName (d : Document) : String := (FilePath.fileStem? d.path).getD "" ++ ".h"

/-- Where the fake of a protocol in a document goes. -/
def fakeLocation (d : Document) (output : OutputConfig) : FakeLocation where
  directory := output.directoryFrom d.directory
  headerImport := d.headerName

end Document

end ProtocolFakes
