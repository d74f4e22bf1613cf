import ProtocolFakes.Generation

/-!
# A host that keeps a record

The recording host has a fixed selection and a fixed location, and a fixed rule
says what comes of handing a fake to it.  It writes nothing and remembers
everything it is told, in order.
-/

namespace ProtocolFakes

set_option autoImplicit false

/-- What a host has been told. -/
structure HostRecord where
  alerts : List String := []
  logs : List (Severity × String) := []
  /-- The fakes handed over, whatever came of it. -/
  handed : List (Fake × FakeLocation) := []
  deriving DecidableEq, Inhabited

/-- The host that records what it is told, and answers for a fake what
`outcome` says. -/
def Host.recording (selection : Option Selection) (location : Option FakeLocation)
    (outcome : Fake → FakeLocation → Except PersistenceError (List String)) :
    Host (StateM HostRecord) where
  selection := pure selection
  location := pure location
  persist fake location := do
    modify fun r => { r with handed := r.handed ++ [(fake, location)] }
    pure (outcome fake location)
  log severity message := modify fun r => { r with logs := r.logs ++ [(severity, message)] }
  alert message := modify fun r => { r with alerts := r.alerts ++ [message] }

end ProtocolFakes
