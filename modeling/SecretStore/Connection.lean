/-!
# Connection settings

Where a store is and how it is spoken to. The settings are built in steps, each replacing what an
earlier step of its kind set.
-/

namespace SecretStore

/-- How a store is reached. -/
structure Connection where
  /-- What every request path is joined to. -/
  baseUrl : String := "http://localhost:8200"
  /-- The namespace that every request names, if any. -/
  nameSpace : Option String := none
  /-- A file of certificates to trust besides those of the system. -/
  rootCertificate : Option String := none
  /-- How many seconds a request may take. -/
  timeoutSeconds : UInt64 := 30
  deriving DecidableEq, Repr

namespace Connection

/-- The connection with a namespace. The empty text leaves it without one. -/
def withNamespace (n : Option String) (c : Connection) : Connection :=
  { c with nameSpace := n.filter (· ≠ "") }

/-- The connection with a certificate file. -/
def withRootCertificate (path : Option String) (c : Connection) : Connection :=
  { c with rootCertificate := path }

/-- The connection with a timeout. -/
def withTimeout (seconds : UInt64) (c : Connection) : Connection :=
  { c with timeoutSeconds := seconds }

/-- A step of building a connection. -/
inductive Step where
  | nameSpace (n : Option String)
  | rootCertificate (path : Option String)
  | timeout (seconds : UInt64)
  | keep

/-- The connection after one step. -/
def step (c : Connection) : Step → Connection
  | .nameSpace n => c.withNamespace n
  | .rootCertificate path => c.withRootCertificate path
  | .timeout seconds => c.withTimeout seconds
  | .keep => c

/-- The connections before the first step and after each one. -/
def states (c : Connection) : List Step → List Connection
  | [] => [c]
  | s :: rest => c :: (c.step s).states rest

end Connection

end SecretStore
