import SecretStore.InitMaterial
import SecretStore.Interaction
import SecretStore.Log.Event
import SecretStore.MountTable
import SecretStore.Percent
import SecretStore.Request
import SecretStore.SealStatus

/-!
# Administrative operations

Each operation of the client is an `Operation`: a procedure that sends requests and goes on with
their replies, and that ends with a value or a `ClientError`. Except for `unsealWith` an operation
sends at most one request. An error of the executor is passed on unchanged, but for the health
check: a status is all it asks for, so an error that carries one is an answer.
-/

namespace SecretStore

/-- A procedure over administrative calls. -/
abbrev Dialogue := Interaction Request Reply Log.Event

/-- A procedure over administrative calls that may fail. -/
abbrev Operation := ExceptT ClientError Dialogue

/-- Sends a request. -/
def Operation.send (r : Request) : Operation Exchange := ExceptT.mk (Interaction.query r)

/-- Notes an event. -/
def Operation.note (e : Log.Event) : Operation Unit := ExceptT.lift (Interaction.tell e)

/-- Ends with a value or an error. -/
def Operation.ofExcept (r : Except ClientError α) : Operation α := ExceptT.mk (.done r)

namespace Client

/-- The path of the health check. -/
def healthPath : String := "/v1/sys/health"

/-- The path of initialization. -/
def initPath : String := "/v1/sys/init"

/-- The path that takes key shares. -/
def unsealPath : String := "/v1/sys/unseal"

/-- The path of the mounts. -/
def mountsPath : String := "/v1/sys/mounts"

/-- The path of the policies. -/
def policiesPath : String := "/v1/sys/policies/acl"

/-- The path of one mount point. -/
def mountPath (mountPoint : String) : String := mountsPath ++ "/" ++ Mount.point mountPoint

/-- The path of one policy. -/
def policyPath (name : String) : String := policiesPath ++ "/" ++ Percent.segment name

/-- A number of 32 bits as a document. -/
def numeral (n : UInt32) : Json.Value := .number (.unsigned n.toNat)

/-! ### Requests -/

/-- The request of a health check. -/
def healthRequest : Request := .new "GET" healthPath "health check" 200

/-- The request of initialization. -/
def initRequest (shares threshold : UInt32) : Request :=
  (Request.new "POST" initPath "initialize secret store" 200).withJson
    (.object [("secret_shares", numeral shares), ("secret_threshold", numeral threshold)])

/-- The request that submits a key share. -/
def unsealRequest (key : String) : Request :=
  (Request.new "POST" unsealPath "unseal secret store" 200).withJson
    (.object [("key", .string key)])

/-- The request that installs a policy. -/
def policyRequest (token name document : String) : Request :=
  ((Request.new "PUT" (policyPath name) "install policy" 204).withToken token).withJson
    (.object [("policy", .string document)])

/-- What is mounted: an engine, with its options. -/
structure MountSpec where
  engine : Engine
  description : String
  /-- The version of a key/value engine. -/
  version : Option String
  /-- How long a lease lasts unless told otherwise. -/
  leaseTtl : Option String
  deriving DecidableEq, Repr

/-- A key/value engine of some version. -/
def MountSpec.keyValue (version : String) : MountSpec :=
  ⟨.keyValue, "key/value secret storage", some version, none⟩

/-- A Consul engine. -/
def MountSpec.consul (leaseTtl : String) : MountSpec :=
  ⟨.consul, "consul secret storage", none, some leaseTtl⟩

/-- The document that mounts an engine. What is absent leaves no member. -/
def MountSpec.toJson (m : MountSpec) : Json.Value :=
  .object <|
    (match m.leaseTtl with
      | some ttl => [("config", .object [("default_lease_ttl", .string ttl)])]
      | none => []) ++
    [("description", .string m.description)] ++
    (match m.version with
      | some version => [("options", .object [("version", .string version)])]
      | none => []) ++
    [("type", .string m.engine.name)]

/-- The request that mounts an engine. -/
def mountRequest (token mountPoint : String) (m : MountSpec) (operation : String) : Request :=
  ((Request.new "POST" (mountPath mountPoint) operation 204).withToken token).withJson m.toJson

/-- The request for the mounted engines. -/
def listRequest (token : String) : Request :=
  (Request.new "GET" mountsPath "query mounts" 200).withToken token

/-! ### Operations -/

/-- The status a reply to the health check stands for. -/
def statusOf : Reply → Except ClientError UInt16
  | .ok x => .ok x.status
  | .error e =>
    match e.status? with
    | some status => .ok status
    | none => .error e

/-- The status of the answer to a health check. -/
def healthCheck : Operation UInt16 := do
  let reply ← ExceptT.lift (Interaction.query healthRequest)
  let status ← Operation.ofExcept (statusOf reply)
  Operation.note (.healthStatus status)
  pure status

/-- The state of the store. -/
def checkHealth : Operation Health := do
  Operation.note .healthAsked
  let status ← healthCheck
  let health := Health.ofStatus status
  Operation.note (if health.isHealthy then .healthPassed health else .notReady health status)
  pure health

/-- Whether a store can be initialized with so many shares and such a threshold. -/
def validShares (shares threshold : UInt32) : Bool :=
  shares ≠ 0 && threshold ≠ 0 && threshold ≤ shares

/-- The refusal of unusable numbers of shares. -/
def sharesRefused (shares threshold : UInt32) : ClientError :=
  .invalidArgument ("secret threshold must be between 1 and the number of shares " ++
    s!"(shares={shares}, threshold={threshold})")

/-- Initializes the store. -/
def init (shares threshold : UInt32) : Operation InitMaterial :=
  if validShares shares threshold then do
    Operation.note (.initStrategy shares threshold)
    let x ← Operation.send (initRequest shares threshold)
    Operation.ofExcept (x.decode InitMaterial.shape.reader)
  else Operation.ofExcept (.error (sharesRefused shares threshold))

/-- Installs or replaces a policy. -/
def installPolicy (token name document : String) : Operation Unit := do
  let _ ← Operation.send (policyRequest token name document)
  Operation.note (.policyInstalled name)

/-- Mounts an engine. -/
def mount (token mountPoint : String) (m : MountSpec) (operation : String) : Operation Unit := do
  let _ ← Operation.send (mountRequest token mountPoint m operation)
  Operation.note (.engineEnabled m.engine.name mountPoint)

/-- Mounts a key/value engine. -/
def mountKeyValue (token mountPoint version : String) : Operation Unit :=
  mount token mountPoint (.keyValue version) "update mounts"

/-- Mounts a Consul engine. -/
def mountConsul (token mountPoint leaseTtl : String) : Operation Unit :=
  mount token mountPoint (.consul leaseTtl) "update mounts for Consul"

/-- The mounted engines. -/
def mounts (token : String) : Operation MountTable := do
  let x ← Operation.send (listRequest token)
  Operation.ofExcept (x.decode MountTable.shape.reader)

/-- Whether an engine of that type is mounted there. A failed listing is an error, never a no. -/
def isMounted (token mountPoint engineType : String) : Operation Bool := do
  let t ← mounts token
  pure (t.hasEngine mountPoint engineType)

/-- Submits one key share. -/
def submitShare (key : String) : Operation SealStatus := do
  let x ← Operation.send (unsealRequest key)
  Operation.ofExcept (x.decode SealStatus.shape.reader)

/-- Submits the key shares one by one, of `total` in all, until one of them opens the store. -/
def submitShares (total : Nat) : List String → UnsealProgress → Operation SealStatus
  | [], progress => Operation.ofExcept (.error progress.exhausted)
  | key :: keys, progress => do
    let share := progress.applied + 1
    let reply ← ExceptT.lift (submitShare key).run
    match reply with
    | .error e =>
      Operation.note (.shareFailed share total e)
      Operation.ofExcept (.error e)
    | .ok report =>
      Operation.note (.shareApplied share total)
      match progress.advance report with
      | .unsealed _ report =>
        Operation.note .unsealFinished
        pure report
      | sealed => submitShares total keys sealed

/-- Unseals the store. The shares behind the one that opens it are never sent, and a submission
that fails ends the operation. -/
def unsealWith (keys : List String) : Operation SealStatus := do
  Operation.note .unsealStarted
  submitShares keys.length keys .start

end Client

end SecretStore
