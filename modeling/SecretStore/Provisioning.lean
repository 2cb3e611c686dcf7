import SecretStore.Client

/-!
# Provisioning

`Plan.run` brings a store from whatever state it is in to initialized and unsealed, with the
policies and engines of the plan in place. Every step runs once and the first failure ends the run.
The material of a store that the run initialized is part of the result, whether the run succeeds or
fails later on.
-/

namespace SecretStore

/-- A policy to install. -/
structure Policy where
  name : String
  document : String
  deriving DecidableEq, Repr

/-- A key/value engine to mount. -/
structure KeyValueMount where
  mountPoint : String := "secret"
  version : String := "2"
  deriving DecidableEq, Repr

/-- A Consul engine to mount. -/
structure ConsulMount where
  mountPoint : String := "consul"
  defaultLeaseTtl : String := "1h"
  deriving DecidableEq, Repr

/-- Everything a run needs. -/
structure Plan where
  secretShares : UInt32
  secretThreshold : UInt32
  /-- The key shares of a store that an earlier run initialized. -/
  unsealKeys : List String
  /-- The token of a store that an earlier run initialized. -/
  authToken : Option String
  policies : List Policy
  keyValue : Option KeyValueMount
  consul : Option ConsulMount
  deriving DecidableEq, Repr

/-- What a run changed. -/
structure Outcome where
  initialHealth : Health
  /-- The material of a store that this run initialized. -/
  init : Option InitMaterial
  unsealed : Bool
  policiesInstalled : List String
  enginesEnabled : List String
  deriving DecidableEq, Repr

/-- A run that stopped part way. -/
structure RunFailure where
  failure : Failure
  /-- The material of a store that this run initialized before it stopped. -/
  init : Option InitMaterial
  deriving DecidableEq, Repr

/-- What the steps after initialization changed. -/
structure Configured where
  unsealed : Bool
  policiesInstalled : List String
  enginesEnabled : List String
  deriving DecidableEq, Repr

/-- A step of a run. -/
abbrev Workflow := ExceptT Failure Dialogue

namespace Workflow

/-- An operation of the client as a step. -/
def ofOperation (op : Operation α) : Workflow α :=
  ExceptT.mk (op.run.bind fun r => .done (r.mapError ClientError.toFailure))

/-- Ends with a value or a failure. -/
def ofExcept (r : Except Failure α) : Workflow α := ExceptT.mk (.done r)

/-- Notes an event. -/
def note (e : Log.Event) : Workflow Unit := ExceptT.lift (Interaction.tell e)

end Workflow

namespace Plan

/-- The failure of a store that is sealed while no key shares are known. -/
def noKeys : Failure :=
  ⟨.failedPrecondition, "secret store is sealed and bootstrap.unseal_keys is empty"⟩

/-- The failure of an initialized store without a token. -/
def noToken : Failure :=
  ⟨.config, "vault.auth_token is required for an initialized secret store"⟩

/-- The failure of a health check that tells nothing. -/
def unknownHealth (status : UInt16) : Failure :=
  ⟨.externalService, s!"unexpected health status {status} from secret store"⟩

/-- Unseals the store with fresh key shares, or else with those of the plan. -/
def unsealStore (plan : Plan) : Option InitMaterial → Workflow Unit
  | some m => do
    let _ ← Workflow.ofOperation (Client.unsealWith m.keysBase64)
  | none =>
    if plan.unsealKeys.isEmpty then do
      Workflow.note .noUnsealKeys
      Workflow.ofExcept (.error noKeys)
    else do
      let _ ← Workflow.ofOperation (Client.unsealWith plan.unsealKeys)

/-- The token for the steps that need one: the fresh root token, or else that of the plan. -/
def token (plan : Plan) : Option InitMaterial → Except Failure String
  | some m => .ok m.rootToken
  | none =>
    match plan.authToken with
    | some t => .ok t
    | none => .error noToken

/-- Installs policies in order and answers their names. -/
def installPolicies (token : String) : List Policy → Workflow (List String)
  | [] => pure []
  | p :: rest => do
    Workflow.ofOperation (Client.installPolicy token p.name p.document)
    let names ← installPolicies token rest
    pure (p.name :: names)

/-- Mounts an engine unless it is mounted, and answers the mount points that were added. -/
def ensureMounted (token mountPoint : String) (engine : Engine) (mount : Operation Unit)
    (alreadyMounted : Log.Event) : Workflow (List String) := do
  let mounted ← Workflow.ofOperation (Client.isMounted token mountPoint engine.name)
  if mounted then do
    Workflow.note alreadyMounted
    pure []
  else do
    Workflow.ofOperation mount
    pure [mountPoint]

/-- Mounts the key/value engine of the plan. -/
def ensureKeyValue (token : String) : Option KeyValueMount → Workflow (List String)
  | none => pure []
  | some m =>
    ensureMounted token m.mountPoint .keyValue (Client.mountKeyValue token m.mountPoint m.version)
      (.keyValueInstalled m.mountPoint)

/-- Mounts the Consul engine of the plan. -/
def ensureConsul (token : String) : Option ConsulMount → Workflow (List String)
  | none => pure []
  | some m =>
    ensureMounted token m.mountPoint .consul
      (Client.mountConsul token m.mountPoint m.defaultLeaseTtl) (.consulInstalled m.mountPoint)

/-- The steps after initialization. -/
def configure (plan : Plan) (health : Health) (init : Option InitMaterial) :
    Workflow Configured := do
  if health.isSealed then plan.unsealStore init
  let token ← Workflow.ofExcept (plan.token init)
  let policies ← installPolicies token plan.policies
  let keyValue ← ensureKeyValue token plan.keyValue
  let consul ← ensureConsul token plan.consul
  pure ⟨health.isSealed, policies, keyValue ++ consul⟩

/-- Initializes the store unless it is, and answers the fresh material. -/
def ensureInitialized (plan : Plan) (health : Health) : Workflow (Option InitMaterial) :=
  if health.isInitialized then pure none
  else do
    let m ← Workflow.ofOperation (Client.init plan.secretShares plan.secretThreshold)
    Workflow.note (.initialized m.keysBase64.length)
    pure (some m)

/-- The steps up to and including initialization. -/
def prepare (plan : Plan) : Workflow (Health × Option InitMaterial) := do
  let health ← Workflow.ofOperation Client.checkHealth
  Workflow.note (.stateBefore health)
  match health with
  | .unknown status => Workflow.ofExcept (.error (unknownHealth status))
  | _ =>
    let init ← plan.ensureInitialized health
    pure (health, init)

/-- The result of a run whose preparation succeeded. -/
def conclude (health : Health) (init : Option InitMaterial) :
    Except Failure Configured → Except RunFailure Outcome
  | .ok done =>
    .ok ⟨health, init, done.unsealed, done.policiesInstalled, done.enginesEnabled⟩
  | .error failure => .error ⟨failure, init⟩

/-- The whole run. -/
def run (plan : Plan) : Dialogue (Except RunFailure Outcome) := do
  match ← plan.prepare.run with
  | .error failure => pure (.error ⟨failure, none⟩)
  | .ok (health, init) =>
    let configured ← (plan.configure health init).run
    pure (conclude health init configured)

end Plan

/-- The state of a store in an outcome. -/
def Health.toJson : Health → Json.Value
  | .unknown status => .object [("unknown", .number (.unsigned status.toNat))]
  | h => .string h.name

/-- The outcome as a document. Without fresh material there is no such member. -/
def Outcome.toJson (o : Outcome) : Json.Value :=
  .object <|
    [("initial_health", o.initialHealth.toJson)] ++
    (match o.init with
      | some m => [("init", m.toJson)]
      | none => []) ++
    [("unsealed", .bool o.unsealed),
      ("policies_installed", .array (o.policiesInstalled.map .string)),
      ("engines_enabled", .array (o.enginesEnabled.map .string))]

end SecretStore
