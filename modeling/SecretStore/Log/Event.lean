import SecretStore.ClientError
import SecretStore.Health
import SecretStore.Json.Printer
import SecretStore.Text.Quoted

/-!
# Log events

An `Event` is something worth a log line. `Event.record` gives the level, the target, the message
and the fields of the line; `Record.line` and `Record.toJson` write them for people and machines.
The measured response time stands in a line only where one was taken.
-/

namespace SecretStore.Log

/-- How much an event matters, the most important first. -/
inductive Level where
  | error
  | warn
  | info
  | debug
  | trace
  deriving DecidableEq, Repr

namespace Level

/-- The name of a level in log lines. -/
def name : Level → String
  | error => "ERROR"
  | warn => "WARN"
  | info => "INFO"
  | debug => "DEBUG"
  | trace => "TRACE"

/-- How many levels matter at least as much. -/
def rank : Level → Nat
  | error => 1
  | warn => 2
  | info => 3
  | debug => 4
  | trace => 5

end Level

/-- Something that happened during a run. -/
inductive Event where
  | started (appName appEnv : String)
  | clientCreated (baseUrl : String)
  | healthAsked
  | healthStatus (status : UInt16)
  | healthPassed (health : Health)
  | notReady (health : Health) (status : UInt16)
  | initStrategy (shares threshold : UInt32)
  | policyInstalled (name : String)
  | engineEnabled (engineType mountPoint : String)
  | requestCompleted (operation method path : String) (status : UInt16)
  | unsealStarted
  | shareFailed (share total : Nat) (error : ClientError)
  | shareApplied (share total : Nat)
  | unsealFinished
  | stateBefore (health : Health)
  | initialized (shares : Nat)
  | noUnsealKeys
  | keyValueInstalled (mountPoint : String)
  | consulInstalled (mountPoint : String)
  | provisioned (unsealed : Bool) (policies engines : Nat)
  | provisioningFailed (error : Failure)
  deriving DecidableEq, Repr

/-- The value of a field. -/
inductive Field where
  /-- A text that log lines put in quotes. -/
  | quoted (s : String)
  /-- A text that log lines show as it is. -/
  | plain (s : String)
  | number (n : Nat)
  | flag (b : Bool)
  deriving DecidableEq, Repr

/-- The parts of a log line. -/
structure Record where
  level : Level
  target : String
  message : String
  fields : List (String × Field)
  deriving DecidableEq, Repr

/-- The targets of log lines. -/
def Target.runtime : String := "vaultadm_bootstrap::runtime"

@[inherit_doc Target.runtime] def Target.provision : String := "vaultadm_bootstrap::provision"

@[inherit_doc Target.runtime] def Target.client : String := "vaultadm_adapter_vault::client"

@[inherit_doc Target.runtime] def Target.health : String := "vaultadm_adapter_vault::health"

@[inherit_doc Target.runtime] def Target.request : String := "vaultadm_adapter_vault::request"

@[inherit_doc Target.runtime] def Target.unseal : String := "vaultadm_adapter_vault::unseal"

@[inherit_doc Target.runtime] def Target.program : String := "vaultadm"

/-- The field of a measured response time. -/
def elapsed : Option Nat → List (String × Field)
  | some ms => [("response_time_ms", .number ms)]
  | none => []

/-- The log line of an event. -/
def Event.record (responseTime : Option Nat) : Event → Record
  | started appName appEnv =>
    ⟨.info, Target.runtime, "Runtime initialized",
      [("app_name", .plain appName), ("app_env", .plain appEnv)]⟩
  | clientCreated baseUrl =>
    ⟨.info, Target.client, "Creating Vault client", [("base_url", .plain baseUrl)]⟩
  | healthAsked => ⟨.debug, Target.health, "Performing Vault health check", []⟩
  | healthStatus status =>
    ⟨.info, Target.client, "Vault health check HTTP status", [("status", .number status.toNat)]⟩
  | healthPassed health =>
    ⟨.debug, Target.health, "Vault health check passed",
      ("health", .plain health.logName) :: elapsed responseTime⟩
  | notReady health status =>
    ⟨.warn, Target.health, "Vault is not ready",
      [("health", .plain health.logName), ("status", .number status.toNat)] ++
        elapsed responseTime⟩
  | initStrategy shares threshold =>
    ⟨.info, Target.client, "Vault init strategy (SSS parameters)",
      [("shares", .number shares.toNat), ("threshold", .number threshold.toNat)]⟩
  | policyInstalled name =>
    ⟨.info, Target.client, "Vault policy installed", [("policy", .quoted name)]⟩
  | engineEnabled engineType mountPoint =>
    ⟨.info, Target.client, "Vault secret engine enabled",
      [("engine", .plain engineType), ("mount_point", .quoted mountPoint)]⟩
  | requestCompleted operation method path status =>
    ⟨.debug, Target.request, "Vault request completed",
      [("operation", .quoted operation), ("method", .plain method), ("path", .plain path),
        ("status", .number status.toNat)]⟩
  | unsealStarted =>
    ⟨.info, Target.unseal, "Vault unsealing process, applying key shares", []⟩
  | shareFailed share total error =>
    ⟨.error, Target.unseal, "Error applying key share",
      [("share", .number share), ("total", .number total), ("error", .plain error.message)]⟩
  | shareApplied share total =>
    ⟨.info, Target.unseal, "Vault key share successfully applied",
      [("share", .number share), ("total", .number total)]⟩
  | unsealFinished =>
    ⟨.info, Target.unseal, "Vault key share threshold reached, unsealing complete", []⟩
  | stateBefore health =>
    ⟨.info, Target.provision, "Vault state before provisioning",
      [("health", .plain health.logName)]⟩
  | initialized shares =>
    ⟨.info, Target.provision,
      "Secret store initialized, root token and key shares are only in this run's output",
      [("shares", .number shares)]⟩
  | noUnsealKeys =>
    ⟨.warn, Target.provision, "Secret store is sealed and no unseal keys are configured", []⟩
  | keyValueInstalled mountPoint =>
    ⟨.info, Target.provision, "KV secret engine already installed",
      [("mount_point", .plain mountPoint)]⟩
  | consulInstalled mountPoint =>
    ⟨.info, Target.provision, "Consul secret engine already installed",
      [("mount_point", .plain mountPoint)]⟩
  | provisioned unsealed policies engines =>
    ⟨.info, Target.program, "Provisioning complete",
      [("unsealed", .flag unsealed), ("policies", .number policies),
        ("engines", .number engines)]⟩
  | provisioningFailed error =>
    ⟨.error, Target.program, "Provisioning failed", [("error", .plain error.text)]⟩

/-- A field in a line for people. -/
def Field.text : Field → String
  | quoted s => Text.quote s
  | plain s => s
  | number n => toString n
  | flag b => toString b

/-- A field in a line for machines. -/
def Field.toJson : Field → Json.Value
  | quoted s | plain s => .string s
  | number n => .number (.unsigned n)
  | flag b => .bool b

/-- The line for people, without its time. -/
def Record.line (r : Record) : String :=
  r.level.name ++ " " ++ r.target ++ ": " ++ r.message ++
    String.join (r.fields.map fun (name, field) => " " ++ name ++ "=" ++ field.text)

/-- The message and the fields for machines. -/
def Record.fieldsJson (r : Record) : Json.Value :=
  .object (("message", .string r.message) :: r.fields.map fun (name, field) => (name, field.toJson))

/-- The line for machines, without its time. -/
def Record.toJson (r : Record) : Json.Value :=
  .object [("level", .string r.level.name), ("fields", r.fieldsJson),
    ("target", .string r.target)]

end SecretStore.Log
