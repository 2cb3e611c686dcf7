import SecretStore.Config.Load
import SecretStore.Dotenv
import SecretStore.Log.Filter
import SecretStore.Net.HttpClient

/-!
# A run of the program

The program reads its configuration, brings the store into the configured state and prints what it
changed. `begin` is the part before the first message, `Session.run` the rest. What is printed on
standard output is a document or nothing: on success the outcome, and on a failure the material of a
store that the run initialized, which exists nowhere else.
-/

namespace SecretStore.Command

open Config (Surroundings Settings)

/-! ### Before the first message -/

/-- The surroundings with the variables of the nearest `.env` file. -/
def withFileVariables (s : Surroundings) : Surroundings :=
  match s.files.nearest? s.workingDirectory ".env" with
  | none => s
  | some path =>
    match s.files path with
    | .error _ => s
    | .ok bytes => { s with environment := Dotenv.extend s.environment bytes }

/-- Which events a run logs: what `RUST_LOG` says, or else the settings. -/
def filter (s : Surroundings) (settings : Settings) : Log.Filter :=
  match (Config.Environment.get? s.environment "RUST_LOG").bind Log.Filter.parse? with
  | some f => f
  | none => Log.Filter.parse settings.telemetry.logLevel

/-- A run that has its configuration. -/
structure Session where
  primitives : Net.Primitives
  settings : Settings
  files : Files
  filter : Log.Filter

/-- Reads the configuration. -/
def begin (p : Net.Primitives) (s : Surroundings) : Except Failure Session :=
  let s := withFileVariables s
  match Config.load s s.directory with
  | .error e => .error ⟨.config, e.message⟩
  | .ok settings => .ok ⟨p, settings, s.files, filter s settings⟩

/-- The files that a run looks for before it has its configuration. -/
def configurationFiles (s : Surroundings) : List String :=
  [Config.commonFile s.directory, Config.environmentFile s s.directory]

/-- The files that a run reads when it has its configuration. -/
def Session.paths (s : Session) : List String :=
  s.settings.bootstrap.policies.map (·.2) ++ s.settings.store.rootCertificate.toList

/-! ### The run itself -/

/-- How a run ends. -/
structure Ending where
  exitCode : UInt8
  /-- What is printed on standard output. -/
  document : Option Json.Value

/-- The text on standard output. -/
def Ending.stdout (e : Ending) : String :=
  match e.document with
  | some v => v.pretty ++ "\n"
  | none => ""

/-- The document of material whose run failed. -/
def salvage (m : InitMaterial) : Json.Value :=
  (Json.Value.object [("init", m.toJson)]).normalize

namespace Session

/-- The provisioning of a session: the plan first, the client next, and only then messages. -/
def provision (s : Session) : Net.Traffic (Except RunFailure Outcome) :=
  match s.settings.plan s.files with
  | .error failure => .done (.error ⟨failure, none⟩)
  | .ok plan =>
    let connection := s.settings.store.connection
    .note (.clientCreated connection.baseUrl) <|
      match Net.HttpClient.ofConnection s.primitives s.files connection with
      | .error e => .done (.error ⟨e.toFailure, none⟩)
      | .ok client => client.carryOut plan.run

/-- What the result of provisioning means for the program. -/
def finish : Except RunFailure Outcome → Net.Traffic Ending
  | .ok o =>
    .note (.provisioned o.unsealed o.policiesInstalled.length o.enginesEnabled.length)
      (.done ⟨0, some o.toJson⟩)
  | .error e =>
    .note (.provisioningFailed e.failure)
      (.done ⟨e.failure.exitCode, e.init.map salvage⟩)

/-- The run of a session. -/
def run (s : Session) : Net.Traffic Ending :=
  .note (.started s.settings.appName s.settings.appEnv) (s.provision.bind finish)

/-- Whether log lines are for machines. -/
def logsForMachines (s : Session) : Bool := s.settings.isProduction

/-- The log line of an event, if the event is logged. -/
def record? (s : Session) (responseTime : Option Nat) (e : Log.Event) : Option Log.Record :=
  let r := e.record responseTime
  if s.filter.passes r then some r else none

end Session

end SecretStore.Command
