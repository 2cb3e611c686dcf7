import SecretStore.Config.Decode
import SecretStore.Connection
import SecretStore.Provisioning
import SecretStore.Text.Quoted

/-!
# The settings of the program

`Settings` is the configuration in its final shape. What may be left out has defaults in two places:
the record of a part says what all of it is when the part is absent, and `leftOut` what each field
is when the part is there without it, which is where the decoder of the part starts. The Consul
engine alone is wanted only when its part is present.
-/

namespace SecretStore.Config

/-- How the store is reached. -/
structure StoreSettings where
  protocol : String := "http"
  host : String := "localhost"
  port : UInt16 := 8200
  /-- What stands in front of every request path. -/
  path : String := ""
  nameSpace : Option String := none
  rootCertificate : Option String := none
  requestTimeoutSecs : UInt64 := 30
  /-- The token of a store that an earlier run initialized. -/
  authToken : Option String := none
  deriving DecidableEq, Repr

/-- What a run is to bring about. -/
structure BootstrapSettings where
  secretShares : UInt32 := 5
  secretThreshold : UInt32 := 3
  unsealKeys : List String := []
  /-- The names of policies, in ascending order, with the paths of their documents. -/
  policies : List (String × String) := []
  keyValue : KeyValueMount := {}
  consul : Option ConsulMount := none
  deriving DecidableEq, Repr

/-- What is logged. -/
structure TelemetrySettings where
  logLevel : String := "info"
  deriving DecidableEq, Repr

/-- The whole configuration. -/
structure Settings where
  appName : String := "vaultadm"
  appEnv : String := "development"
  store : StoreSettings := {}
  bootstrap : BootstrapSettings := {}
  telemetry : TelemetrySettings := {}
  deriving DecidableEq, Repr

/-! ### Decoders -/

open Decoder

/-- The fields of the store settings. -/
def StoreSettings.fields : List (Decoder.Field StoreSettings) :=
  [.of "protocol" text fun v s => { s with protocol := v },
    .of "host" text fun v s => { s with host := v },
    .of "port" word16 fun v s => { s with port := v },
    .of "path" text fun v s => { s with path := v },
    .of "namespace" (Decoder.optional Decoder.text) fun v s => { s with nameSpace := v },
    .of "root_ca_cert_path" (Decoder.optional Decoder.path) fun v s =>
      { s with rootCertificate := v },
    .of "request_timeout_secs" word64 fun v s => { s with requestTimeoutSecs := v },
    .of "auth_token" (Decoder.optional Decoder.text) fun v s => { s with authToken := v }]

/-- The store settings of which every field is left out. -/
def StoreSettings.leftOut : StoreSettings where
  protocol := "http"
  host := "localhost"
  port := 8200
  path := ""
  nameSpace := none
  rootCertificate := none
  requestTimeoutSecs := 30
  authToken := none

/-- Takes store settings. -/
def StoreSettings.decode : Decoder StoreSettings :=
  record "struct SecretStoreConfig" fields leftOut

/-- The fields of a key/value engine. -/
def keyValueFields : List (Decoder.Field KeyValueMount) :=
  [.of "mount_point" text fun v s => { s with mountPoint := v },
    .of "version" text fun v s => { s with version := v }]

/-- The key/value engine of which every field is left out. -/
def keyValueLeftOut : KeyValueMount where
  mountPoint := "secret"
  version := "2"

/-- Takes a key/value engine. -/
def decodeKeyValue : Decoder KeyValueMount :=
  record "struct KvEngineConfig" keyValueFields keyValueLeftOut

/-- The fields of a Consul engine. -/
def consulFields : List (Decoder.Field ConsulMount) :=
  [.of "mount_point" text fun v s => { s with mountPoint := v },
    .of "default_lease_ttl" text fun v s => { s with defaultLeaseTtl := v }]

/-- The Consul engine of which every field is left out. -/
def consulLeftOut : ConsulMount where
  mountPoint := "consul"
  defaultLeaseTtl := "1h"

/-- Takes a Consul engine. -/
def decodeConsul : Decoder ConsulMount :=
  record "struct ConsulEngineConfig" consulFields consulLeftOut

/-- The fields of the bootstrap settings. -/
def BootstrapSettings.fields : List (Decoder.Field BootstrapSettings) :=
  [.of "secret_shares" word32 fun v s => { s with secretShares := v },
    .of "secret_threshold" word32 fun v s => { s with secretThreshold := v },
    .of "unseal_keys" (Decoder.list Decoder.text) fun v s => { s with unsealKeys := v },
    .of "policies" (Decoder.map Decoder.path) fun v s => { s with policies := v },
    .of "kv" decodeKeyValue fun v s => { s with keyValue := v },
    .of "consul" (Decoder.optional decodeConsul) fun v s => { s with consul := v }]

/-- The bootstrap settings of which every field is left out. -/
def BootstrapSettings.leftOut : BootstrapSettings where
  secretShares := 5
  secretThreshold := 3
  unsealKeys := []
  policies := []
  keyValue := {}
  consul := none

/-- Takes bootstrap settings. -/
def BootstrapSettings.decode : Decoder BootstrapSettings :=
  record "struct BootstrapConfig" fields leftOut

/-- The fields of the telemetry settings. -/
def TelemetrySettings.fields : List (Decoder.Field TelemetrySettings) :=
  [.of "log_level" text fun v s => { s with logLevel := v }]

/-- The telemetry settings of which every field is left out. -/
def TelemetrySettings.leftOut : TelemetrySettings where
  logLevel := "info"

/-- Takes telemetry settings. -/
def TelemetrySettings.decode : Decoder TelemetrySettings :=
  record "struct TelemetryConfig" fields leftOut

/-- The fields of the configuration. -/
def Settings.fields : List (Decoder.Field Settings) :=
  [.of "app_name" text fun v s => { s with appName := v },
    .of "app_env" text fun v s => { s with appEnv := v },
    .of "vault" StoreSettings.decode fun v s => { s with store := v },
    .of "bootstrap" BootstrapSettings.decode fun v s => { s with bootstrap := v },
    .of "telemetry" TelemetrySettings.decode fun v s => { s with telemetry := v }]

/-- The configuration of which every field is left out. Its parts are what they are as a whole. -/
def Settings.leftOut : Settings where
  appName := "vaultadm"
  appEnv := "development"
  store := {}
  bootstrap := {}
  telemetry := {}

/-- Takes the configuration. -/
def Settings.decode : Decoder Settings := record "struct AppConfig" fields leftOut

/-! ### What the settings amount to -/

/-- Whether the program runs in production. -/
def Settings.isProduction (s : Settings) : Bool := s.appEnv == "production"

/-- A text without one slash at its end. -/
def dropSlash (s : String) : String :=
  match s.toList.reverse with
  | '/' :: rest => String.ofList rest.reverse
  | _ => s

/-- The address of a path of the store: one slash at its end is dropped, and one is put in front of
a path that is not empty and has none. -/
def StoreSettings.url (s : StoreSettings) (path : String) : String :=
  let path := dropSlash path
  let separator := if path.isEmpty ∨ path.toList.head? = some '/' then "" else "/"
  s.protocol ++ "://" ++ s.host ++ ":" ++ toString s.port.toNat ++ separator ++ path

/-- What every request path is joined to. -/
def StoreSettings.baseUrl (s : StoreSettings) : String := s.url s.path

/-- The connection to the store. -/
def StoreSettings.connection (s : StoreSettings) : Connection :=
  ((({ baseUrl := s.baseUrl } : Connection).withNamespace s.nameSpace).withRootCertificate
    s.rootCertificate).withTimeout s.requestTimeoutSecs

/-- An optional text in the settings' text for logs. -/
def optionalText : Option String → String
  | some s => "Some(" ++ Text.quote s ++ ")"
  | none => "None"

/-- The store settings for logs. A token is not shown. -/
def StoreSettings.redacted (s : StoreSettings) : String :=
  "SecretStoreConfig \x7b protocol: " ++ Text.quote s.protocol ++ ", host: " ++ Text.quote s.host ++
    s!", port: {s.port}, path: " ++ Text.quote s.path ++ ", namespace: " ++
    optionalText s.nameSpace ++ ", root_ca_cert_path: " ++ optionalText s.rootCertificate ++
    s!", request_timeout_secs: {s.requestTimeoutSecs}, auth_token: " ++
    (if s.authToken.isSome then "Some(Secret([REDACTED alloc::string::String]))" else "None") ++
    " \x7d"

end SecretStore.Config
