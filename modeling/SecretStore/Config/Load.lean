import SecretStore.Config.Environment
import SecretStore.Config.Plan
import SecretStore.Config.Toml.Document

/-!
# Loading the configuration

The configuration is made of three layers: `default.toml`, the file of the environment the program
runs in, and the variables of the environment, later ones laid over earlier ones. A file that is
not there is an empty layer. `load` reads the layers, merges them and decodes the result.
-/

namespace SecretStore.Config

/-- What is wrong with a file of the configuration. -/
inductive FileFault where
  /-- It cannot be read. -/
  | unreadable (shown : String) (e : FileError)
  /-- It is no TOML document. -/
  | notToml (shown : String)
  deriving DecidableEq, Repr

/-- Why no configuration could be loaded. -/
inductive LoadError where
  /-- Files are at fault, the one that was read last standing first. -/
  | files (last : FileFault) (earlier : List FileFault)
  /-- A setting has the wrong shape. -/
  | misfit (m : Misfit)
  deriving DecidableEq, Repr

/-- How the names on the way to a setting are shown. -/
def shownPath (source : Source) (path : List String) : String :=
  match source with
  | .file _ => String.intercalate "." ("default" :: path)
  | .environment => String.intercalate "." (path.map String.toUpper)
  | .document => String.intercalate "." path

/-- How a source is shown. -/
def shownSource : Source → String
  | .file shown => " in " ++ shown ++ " TOML file"
  | .environment => " in `" ++ Environment.opening ++ "` environment variable(s)"
  | .document => ""

/-- The text of a misfit. -/
def Misfit.message (m : Misfit) : String :=
  m.mismatch.inConfiguration ++
    (if m.path.isEmpty then "" else " for key " ++ Text.quote (shownPath m.source m.path)) ++
    shownSource m.source

/-- The text of a file's fault. What a syntax error consists in is not told. -/
def FileFault.message : FileFault → String
  | unreadable shown e => e.message ++ "\n in " ++ shown ++ " TOML file"
  | notToml _ => "TOML parse error"

/-- The text of an error. -/
def LoadError.message : LoadError → String
  | files last earlier =>
    "Failed to load config: " ++
      String.intercalate "\n" ((last :: earlier).map FileFault.message)
  | misfit m => "Failed to load config: " ++ m.message

/-- What the loader can see: files, the names of the working directory from the root on, and the
variables of the environment. -/
structure Surroundings where
  files : Files
  workingDirectory : List String
  environment : List Environment.Variable

/-- The directory of the configuration files. -/
def Surroundings.directory (s : Surroundings) : String :=
  (Environment.get? s.environment "VAULTADM_CONFIG_DIR").getD "config"

/-- The name of the environment the program runs in. -/
def Surroundings.appEnv (s : Surroundings) : String :=
  (Environment.get? s.environment "APP_ENV").getD "development"

/-- The file that holds in every environment. -/
def commonFile (directory : String) : String := directory ++ "/default.toml"

/-- The file that holds in one environment. -/
def environmentFile (s : Surroundings) (directory : String) : String :=
  directory ++ "/" ++ s.appEnv ++ ".toml"

/-- The layer of a file. -/
def layer (s : Surroundings) (path : String) : Except FileFault Setting :=
  match s.files.nearest? s.workingDirectory path with
  | none => .ok (.table (.file path) [])
  | some found =>
    let shown := Files.shown s.workingDirectory found
    match s.files.readText found with
    | .error e => .error (.unreadable shown e)
    | .ok text =>
      match Toml.parse? (.file shown) text with
      | some v => .ok v
      | none => .error (.notToml shown)

/-- One layer over another. A fault of either is a fault of both. -/
def layOver (lower upper : Except FileFault Setting) : Except LoadError Setting :=
  match lower, upper with
  | .ok v, .ok w => .ok (v.merge w)
  | .error e, .ok _ => .error (.files e [])
  | .ok _, .error e => .error (.files e [])
  | .error e, .error e' => .error (.files e' [e])

/-- The settings of all layers. -/
def layers (s : Surroundings) (directory : String) : Except LoadError Setting :=
  (layOver (layer s (commonFile directory)) (layer s (environmentFile s directory))).map fun v =>
    v.merge (Environment.settings s.environment)

/-- The configuration in a directory. -/
def load (s : Surroundings) (directory : String) : Except LoadError Settings :=
  match layers s directory with
  | .error e => .error e
  | .ok v =>
    match Settings.decode v with
    | .ok settings => .ok settings
    | .error m => .error (.misfit m)

end SecretStore.Config
