import LedgerClient.Config.Document
import LedgerClient.Config.Environment
import LedgerClient.File

/-!
# Loading a configuration

The layers of a configuration are the defaults, a file and the variables, each of which goes before
the one it follows. What they come to is checked.
-/

namespace LedgerClient

/-- Why there is no configuration. -/
inductive ConfigError
  | unreadable (file : String) (cause : FileError)
  | unparsable (file : String)
  | invalid (cause : ConnectError)

def ConfigError.inspect : ConfigError → String
  | .unreadable file cause => Text.Inspect.parts "IoError" [Text.quoted file, cause.inspect]
  | .unparsable file => Text.Inspect.parts "ParseError" [Text.quoted file]
  | .invalid cause => Text.Inspect.parts "ValidationError" [Text.quoted cause.message]

def ConfigError.message : ConfigError → String
  | .unreadable file cause => "failed to read config file '" ++ file ++ "': " ++ cause.message
  | .unparsable file => "failed to parse config file '" ++ file ++ "'"
  | .invalid cause => "configuration validation failed: " ++ cause.message

namespace Config

def ofFile (files : Files) (name : String) : Except ConfigError Config :=
  match files.readText name with
  | .error cause => .error (.unreadable name cause)
  | .ok text =>
    match parse? text with
    | none => .error (.unparsable name)
    | some c => .ok c

def ofEnvironment (environment : Environment) : Config := default.override environment

def fileVariable : String := "XRPL_REMOTE_CONFIG"

/-- The configuration of the file, if one is named, and of the variables, before it is checked. -/
def layered (files : Files) (environment : Environment) : Except ConfigError Config :=
  match environment fileVariable with
  | none => .ok (default.override environment)
  | some name => (ofFile files name).map (override environment)

/-- The settings of a configuration that passes its check, with the configuration. There are none
when its liveness window is too long for settings. -/
def checked? (c : Config) : Option (Except ConfigError (Config × Connection.Settings)) :=
  c.settings?.map fun s =>
    match s.check with
    | .error cause => .error (.invalid cause)
    | .ok () => .ok (c, s)

def load? (files : Files) (environment : Environment) :
    Option (Except ConfigError (Config × Connection.Settings)) :=
  match layered files environment with
  | .error e => some (.error e)
  | .ok c => c.checked?

end Config

end LedgerClient
