import LockDiscipline.Files.Error

/-! What makes a configuration unusable. -/

namespace LockDiscipline

/-- The reasons for which a configuration is rejected. -/
inductive ConfigError where
  | unreadable (path : String) (cause : FileError)
  | invalidToml (path : String)
  | invalidYaml (path : String)
  | unknownRule (key : String)
  | invalidLevel (key level : String)
  | invalidFormat (format : String)
deriving DecidableEq, Repr

namespace ConfigError

/-- The words in which a rejection is reported. -/
def message : ConfigError → String
  | unreadable path cause => "I/O error: " ++ cause.message ++ " (path: " ++ path ++ ")"
  | invalidToml path => "Invalid TOML in " ++ path
  | invalidYaml path => "Invalid YAML in " ++ path
  | unknownRule key => "Unknown rule id '" ++ key ++ "' in [rules]"
  | invalidLevel key level =>
    "Invalid level '" ++ level ++ "' for rule " ++ key ++ " (expected error, warning or info)"
  | invalidFormat format => "Invalid format '" ++ format ++ "' (expected human or json)"

/-- A rejection followed by the failure that caused it, if there is one. -/
def chain : ConfigError → List String
  | e@(unreadable _ cause) => [e.message, cause.message]
  | e => [e.message]

end ConfigError

end LockDiscipline
