import LockDiscipline.Cli.Arguments

/-! What is said when arguments lead to no command. -/

namespace LockDiscipline.UsageError

/-- The commands and their options. -/
def help : String :=
  "Check the public/_unlocked locking convention in C++ classes\n\n" ++
  "Usage: lockpair [-v] <command> [options]\n\n" ++
  "Commands:\n" ++
  "  check [paths]    report issues by severity\n" ++
  "  analyze [paths]  report classes with threading concerns\n" ++
  "  rules            list the rules\n" ++
  "  version          show the version\n\n" ++
  "Options of check and analyze:\n" ++
  "  --repo-root <dir>    repository root (default: current directory)\n" ++
  "  --output <file>      write the report to this file\n" ++
  "  --format <format>    human or json (also for rules)\n\n" ++
  "Options of check:\n" ++
  "  --strict             exit non-zero on warnings\n" ++
  "  --fix-suggestions    include fix suggestions in the report\n"

/-- Whether the arguments ask for what is said, so that it is no failure. -/
def isRequest : UsageError → Bool
  | helpAsked => true
  | versionAsked => true
  | _ => false

/-- The exit code after arguments that lead to no command. -/
def code (e : UsageError) : Nat :=
  if e.isRequest then 0 else 2

/-- The words in which arguments are answered, given the version of the program. -/
def message (version : String) : UsageError → String
  | helpAsked => help
  | nothingAsked => help
  | versionAsked => "lockpair " ++ version ++ "\n"
  | missingCommand => "error: a command is required\n\n" ++ help
  | unknownCommand => "error: there is no such command\n\n" ++ help
  | unknownArgument => "error: unexpected argument\n\n" ++ help
  | unwantedValue => "error: a flag takes no value\n\n" ++ help
  | badValue => "error: a value is missing or empty\n\n" ++ help
  | repeatedOption => "error: an option is given twice\n\n" ++ help

end LockDiscipline.UsageError
