import PathSelection.Selection.Mode

namespace PathSelection.CommandLine

inductive Flag where
  | help
  | version
  | config
  | mode (m : Mode)
  /-- Prints the selected paths in place of a plan. -/
  | listFiles
  /-- Names a check; only the checks that are named take part. -/
  | check
  | followLinks
  | level (l : Level)
deriving DecidableEq, Repr

namespace Flag

def names : Flag → List Text
  | .help => ["-h", "--help"]
  | .version => ["--version"]
  | .config => ["-c", "--config"]
  | .mode .explicit => []
  | .mode .all => ["-a", "--all"]
  | .mode .modified => ["-g", "--git"]
  | .mode .staged => ["-s", "--staged"]
  | .listFiles => ["--list-files"]
  | .check => ["--check"]
  | .followLinks => ["--follow-symlinks"]
  | .level .info => ["-v", "--verbose"]
  | .level .debug => ["-d", "--debug"]
  | .level .error => ["-q", "--quiet"]
  | .level .warning => []

def title (f : Flag) : Text := ['/'].intercalate f.names

def takesValue : Flag → Bool
  | .config | .check => true
  | _ => false

def excludes : Flag → Flag → Bool
  | .mode m, .mode n => m ≠ n
  | .level k, .level l => k ≠ l
  | _, _ => false

def general : List Flag := [.help, .version]

def ofCommand : List Flag :=
  [.help, .config, .mode .all, .mode .modified, .mode .staged, .listFiles, .check, .followLinks,
    .level .info, .level .debug, .level .error]

def dictionary (flags : List Flag) : List (Text × Flag) :=
  flags.flatMap fun f => f.names.map fun name => (name, f)

end Flag
end PathSelection.CommandLine
