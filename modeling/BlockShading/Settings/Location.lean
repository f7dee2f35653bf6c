import BlockShading.FileTree

/-!
# Where settings are kept

Settings, themes and logs live in one directory below the configuration directory of the user,
which is `XDG_CONFIG_HOME` unless that is unset or empty, and else `.config` below the home
directory.
-/

namespace BlockShading

/-- The part of the environment that decides where files are kept. -/
structure Environment where
  configHome : Option String
  home : Option String
  deriving DecidableEq, Repr

inductive LocationError where
  | noDirectory
  | notMade (path : Path) (cause : FileError)
  deriving DecidableEq, Repr

namespace LocationError

def message : LocationError → String
  | noDirectory => "No config directory available"
  | notMade path cause => s!"Failed to create directory {path.text}: {cause.message}"

end LocationError

namespace Environment

def configDir? (env : Environment) : Option Path :=
  let base := match env.configHome.filter (· != "") with
    | some dir => some (Path.mk dir)
    | none => (env.home.filter (· != "")).map fun home => (Path.mk home).join ".config"
  base.map (·.join "blocktint")

def configFile? (env : Environment) : Option Path := env.configDir?.map (·.join "config.yaml")

def themesDir? (env : Environment) : Option Path := env.configDir?.map (·.join "themes")

def logsDir? (env : Environment) : Option Path := env.configDir?.map (·.join "logs")

/-- Makes the directory of log files where it is missing. Whatever was made before a failure
stays. -/
def makeLogsDir (env : Environment) (tree : FileTree) :
    Except LocationError Path × FileTree :=
  match env.logsDir? with
  | none => (.error .noDirectory, tree)
  | some logs =>
    match tree.makeDirs logs with
    | (.error cause, made) => (.error (.notMade logs cause), made)
    | (.ok (), made) => (.ok logs, made)

def logFile (logs : Path) (day : String) : Path := logs.join ("blocktint.log." ++ day)

/-- Whether log files can be opened in a directory: their paths, which end in a day of ten
characters, must not be too long. -/
def canLogIn (logs : Path) : Bool := (FileTree.fault? (logFile logs "0000-00-00")).isNone

end Environment

end BlockShading
