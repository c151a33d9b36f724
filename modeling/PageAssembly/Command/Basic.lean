import PageAssembly.Path

/-!
# Commands

## Main definitions

* `Command` — what the program can be asked to do
* `Parameter` — what a command can be told, by an option or by the environment
* `Command.Kind.parameters` — what each command can be told
-/

namespace PageAssembly

/-- What the program can be asked to do. -/
inductive Command where
  /-- Compiles a site. -/
  | build (sourceDir outputDir config : Option Path) (verbose : Bool)
  /-- Publishes a file, indented and otherwise as it is. -/
  | prettify (file : Path) (outputDir : Option Path) (verbose : Bool)
  /-- Lists the dependencies of a site. -/
  | graph (sourceDir config : Option Path)
  deriving DecidableEq, Repr

/-- What a command can be told. -/
inductive Parameter where
  /-- The source directory. -/
  | sourceDir
  /-- The output directory. -/
  | outputDir
  /-- The settings file. -/
  | config
  /-- The file to be indented, which needs no option in front of it. -/
  | file
  /-- Whether everything is reported. -/
  | verbose
  deriving DecidableEq, Repr

namespace Parameter

/-- The name of the option, without the hyphens in front of it. -/
def name : Parameter → Text
  | sourceDir => "source-dir".toList
  | outputDir => "output-dir".toList
  | config => "config".toList
  | file => "file".toList
  | verbose => "verbose".toList

/-- The variable of the environment that is used when the option is absent. -/
def environmentName : Parameter → Text
  | sourceDir => "INPUT_SOURCE_DIR".toList
  | outputDir => "INPUT_OUTPUT_DIR".toList
  | config => "INPUT_CONFIG".toList
  | file => "INPUT_FILE".toList
  | verbose => "INPUT_VERBOSE".toList

/-- Whether the option is switched on or off and takes no value of its own. -/
def isSwitch : Parameter → Bool
  | verbose => true
  | _ => false

end Parameter

namespace Command

/-- The commands by what they do. -/
inductive Kind where
  /-- Compiles a site. -/
  | build
  /-- Publishes a file. -/
  | prettify
  /-- Lists dependencies. -/
  | graph
  deriving DecidableEq, Repr

namespace Kind

/-- The word for a command. -/
def name : Kind → Text
  | build => "build".toList
  | prettify => "prettify".toList
  | graph => "graph".toList

/-- The command with the given word. -/
def ofName? (word : Text) : Option Kind := [build, prettify, graph].find? (·.name == word)

/-- What a command can be told. -/
def parameters : Kind → List Parameter
  | build => [.sourceDir, .outputDir, .config, .verbose]
  | prettify => [.file, .outputDir, .verbose]
  | graph => [.sourceDir, .config]

theorem ofName?_name (k : Kind) : ofName? k.name = some k := by
  cases k <;> decide

end Kind

/-- Whether a command reports everything. -/
def isVerbose : Command → Bool
  | build _ _ _ verbose => verbose
  | prettify _ _ verbose => verbose
  | graph _ _ => false

end Command

end PageAssembly
