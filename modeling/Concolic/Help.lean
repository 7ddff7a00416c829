/-
  The texts that the command line shows on request.
-/

namespace Concolic.Help

def version : String := "2026.10.1"

/-- The answer to a question for the version. -/
def versionText : String := "catg " ++ version ++ "\n"

/-- The text of a page. -/
def page (lines : List String) : String := String.join (lines.map (· ++ "\n"))

/-- What `--help` prints. -/
def program : String := page
  ["Drive an instrumented concolic executor until exploration is exhausted",
   "",
   "Usage: catg [OPTIONS] <CLASSPATH> <ENTRY_POINT>",
   "       catg <COMMAND>",
   "",
   "Commands:",
   "  status  Show the running session and recently finished ones",
   "  help    Print this message or the help of the given subcommand(s)",
   "",
   "Arguments:",
   "  <CLASSPATH>    Classpath of the project under test (relative to the executor's project root)",
   "  <ENTRY_POINT>  Fully qualified name of the entry point class",
   "",
   "Options:",
   "  -i, --iterations <ITERATIONS>  Iteration budget (defaults to config, 100)",
   "      --work-dir <WORK_DIR>      Scratch working directory, recreated at start " ++
     "(defaults to config, catg_tmp). The executor runs inside it, so relative executor paths " ++
     "from config (the default ../lib jars, project root ..) are resolved from here",
   "      --timeout <TIMEOUT>        Kill the executor after this many seconds (0 = wait forever)",
   "      --config <CONFIG>          Config file path",
   "      --quiet                    Suppress per-iteration progress records",
   "      --dry-run                  Print the executor command and exit",
   "  -h, --help                     Print help",
   "  -V, --version                  Print version"]

/-- What `status --help` prints. -/
def status : String := page
  ["Show the running session and recently finished ones",
   "",
   "Usage: catg status [OPTIONS]",
   "",
   "Options:",
   "      --history <HISTORY>  Number of finished sessions to list [default: 5]",
   "  -h, --help               Print help"]

/-- What `help --help` prints. -/
def help : String := page
  ["Print this message or the help of the given subcommand(s)",
   "",
   "Usage: catg help [COMMAND]...",
   "",
   "Arguments:",
   "  [COMMAND]...  Print help for the subcommand(s)"]

end Concolic.Help
