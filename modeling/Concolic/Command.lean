import Concolic.Config

/-
  The command line of the executor.
-/

namespace Concolic

/-- A program and its arguments. -/
structure Command where
  program : String
  args : List String
  deriving DecidableEq, Repr

namespace Command

/-- A character between single quotes: a quote is closed, written with a backslash, and opened. -/
def quoteChar (c : Char) : List Char := if c = '\'' then ['\'', '\\', '\'', '\''] else [c]

/-- A part of a command line as it is shown. -/
def showPart (part : String) : String :=
  if part = "" || part.toList.any Text.isBlank then
    String.ofList ('\'' :: (part.toList.flatMap quoteChar ++ ['\'']))
  else part

/-- On one line; a part that is empty or has blanks stands between single quotes. -/
def render (c : Command) : String := " ".intercalate ((c.program :: c.args).map showPart)

/-- The class path: the one under test, seen from the project root, and the auxiliary ones. -/
def classpath (projectRoot project : String) (aux : List String) : String :=
  ":".intercalate ((if projectRoot = "" then project else Path.join projectRoot project) :: aux)

/-- The command that runs an entry point under the instrumented virtual machine. -/
def instrumented (c : ExecutorConfig) (entryPoint project : String) : Command :=
  { program := c.java
    args :=
      ["-Xmx" ++ c.maxHeap,
       "-Xms" ++ c.initialHeap,
       "-Djanala.loggerClass=" ++ c.loggerClass,
       "-Djanala.conf=" ++ c.confFile,
       "-javaagent:" ++ c.agentJar,
       "-cp",
       classpath c.projectRoot project c.auxClasspath]
      ++ c.extraJvmArgs ++ [entryPoint] }

end Command

end Concolic
