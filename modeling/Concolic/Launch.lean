import Concolic.Command
import Concolic.Run
import Concolic.Shell.Run

/-
  Launching a program in a directory and waiting for it.

  A launch fails before the program does anything.  A program that is still running when its time is
  up is killed, and what it did until then stays.
-/

namespace Concolic.Launch

open Concolic.Text (encode ofOctets)

/-- The number of commands that a script may run before it counts as endless. -/
def patience : Nat := 1000000

/-- How deeply commands may be nested. -/
def depth : Nat := 100000

/-- The variables that a program finds. -/
def environment : List (String × String) := [("PATH", Machine.searchPath), ("HOME", "/root")]

/-- A text that cannot be handed to a program. -/
def hasNul (text : String) : Bool := text.toList.contains '\x00'

/-- The directory and what is run there, or why nothing is. -/
def prepare (t : Tree) (cwd : Loc) (c : Command) (dir : String) : Except Fault (Loc × Image) := do
  if hasNul c.program || c.args.any hasNul || hasNul dir then throw .nulInArgument
  let loc ← t.lookup cwd true dir
  if !t.isFolderAt loc then throw .notADirectory
  let image ← Image.find t loc Machine.searchPath (encode c.program) (c.args.map encode)
  return (loc, image)

/-- The world in which a program starts: no input, nothing printed, no time passed. -/
def world (t : Tree) (limit : Option Nat) : Shell.World :=
  { tree := t
    files :=
      [(0, ⟨.device .null, 0, true, false, false⟩),
       (1, ⟨.collector 1, 0, false, true, false⟩),
       (2, ⟨.collector 2, 0, false, true, false⟩)]
    nextFile := 3, collected := [(1, []), (2, [])], nextCollector := 3, clock := 0, limit, patience,
    waiting := [], ended := [], nextProcess := 4000, signals := [] }

/-- The state in which a program starts. -/
def initial (t : Tree) (dir : Loc) (limit : Option Nat) : Shell.State :=
  { shell := Shell.Interpreter.start .plain "" environment t dir 3999 [(0, 0), (1, 1), (2, 2)]
    world := world t limit }

/-- Runs a program to its end. -/
def execute (image : Image) (s : Shell.State) : Shell.State :=
  (Shell.runner depth).program image environment s

/-- How a program ended.  One that takes too many steps is counted as one that hangs. -/
def verdict (timeout : Option Duration) (s : Shell.State) : Except Failure (Option Int32) :=
  match s.shell.flow with
  | .late => .error (.executorHung (timeout.getD (Duration.ofSeconds 0)))
  | .endless => .error (.executorHung (timeout.getD (Duration.ofSeconds 0)))
  | .killed _ => .ok none
  | _ => .ok (some (Int32.ofNat s.shell.status))

/-- What a process has printed. -/
def printed (s : Shell.State) : Console :=
  ⟨Text.lossy (ofOctets (s.collectedText 1)), Text.lossy (ofOctets (s.collectedText 2))⟩

/-- Runs a command in a directory.  If the session was asked to stop, the program is killed as
    soon as it is launched. -/
def run (cwd : Loc) (c : Command) (dir : String) (timeout : Option Duration) (cancelled : Bool)
    (t : Tree) : Reply :=
  let failed := fun cause =>
    { tree := t, exit := .error cause, output := Console.empty, cancels := cancelled }
  match prepare t cwd c dir with
  | .error f => failed (.executorLaunch c.program f)
  | .ok (loc, image) =>
    let limit := timeout.map fun d => d.totalNanos / 1000000
    if cancelled then failed .cancelled
    else if limit = some 0 then failed (.executorHung (timeout.getD (Duration.ofSeconds 0)))
    else
      let s := execute image (initial t loc limit)
      { tree := s.world.tree.settle, exit := verdict timeout s, output := printed s,
        cancels := false }

/-- The executor that runs a command in a directory every time. -/
def executor (cwd : Loc) (c : Command) (dir : String) (timeout : Option Duration) : Executor :=
  { command := c.render
    invoke := fun _ t => run cwd c dir timeout false t }

end Concolic.Launch
