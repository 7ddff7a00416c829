import Concolic.Text.Decimal

/-
  Signals: their numbers, their names, and what is printed when a process is ended by one.
-/

namespace Concolic.Shell

/-- The names in the order of their numbers. -/
def signalNames : List String :=
  ["HUP", "INT", "QUIT", "ILL", "TRAP", "ABRT", "BUS", "FPE", "KILL", "USR1",
    "SEGV", "USR2", "PIPE",
   "ALRM", "TERM", "STKFLT", "CHLD", "CONT", "STOP", "TSTP", "TTIN", "TTOU", "URG", "XCPU", "XFSZ",
   "VTALRM", "PROF", "WINCH", "IO", "PWR", "SYS"]

/-- The name of a signal; number zero is the end of the script. -/
def signalName (n : Nat) : String :=
  if n = 0 then "EXIT" else (signalNames[n - 1]?).getD (Nat.repr n)

/-- The number of a signal. -/
def signal? (word : String) : Option Nat :=
  match Text.ofDigits? 10 word.toList with
  | some n => if n < 65 then some n else none
  | none =>
    if word = "EXIT" then some 0
    else
      let name := if "SIG".toList.isPrefixOf word.toList then String.ofList (word.toList.drop 3)
        else word
      (signalNames.findIdx? (· = name)).map (· + 1)

/-- What is printed when a process was ended by a signal; nothing for some. -/
def signalText (n : Nat) : Option String :=
  match n with
  | 1 => some "Hangup"
  | 2 => none
  | 3 => some "Quit"
  | 4 => some "Illegal instruction"
  | 5 => some "Trace/breakpoint trap"
  | 6 => some "Aborted"
  | 7 => some "Bus error"
  | 8 => some "Floating point exception"
  | 9 => some "Killed"
  | 10 => some "User defined signal 1"
  | 11 => some "Segmentation fault"
  | 12 => some "User defined signal 2"
  | 13 => none
  | 14 => some "Alarm clock"
  | 15 => some "Terminated"
  | 16 => some "Stack fault"
  | 24 => some "CPU time limit exceeded"
  | 25 => some "File size limit exceeded"
  | 26 => some "Virtual timer expired"
  | 27 => some "Profiling timer expired"
  | 29 => some "I/O possible"
  | 30 => some "Power failure"
  | 31 => some "Bad system call"
  | n => some ("Signal " ++ Nat.repr n)

/-- Whether a process survives the signal. -/
def isHarmless (n : Nat) : Bool := n = 0 || n = 17 || n = 18 || n = 23 || n = 28

end Concolic.Shell
