import Concolic.Utility.Columns
import Concolic.Utility.Expression
import Concolic.Utility.Grep
import Concolic.Utility.Listing
import Concolic.Utility.Names
import Concolic.Utility.Numbers
import Concolic.Utility.Ordering
import Concolic.Utility.Sed
import Concolic.Utility.Test

/-
  The programs that are installed, by their names.
-/

namespace Concolic.Utility

/-- What an installed program does; none for those that run other programs. -/
def installed? (name : String) : Option (Call → Effect) :=
  match name with
  | "true" => some fun c => c.idle
  | "false" => some fun c => { c.idle with status := 1 }
  | "echo" => some fun c => c.print (echo .program c.args)
  | "printf" => some printf
  | "test" => some fun c => test c false
  | "[" => some fun c => test c true
  | "rm" => some rm
  | "rmdir" => some rmdir
  | "unlink" => some unlinkFile
  | "mkdir" => some mkdir
  | "touch" => some touch
  | "truncate" => some truncate
  | "mktemp" => some mktemp
  | "chmod" => some chmod
  | "cp" => some cp
  | "install" => some install
  | "mv" => some mv
  | "ln" => some ln
  | "link" => some linkFile
  | "ls" => some ls
  | "cat" => some cat
  | "tee" => some tee
  | "tac" => some tac
  | "rev" => some rev
  | "head" => some head
  | "tail" => some tail
  | "wc" => some wc
  | "nl" => some nl
  | "cut" => some cut
  | "paste" => some paste
  | "fold" => some fold
  | "expand" => some expand
  | "tr" => some tr
  | "sort" => some sort
  | "uniq" => some uniq
  | "comm" => some comm
  | "cmp" => some cmp
  | "basename" => some basename
  | "dirname" => some dirname
  | "pwd" => some pwd
  | "readlink" => some readlink
  | "realpath" => some realpath
  | "which" => some which
  | "printenv" => some printenv
  | "id" => some identity
  | "whoami" => some whoami
  | "groups" => some groups
  | "arch" => some arch
  | "sync" => some syncFiles
  | "uname" => some uname
  | "tty" => some tty
  | "stat" => some stat
  | "seq" => some seq
  | "sleep" => some sleep
  | "expr" => some expr
  | "grep" => some (grep false false)
  | "egrep" => some (grep true false)
  | "fgrep" => some (grep false true)
  | "sed" => some sed
  | _ => none

end Concolic.Utility
