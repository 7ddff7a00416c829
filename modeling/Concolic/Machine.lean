import Concolic.Tree.Operations

/-
  The machine that sessions run on, as far as they can see it.
-/

namespace Concolic.Machine

/-- The bytes that every native program starts with. -/
def magic : String := "\x7fELF"

/-- The names of the programs that are installed. -/
def programs : List String :=
  ["sh", "dash", "bash", "true", "false", "echo", "printf", "cat", "ls", "rm", "mkdir", "rmdir",
   "touch", "cp", "mv", "ln", "sleep", "test", "[", "pwd", "env", "printenv", "seq", "wc", "head",
   "tail", "tr", "grep", "egrep", "fgrep", "sed", "tee", "chmod", "sort", "uniq", "cut", "basename",
   "dirname", "expr", "find", "xargs", "readlink", "realpath", "rev", "tac", "nl", "paste", "yes",
   "timeout", "nice", "nohup", "which", "cmp", "comm", "fold", "unlink", "link", "truncate", "id",
   "whoami", "groups", "arch", "sync", "uname", "stat", "install", "mktemp", "expand", "setsid",
   "stdbuf", "tty"]

/-- A native program: a magic number, and then its name, which tells what it does. -/
def image (name : String) : Blob := ⟨(magic ++ name).toUTF8, true⟩

/-- The name of the native program that a file is. -/
def nativeName? (bytes : ByteArray) : Option String :=
  match String.fromUTF8? bytes with
  | some text =>
    if magic.toList.isPrefixOf text.toList then
      programs.find? fun name => name = String.ofList (text.toList.drop magic.length)
    else none
  | none => none

/-- The directories of the machine. -/
def folders : List Loc :=
  [["usr"], ["bin", "usr"], ["sbin", "usr"], ["lib", "usr"], ["share", "usr"], ["local", "usr"],
   ["bin", "local", "usr"], ["sbin", "local", "usr"], ["dev"], ["etc"], ["home"], ["root"], ["tmp"],
   ["var"], ["tmp", "var"], ["opt"], ["mnt"], ["run"], ["srv"], ["sys"]]

/-- The directories, links, devices and installed programs. -/
def tree : Tree :=
  { entries :=
      folders.map (fun loc => (loc, Node.folder)) ++
      [(["bin"], .link "usr/bin"), (["sbin"], .link "usr/sbin"), (["lib"], .link "usr/lib"),
       (["proc"], .sealed), (["self", "proc"], .sealed), (["fd", "self", "proc"], .sealed),
       (["null", "dev"], .device .null), (["full", "dev"], .device .full),
       (["zero", "dev"], .device .zero), (["tty", "dev"], .device .terminal),
       (["random", "dev"], .device .zero), (["urandom", "dev"], .device .zero),
       (["stdin", "dev"], .link "/proc/self/fd/0"), (["stdout", "dev"], .link "/proc/self/fd/1"),
       (["stderr", "dev"], .link "/proc/self/fd/2"), (["fd", "dev"], .link "/proc/self/fd")] ++
      ((List.range 10).map fun n =>
        ([Nat.repr n, "fd", "self", "proc"], .device (.descriptor n))) ++
      programs.map fun name => ([name, "bin", "usr"], .file (image name))
    pool := [] }

/-- The home of each user. -/
def homes : List (String × String) :=
  [("root", "/root"), ("daemon", "/usr/sbin"), ("bin", "/bin"),
   ("sys", "/dev"), ("nobody", "/nonexistent")]

/-- Where programs are looked for. -/
def searchPath : String := "/usr/local/sbin:/usr/local/bin:/usr/sbin:/usr/bin:/sbin:/bin"

end Concolic.Machine
