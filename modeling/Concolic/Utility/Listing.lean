import Concolic.Utility.Files

/-
  The program that lists directories.
-/

namespace Concolic.Utility

open Concolic.Text (encode decode)

/-- A name that is listed. -/
structure Entry where
  name : String
  loc : Loc

/-- What follows the name of a file of some kind. -/
def typeMark (t : Tree) (given : List Given) (loc : Loc) : String :=
  if has given 'F' then
    match t.node? loc with
    | some (.link _) => "@"
    | some .folder => "/"
    | some .sealed => "/"
    | _ => if (t.blobAt loc).runnable then "*" else ""
  else if has given 'p' && t.isFolderAt loc then "/"
  else ""

def listedName (t : Tree) (given : List Given) (e : Entry) : String :=
  let name := if has given 'Q' then
      "\"" ++ String.join (e.name.toList.map fun c =>
        if c = '"' then "\\\"" else if c = '\\' then "\\\\"
        else if isPrintable c then String.singleton c else escapeOf c) ++ "\""
    else if has given 'b' then
      String.join (e.name.toList.map fun c =>
        if c = ' ' then "\\ " else if c = '\\' then "\\\\"
        else if isPrintable c then String.singleton c else escapeOf c)
    else e.name
  name ++ typeMark t given e.loc

def longLine (t : Tree) (given : List Given) (e : Entry) : String :=
  let (mode, size, target) := match t.node? e.loc with
    | some (.link text) => ("lrwxrwxrwx", (encode text).length, " -> " ++ encode text)
    | some .folder => ("drwxr-xr-x", 4096, "")
    | some .sealed => ("dr-xr-xr-x", 0, "")
    | some (.device _) => ("crw-rw-rw-", 0, "")
    | _ =>
      let blob := t.blobAt e.loc
      ("-" ++ modeLetters (modeOf blob), blob.bytes.size, "")
  mode ++ " 1 root root " ++ Nat.repr size ++ " Jan  1 00:00 " ++ listedName t given e ++ target

/-- Names as lines, or on one. -/
def entryText (t : Tree) (given : List Given) (entries : List Entry) : String :=
  if has given 'l' || has given 'g' || has given 'o' then
    String.join (entries.map fun e => longLine t given e ++ "\n")
  else
    let names := entries.map (listedName t given)
    if has given 'm' then if names.isEmpty then "\n" else ", ".intercalate names ++ "\n"
    else if has given 'x' || has given 'C' then
      if names.isEmpty then "" else "  ".intercalate names ++ "\n"
    else String.join (names.map (· ++ "\n"))

/-- In the order of their bytes, unless told otherwise. -/
def entryOrder (t : Tree) (given : List Given) (entries : List Entry) : List Entry :=
  let sorted := if has given 'U' || has given 'f' then entries
    else entries.mergeSort fun a b => a.name ≤ b.name
  let sorted := if has given 'S' then
      sorted.mergeSort fun a b => (t.blobAt b.loc).bytes.size ≤ (t.blobAt a.loc).bytes.size
    else sorted
  if has given 'r' then sorted.reverse else sorted

/-- The names of a directory that are listed. -/
def folderEntries (t : Tree) (given : List Given) (dir : Loc) : List Entry :=
  let all := (sortedNames t dir).map fun name => (⟨name, decode name :: dir⟩ : Entry)
  let isHidden := fun (e : Entry) => e.name.toList.head? = some '.'
  let shown := if has given 'a' || has given 'f' then ⟨".", dir⟩ :: ⟨"..", dir.tail⟩ :: all
    else if has given 'A' then all
    else all.filter fun e => !isHidden e
  entryOrder t given shown

/-- A directory, and those below it. -/
def folderTexts (t : Tree) (given : List Given) (titled : Bool) : (fuel : Nat) → (path : String) →
    Loc → List String
  | 0, _, _ => []
  | fuel + 1, path, dir =>
    let entries := folderEntries t given dir
    let long := has given 'l' || has given 'g' || has given 'o'
    let body := (if long then "total " ++ Nat.repr (4 * entries.length) ++ "\n" else "") ++
      entryText t given entries
    let first := if titled then path ++ ":\n" ++ body else body
    let inner := if has given 'R' then
        entries.filter fun e =>
          e.name ≠ "." && e.name ≠ ".." && (t.node? e.loc).any Node.isFolder
      else []
    first :: inner.flatMap fun e => folderTexts t given titled fuel (inFolder path e.name) e.loc

def ls (c : Call) : Effect :=
  let options := Options.ofLetters "aAbBcCdfFgGhHiklLmnNopqQrRsStuUvxXZ1" "ITw"
    [("all", 'a', .no), ("almost-all", 'A', .no), ("directory", 'd', .no), ("recursive", 'R', .no),
     ("reverse", 'r', .no), ("classify", 'F', .attached), ("file-type", 'F', .no),
     ("quote-name", 'Q', .no), ("escape", 'b', .no), ("literal", 'N', .no), ("size", 's', .no),
     ("color", 'Y', .attached), ("sort", 'J', .yes), ("format", 'V', .yes), ("width", 'w', .yes),
     ("dereference", 'L', .no), ("inode", 'i', .no), ("human-readable", 'h', .no),
     ("group-directories-first", 'M', .no), ("time", 'K', .yes), ("ignore", 'I', .yes)]
  match readOptions options c.args with
  | .error e => c.misuse 2 e
  | .ok (given, operands) =>
    let operands := if operands.isEmpty then ["."] else operands
    let showLinks := has given 'd' || has given 'F' || has given 'l'
    let find : String → Except Fault Loc := fun arg =>
      match c.locate c.tree (!showLinks || has given 'L') arg with
      | .ok loc => .ok loc
      | .error f => if has given 'L' then .error f
        else if f.kind = .notFound then c.locate c.tree false arg else .error f
    let found := operands.map fun arg => (arg, find arg)
    let failed := found.foldl
      (fun e (arg, r) => match r with
        | .error f =>
          e.complain 2 (c.name ++ ": cannot access " ++ quoted arg ++ ": " ++ reason f)
        | .ok _ => e)
      c.idle
    let entries := found.filterMap fun (arg, r) => match r with
      | .ok loc => some (⟨arg, loc⟩ : Entry)
      | .error _ => none
    let isListed := fun (e : Entry) => !has given 'd' && c.tree.isFolderAt e.loc
    let files := entryOrder c.tree given (entries.filter fun e => !isListed e)
    let folders := entryOrder c.tree given (entries.filter isListed)
    let titled := has given 'R' || operands.length > 1
    let texts := (if files.isEmpty then [] else [entryText c.tree given files]) ++
      folders.flatMap fun e => folderTexts c.tree given titled 1000 e.name e.loc
    failed.say ("\n".intercalate texts)

end Concolic.Utility
