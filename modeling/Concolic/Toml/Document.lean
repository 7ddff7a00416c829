import Concolic.Toml.Scalar

/-
  TOML documents.

  A document is a list of lines: headers of tables and of elements of lists of tables, and keys with
  values.  They are entered one after the other into a layout; what is entered twice is refused.
-/

namespace Concolic.Toml

/-- Nesting, and the number of parts of a key, must stay below this. -/
def maxDepth : Nat := 80

/-! ## Keys -/

/-- A character of a name without quotes. -/
def isBare (c : Char) : Bool := c.isAlphanum || c = '_' || c = '-'

/-- What follows the blanks. -/
def skipSpace (cs : List Char) : List Char := cs.dropWhile isSpace

/-- A name: quoted on one line, or bare. -/
def readName : List Char → Option (String × List Char)
  | '"' :: rest => readBasic [] rest
  | '\'' :: rest => readLiteral rest
  | cs =>
    match cs.takeWhile isBare with
    | [] => none
    | bare => some (String.ofList bare, cs.dropWhile isBare)

/-- Names with dots between them, and blanks around each; `acc` holds those read, last first. -/
def readNames : (fuel : Nat) → (acc : List String) → List Char → Option (List String × List Char)
  | 0, _, _ => none
  | fuel + 1, acc, cs =>
    match readName (skipSpace cs) with
    | none => none
    | some (name, rest) =>
      match skipSpace rest with
      | '.' :: rest => readNames fuel (name :: acc) rest
      | rest => some ((name :: acc).reverse, rest)

/-- Names between dots, not too many. -/
def readKey (cs : List Char) : Option (List String × List Char) :=
  match readNames (cs.length + 1) [] cs with
  | some (names, rest) => if names.length < maxDepth then some (names, rest) else none
  | none => none

/-! ## Arrays and inline tables -/

/-- Drops blanks, line ends and comments.  In a comment (`inside`) everything is dropped up to the
    end of the line; what may not stand there is left. -/
def skipFiller (inside : Bool) : List Char → List Char
  | '\n' :: rest => skipFiller false rest
  | '\r' :: '\n' :: rest => skipFiller false rest
  | c :: rest =>
    if inside then (if isPlain c then skipFiller true rest else c :: rest)
    else if isSpace c then skipFiller false rest
    else if c = '#' then skipFiller true rest
    else c :: rest
  | [] => []

/-- Two paths of which one leads to or through the other. -/
def clash (a b : List String) : Bool := a.isPrefixOf b || b.isPrefixOf a

mutual

/-- A value that stands inside `depth` others. -/
def readValue : (fuel depth : Nat) → List Char → Option (Value × List Char)
  | 0, _, _ => none
  | fuel + 1, depth, cs =>
    match cs with
    | '[' :: rest => if depth + 1 < maxDepth then readItems fuel (depth + 1) [] rest else none
    | '\x7b' :: rest =>
      if depth + 1 < maxDepth then
        match skipSpace rest with
        | '\x7d' :: rest => some (.table [], rest)
        | rest => readEntries fuel (depth + 1) [] rest
      else none
    | _ => readScalar cs

/-- The items of an array up to its closing bracket, which may follow a comma. -/
def readItems : (fuel depth : Nat) → (acc : List Value) → List Char → Option (Value × List Char)
  | 0, _, _, _ => none
  | fuel + 1, depth, acc, cs =>
    match skipFiller false cs with
    | ']' :: rest => some (.array acc.reverse, rest)
    | cs =>
      match readValue fuel depth cs with
      | none => none
      | some (v, rest) =>
        match skipFiller false rest with
        | ',' :: rest => readItems fuel depth (v :: acc) rest
        | ']' :: rest => some (.array (v :: acc).reverse, rest)
        | _ => none

/-- The entries of an inline table up to its closing brace, which no comma may precede.  No key
    may lead to or through another one. -/
def readEntries : (fuel depth : Nat) → (acc : List (List String × Value)) → List Char →
    Option (Value × List Char)
  | 0, _, _, _ => none
  | fuel + 1, depth, acc, cs =>
    match readKey cs with
    | some (key, '=' :: rest) =>
      match readValue fuel depth (skipSpace rest) with
      | none => none
      | some (v, rest) =>
        if acc.any fun e => clash e.1 key then none
        else match skipSpace rest with
          | ',' :: rest => readEntries fuel depth ((key, v) :: acc) rest
          | '\x7d' :: rest => some (.table ((key, v) :: acc).reverse, rest)
          | _ => none
    | _ => none

end

/-! ## The layout of a document -/

/-- A step of a path: a name, or an element of a list of tables. -/
inductive Step where
  | name (s : String)
  | element (n : Nat)
  deriving DecidableEq, Repr

/-- How a table came about. -/
inductive Origin where
  /-- By a header of its own. -/
  | header
  /-- On the way of a longer header. -/
  | passing
  /-- On the way of a dotted key. -/
  | dotted
  deriving DecidableEq, Repr

/-- What stands at a path. -/
inductive Slot where
  | table (origin : Origin)
  | list (count : Nat)
  | leaf (v : Value)

/-- The paths entered so far, and the table that keys go into. -/
structure Layout where
  slots : List (List Step × Slot)
  current : List Step

namespace Layout

/-- Nothing entered yet; keys go into the document itself. -/
def empty : Layout := ⟨[], []⟩

/-- What stands at a path, if anything does. -/
def get? (l : Layout) (path : List Step) : Option Slot := l.slots.lookup path

/-- Enters a slot, in place of what is there. -/
def set (l : Layout) (path : List Step) (slot : Slot) : Layout :=
  { l with slots := (path, slot) :: l.slots.filter fun e => e.1 ≠ path }

/-- Goes from table to table along names, creating those that are missing.  A dotted key may not
    go through a table with a header, a header may; neither goes through a value. -/
def descend (dotted : Bool) : Layout → List Step → List String → Option (Layout × List Step)
  | l, path, [] => some (l, path)
  | l, path, name :: rest =>
    let inner := path ++ [.name name]
    match l.get? inner with
    | none =>
      descend dotted (l.set inner (.table (if dotted then .dotted else .passing))) inner rest
    | some (.leaf _) => none
    | some (.list n) => descend dotted l (inner ++ [.element (n - 1)]) rest
    | some (.table origin) =>
      if dotted && origin = .header then none else descend dotted l inner rest

/-- The table at a path came about by a dotted key. -/
def isDotted (l : Layout) (path : List Step) : Bool :=
  match l.get? path with
  | some (.table .dotted) => true
  | _ => false

/-- Enters a key with its value. -/
def addKey (l : Layout) (key : List String) (v : Value) : Option Layout :=
  match key.getLast? with
  | none => none
  | some last =>
    match descend true l l.current key.dropLast with
    | none => none
    | some (l, path) =>
      if !key.dropLast.isEmpty && !l.isDotted path then none
      else
        let inner := path ++ [.name last]
        match l.get? inner with
        | some _ => none
        | none => some (l.set inner (.leaf v))

/-- Enters the header of a table, which becomes the current one. -/
def addHeader (l : Layout) (key : List String) : Option Layout :=
  match key.getLast? with
  | none => none
  | some last =>
    match descend false l [] key.dropLast with
    | none => none
    | some (l, path) =>
      let inner := path ++ [.name last]
      match l.get? inner with
      | none => some { l.set inner (.table .header) with current := inner }
      | some (.table .passing) => some { l.set inner (.table .header) with current := inner }
      | some _ => none

/-- Enters the header of a further element of a list of tables, which becomes the current table. -/
def addElement (l : Layout) (key : List String) : Option Layout :=
  match key.getLast? with
  | none => none
  | some last =>
    match descend false l [] key.dropLast with
    | none => none
    | some (l, path) =>
      let inner := path ++ [.name last]
      let enter (n : Nat) : Layout :=
        let element := inner ++ [.element n]
        { (l.set inner (.list (n + 1))).set element (.table .header) with current := element }
      match l.get? inner with
      | none => some (enter 0)
      | some (.list n) => some (enter n)
      | some _ => none

end Layout

/-! ## Lines -/

/-- The end of a line, after blanks and an optional comment; the end of the text is one too. -/
def readLineEnd (cs : List Char) : Option (List Char) :=
  let rest := match skipSpace cs with
    | '#' :: rest => rest.dropWhile isPlain
    | rest => rest
  match rest with
  | [] => some []
  | '\n' :: rest => some rest
  | '\r' :: '\n' :: rest => some rest
  | _ => none

/-- A header after its opening brackets: a key, the closing brackets and the end of the line. -/
def readHeader (closing : List Char) (cs : List Char) : Option (List String × List Char) := do
  let (key, rest) ← readKey cs
  if closing.isPrefixOf rest then
    let rest ← readLineEnd (rest.drop closing.length)
    some (key, rest)
  else none

/-- A key with its value, up to the end of the line. -/
def readPair (cs : List Char) : Option (List String × Value × List Char) :=
  match readKey cs with
  | some (key, '=' :: rest) => do
    let (v, rest) ← readValue (2 * rest.length + 2) 0 (skipSpace rest)
    let rest ← readLineEnd rest
    some (key, v, rest)
  | _ => none

/-- Reads the lines that follow into a layout. -/
def readLines : (fuel : Nat) → Layout → List Char → Option Layout
  | 0, _, _ => none
  | fuel + 1, l, cs =>
    match skipSpace cs with
    | [] => some l
    | '\n' :: rest => readLines fuel l rest
    | '\r' :: '\n' :: rest => readLines fuel l rest
    | '#' :: rest =>
      match readLineEnd ('#' :: rest) with
      | some rest => readLines fuel l rest
      | none => none
    | '[' :: '[' :: rest =>
      match readHeader [']', ']'] rest with
      | some (key, rest) =>
        match l.addElement key with
        | some l => readLines fuel l rest
        | none => none
      | none => none
    | '[' :: rest =>
      match readHeader [']'] rest with
      | some (key, rest) =>
        match l.addHeader key with
        | some l => readLines fuel l rest
        | none => none
      | none => none
    | cs =>
      match readPair cs with
      | some (key, v, rest) =>
        match l.addKey key v with
        | some l => readLines fuel l rest
        | none => none
      | none => none

/-- Drops a byte order mark at the start of a text. -/
def dropMark : List Char → List Char
  | '\ufeff' :: rest => rest
  | cs => cs

/-- Reads a whole document. -/
def read? (text : String) : Option Layout :=
  let cs := dropMark text.toList
  readLines (cs.length + 1) .empty cs

end Concolic.Toml
