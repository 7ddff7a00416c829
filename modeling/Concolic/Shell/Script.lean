/-
  Scripts of the command language.

  A script is a list of commands.  Texts are texts of bytes.
-/

namespace Concolic.Shell

/-- What is put in for a parameter such as `$x` or `$1`.  `empty` says that an empty value counts as
    none. -/
inductive Use where
  /-- Its value: `${x}`. -/
  | value
  /-- The number of bytes of its value: `${#x}`. -/
  | size
  /-- Its value, or the word if it has none: `${x-word}`. -/
  | fallback (empty : Bool)
  /-- The same, and the word becomes its value: `${x=word}`. -/
  | assign (empty : Bool)
  /-- Its value; if it has none, the script ends with the word as its complaint: `${x?word}`. -/
  | demand (empty : Bool)
  /-- The word if it has a value: `${x+word}`. -/
  | instead (empty : Bool)
  /-- Its value without a start that matches the word, the shortest or the longest one:
      `${x#word}`. -/
  | dropFront (longest : Bool)
  /-- Its value without an end that matches the word: `${x%word}`. -/
  | dropBack (longest : Bool)
  /-- A part of its value, from one number on and as long as another: `${x:from:length}`. -/
  | slice
  /-- Its value with matches of one word replaced by another: `${x/word/word}`. -/
  | substitute (every : Bool) (anchor : Option Char)
  /-- Its value with small letters for capitals or the other way round: `${x^^}`. -/
  | letters (upper every : Bool)
  | malformed
  deriving DecidableEq, Repr

/-- How a file is opened by a redirection. -/
inductive Access where
  | read
  | write
  /-- For writing, even if files are protected from being emptied. -/
  | overwrite
  | append
  /-- For both, from its start, keeping what is there. -/
  | readWrite
  deriving DecidableEq, Repr

mutual

/-- A piece of a word.  What is quoted is neither split at blanks nor matched with file names. -/
inductive Piece where
  | text (quoted : Bool) (text : String)
  /-- The value of a parameter; the further words are those that its use needs. -/
  | parameter (quoted : Bool) (name : String) (use : Use) (words : List (List Piece))
  /-- What a script prints. -/
  | output (quoted : Bool) (script : List Command)
  /-- The value of an arithmetic expression. -/
  | number (quoted : Bool) (expression : List Piece)

/-- Where a descriptor goes. -/
inductive Redirect where
  | file (descriptor : Nat) (access : Access) (path : List Piece)
  /-- To what another descriptor is open on, or to nothing. -/
  | copy (descriptor : Nat) (source : List Piece)
  /-- From a text that stands in the script, found under its number. -/
  | document (descriptor : Nat) (key : Nat)
  /-- From a word followed by a line end. -/
  | word (descriptor : Nat) (text : List Piece)
  /-- Both output streams to a file. -/
  | both (access : Access) (path : List Piece)

/-- A command.  `line` is the number of the line that it starts in. -/
inductive Command where
  /-- Assignments, words and redirections. -/
  | simple (line : Nat) (assignments : List (String × Bool × List Piece))
      (words : List (List Piece))
      (redirects : List Redirect)
  /-- Commands that each read what the one before prints. -/
  | pipeline (commands : List Command)
  /-- Succeeds if the command fails. -/
  | negation (command : Command)
  /-- The second only if the first succeeds. -/
  | both (first second : Command)
  /-- The second only if the first fails. -/
  | either (first second : Command)
  | group (commands : List Command)
  /-- Without waiting for it. -/
  | background (command : Command)
  /-- In a copy of the state, which is dropped afterwards. -/
  | subshell (line : Nat) (commands : List Command)
  | redirected (line : Nat) (command : Command) (redirects : List Redirect)
  | condition (test : List Command) (positive : List Command) (negative : List Command)
  /-- Again and again while the test succeeds, or while it fails. -/
  | loop (negated : Bool) (test body : List Command)
  /-- Once for every word, or every argument. -/
  | each (line : Nat) (name : String) (words : Option (List (List Piece))) (body : List Command)
  /-- The commands of the first case that has a matching pattern. -/
  | choice (line : Nat) (word : List Piece) (cases : List (List (List Piece) × List Command))
  | define (line : Nat) (name : String) (body : Command)
  /-- Succeeds if the value of the expression is not zero. -/
  | arithmetic (line : Nat) (expression : List Piece)
  /-- A question with its own quoting rules: words, some of them operators. -/
  | question (line : Nat) (words : List (List Piece))

end

/-- Text, and places where a value is put in when the command is run. -/
abbrev Word := List Piece

/-- The text of a word with nothing special in it. -/
def plainText? : Word → Option String
  | [] => some ""
  | [.text false s] => some s
  | _ => none

/-- One more character; the last piece comes first. -/
def pushChar (quoted : Bool) (c : Char) : Word → Word
  | .text q s :: rest =>
    if q = quoted then .text q (s.push c) :: rest
    else .text quoted (String.singleton c) :: .text q s :: rest
  | rest => .text quoted (String.singleton c) :: rest

/-! ## Names -/

def isNameStart (c : Char) : Bool :=
  ('a' ≤ c && c ≤ 'z') || ('A' ≤ c && c ≤ 'Z') || c = '_'

def isNameChar (c : Char) : Bool := isNameStart c || ('0' ≤ c && c ≤ '9')

def isName (s : String) : Bool :=
  match s.toList with
  | [] => false
  | c :: rest => isNameStart c && rest.all isNameChar

/-- A parameter with a name of one character. -/
def isSpecial (c : Char) : Bool :=
  c = '@' || c = '*' || c = '#' || c = '?' || c = '-' || c = '$' || c = '!' || ('0' ≤ c && c ≤ '9')

end Concolic.Shell
