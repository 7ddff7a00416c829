import Concolic.Text.Charset
import Concolic.Text.Decimal

/-
  Regular expressions.

  A match is the leftmost one, and of those the longest.  It is found through sets of positions, so
  that the work is bounded by the length of the text; the groups are found afterwards.
-/

namespace Concolic.Text

/-- A place between two characters. -/
inductive Place where
  | start
  | finish
  | wordStart
  | wordEnd
  | wordEdge
  | noWordEdge
  /-- No character of a word stands before it. -/
  | afterGap
  /-- No character of a word stands after it. -/
  | beforeGap
  deriving DecidableEq, Repr

/-- An expression. -/
inductive Regex where
  | empty
  | char (c : Char)
  | any
  | set (s : Charset)
  | place (p : Place)
  | group (n : Nat) (r : Regex)
  /-- What a group matched, once more. -/
  | back (n : Nat)
  | cat (a b : Regex)
  | alt (a b : Regex)
  /-- Repeated at least and at most so often. -/
  | rep (r : Regex) (least : Nat) (most : Option Nat)
  deriving Repr

namespace Regex

/-! ## Reading -/

/-- Which form an expression has. -/
structure Form where
  extended : Bool
  /-- A backslash before a letter stands for a control character. -/
  escapes : Bool
  /-- A closing bracket that closes nothing stands for itself, and an operator with nothing before
      it is passed over. -/
  lenient : Bool

/-- How far an expression is read. -/
structure Reader where
  rest : List Char
  groups : Nat
  /-- The groups that have been closed. -/
  closed : List Nat

/-- Reading an expression. -/
abbrev Reading := EStateM String Reader

/-- What is left to read. -/
def ahead : Reading (List Char) := do return (← get).rest

/-- Passes over characters. -/
def skip (n : Nat) : Reading Unit := modify fun s => { s with rest := s.rest.drop n }

/-- Goes on and gives an expression. -/
def passed (n : Nat) (r : Regex) : Reading Regex := do
  skip n
  return r

/-- Gives the expression for a character and goes on after `n` characters. -/
def literal (n : Nat) (c : Char) : Reading Regex := passed n (.char c)

/-- The characters of words, or the others. -/
def wordSet (negated : Bool) : Charset := ⟨negated, [.named "alnum", .range '_' '_']⟩

/-- The name between two marks such as `:` and `:]`. -/
def markedName (mark : Char) (acc : List Char) : List Char → Option (String × List Char)
  | a :: b :: rest =>
    if a = mark && b = ']' then some (String.ofList acc.reverse, rest)
    else markedName mark (a :: acc) (b :: rest)
  | _ => none

/-- The members of a set in brackets, after the opening one. -/
def setMembers (form : Form) (acc : List Member) : (fuel : Nat) → (first : Bool) → List Char →
    Except String (List Member × List Char)
  | 0, _, _ => .error "Unmatched [, [^, [:, [., or [="
  | fuel + 1, first, cs =>
    match cs with
    | [] => .error (if first then "Invalid regular expression"
        else "Unmatched [, [^, [:, [., or [=")
    | ']' :: rest =>
      if first then ranged fuel ']' rest else .ok (acc.reverse, rest)
    | '[' :: ':' :: rest =>
      match markedName ':' [] rest with
      | some (name, rest) =>
        if (classMember? name).isSome then setMembers form (.named name :: acc) fuel false rest
        else .error "Invalid character class name"
      | none => .error "Unmatched [, [^, [:, [., or [="
    | '[' :: '=' :: c :: '=' :: ']' :: rest => setMembers form (.range c c :: acc) fuel false rest
    | '[' :: '.' :: c :: '.' :: ']' :: rest => ranged fuel c rest
    | '\\' :: 'n' :: rest =>
      if form.escapes then ranged fuel '\n' rest else ranged fuel '\\' ('n' :: rest)
    | '\\' :: 't' :: rest =>
      if form.escapes then ranged fuel '\t' rest else ranged fuel '\\' ('t' :: rest)
    | c :: rest => ranged fuel c rest
where
  /-- Goes on after a character that may start a range. -/
  ranged (fuel : Nat) (c : Char) (rest : List Char) : Except String (List Member × List Char) :=
    match rest with
    | '-' :: ']' :: _ => setMembers form (.range c c :: acc) fuel false rest
    | '-' :: '[' :: '.' :: d :: '.' :: ']' :: rest =>
      if d < c then .error "Invalid range end"
      else setMembers form (.range c d :: acc) fuel false rest
    | '-' :: d :: rest =>
      if d < c then .error "Invalid range end"
      else setMembers form (.range c d :: acc) fuel false rest
    | _ => setMembers form (.range c c :: acc) fuel false rest

/-- The bounds between braces, after the opening one, up to the given closing. -/
def bounds (closing : List Char) (cs : List Char) : Option (Nat × Option Nat × List Char) :=
  let first := cs.takeWhile Char.isDigit
  let rest := cs.drop first.length
  let least := ofDigits? 10 first
  match rest with
  | ',' :: more =>
    let second := more.takeWhile Char.isDigit
    let rest := more.drop second.length
    if closing.isPrefixOf rest then
      some (least.getD 0, ofDigits? 10 second, rest.drop closing.length)
    else none
  | _ =>
    match least with
    | some n => if closing.isPrefixOf rest then some (n, some n, rest.drop closing.length) else none
    | none => none

/-- The character after a backslash that stands for a set or a place. -/
def special? : Char → Option Regex
  | 'w' => some (.set (wordSet false))
  | 'W' => some (.set (wordSet true))
  | 's' => some (.set ⟨false, [.named "space"]⟩)
  | 'S' => some (.set ⟨true, [.named "space"]⟩)
  | 'b' => some (.place .wordEdge)
  | 'B' => some (.place .noWordEdge)
  | '<' => some (.place .wordStart)
  | '>' => some (.place .wordEnd)
  | '\x60' => some (.place .start)
  | '\'' => some (.place .finish)
  | _ => none

/-- The control character that a letter after a backslash stands for. -/
def control? : Char → Option Char
  | 'n' => some '\n'
  | 't' => some '\t'
  | 'r' => some '\r'
  | 'f' => some '\x0c'
  | 'v' => some '\x0b'
  | 'a' => some '\x07'
  | _ => none

/-- The expression repeated as the operators after it say. -/
def repeated (form : Form) : (fuel : Nat) → Regex → Reading Regex
  | 0, r => return r
  | fuel + 1, r => do
    let star := fun (n : Nat) (least : Nat) (most : Option Nat) => do
      skip n
      repeated form fuel (.rep r least most)
    let braces := fun (opening : Nat) (closing : List Char) (literal : Bool) => do
      match bounds closing ((← ahead).drop opening) with
      | some (least, most, rest) =>
        if most.any fun m => m < least then throw "Invalid content of \\\x7b\\\x7d"
        else if 32767 < max least (most.getD 0) then throw "Regular expression too big"
        else
          modify fun s => { s with rest }
          repeated form fuel (.rep r least most)
      | none =>
        if literal then return r
        else if ((← ahead).drop opening).any (· = '\x7d') then
          throw "Invalid content of \\\x7b\\\x7d"
        else throw "Unmatched \\\x7b"
    match ← ahead, form.extended with
    | '*' :: _, _ => star 1 0 none
    | '+' :: _, true => star 1 1 none
    | '?' :: _, true => star 1 0 (some 1)
    | '\\' :: '+' :: _, false => star 2 1 none
    | '\\' :: '?' :: _, false => star 2 0 (some 1)
    | '\x7b' :: _, true => braces 1 ['\x7d'] true
    | '\\' :: '\x7b' :: _, false => braces 2 ['\\', '\x7d'] false
    | _, _ => return r

/-- The text starts with what ends a branch. -/
def endsBranch (form : Form) (inside : Bool) : List Char → Bool
  | [] => true
  | '|' :: _ => form.extended
  | ')' :: _ => form.extended && inside
  | '\\' :: '|' :: _ => !form.extended
  | '\\' :: ')' :: _ => !form.extended
  | '\n' :: _ => false
  | _ => false

mutual

/-- Branches between bars. -/
def alternatives (form : Form) : (fuel : Nat) → (inside : Bool) → Reading Regex
  | 0, _ => throw "Regular expression too big"
  | fuel + 1, inside => do
    let first ← branch form fuel inside true .empty
    match ← ahead, form.extended with
    | '|' :: _, true => do
      skip 1
      return .alt first (← alternatives form fuel inside)
    | '\\' :: '|' :: _, false => do
      skip 2
      return .alt first (← alternatives form fuel inside)
    | _, _ => return first

/-- Reads what follows one another, after what has been read. -/
def branch (form : Form) : (fuel : Nat) → (inside first : Bool) → Regex → Reading Regex
  | 0, _, _, _ => throw "Regular expression too big"
  | fuel + 1, inside, first, before => do
    let cs ← ahead
    if endsBranch form inside cs then return before
    else
      let join := fun (r : Regex) => match before with
        | .empty => r
        | b => .cat b r
      match ← atom form fuel inside first with
      | .place .start =>
        if form.extended then
          branch form fuel inside false (join (← repeated form fuel (.place .start)))
        else branch form fuel inside true (join (.place .start))
      | r => branch form fuel inside false (join (← repeated form fuel r))

/-- What repetitions are about. -/
def atom (form : Form) : (fuel : Nat) → (inside first : Bool) → Reading Regex
  | 0, _, _ => throw "Regular expression too big"
  | fuel + 1, inside, first => do
    let open_ := fun (n : Nat) => do
      skip n
      let number := (← get).groups + 1
      modify fun s => { s with groups := number }
      let r ← alternatives form fuel true
      match ← ahead, form.extended with
      | ')' :: _, true => skip 1
      | '\\' :: ')' :: _, false => skip 2
      | _, _ => throw "Unmatched ( or \\("
      modify fun s => { s with closed := number :: s.closed }
      return Regex.group number r
    let leading := fun (n : Nat) =>
      if form.lenient then passed n .empty else throw "Invalid preceding regular expression"
    match ← ahead, form.extended with
    | '(' :: _, true => open_ 1
    | '\\' :: '(' :: _, false => open_ 2
    | ')' :: _, true => if form.lenient then literal 1 ')' else throw "Unmatched ) or \\)"
    | '\\' :: ')' :: _, false => throw "Unmatched ) or \\)"
    | '.' :: _, _ => passed 1 .any
    | '[' :: rest, _ => do
      let (negated, rest) := match rest with
        | '^' :: more => (true, more)
        | _ => (false, rest)
      match setMembers form [] (rest.length + 1) true rest with
      | .error e => throw e
      | .ok (members, rest) =>
        modify fun s => { s with rest }
        return .set ⟨negated, members⟩
    | '*' :: _, true => if first then leading 1 else literal 1 '*'
    | '+' :: _, true => if first then leading 1 else literal 1 '+'
    | '?' :: _, true => if first then leading 1 else literal 1 '?'
    | '\x7b' :: rest, true =>
      match bounds ['\x7d'] rest with
      | some (_, _, after) =>
        if first then leading (rest.length + 1 - after.length) else literal 1 '\x7b'
      | none => literal 1 '\x7b'
    | '^' :: _, true => passed 1 (.place .start)
    | '^' :: _, false => if first then passed 1 (.place .start) else literal 1 '^'
    | '$' :: _, true => passed 1 (.place .finish)
    | '$' :: rest, false =>
      if endsBranch form inside rest then passed 1 (.place .finish) else literal 1 '$'
    | ['\\'], _ => throw "Trailing backslash"
    | '\\' :: c :: _, _ =>
      match digitValue? c with
      | some n =>
        if n = 0 then literal 2 c
        else if (← get).closed.contains n then passed 2 (.back n)
        else throw "Invalid back reference"
      | none =>
        match special? c with
        | some r => passed 2 r
        | none =>
          match if form.escapes then control? c else none with
          | some d => literal 2 d
          | none => literal 2 c
    | c :: _, _ => literal 1 c
    | [], _ => return .empty

end

/-- Reads a whole expression; gives it with the number of its groups. -/
def read (form : Form) (text : List Char) : Except String (Regex × Nat) :=
  let all : Reading Regex := do
    let r ← alternatives form (8 * text.length + 16) false
    match ← ahead with
    | [] => return r
    | _ => throw "Unmatched ) or \\)"
  match all.run ⟨text, 0, []⟩ with
  | .ok r s => .ok (r, s.groups)
  | .error e _ => .error e

/-! ## Matching -/

/-- The text to be matched. -/
structure Subject where
  chars : Array Char
  ignoreCase : Bool
  /-- Line ends inside the text are ends of lines. -/
  multiline : Bool

/-- A character of a word. -/
def isWord (c : Char) : Bool := c.isAlphanum || c = '_'

/-- Whether a position is such a place. -/
def Subject.isAt (t : Subject) (p : Place) (i : Nat) : Bool :=
  let before := 0 < i && (t.chars[i - 1]?).any isWord
  let after := (t.chars[i]?).any isWord
  match p with
  | .start => i = 0 || (t.multiline && t.chars[i - 1]? = some '\n')
  | .finish => i = t.chars.size || (t.multiline && t.chars[i]? = some '\n')
  | .wordStart => !before && after
  | .wordEnd => before && !after
  | .wordEdge => before != after
  | .noWordEdge => before == after
  | .afterGap => !before
  | .beforeGap => !after

/-- The test of an expression that matches single characters. -/
def Subject.single? (t : Subject) : Regex → Option (Char → Bool)
  | .char c => some fun d => c = d || (t.ignoreCase && toLower c = toLower d)
  | .any => some fun _ => true
  | .set s => some fun d =>
      s.contains d || (t.ignoreCase && !s.negated &&
        (s.contains (toLower d) || s.contains (toUpper d)))
  | _ => none

/-- A set of positions. -/
abbrev Positions := Array Bool

/-- The positions after a character for which the test holds. -/
def Subject.step (t : Subject) (test : Char → Bool) (from_ : Positions) : Positions :=
  Array.ofFn (n := from_.size) fun i =>
    match i.val with
    | 0 => false
    | j + 1 => (from_[j]?).getD false && (t.chars[j]?).any test

/-- The positions after any number of characters for which the test holds. -/
def Subject.run (t : Subject) (test : Char → Bool) (from_ : Positions) : Positions :=
  ((List.range from_.size).foldl
    (fun (acc : Array Bool × Bool) i =>
      let here := (from_[i]?).getD false || (acc.2 && 0 < i && (t.chars[i - 1]?).any test)
      (acc.1.push here, here))
    (Array.emptyWithCapacity from_.size, false)).1

/-- The positions in either. -/
def union (a b : Positions) : Positions := a.zipWith (fun x y => x || y) b

/-- Some position is in it. -/
def hasAny (a : Positions) : Bool := a.any id

/-- Applies a step again and again until there are no new positions. -/
def closure (step : Positions → Positions) : (fuel : Nat) → Positions → Positions → Positions
  | 0, all, _ => all
  | fuel + 1, all, fresh =>
    let new := (step fresh).zipWith (fun x y => x && !y) all
    if hasAny new then closure step fuel (union all new) new else all

/-- As many steps as there are positions for. -/
def iterate (step : Positions → Positions) : (n : Nat) → Positions → Positions
  | 0, p => p
  | n + 1, p => if hasAny p then iterate step n (step p) else p

/-- Applies a step at most so many times. -/
def upTo (step : Positions → Positions) : (n : Nat) → Positions → Positions → Positions
  | 0, all, _ => all
  | n + 1, all, last =>
    let new := step last
    if hasAny new then upTo step n (union all new) new else all

/-- The positions at which a match can end that starts at one of the given ones. -/
def Subject.ends (t : Subject) : Regex → Positions → Positions
  | .empty, p => p
  | .char c, p => match t.single? (.char c) with
    | some test => t.step test p
    | none => p
  | .any, p => t.step (fun _ => true) p
  | .set s, p => match t.single? (.set s) with
    | some test => t.step test p
    | none => p
  | .place q, p => p.mapIdx fun i b => b && t.isAt q i
  | .group _ r, p => t.ends r p
  | .back _, p => p
  | .cat a b, p =>
    let q := t.ends a p
    if hasAny q then t.ends b q else q
  | .alt a b, p => union (t.ends a p) (t.ends b p)
  | .rep r least most, p =>
    let q := iterate (t.ends r) least p
    match most with
    | some m => upTo (t.ends r) (m - least) q q
    | none =>
      match t.single? r with
      | some test => t.run test q
      | none => closure (t.ends r) (q.size + 1) q q

/-- The expression refers back to a group. -/
def hasBack : Regex → Bool
  | .back _ => true
  | .group _ r => r.hasBack
  | .cat a b => a.hasBack || b.hasBack
  | .alt a b => a.hasBack || b.hasBack
  | .rep r _ _ => r.hasBack
  | _ => false

/-- The parts of a text that belong to the groups. -/
abbrev Parts := Array (Option (Nat × Nat))

/-- The number of characters from a position on for which the test holds, at most so many. -/
def Subject.runLength (t : Subject) (test : Char → Bool) : (most i : Nat) → Nat
  | 0, _ => 0
  | most + 1, i => if (t.chars[i]?).any test then t.runLength test most (i + 1) + 1 else 0

/-- The first success for a number of repetitions, from the largest down to the smallest. -/
def tryDown {α : Type} (least : Nat) (k : Nat → Option α) : (n : Nat) → Option α
  | 0 => if least = 0 then k 0 else none
  | n + 1 =>
    if n + 1 < least then none
    else match k (n + 1) with
      | some a => some a
      | none => tryDown least k n

/-- Tries the ways to match from a position on, longer repetitions first, until one is accepted. -/
def Subject.search {α : Type} (t : Subject) : (fuel : Nat) → Regex → Nat → Parts →
    (Nat → Parts → Option α) → Option α
  | 0, _, _, _, _ => none
  | fuel + 1, r, i, parts, accept =>
    match r with
    | .empty => accept i parts
    | .place p => if t.isAt p i then accept i parts else none
    | .group n r =>
      t.search fuel r i parts fun j parts => accept j (parts.setIfInBounds n (some (i, j)))
    | .back n =>
      match (parts[n]?).bind id with
      | none => none
      | some (a, b) =>
        let same := (List.range (b - a)).all fun d =>
          match t.chars[a + d]?, t.chars[i + d]? with
          | some x, some y => x = y || (t.ignoreCase && toLower x = toLower y)
          | _, _ => false
        if same then accept (i + (b - a)) parts else none
    | .cat a b => t.search fuel a i parts fun j parts => t.search fuel b j parts accept
    | .alt a b =>
      match t.search fuel a i parts accept with
      | some x => some x
      | none => t.search fuel b i parts accept
    | .rep r least most =>
      match t.single? r with
      | some test =>
        let longest := t.runLength test (min (most.getD t.chars.size) (t.chars.size - i)) i
        tryDown least (fun n => accept (i + n) parts) longest
      | none =>
        let further := fun (least : Nat) =>
          if most = some 0 then none
          else t.search fuel r i parts fun j parts =>
            if i = j && least = 0 then none
            else t.search fuel (.rep r (least - 1) (most.map (· - 1))) j parts accept
        if 0 < least then further least
        else match further 0 with
          | some x => some x
          | none => accept i parts
    | single =>
      match t.single? single with
      | some test => if (t.chars[i]?).any test then accept (i + 1) parts else none
      | none => none

/-- An expression that is ready for use. -/
structure Matcher where
  regex : Regex
  groups : Nat
  ignoreCase : Bool
  multiline : Bool
  refersBack : Bool

/-- Makes an expression ready. -/
def matcher (form : Form) (ignoreCase multiline : Bool) (text : List Char) :
    Except String Matcher :=
  (read form text).map fun (regex, groups) =>
    { regex, groups, ignoreCase, multiline, refersBack := regex.hasBack }

/-- A match: where it starts and ends, and the parts of its groups. -/
structure Found where
  start : Nat
  finish : Nat
  parts : Parts

namespace Matcher

/-- The text as it is for the expression. -/
def subject (m : Matcher) (chars : Array Char) : Subject := ⟨chars, m.ignoreCase, m.multiline⟩

/-- Enough steps for a text. -/
def effort (m : Matcher) (chars : Array Char) : Nat :=
  (chars.size + 2) * (sizeOf m.regex + 2)
where
  /-- The number of parts of an expression. -/
  sizeOf : Regex → Nat
    | .group _ r => sizeOf r + 1
    | .cat a b => sizeOf a + sizeOf b + 1
    | .alt a b => sizeOf a + sizeOf b + 1
    | .rep r least most => (sizeOf r + 1) * (least + most.getD 1 + 1)
    | _ => 1

/-- No group has matched yet. -/
def noParts (m : Matcher) : Parts := Array.replicate (m.groups + 1) none

/-- The end of the longest match from a position on. -/
def longest (m : Matcher) (chars : Array Char) (i : Nat) : Option Nat :=
  let t := m.subject chars
  if m.refersBack then
    let ends := (List.range (chars.size + 1 - i)).reverse
    ends.findSome? fun n =>
      t.search (m.effort chars) m.regex i m.noParts fun j _ => if j = i + n then some j else none
  else
    let p := t.ends m.regex (Array.ofFn (n := chars.size + 1) fun k => k.val = i)
    p.findIdx? id |>.map fun _ => p.size - 1 - ((p.reverse.findIdx? id).getD 0)

/-- Somewhere in the text from a position on, a match may start. -/
def mayMatch (m : Matcher) (chars : Array Char) (from_ : Nat) : Bool :=
  m.refersBack ||
    hasAny ((m.subject chars).ends m.regex
      (Array.ofFn (n := chars.size + 1) fun k => decide (from_ ≤ k.val)))

/-- Is there a match anywhere? -/
def test (m : Matcher) (chars : Array Char) : Bool :=
  if m.refersBack then (List.range (chars.size + 1)).any fun i => (m.longest chars i).isSome
  else m.mayMatch chars 0

/-- The first position from one on at which a match starts, and where it ends. -/
def firstFrom (m : Matcher) (chars : Array Char) : (tries i : Nat) → Option (Nat × Nat)
  | 0, _ => none
  | tries + 1, i =>
    match m.longest chars i with
    | some j => some (i, j)
    | none => m.firstFrom chars tries (i + 1)

/-- The first match from a position on, with its groups. -/
def find? (m : Matcher) (chars : Array Char) (from_ : Nat) : Option Found :=
  if !m.mayMatch chars from_ then none
  else match m.firstFrom chars (chars.size + 1 - from_) from_ with
    | none => none
    | some (i, j) =>
      let parts := if m.groups = 0 then some m.noParts
        else (m.subject chars).search (m.effort chars) m.regex i m.noParts fun k parts =>
          if k = j then some parts else none
      let parts := parts.getD m.noParts
      some ⟨i, j, parts.setIfInBounds 0 (some (i, j))⟩

/-- What a group has matched. -/
def partText (chars : Array Char) (f : Found) (n : Nat) : List Char :=
  match (f.parts[n]?).bind id with
  | some (a, b) => (chars.extract a b).toList
  | none => []

end Matcher

end Regex

end Concolic.Text
