import Concolic.Text.Regex
import Concolic.Utility.Reading

/-
  The program that computes an expression given as arguments.
-/

namespace Concolic.Utility

open Concolic.Text (Regex)

/-- What is left to read of an expression, and the argument before it. -/
structure ExprState where
  rest : List String
  last : String

/-- Reading an expression and computing it at once. -/
abbrev Computing := EStateM String ExprState

def nextArg? : Computing (Option String) := do return (← get).rest.head?

def passArg : Computing Unit := modify fun s => { rest := s.rest.tail, last := s.rest.headD s.last }

/-- A value that counts as false. -/
def isNullValue (v : String) : Bool :=
  match v.toList with
  | [] => true
  | '-' :: d :: ds => (d :: ds).all (· = '0')
  | cs => cs.all (· = '0')

def exprNumber? (v : String) : Option Int := Text.signed? v.toList

def needNumber (v : String) : Computing Int :=
  match exprNumber? v with
  | some n => return n
  | none => throw "non-integer argument"

/-- What a basic expression matches at the start of a text: its group, or the number
    of characters. -/
def matchStart (text pattern : String) : Except String String := do
  let (regex, groups) ← Regex.read ⟨false, false, false⟩ pattern.toList
  let m : Regex.Matcher :=
    { regex, groups, ignoreCase := false, multiline := false, refersBack := regex.hasBack }
  let chars := text.toList.toArray
  let found := (m.longest chars 0).bind fun j =>
    if groups = 0 then some ("", j)
    else ((m.subject chars).search (m.effort chars) m.regex 0 m.noParts fun k parts =>
      if k = j then some parts else none).map fun parts =>
        (String.ofList (Regex.Matcher.partText chars ⟨0, j, parts⟩ 1), j)
  match found with
  | some (group, j) => return if 0 < groups then group else Nat.repr j
  | none => return if 0 < groups then "" else "0"

/-- Compares as numbers if both are. -/
def compareValues (op a b : String) : Bool :=
  let order := match exprNumber? a, exprNumber? b with
    | some x, some y => compare x y
    | _, _ => compare a b
  match op with
  | "<" => order = .lt
  | "<=" => order != .gt
  | ">" => order = .gt
  | ">=" => order != .lt
  | "!=" => order != .eq
  | _ => order = .eq

/-- How strongly an operator binds. -/
def exprLevel? : String → Option Nat
  | "|" => some 0
  | "&" => some 1
  | "<" => some 2
  | "<=" => some 2
  | "=" => some 2
  | "==" => some 2
  | "!=" => some 2
  | ">=" => some 2
  | ">" => some 2
  | "+" => some 3
  | "-" => some 3
  | "*" => some 4
  | "/" => some 4
  | "%" => some 4
  | ":" => some 5
  | _ => none

/-- The value of an operator. -/
def applyExpr (op a b : String) : Computing String :=
  match op with
  | "|" => return if isNullValue a then (if isNullValue b then "0" else b) else a
  | "&" => return if isNullValue a || isNullValue b then "0" else a
  | "+" => do return Text.ofInt ((← needNumber a) + (← needNumber b))
  | "-" => do return Text.ofInt ((← needNumber a) - (← needNumber b))
  | "*" => do return Text.ofInt ((← needNumber a) * (← needNumber b))
  | "/" => do
    let x ← needNumber a
    let y ← needNumber b
    if y = 0 then throw "division by zero" else return Text.ofInt (x.tdiv y)
  | "%" => do
    let x ← needNumber a
    let y ← needNumber b
    if y = 0 then throw "division by zero" else return Text.ofInt (x.tmod y)
  | ":" =>
    match matchStart a b with
    | .ok v => return v
    | .error e => throw e
  | op => return if compareValues op a b then "1" else "0"

mutual

/-- A value, a function or a group. -/
def exprOperand : (fuel : Nat) → Computing String
  | 0 => throw "syntax error"
  | fuel + 1 => do
    match ← nextArg? with
    | none => throw ("syntax error: missing argument after " ++ quotedPlainly (← get).last)
    | some "(" => do
      passArg
      let v ← exprFrom fuel 0
      match ← nextArg? with
      | some ")" => do
        passArg
        return v
      | some other => throw ("syntax error: expecting ')' instead of " ++ quotedPlainly other)
      | none => throw ("syntax error: expecting ')' after " ++ quotedPlainly (← get).last)
    | some ")" => throw "syntax error: unexpected ')'"
    | some "+" => do
      passArg
      match ← nextArg? with
      | some v => do
        passArg
        return v
      | none => throw ("syntax error: missing argument after " ++ quotedPlainly "+")
    | some "length" => do
      passArg
      return Nat.repr (← exprOperand fuel).length
    | some "match" => do
      passArg
      let a ← exprOperand fuel
      let b ← exprOperand fuel
      applyExpr ":" a b
    | some "index" => do
      passArg
      let a ← exprOperand fuel
      let b ← exprOperand fuel
      return Nat.repr ((a.toList.findIdx? fun ch => b.toList.contains ch).elim 0 (· + 1))
    | some "substr" => do
      passArg
      let a ← exprOperand fuel
      let p ← exprOperand fuel
      let n ← exprOperand fuel
      match exprNumber? p, exprNumber? n with
      | some p, some n =>
        return if p ≤ 0 || n ≤ 0 then ""
          else String.ofList ((a.toList.drop (p.toNat - 1)).take n.toNat)
      | _, _ => return ""
    | some v => do
      passArg
      return v

/-- Operands between operators of a level. -/
def exprFrom : (fuel : Nat) → (level : Nat) → Computing String
  | 0, _ => throw "syntax error"
  | fuel + 1, level => do
    let first ← if 5 < level then exprOperand fuel else exprFrom fuel (level + 1)
    exprMore fuel level first

/-- The operands after the first. -/
def exprMore : (fuel : Nat) → (level : Nat) → String → Computing String
  | 0, _, v => return v
  | fuel + 1, level, v => do
    match ← nextArg? with
    | some op =>
      if exprLevel? op = some level then do
        passArg
        let w ← if 5 ≤ level then exprOperand fuel else exprFrom fuel (level + 1)
        exprMore fuel level (← applyExpr op v w)
      else return v
    | none => return v

end

def expr (c : Call) : Effect :=
  let args := match c.args with
    | "--" :: rest => rest
    | args => args
  if args.isEmpty then c.misuse 2 "missing operand"
  else
    let whole : Computing String := do
      let v ← exprFrom (8 * args.length + 16) 0
      match ← nextArg? with
      | some extra => throw ("syntax error: unexpected argument " ++ quotedPlainly extra)
      | none => return v
    match whole.run ⟨args, ""⟩ with
    | .ok v _ => { c.print (v ++ "\n") with status := if isNullValue v then 1 else 0 }
    | .error e _ => c.fail 2 e

end Concolic.Utility
