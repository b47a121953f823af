/-
Type checking of edges.

Two declared types agree when they name one type with the same parameter values, in
whatever order they were written; otherwise a type rule has to allow the rewrite.
-/

import Astrs.Verify.Model

namespace Astrs.Graph

open Astrs.Base Astrs.Verify

def maxLen : Nat := 512

def maxParams : Nat := 16

def maxSegmentLen : Nat := 64

/-- A lower-case identifier: `[a-z][a-z0-9_]*`. -/
def isIdentifier (text : Text) : Bool :=
  text.head?.any Char.isLower && decide (text.length ≤ maxSegmentLen) &&
    text.all fun letter => letter.isLower || letter.isDigit || decide (letter = '_')

/-- A type name: `[A-Z][A-Za-z0-9]*`. -/
def isTypeName (text : Text) : Bool :=
  text.head?.any Char.isUpper && decide (text.length ≤ maxSegmentLen) && text.all Char.isAlphanum

def isParamValue (text : Text) : Bool := !text.isEmpty && decide (text.length ≤ maxSegmentLen) &&
    text.all fun letter => letter.isAlphanum || ['_','.',':','+','*','-'].contains letter

/-- The number after `v`: a 16-bit number without leading zeros. -/
def parseVersion : Text → Option Nat
  | 'v' :: digits =>
    if digits.isEmpty || decide (5 < digits.length) || !digits.all Char.isDigit then none
    else if decide (1 < digits.length) && decide (digits.head? = some '0') then none
    else
      let value := digits.foldl (fun total digit => total * 10 + (digit.toNat - 48)) 0
      if value < 65536 then some value else none
  | _ => none

def splitParams (input : Text) : Option (Text × Option Text) :=
  let head := input.takeWhile fun letter => decide (letter ≠ '[')
  match input.dropWhile fun letter => decide (letter ≠ '[') with
  | [] => some (head,none)
  | _ :: rest => if rest.getLast? = some ']' then some (head,some rest.dropLast) else none

abbrev Params := OrderedMap Text Text

def addParam (params : Params) (entry : Text) : Option Params :=
  let key := entry.takeWhile fun letter => decide (letter ≠ '=')
  match entry.dropWhile fun letter => decide (letter ≠ '=') with
  | [] => none
  | _ :: value =>
    if isIdentifier key && isParamValue value && (params.get key).isNone &&
        decide (params.len < maxParams) then
      some (params.insert key value)
    else none

def parseParams (inner : Text) : Option Params :=
  if inner.isEmpty then none else (inner.splitOn ',').foldlM addParam OrderedMap.empty

/-- The parameters as they are printed, sorted by key. -/
def renderParams (params : Params) : Text :=
  match params.entries with
  | [] => []
  | entries =>
    '[' :: [','].intercalate (entries.map fun binding => binding.1 ++ '=' :: binding.2) ++ [']']

def assemble (category : Text) (version : Nat) (name : Text) (params : Params) : Option Text :=
  let repr := ['s','t','d','/'] ++ category ++ ['/','v'] ++ Nat.toDigits 10 version ++
    '/' :: name ++ renderParams params
  if maxLen < repr.length then none else some repr

def parseTypeUrn (input : Text) : Option Text := do
  if maxLen < input.length then none
  else do
    let (head,inner) ← splitParams input
    match head.splitOn '/' with
    | [space,category,version,name] =>
      if decide (space = ['s','t','d']) && isIdentifier category && isTypeName name then do
        let number ← parseVersion version
        let params ← match inner with
          | some text => parseParams text
          | none => some OrderedMap.empty
        assemble category number name params
      else none
    | _ => none

def canonicalForm (urn : Manifests.Urn) : Text := (parseTypeUrn urn).getD urn

def urnsEquivalent (left right : Manifests.Urn) : Bool :=
  decide (canonicalForm left = canonicalForm right)

inductive EdgeTypeStatus where
  | anyOrAbsent
  | compatible
  | mismatch (expected found : Manifests.Urn)
  deriving DecidableEq

def ruleAllows (typeRules : List Manifests.TypeRule) (found expected : Manifests.Urn) : Bool :=
  typeRules.any fun rule => urnsEquivalent rule.source found && urnsEquivalent rule.target expected

def edgeStatus (nodes : OrderedMap NodeId GraphNode) (key : EdgeKey) (edge : Edge)
    (typeRules : List Manifests.TypeRule) : EdgeTypeStatus :=
  match inputTypeOf nodes key, outputTypeOf nodes edge.source with
  | some expected,some found =>
    if urnsEquivalent expected found || ruleAllows typeRules found expected then .compatible
    else .mismatch expected found
  | _,_ => .anyOrAbsent

end Astrs.Graph
