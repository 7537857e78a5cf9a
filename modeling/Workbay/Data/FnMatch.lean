import Mathlib.Data.List.Basic

/-!
# Shell-style patterns

`fnmatch.fnmatchcase`: a pattern is read once into tokens, and the tokens are matched against a
whole name. `*` and `?` match any characters, `/` and line breaks included. Bracket sets follow the
reading of the pattern as a regular expression, with its treatment of ranges that are empty.
-/

namespace Workbay.FnMatch

/-- One element of a pattern. -/
inductive Token where
  /-- `*`: any characters. -/
  | star
  /-- `?`: one character. -/
  | any
  /-- The character itself. -/
  | lit (c : Char)
  /-- One character within (or, negated, outside) some ranges. -/
  | set (negated : Bool) (ranges : List (Char × Char))
deriving DecidableEq

/-- The text of a set up to its closing bracket, and what follows. A `]` right after the opening
(or after its `!`) belongs to the set; without a closing bracket there is no set. -/
def setText (cs : List Char) : Option (List Char × List Char) :=
  let bang := if cs.head? = some '!' then ['!'] else []
  let cs := cs.drop bang.length
  let close := if cs.head? = some ']' then [']'] else []
  let cs := cs.drop close.length
  if ']' ∈ cs then
    some (bang ++ close ++ cs.takeWhile (· ≠ ']'), (cs.dropWhile (· ≠ ']')).tail)
  else none

/-- Cut the text of a set at the hyphens that make ranges: the next `skip` characters cannot be such
a hyphen, and neither can the two characters after one. -/
def chunks (skip : Nat) : List Char → List Char → List (List Char)
  | cur, [] => [cur]
  | cur, c :: cs =>
    match skip with
    | 0 =>
      if c = '-' then cur :: chunks 2 [] cs
      else chunks 0 (cur ++ [c]) cs
    | n + 1 => chunks n (cur ++ [c]) cs

/-- The chunks of a set; a range hyphen at the very end belongs to the chunk before it. -/
def setChunks (text : List Char) : List (List Char) :=
  if '-' ∈ text then
    let cs := chunks (if text.head? = some '!' then 2 else 1) [] text
    if cs.getLast? = some [] then
      cs.dropLast.dropLast ++ [(cs.dropLast.getLast?.getD []) ++ ['-']]
    else cs
  else [text]

/-- Drop the ranges whose ends are out of order, from the last chunk to the first. -/
def dropEmptyRanges : List (List Char) → List (List Char)
  | [] => []
  | c :: rest =>
    match dropEmptyRanges rest with
    | [] => [c]
    | d :: rest' =>
      match c.getLast?, d.head? with
      | some lo, some hi => if hi < lo then (c.dropLast ++ d.tail) :: rest' else c :: d :: rest'
      | _, _ => c :: d :: rest'

/-- The ranges that consecutive chunks make: the last character of one and the first of the next
are the ends of a range, every other character stands for itself. -/
def setRanges : List Char → List (List Char) → List (Char × Char)
  | c, [] => c.map fun x => (x, x)
  | c, d :: rest =>
    match c.getLast?, d with
    | some lo, hi :: d' => (c.dropLast.map fun x => (x, x)) ++ (lo, hi) :: setRanges d' rest
    | _, _ => ('-', '-') :: setRanges d rest

/-- The token of a set. -/
def setToken (text : List Char) : Token :=
  match dropEmptyRanges (setChunks text) with
  | [] => .set false []
  | c :: rest =>
    if c.head? = some '!' then .set true (setRanges c.tail rest)
    else .set false (setRanges c rest)

/-- The tokens of a pattern; the fuel is its length. -/
def tokens : Nat → List Char → List Token
  | 0, _ => []
  | _, [] => []
  | n + 1, '*' :: cs => .star :: tokens n cs
  | n + 1, '?' :: cs => .any :: tokens n cs
  | n + 1, '[' :: cs =>
    match setText cs with
    | some (text, rest) => setToken text :: tokens n rest
    | none => .lit '[' :: tokens n cs
  | n + 1, c :: cs => .lit c :: tokens n cs

/-- Whether one character is matched by a token other than `*`. -/
def Token.matchesChar : Token → Char → Bool
  | .star, _ => false
  | .any, _ => true
  | .lit d, c => decide (c = d)
  | .set negated ranges, c => (ranges.any fun r => decide (r.1 ≤ c ∧ c ≤ r.2)) != negated

/-- Some suffix of the name is accepted by the rest of the pattern. -/
def anySuffix (rest : List Char → Bool) : List Char → Bool
  | [] => rest []
  | c :: cs => rest (c :: cs) || anySuffix rest cs

/-- Whether the tokens match the whole name. -/
def matchTokens : List Token → List Char → Bool
  | [], cs => cs.isEmpty
  | .star :: ts, cs => anySuffix (matchTokens ts) cs
  | _ :: _, [] => false
  | t :: ts, c :: cs => t.matchesChar c && matchTokens ts cs

/-- `fnmatch.fnmatchcase(name, pattern)` -/
def fnmatchcase (name pattern : String) : Bool :=
  let cs := pattern.toList
  matchTokens (tokens cs.length cs) name.toList

example : fnmatchcase "src/b/x.py" "src/[a-c]*.py" = true ∧ fnmatchcase "]" "[!]a]" = false := by
  decide +kernel

end Workbay.FnMatch
