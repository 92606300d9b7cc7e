-- SUMMARY: The reader of regular expressions: tokens, classes, and a stack of open groups.
import Provenance.Pattern.Regex

/-!
# Reading regular expressions

A pattern is cut into tokens, which are then joined into an expression with a stack of open groups.
`Regex.parse?` refuses what has no meaning: classes and groups left open, stray closing brackets,
repetitions of nothing, of an anchor or of a repetition, and reversed bounds. It reads the core of the
syntax only. Flags, names of groups, references back, tests of what lies ahead or behind and characters
by their number are refused too; predicates are given another `RegexLibrary` for them.
-/
namespace Provenance.Regex

inductive Token where
  | item (r : Regex)
  | edge (a : Anchor)
  | bar
  | opening
  | closing
  | quantifier (least : Nat) (most : Option Nat)

/-! ## Escapes -/

/-- The control characters that have a letter. -/
def controlChar? : Char → Option Char
  | 'n' => some '\n'
  | 't' => some '\t'
  | 'r' => some '\r'
  | 'f' => some '\x0c'
  | 'v' => some '\x0b'
  | 'a' => some '\x07'
  | _ => none

/-- The classes that have a letter, negated by its capital. -/
def classItem? : Char → Option ClassItem
  | 'd' => some (.digit false)
  | 'D' => some (.digit true)
  | 'w' => some (.word false)
  | 'W' => some (.word true)
  | 's' => some (.blank false)
  | 'S' => some (.blank true)
  | _ => none

/-- The anchors that have a letter. -/
def anchor? : Char → Option Anchor
  | 'b' => some (.wordEdge false)
  | 'B' => some (.wordEdge true)
  | 'A' => some .start
  | 'Z' => some .finish
  | _ => none

def literal (c : Char) : Regex := one (.exactly c)

/-- An escaped character outside a class. Letters and digits without a meaning are refused. -/
def escape? (c : Char) : Option Token :=
  match classItem? c, anchor? c, controlChar? c with
  | some item, _, _ => some (.item (one (.oneOf false [item])))
  | _, some a, _ => some (.edge a)
  | _, _, some d => some (.item (literal d))
  | none, none, none => if c.isAlphanum then none else some (.item (literal c))

/-- An escaped character within a class. -/
def classEscape? (c : Char) : Option ClassItem :=
  match classItem? c, controlChar? c with
  | some item, _ => some item
  | _, some d => some (.range d d)
  | none, none =>
    if c = 'b' then some (.range '\x08' '\x08')
    else if c.isAlphanum then none
    else some (.range c c)

/-! ## Classes -/

/-- One entry of a class, and what follows it. -/
def classEntry? : List Char → Option (ClassItem × List Char)
  | '\\' :: c :: cs => (classEscape? c).map (·, cs)
  | '\\' :: [] => none
  | c :: cs => some (.range c c, cs)
  | [] => none

/-- The range between two single characters. -/
def rangeOf? : ClassItem → ClassItem → Option ClassItem
  | .range a a', .range b b' => if a = a' && b = b' && a ≤ b then some (.range a b) else none
  | _, _ => none

/-- The entries of a class up to its closing bracket, and what follows. The bracket is an ordinary
character in the first place, and so is a dash in the last. -/
def classItems? : Nat → List ClassItem → List Char → Option (List ClassItem × List Char)
  | 0, _, _ => none
  | _ + 1, first :: items, ']' :: rest => some (first :: items, rest)
  | fuel + 1, items, cs => do
    let (entry, cs) ← classEntry? cs
    match cs with
    | '-' :: ']' :: rest => return (items ++ [entry, .range '-' '-'], rest)
    | '-' :: cs =>
      let (last, cs) ← classEntry? cs
      let item ← rangeOf? entry last
      classItems? fuel (items ++ [item]) cs
    | cs => classItems? fuel (items ++ [entry]) cs

/-- The class after its opening bracket. -/
def charClass? (cs : List Char) : Option (CharTest × List Char) :=
  match cs with
  | '^' :: cs => (classItems? (cs.length + 1) [] cs).map fun (items, rest) => (.oneOf true items, rest)
  | cs => (classItems? (cs.length + 1) [] cs).map fun (items, rest) => (.oneOf false items, rest)

/-! ## Quantifiers -/

def readNat (ds : List Char) : Nat := ds.foldl (fun n d => 10 * n + (d.toNat - '0'.toNat)) 0

def isCount (c : Char) : Bool := '0' ≤ c && c ≤ '9'

/-- Counted bounds after their opening brace, up to the closing one. Anything else is no quantifier,
and the brace is an ordinary character. -/
def bounds? (cs : List Char) : Option ((Nat × Option Nat) × List Char) :=
  let least := cs.takeWhile isCount
  match cs.dropWhile isCount with
  | '}' :: rest => if least.isEmpty then none else some ((readNat least, some (readNat least)), rest)
  | ',' :: cs =>
    let most := cs.takeWhile isCount
    match cs.dropWhile isCount with
    | '}' :: rest =>
      some ((readNat least, if most.isEmpty then none else some (readNat most)), rest)
    | _ => none
  | _ => none

/-- A quantifier may be followed by a mark that makes it lazy. -/
def dropLazyMark : List Char → List Char
  | '?' :: cs => cs
  | cs => cs

/-! ## Tokens -/

/-- The first token of a pattern that is not empty, and what follows it. -/
def token? (c : Char) (cs : List Char) : Option (Token × List Char) :=
  match c, cs with
  | '\\', d :: cs => (escape? d).map (·, cs)
  | '\\', [] => none
  | '[', cs => (charClass? cs).map fun (test, rest) => (.item (one test), rest)
  | '(', '?' :: ':' :: cs => some (.opening, cs)
  | '(', '?' :: _ => none
  | '(', cs => some (.opening, cs)
  | ')', cs => some (.closing, cs)
  | '|', cs => some (.bar, cs)
  | '.', cs => some (.item (one .notNewline), cs)
  | '^', cs => some (.edge .start, cs)
  | '$', cs => some (.edge .beforeFinalNewline, cs)
  | '*', cs => some (.quantifier 0 none, dropLazyMark cs)
  | '+', cs => some (.quantifier 1 none, dropLazyMark cs)
  | '?', cs => some (.quantifier 0 (some 1), dropLazyMark cs)
  | '{', cs =>
    match bounds? cs with
    | some ((least, most), rest) => some (.quantifier least most, dropLazyMark rest)
    | none => some (.item (literal '{'), cs)
  | c, cs => some (.item (literal c), cs)

/-- All tokens. Each takes at least one character, so the length of the pattern is fuel enough. -/
def tokens? : Nat → List Char → Option (List Token)
  | _, [] => some []
  | 0, _ :: _ => none
  | fuel + 1, c :: cs => do
    let (t, rest) ← token? c cs
    return t :: (← tokens? fuel rest)

/-! ## Groups -/

/-- What may be done with a part: only one that is no anchor and not repeated yet is repeated. -/
inductive Repeatable where
  | yes
  | no
  deriving DecidableEq

/-- A group that is being read: its finished branches and the parts of the open one, last first. -/
structure Group where
  branches : List Regex
  parts : List (Regex × Repeatable)

namespace Group

def start : Group := ⟨[], []⟩

def push (g : Group) (r : Regex) (repeatable : Repeatable) : Group :=
  { g with parts := (r, repeatable) :: g.parts }

def branch (g : Group) : Regex := g.parts.foldl (fun rest part => seq part.1 rest) empty

/-- The alternatives of the group. -/
def finish (g : Group) : Regex :=
  match g.branches with
  | [] => g.branch
  | first :: rest => alt (rest.foldl (fun acc r => alt r acc) first) g.branch

def nextBranch (g : Group) : Group := ⟨g.branch :: g.branches, []⟩

/-- The last part repeated, if it may be. -/
def quantify? (g : Group) (least : Nat) (most : Option Nat) : Option Group :=
  match g.parts with
  | (r, .yes) :: parts =>
    if most.any (· < least) then none
    else some { g with parts := (repeated r least most, .no) :: parts }
  | _ => none

end Group

/-- One token more: the innermost group and the groups around it. -/
def join? : Group × List Group → Token → Option (Group × List Group)
  | (g, around), .item r => some (g.push r .yes, around)
  | (g, around), .edge a => some (g.push (anchor a) .no, around)
  | (g, around), .bar => some (g.nextBranch, around)
  | (g, around), .opening => some (.start, g :: around)
  | (g, outer :: around), .closing => some (outer.push g.finish .yes, around)
  | (_, []), .closing => none
  | (g, around), .quantifier least most => (g.quantify? least most).map (·, around)

def ofTokens? (ts : List Token) : Option Regex := do
  let (g, around) ← ts.foldlM join? (Group.start, [])
  if around.isEmpty then some g.finish else none

/-- The expression that a pattern denotes, if it denotes one. -/
def parse? (pattern : String) : Option Regex := do
  let cs := pattern.toList
  ofTokens? (← tokens? cs.length cs)

end Provenance.Regex
