-- SUMMARY: Regular expressions and the places at which their matches may end.
import Provenance.Text.Blank
import Provenance.Text.Digit
import Provenance.Text.Word

/-!
# Regular expressions

Regular expressions with classes, anchors and counted repetition, and the places at which matches begun
at given places may end. Whether a repetition is greedy decides which match is found and not whether
there is one, so it is not recorded.
-/
namespace Provenance

/-! ## Characters -/

/-- One entry of a character class. -/
inductive ClassItem where
  | range (first last : Char)
  | digit (negated : Bool)
  | word (negated : Bool)
  | blank (negated : Bool)
  deriving DecidableEq

def ClassItem.admits : ClassItem → Char → Bool
  | range first last, c => first ≤ c && c ≤ last
  | digit negated, c => Text.isDigit c != negated
  | word negated, c => Text.isWord c != negated
  | blank negated, c => Text.isBlank c != negated

inductive CharTest where
  | any
  | notNewline
  | exactly (c : Char)
  | oneOf (negated : Bool) (items : List ClassItem)
  deriving DecidableEq

def CharTest.admits : CharTest → Char → Bool
  | any, _ => true
  | notNewline, c => c ≠ '\n'
  | exactly d, c => c = d
  | oneOf negated items, c => (items.any (·.admits c)) != negated

/-! ## Expressions -/

inductive Anchor where
  | start
  | finish
  | beforeFinalNewline
  | wordEdge (negated : Bool)
  deriving DecidableEq

inductive Regex where
  | empty
  | one (test : CharTest)
  | anchor (a : Anchor)
  | seq (r s : Regex)
  | alt (r s : Regex)
  | repeated (r : Regex) (least : Nat) (most : Option Nat)

namespace Regex

/-- A place in a text: how many characters lie before it, the nearest of them, and all that lie
after. -/
structure Place where
  index : Nat
  previous : Option Char
  after : List Char
  deriving DecidableEq

namespace Place

def first (text : List Char) : Place := ⟨0, none, text⟩

/-- The next place, past one character. -/
def next? (test : CharTest) (p : Place) : Option Place :=
  match p.after with
  | [] => none
  | c :: after => if test.admits c then some ⟨p.index + 1, some c, after⟩ else none

/-- All places of a text, the last first. -/
def all (text : List Char) : List Place :=
  (text.foldl (fun (places, p) _ =>
    let q := (next? .any p).getD p
    (q :: places, q)) ([first text], first text)).1

def atWordEdge (p : Place) : Bool :=
  p.previous.any Text.isWord != p.after.head?.any Text.isWord

end Place

/-- An empty text has no place at the edge of a word and none inside or outside one. -/
def Anchor.holds : Anchor → Place → Bool
  | .start, p => p.index = 0
  | .finish, p => p.after.isEmpty
  | .beforeFinalNewline, p => p.after.isEmpty || p.after = ['\n']
  | .wordEdge negated, p =>
    !(p.index = 0 && p.after.isEmpty) && p.atWordEdge != negated

/-! ## Sets of places

A set of places of one text lists each once, the last first. Later places come first because a search
goes on from where it arrived: what it reaches next is mostly later than all that it reached before, and
then only the beginnings of two lists are compared. -/

/-- The places of either set. `reversed` holds those that were passed, the nearest first. -/
def unionOnto : List Place → List Place → List Place → List Place
  | reversed, [], qs => reversed.reverseAux qs
  | reversed, p :: ps, [] => reversed.reverseAux (p :: ps)
  | reversed, p :: ps, q :: qs =>
    if p.index = q.index then unionOnto (p :: reversed) ps qs
    else if q.index < p.index then unionOnto (p :: reversed) ps (q :: qs)
    else unionOnto (q :: reversed) (p :: ps) qs
termination_by _ ps qs => ps.length + qs.length

def union (ps qs : List Place) : List Place := unionOnto [] ps qs

/-- The places of the first set that are not in the second. -/
def differenceOnto : List Place → List Place → List Place → List Place
  | reversed, [], _ => reversed.reverse
  | reversed, p :: ps, [] => reversed.reverseAux (p :: ps)
  | reversed, p :: ps, q :: qs =>
    if p.index = q.index then differenceOnto reversed ps qs
    else if q.index < p.index then differenceOnto (p :: reversed) ps (q :: qs)
    else differenceOnto reversed (p :: ps) qs
termination_by _ ps qs => ps.length + qs.length

def difference (ps qs : List Place) : List Place := differenceOnto [] ps qs

/-! ## Matching -/

/-- The places reached from `frontier` by at most `fuel` steps; `seen` was reached before. A round that
reaches no new place is the last. -/
def stepsUpTo (step : List Place → List Place) : Nat → List Place → List Place → List Place
  | 0, _, seen => seen
  | fuel + 1, frontier, seen =>
    let new := difference (step frontier) seen
    if new.isEmpty then seen else stepsUpTo step fuel new (union new seen)

/-- The places reached by exactly `n` steps. -/
def steps (step : List Place → List Place) : Nat → List Place → List Place
  | 0, ps => ps
  | n + 1, ps => if ps.isEmpty then [] else steps step n (step ps)

/-- The places where matches that begin at one of the given places may end. -/
def ends : Regex → List Place → List Place
  | empty, ps => ps
  | one test, ps => ps.filterMap (·.next? test)
  | anchor a, ps => ps.filter (Anchor.holds a)
  | seq r s, ps => ends s (ends r ps)
  | alt r s, ps => union (ends r ps) (ends s ps)
  | repeated r least most, ps =>
    let base := steps (ends r) least ps
    let rounds := match most with
      | none => (base.getLast?.map (·.after.length + 1)).getD 0
      | some most => most - least
    stepsUpTo (ends r) rounds base base

/-- A match begins somewhere in the text. -/
def search (r : Regex) (text : List Char) : Bool := !(r.ends (Place.all text)).isEmpty

/-- A match takes up the whole text. -/
def fullMatch (r : Regex) (text : List Char) : Bool :=
  (r.ends [.first text]).any (·.after.isEmpty)

end Regex
end Provenance
