-- SUMMARY: Counts, means, deviations, histograms, distributions and descriptions of graphs.
import Provenance.Instruction.SetAlgebra
import Provenance.Statistic.Aggregate

/-!
# Statistics of a graph

Statistics of one annotation over the elements of a graph. A value is present when it is neither null
nor the empty text. A key without a column, and a graph in which no value is present, have an empty
statistic and are no error.
-/
namespace Provenance.Environment

def isPresent (v : Value) : Bool := v ≠ .null && v ≠ .text ""

/-- The cells of an annotation in the scope of a graph. -/
def cellsInScope (env : Environment) (db : Database) (e : Element) (table? : Option String)
    (key : String) : Except Error (List Value) := do
  return (← env.rowsInScope db e table? [key]).map (·.get key)

/-- The values that are present in the scope of a graph; none without a column. -/
def presentValues (env : Environment) (graph : GraphRef) (e : Element) (key : String) :
    Program (List Value) := do
  let columns ← env.annotationColumns e
  if !columns.contains key then return []
  let table? ← env.restriction? graph e
  Program.query fun db => return (← env.cellsInScope db e table? key).filter isPresent

def statisticSize (env : Environment) (graph : GraphRef) (e : Element) (key : String) :
    Program Nat := do
  return (← env.presentValues graph e key).length

/-- The number that a cell stands for. -/
def numberOf : Value → Number
  | .null => .int 0
  | .num n => n
  | .text s => .ofText s

/-- The numbers of the values that are present, in the order of the rows. -/
def presentNumbers (env : Environment) (graph : GraphRef) (e : Element) (key : String) :
    Program (List Number) := do
  return (← env.presentValues graph e key).map numberOf

def mean [Summation] (env : Environment) (graph : GraphRef) (e : Element) (key : String) :
    Program (Option Float) := do
  return Number.mean (← env.presentNumbers graph e key)

def standardDeviation [Summation] (env : Environment) (graph : GraphRef) (e : Element) (key : String) :
    Program (Option Float) := do
  MonadExcept.ofExcept (Number.deviation (← env.presentNumbers graph e key))

/-- The rows by value, absent values and empty texts included; empty when no value is present. -/
def histogram (env : Environment) (graph : GraphRef) (e : Element) (key : String) :
    Program Histogram := do
  let size ← env.statisticSize graph e key
  if size = 0 then return .empty
  let table? ← env.restriction? graph e
  Program.query fun db => return .ofValues (← env.cellsInScope db e table? key)

/-- The values counted in bins of equal width. One statement counts all bins, a column each, so more
bins than columns are refused, however many they are. -/
def distribution (env : Environment) (graph : GraphRef) (e : Element) (key : String) (bins : Int) :
    Program (Distribution Float) := do
  if bins ≤ 0 then throw (.noBins bins)
  let numbers ← env.presentNumbers graph e key
  if numbers.isEmpty then return ⟨[]⟩
  let intervals := Number.bins numbers (min bins.toNat (Sql.columnLimit + 1))
  if Sql.columnLimit < intervals.length then throw .statementFailed
  return .ofCounts (Number.comparison.tally numbers intervals)

/-- The keys that hold a value for some element of the graph. -/
def describedKeys (env : Environment) (graph : GraphRef) (e : Element) (keys : List String) :
    Program (List String) := do
  let table? ← env.restriction? graph e
  keys.filterM fun key => Program.query fun db =>
    return (← env.cellsInScope db e table? key).any (· ≠ .null)

/-- The annotation keys of vertices and of edges that hold a value within a graph. The base graph
has all annotation columns. -/
def description (env : Environment) (graph : GraphRef) : Program (List String × List String) := do
  let vertexKeys := (← env.annotationColumns .vertex).filter (· ≠ env.schema.idColumn)
  let edgeKeys := (← env.annotationColumns .edge).filter fun key => !env.schema.isReserved key
  match graph with
  | .base => return (vertexKeys, edgeKeys)
  | .named _ =>
    let vertexKeys ← env.describedKeys graph .vertex vertexKeys
    let edgeKeys ← env.describedKeys graph .edge edgeKeys
    return (vertexKeys, edgeKeys)

end Provenance.Environment
