-- SUMMARY: The instructions, their handles and answers, and `Instruction.run`.
import Provenance.Instruction.SetAlgebra
import Provenance.Instruction.Selection
import Provenance.Instruction.Structure
import Provenance.Instruction.Walks
import Provenance.Instruction.Statistics
import Provenance.Instruction.Export
import Provenance.Instruction.Metadata

/-!
# Instructions

An instruction reads graphs or metadata by their handles and writes into the handle that is its
target, or it reads a graph and answers. `Instruction.run` carries one out in an environment.
-/
namespace Provenance

inductive Instruction where
  | createEmpty (target : GraphRef)
  | distinctify (target source : GraphRef)
  | union (target source : GraphRef)
  | intersect (target lhs rhs : GraphRef)
  | subtract (target minuend subtrahend : GraphRef) (component : Component)
  | limit (target source : GraphRef) (bound : Int)
  | insertGiven (e : Element) (target : GraphRef) (ids : List String)
  | select (e : Element) (target subject : GraphRef) (predicate : Option Predicate)
  | selectCarriers (target subject : GraphRef) (keys : List String)
  | matchVertices (target lhs rhs : GraphRef) (keys : List String)
  | endpoints (target subject : GraphRef) (endpoint : Endpoint)
  | subgraph (target subject skeleton : GraphRef)
  | collapse (target source : GraphRef) (fields : List String)
  | adjacent (target subject source : GraphRef) (direction : Direction)
  | lineage (target subject start : GraphRef) (depth : Int) (direction : Direction)
  | shortestPath (target subject src dst : GraphRef) (maxDepth : Int)
  | simplePath (target subject src dst : GraphRef) (maxDepth : Int)
  | link (target subject src dst : GraphRef) (maxDepth : Int)
  | count (graph : GraphRef)
  | statisticSize (graph : GraphRef) (e : Element) (key : String)
  | mean (graph : GraphRef) (e : Element) (key : String)
  | standardDeviation (graph : GraphRef) (e : Element) (key : String)
  | histogram (graph : GraphRef) (e : Element) (key : String)
  | distribution (graph : GraphRef) (e : Element) (key : String) (bins : Int)
  | description (graph : GraphRef)
  | exportVertices (graph : GraphRef)
  | exportEdges (graph : GraphRef)
  | createEmptyMetadata (target : String)
  | overwriteMetadata (target lhs rhs : String)
  | setMetadata (target : String) (component : Component) (source : GraphRef) (name value : String)
  deriving DecidableEq

/-- What an instruction answers. Those that write answer nothing. -/
inductive Answer where
  | done
  | counts (vertices edges : Nat)
  | size (n : Nat)
  | number (x : Option Float)
  | histogram (h : Histogram)
  | distribution (d : Distribution Float)
  | keys (vertexKeys edgeKeys : List String)
  | vertices (vs : List Vertex)
  | edges (es : List Edge)

namespace Instruction

/-- The answer of a program that only writes. -/
def writing (m : Program Unit) : Program Answer := do
  m
  return .done

/-- Carries out an instruction. Values of metadata cannot be set one by one. -/
def run [RegexLibrary] [Summation] (env : Environment) : Instruction → Program Answer
  | createEmpty target => writing (env.createEmpty target)
  | distinctify target source => writing (env.distinctify target source)
  | union target source => writing (env.union target source)
  | intersect target lhs rhs => writing (env.intersect target lhs rhs)
  | subtract target minuend subtrahend component =>
    writing (env.subtract target minuend subtrahend component)
  | limit target source bound => writing (env.limit target source bound)
  | insertGiven e target ids => writing (env.insertGiven e target ids)
  | select e target subject predicate => writing (env.select e target subject predicate)
  | selectCarriers target subject keys => writing (env.selectCarriers target subject keys)
  | matchVertices target lhs rhs keys => writing (env.matchVertices target lhs rhs keys)
  | endpoints target subject endpoint => writing (env.endpoints target subject endpoint)
  | subgraph target subject skeleton => writing (env.subgraph target subject skeleton)
  | collapse target source fields => writing (env.collapse target source fields)
  | adjacent target subject source direction =>
    writing (env.adjacent target subject source direction)
  | lineage target subject start depth direction =>
    writing (env.lineage target subject start depth direction)
  | shortestPath target subject src dst maxDepth =>
    writing (env.shortestPath target subject src dst maxDepth)
  | simplePath target subject src dst maxDepth =>
    writing (env.simplePath target subject src dst maxDepth)
  | link target subject src dst maxDepth => writing (env.link target subject src dst maxDepth)
  | count graph => do
    let (vertices, edges) ← env.count graph
    return .counts vertices edges
  | statisticSize graph e key => return .size (← env.statisticSize graph e key)
  | mean graph e key => return .number (← env.mean graph e key)
  | standardDeviation graph e key => return .number (← env.standardDeviation graph e key)
  | histogram graph e key => return .histogram (← env.histogram graph e key)
  | distribution graph e key bins => return .distribution (← env.distribution graph e key bins)
  | description graph => do
    let (vertexKeys, edgeKeys) ← env.description graph
    return .keys vertexKeys edgeKeys
  | exportVertices graph => return .vertices (← env.exportVertices graph)
  | exportEdges graph => return .edges (← env.exportEdges graph)
  | createEmptyMetadata target => writing (env.createEmptyMetadata target)
  | overwriteMetadata target lhs rhs => writing (env.overwriteMetadata target lhs rhs)
  | setMetadata _ _ _ _ _ => throw .metadataIsFixed

end Instruction
end Provenance
