import RenderGate.Node.Basic
import RenderGate.Table

/-!
# Fingerprints

A summary of the shape of an abstract tree: how many nodes of each type it has, how deep it is, and
a weighted count of its definitions and control flow.  Names and layout leave no trace in it.  All
of it is counted on one walk over the tree.
-/

namespace RenderGate

structure Fingerprint where
  nodeCount : Nat
  /-- The depth of the deepest node; the root has depth 0. -/
  maxDepth : Nat
  functionCount : Nat
  classCount : Nat
  importCount : Nat
  complexityScore : Float
  /-- How often each class name occurs. -/
  histogram : Table Nat

structure Census where
  nodeCount : Nat
  maxDepth : Nat
  functionCount : Nat
  classCount : Nat
  importCount : Nat
  /-- The constructs of control flow that add to the complexity. -/
  branchCount : Nat
  histogram : Table Nat

namespace Census

def empty : Census := ⟨0, 0, 0, 0, 0, 0, .empty⟩

def note (c : Census) : Kind → Census
  | .functionDef _ | .asyncFunctionDef _ => { c with functionCount := c.functionCount + 1 }
  | .classDef _ => { c with classCount := c.classCount + 1 }
  | .importNames | .importFrom => { c with importCount := c.importCount + 1 }
  | .ifElse | .forLoop | .whileLoop | .tryBlock => { c with branchCount := c.branchCount + 1 }
  | _ => c

def visit (c : Census) (depth : Nat) (kind : Kind) : Census :=
  { c.note kind with
    nodeCount := c.nodeCount + 1
    maxDepth := max c.maxDepth depth
    histogram := c.histogram.increment kind.typeName }

def fingerprint (c : Census) : Fingerprint where
  nodeCount := c.nodeCount
  maxDepth := c.maxDepth
  functionCount := c.functionCount
  classCount := c.classCount
  importCount := c.importCount
  complexityScore := Float.ofNat (c.functionCount * 2 + c.classCount * 3 + c.branchCount)
  histogram := c.histogram

end Census

def Node.fingerprint (n : Node) : Fingerprint :=
  (Rose.walk .leftward Census.visit [(0, n)] .empty).fingerprint

namespace Fingerprint

def countOf (f : Fingerprint) (typeName : String) : Nat := (f.histogram.get? typeName).getD 0

def scalarMetrics (f : Fingerprint) : List (String × Float) :=
  [("node_count", Float.ofNat f.nodeCount), ("max_depth", Float.ofNat f.maxDepth),
    ("function_count", Float.ofNat f.functionCount), ("class_count", Float.ofNat f.classCount),
    ("import_count", Float.ofNat f.importCount), ("complexity_score", f.complexityScore)]

end Fingerprint

end RenderGate
