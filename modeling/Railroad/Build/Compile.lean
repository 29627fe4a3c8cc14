/-
# From an expression to a graph

`compile` plans an expression and builds the plan, fragment by fragment: the parts of a construct
first, in reading order, then the node of the construct itself.  So nodes stand in the array, and
serial numbers go up, from the inside out.

A sequence or an alternation without any items cannot be built, and the first one that is met is the
error.  It is the only error there is: with every other expression the compiler comes to an end with
a graph (`Railroad.Proofs.Build.Faults`).

What a failed attempt has added to the registry stays there: symbols and serial numbers are not
given out again.  That is why a step is a computation with a state that outlives its failure
(`BuildM`), and why `compile` gives the registry back in either case.
-/
import Railroad.Build.Draft
import Railroad.Build.Plan
import Railroad.Graph.Closure

namespace Railroad.Build

/-- The constructs that need at least one item.  All others have just one by their form. -/
inductive Construct where
  | sequence | alternation
deriving Repr, DecidableEq

/-- A construct in words. -/
def Construct.text : Construct → String
  | .sequence => "sequence"
  | .alternation => "alternation"

/-- **Why a production has no graph.**  `malformed` is what a check of the finished graph would say;
no graph of the compiler gives cause for it.  The construct that is named is the first one that is
empty, not the one around it. -/
inductive BuildError where
  | emptyConstruct (production : String) (construct : Construct)
  | malformed (node : Malformed)
deriving Repr, DecidableEq

/-- The wording of a build error. -/
def BuildError.message : BuildError → String
  | .emptyConstruct production construct =>
    "empty " ++ construct.text ++ " in production '" ++ production ++ "'"
  | .malformed node =>
    "malformed " ++ node.kind.text ++ " node (serial " ++ toString node.serial ++ "): " ++
      node.defect.text

/-- A step of building: it changes the draft, and may fail on an empty construct. -/
abbrev BuildM := EStateM Construct Draft

/-- A step that cannot fail. -/
def perform {α : Type} (f : Draft → Draft × α) : BuildM α := modifyGet fun d => (f d).swap

mutual

/-- **Builds a plan,** `compile_expr`: adds its nodes to the draft, and gives the fragment that they
make.  A choice without branches is refused before anything is added for it; a sequence without
items is refused in `buildSequence`. -/
def build : Plan → BuildM Fragment
  | .symbol kind leaf => perform (·.symbol kind leaf)
  | .epsilon => perform Draft.epsilon
  | .sequence items => buildSequence items
  | .choice [] => throw .alternation
  | .choice (first :: others) => do
    let first ← build first
    let group ← perform (·.firstBranch first)
    buildBranches group group.entry others
  | .optional inner => do
    let inner ← build inner
    perform (·.optional inner)
  | .iteration inner => do
    let inner ← build inner
    perform (·.iteration inner)
  | .rerun body between => do
    let body ← buildSequence body
    let between ← match between with
      | [] => pure none
      | items@(_ :: _) => some <$> buildSequence items
    perform (·.rerun body between)

/-- Builds one plan behind the other, `compile_items`; there must be one. -/
def buildSequence : List Plan → BuildM Fragment
  | [] => throw .sequence
  | first :: rest => do
    let first ← build first
    buildBehind first rest

/-- Builds further plans behind a fragment, which is linked to each as soon as it is built. -/
def buildBehind (before : Fragment) : List Plan → BuildM Fragment
  | [] => pure before
  | item :: rest => do
    let item ← build item
    let both ← perform (·.sequence before item)
    buildBehind both rest

/-- Builds further branches of an alternation, each below the one before. -/
def buildBranches (group : Fragment) (above : NodeId) : List Plan → BuildM Fragment
  | [] => pure group
  | item :: rest => do
    let item ← build item
    let (group, id) ← perform (·.branch group above item)
    buildBranches group id rest

end

/-- **Compiles the expression of a production,** `compile`, and gives back the registry with it.
The error names the production.  It is given back after a failure too, with all that was registered
until then. -/
def compile (r : Registry) (collapsing : Bool) (p : Production) : Except BuildError Graph × Registry :=
  match build (Plan.ofExpr collapsing p.expr) { r with } with
  | .error construct d => (.error (.emptyConstruct p.name construct), d.toRegistry)
  | .ok fragment d =>
    let graph := d.finish fragment
    match graph.checkClosed with
    | .ok () => (.ok graph, d.toRegistry)
    | .error node => (.error (.malformed node), d.toRegistry)

end Railroad.Build
