/-
# Plans

Before a production becomes a graph, its expression is turned into a plan: the same tree with
every rerun made explicit and the two kinds of repetition made one.  `Plan.ofExpr` does it, with
or without looking for reruns.

A repetition of either kind is a loop of its own, an `iteration`.  The one source of reruns is a
sequence in which a repetition stands next to its own body (`Railroad.Build.Collapse`).

Only the items of a sequence are looked at for that.  The body of a rerun that was found, and what
is between its runs, are planned item by item and not cut into segments once more.  What that leaves
unfound is made precise in `Railroad.Proofs.Build.Missed`.
-/
import Railroad.Build.Collapse
import Railroad.Symbol

namespace Railroad.Build

/-- **What a graph is to be built of.**  As in expressions, a sequence or a choice may be without
items; building it is what fails then.  A plan says nothing of numbers and links.  All that is
decided about reruns is decided in it, so building is the same with reruns and without. -/
inductive Plan where
  | symbol (kind : SymbolKind) (leaf : Leaf)
  | epsilon
  | sequence (items : List Plan)
  | choice (branches : List Plan)
  | optional (inner : Plan)
  | iteration (inner : Plan)
  /-- The body at least once, each time but the first after what is `between`. -/
  | rerun (body between : List Plan)
deriving Inhabited

/-- **The plan of an expression;** `collapsing` says whether repetitions next to their own body
become reruns.  The parts of a rerun are planned item by item and not cut again, though they stand
in a sequence. -/
def Plan.ofExpr (collapsing : Bool) : Expr → Plan
  | .literal leaf => .symbol .terminal leaf
  | .identifier leaf => .symbol .nonterminal leaf
  | .empty => .epsilon
  | .sequence items =>
    if collapsing then
      .sequence ((collapse items).attach.map fun ⟨segment, _h⟩ =>
        match segment, _h with
        | .single item, _h => Plan.ofExpr collapsing item
        | .rerun body between, _h =>
          .rerun (body.attach.map fun ⟨e, _he⟩ => Plan.ofExpr collapsing e)
            (between.attach.map fun ⟨e, _he⟩ => Plan.ofExpr collapsing e))
    else
      .sequence (items.attach.map fun ⟨item, _h⟩ => Plan.ofExpr collapsing item)
  | .alternation branches =>
    .choice (branches.attach.map fun ⟨branch, _h⟩ => Plan.ofExpr collapsing branch)
  | .optional inner => .optional (Plan.ofExpr collapsing inner)
  | .repetition inner => .iteration (Plan.ofExpr collapsing inner)
  | .oneOrMore inner => .iteration (Plan.ofExpr collapsing inner)
termination_by e => sizeOf e
decreasing_by
  · exact sizeOf_lt_of_mem_collapse _h (by simp [Segment.exprs])
  · exact sizeOf_lt_of_mem_collapse _h (by simp [Segment.exprs, _he])
  · exact sizeOf_lt_of_mem_collapse _h (by simp [Segment.exprs, _he])
  · have := List.sizeOf_lt_of_mem _h; simp only [Expr.sequence.sizeOf_spec]; omega
  · have := List.sizeOf_lt_of_mem _h; simp only [Expr.alternation.sizeOf_spec]; omega
  · simp only [Expr.optional.sizeOf_spec]; omega
  · simp only [Expr.repetition.sizeOf_spec]; omega
  · simp only [Expr.oneOrMore.sizeOf_spec]; omega

end Railroad.Build
