/-
# A graph is its expression, level by level

Without reruns the graph of a production says the same as its expression.  `Expr.level` puts the
items of an expression on one level: a sequence inside a sequence is no level of its own, and
whether something is repeated at least once or any number of times is not told apart.  Reading the
graph level by level gives just these items back (`compile_reads`), each leaf with its kind, its
name and its style.

What is read off the tree of a plan (`Picture.level`) follows the ways in which trees are put
together, and so agrees with the expression the plan was made for (`level_ofExpr`).

The expression is not the flattened one.  `Expr.level` leaves out less than `Expr.flatten`: an
alternation of a single branch is an alternation here, and a sequence of a single item is gone only
because a sequence on a level never shows.  What is left of an expression in its graph is all that a
layout and a drawing can know of it, and `compile_reads` says that it is this and no less.
-/
import Railroad.Proofs.Build.Faults
import Railroad.Proofs.Expr.Flat
import Railroad.Proofs.Graph.Levels

namespace Railroad

/-! ## 1. Expressions on levels -/

namespace Expr

mutual

/-- **The items of an expression on one level.**  Each level further inside is a sequence.  A
sequence in a sequence is on the level of the outer one, since a graph cannot show the difference.
-/
def level : Expr → List Expr
  | .literal leaf => [.literal leaf]
  | .identifier leaf => [.identifier leaf]
  | .empty => [.empty]
  | .sequence items => levelAll items
  | .alternation branches => [.alternation (branchLevels branches)]
  | .optional inner => [.optional (.sequence inner.level)]
  | .repetition inner => [.repetition (.sequence inner.level)]
  | .oneOrMore inner => [.repetition (.sequence inner.level)]

/-- The items of some expressions on one level. -/
def levelAll : List Expr → List Expr
  | [] => []
  | e :: es => e.level ++ levelAll es

/-- Each branch on a level of its own. -/
def branchLevels : List Expr → List Expr
  | [] => []
  | e :: es => .sequence e.level :: branchLevels es

end

theorem levelAll_eq_flatMap (es : List Expr) : levelAll es = es.flatMap level := by
  induction es with
  | nil => rfl
  | cons e es ih => rw [levelAll, ih, List.flatMap_cons]

theorem branchLevels_eq_map (es : List Expr) :
    branchLevels es = es.map fun e => .sequence e.level := by
  induction es with
  | nil => rfl
  | cons e es ih => rw [branchLevels, ih, List.map_cons]

end Expr

namespace Build

/-! ## 2. Reading a tree -/

/-- A leaf as it is shown; a symbol that the table does not have is read as a sequence without
items, which no leaf is. -/
def leafExpr : Option (SymbolKind × Leaf) → Expr
  | some (.terminal, leaf) => .literal leaf
  | some (.nonterminal, leaf) => .identifier leaf
  | none => .sequence []

mutual

/-- **What is read on a level.**  Wraps and reruns stand for nothing in an expression; they are read
as sequences without items.  The leaves come from the nodes, and the constructs from the shape of
the tree. -/
def Picture.level : Picture → List Expr
  | .stop => []
  | .symbol shown rest => leafExpr shown :: Picture.level rest
  | .epsilon _ rest => .empty :: Picture.level rest
  | .wrap _ rest => .sequence [] :: Picture.level rest
  | .optional _ body rest => .optional (.sequence (Picture.level body)) :: Picture.level rest
  | .iteration _ body rest => .repetition (.sequence (Picture.level body)) :: Picture.level rest
  | .rerun _ _ _ rest => .sequence [] :: Picture.level rest
  | .choice branches rest => .alternation (Picture.branches branches) :: Picture.level rest

/-- What is read on the levels of the branches. -/
def Picture.branches : Branches (Option (SymbolKind × Leaf)) → List Expr
  | .last _ body => [.sequence (Picture.level body)]
  | .more _ body others => .sequence (Picture.level body) :: Picture.branches others

end

namespace Picture

theorem level_append (s : Picture) : ∀ t : Picture, level (t.append s) = level t ++ level s
  | .stop => rfl
  | .symbol _ rest | .epsilon _ rest | .wrap _ rest | .optional _ _ rest | .iteration _ _ rest
  | .rerun _ _ _ rest | .choice _ rest => by
    rw [Track.append, level, level, level_append s rest, List.cons_append]

theorem branches_snoc (shown : Option (SymbolKind × Leaf)) (t : Picture) :
    ∀ bs : Branches (Option (SymbolKind × Leaf)),
    branches (Track.snoc bs shown t) = branches bs ++ [.sequence (level t)]
  | .last _ _ => rfl
  | .more _ _ others => by
    rw [Track.snoc, branches, branches, branches_snoc shown t others, List.cons_append]

theorem level_trackAll (plans : List Plan) :
    level (trackAll plans) = plans.flatMap fun plan => level plan.track := by
  induction plans with
  | nil => rfl
  | cons plan plans ih => rw [trackAll, level_append, ih, List.flatMap_cons]

theorem branches_addBranches (plans : List Plan) (bs : Branches (Option (SymbolKind × Leaf))) :
    branches (addBranches bs plans)
      = branches bs ++ plans.map fun plan => .sequence (level plan.track) := by
  induction plans generalizing bs with
  | nil => rw [addBranches, List.map_nil, List.append_nil]
  | cons plan plans ih =>
    rw [addBranches, ih, branches_snoc, List.append_assoc, List.singleton_append, List.map_cons]

end Picture

/-- **What is read off the tree of an expression is the expression,** level by level. -/
theorem level_ofExpr {e : Expr} (h : ∀ x ∈ e.subexprs, x ≠ .alternation []) :
    Picture.level (Plan.ofExpr false e).track = e.level := by
  induction e using Expr.node_induction with
  | literal leaf =>
    rw [Plan.ofExpr]
    rfl
  | identifier leaf =>
    rw [Plan.ofExpr]
    rfl
  | empty =>
    rw [Plan.ofExpr]
    rfl
  | node c es ih =>
    have hes : ∀ e ∈ es, Picture.level (Plan.ofExpr false e).track = e.level :=
      fun e he => ih e he fun x hx => h x (Expr.mem_subexprs_node he hx)
    cases c with
    | sequence =>
      rw [Expr.node, Plan.ofExpr_sequence, if_neg Bool.false_ne_true, Plan.track,
        Picture.level_trackAll, List.flatMap_map, List.flatMap_congr hes, Expr.level,
        Expr.levelAll_eq_flatMap]
    | alternation =>
      cases es with
      | nil => exact absurd rfl (h _ (Expr.mem_subexprs_self _))
      | cons first others =>
        obtain ⟨hfirst, hothers⟩ := List.forall_mem_cons.mp hes
        have hbranches :
            others.map (fun e => Expr.sequence (Picture.level (Plan.ofExpr false e).track))
              = others.map fun e => .sequence e.level := by
          refine List.map_congr_left fun e he => ?_
          rw [hothers e he]
        rw [Expr.node, Plan.ofExpr_alternation, List.map_cons, Plan.track, Picture.level,
          Picture.branches_addBranches, Picture.branches, List.map_map, hfirst]
        simp only [Function.comp_def, hbranches]
        rw [Expr.level, Expr.branchLevels_eq_map]
        rfl
  | optional e ih =>
    rw [Plan.ofExpr, Plan.track, Picture.level, ih fun x hx => h x (List.mem_cons_of_mem _ hx)]
    rfl
  | repetition e ih =>
    rw [Plan.ofExpr, Plan.track, Picture.level, ih fun x hx => h x (List.mem_cons_of_mem _ hx)]
    rfl
  | oneOrMore e ih =>
    rw [Plan.ofExpr, Plan.track, Picture.level, ih fun x hx => h x (List.mem_cons_of_mem _ hx)]
    rfl

end Build

/-! ## 3. Trees without wraps and reruns -/

namespace Track

variable {β γ : Type}

mutual

/-- Neither a wrap nor a rerun is on the level or inside it. -/
def Regular : Track β → Prop
  | .stop => True
  | .symbol _ rest | .epsilon _ rest => rest.Regular
  | .wrap _ _ | .rerun _ _ _ _ => False
  | .optional _ body rest | .iteration _ body rest => body.Regular ∧ rest.Regular
  | .choice branches rest => BranchesRegular branches ∧ rest.Regular

/-- Neither a wrap nor a rerun is inside the branches. -/
def BranchesRegular : Branches β → Prop
  | .last _ body => body.Regular
  | .more _ body others => body.Regular ∧ BranchesRegular others

end

mutual

theorem regular_of_map {f : β → γ} : ∀ t : Track β, (t.map f).Regular → t.Regular
  | .stop, h => h
  | .symbol _ rest, h | .epsilon _ rest, h => regular_of_map rest h
  | .wrap _ _, h | .rerun _ _ _ _, h => h
  | .optional _ body rest, ⟨hb, hr⟩ | .iteration _ body rest, ⟨hb, hr⟩ =>
    ⟨regular_of_map body hb, regular_of_map rest hr⟩
  | .choice branches rest, ⟨hb, hr⟩ => ⟨branchesRegular_of_map branches hb, regular_of_map rest hr⟩

theorem branchesRegular_of_map {f : β → γ} : ∀ bs : Branches β,
    BranchesRegular (mapBranches f bs) → BranchesRegular bs
  | .last _ body, h => regular_of_map body h
  | .more _ body others, ⟨hb, ho⟩ => ⟨regular_of_map body hb, branchesRegular_of_map others ho⟩

end

theorem regular_append {s : Track β} (hs : s.Regular) : ∀ t : Track β, t.Regular →
    (t.append s).Regular
  | .stop, _ => hs
  | .symbol _ rest, h | .epsilon _ rest, h => regular_append hs rest h
  | .optional _ _ rest, ⟨hb, hr⟩ | .iteration _ _ rest, ⟨hb, hr⟩ | .choice _ rest, ⟨hb, hr⟩ =>
    ⟨hb, regular_append hs rest hr⟩

theorem branchesRegular_snoc {b : β} {t : Track β} (ht : t.Regular) : ∀ bs : Branches β,
    BranchesRegular bs → BranchesRegular (snoc bs b t)
  | .last _ _, h => ⟨h, ht⟩
  | .more _ _ others, ⟨hb, ho⟩ => ⟨hb, branchesRegular_snoc ht others ho⟩

end Track

mutual

/-- Where neither a wrap nor a rerun is in the tree, no node is one. -/
theorem Linked.kind_of_regular {ends : Exit → Exit → Prop} {arena : Arena} :
    ∀ {t : Track NodeId} {leaves into : Exit}, Linked ends arena leaves into t → t.Regular →
    ∀ id ∈ t.toList, ∀ x, arena id = some x → x.kind ≠ .rerun ∧ x.kind ≠ .wrap
  | .stop, _, _, _, _, id, hid, _, _ => absurd hid List.not_mem_nil
  | .symbol _ _, _, _, ⟨_, node, hn, hk, _, hr⟩, hfree, id, hid, x, hx => by
    rcases List.mem_cons.mp hid with rfl | hid
    · obtain rfl := Option.some.inj (hn.symm.trans hx)
      constructor
      · intro hkind
        exact absurd (hkind ▸ hk) (by decide)
      · intro hkind
        exact absurd (hkind ▸ hk) (by decide)
    · exact hr.kind_of_regular hfree id hid x hx
  | .epsilon _ _, _, _, ⟨_, node, hn, hk, hr⟩, hfree, id, hid, x, hx => by
    rcases List.mem_cons.mp hid with rfl | hid
    · rw [← Option.some.inj (hn.symm.trans hx), hk]
      decide
    · exact hr.kind_of_regular hfree id hid x hx
  | .wrap _ _, _, _, _, hfree, _, _, _, _ | .rerun _ _ _ _, _, _, _, hfree, _, _, _, _ => hfree.elim
  | .optional _ _ _, _, _, ⟨_, node, hn, hk, hb, hr⟩, ⟨hfb, hfr⟩, id, hid, x, hx
  | .iteration _ _ _, _, _, ⟨_, node, hn, hk, hb, hr⟩, ⟨hfb, hfr⟩, id, hid, x, hx => by
    simp only [Track.toList, List.mem_cons, List.mem_append] at hid
    rcases hid with rfl | hid | hid
    · rw [← Option.some.inj (hn.symm.trans hx), hk]
      decide
    · exact hb.kind_of_regular hfb id hid x hx
    · exact hr.kind_of_regular hfr id hid x hx
  | .choice _ _, _, _, ⟨_, _, _, hb, _, hr⟩, ⟨hfb, hfr⟩, id, hid, x, hx => by
    rcases List.mem_append.mp hid with hid | hid
    · exact hb.kind_of_regular hfb id hid x hx
    · exact hr.kind_of_regular hfr id hid x hx

theorem LinkedBranches.kind_of_regular {ends : Exit → Exit → Prop} {arena : Arena} :
    ∀ {bs : Branches NodeId} {leaves : Exit} {start : Option NodeId},
    LinkedBranches ends arena leaves start bs → Track.BranchesRegular bs →
    ∀ id ∈ Track.branchList bs, ∀ x, arena id = some x → x.kind ≠ .rerun ∧ x.kind ≠ .wrap
  | .last _ _, _, _, ⟨_, node, hn, hk, _, hb⟩, hfree, id, hid, x, hx => by
    rcases List.mem_cons.mp hid with rfl | hid
    · rw [← Option.some.inj (hn.symm.trans hx), hk]
      decide
    · exact hb.kind_of_regular hfree id hid x hx
  | .more _ _ _, _, _, ⟨_, node, hn, hk, hb, ho⟩, ⟨hfb, hfo⟩, id, hid, x, hx => by
    simp only [Track.branchList, List.mem_cons, List.mem_append] at hid
    rcases hid with rfl | hid | hid
    · rw [← Option.some.inj (hn.symm.trans hx), hk]
      decide
    · exact hb.kind_of_regular hfb id hid x hx
    · exact ho.kind_of_regular hfo id hid x hx

end

namespace Build

theorem trackAll_regular {plans : List Plan} (h : ∀ plan ∈ plans, plan.track.Regular) :
    (trackAll plans).Regular := by
  induction plans with
  | nil => exact trivial
  | cons plan plans ih =>
    obtain ⟨hplan, hplans⟩ := List.forall_mem_cons.mp h
    exact Track.regular_append (ih hplans) _ hplan

theorem addBranches_regular {plans : List Plan} (h : ∀ plan ∈ plans, plan.track.Regular)
    {bs : Branches (Option (SymbolKind × Leaf))} (hbs : Track.BranchesRegular bs) :
    Track.BranchesRegular (addBranches bs plans) := by
  induction plans generalizing bs with
  | nil => exact hbs
  | cons plan plans ih =>
    obtain ⟨hplan, hplans⟩ := List.forall_mem_cons.mp h
    exact ih hplans (Track.branchesRegular_snoc hplan bs hbs)

/-- Without reruns to look for, none is planned, and wraps are never planned. -/
theorem ofExpr_regular (e : Expr) : (Plan.ofExpr false e).track.Regular := by
  induction e using Expr.node_induction with
  | literal leaf =>
    rw [Plan.ofExpr]
    trivial
  | identifier leaf =>
    rw [Plan.ofExpr]
    trivial
  | empty =>
    rw [Plan.ofExpr]
    trivial
  | node c es ih =>
    have hplans : ∀ plan ∈ es.map (Plan.ofExpr false), plan.track.Regular :=
      List.forall_mem_map.mpr ih
    cases c with
    | sequence =>
      rw [Expr.node, Plan.ofExpr_sequence, if_neg Bool.false_ne_true]
      exact trackAll_regular hplans
    | alternation =>
      rw [Expr.node, Plan.ofExpr_alternation]
      generalize es.map (Plan.ofExpr false) = plans at hplans
      cases plans with
      | nil => trivial
      | cons first others =>
        obtain ⟨hfirst, hothers⟩ := List.forall_mem_cons.mp hplans
        exact ⟨addBranches_regular hothers hfirst, trivial⟩
  | optional e ih | repetition e ih | oneOrMore e ih =>
    rw [Plan.ofExpr]
    exact ⟨ih, trivial⟩

/-! ## 4. Reading a compiled graph -/

/-- **A graph is the expression it was made for.**  If reruns are not looked for, a production
without empty constructs has a graph, and reading it level by level gives the expression back: the
same constructs with the same branches in the same order, and each leaf with its kind, its name and
its style.  No node is a rerun or a wrap, and each is read once.

The levels of the graph are read off with nothing known about the production, by following links
only.  As each place of the graph occurs just once, the graph has nothing in it that is not drawn.
-/
theorem compile_reads (r : Registry) (p : Production)
    (h : ∀ e ∈ p.expr.subexprs, e ≠ .sequence [] ∧ e ≠ .alternation []) :
    ∃ g, (compile r false p).1 = .ok g ∧
      Picture.level (g.levels.map (·.node.leaf? (compile r false p).2.symbols)) = p.expr.level ∧
      (∀ node ∈ g.nodes, node.kind ≠ .rerun ∧ node.kind ≠ .wrap) ∧
      (g.levels.toList.map (·.id)).Perm (List.range g.nodes.size) := by
  obtain ⟨g, t, hok, htree, hshown⟩ :=
    compile_eq_ok r false ((Expr.firstEmpty?_eq_none_iff p.expr).mpr h)
  refine ⟨g, hok, ?_, ?_, ?_⟩
  · have hleaf : (t.map g.spotAt).map (·.node.leaf? (compile r false p).2.symbols)
        = (Plan.ofExpr false p.expr).track := by
      rw [Track.map_map, ← hshown]
      refine Track.map_congr t fun id hid => ?_
      obtain ⟨node, hn⟩ := htree.node_of_mem hid
      rw [Graph.spotAt_node hn, hn, Option.bind_some]
    rw [htree.similar.levels_eq, htree.similar.track_eq, hleaf]
    exact level_ofExpr fun x hx => (h x hx).2
  · intro node hnode
    obtain ⟨id, hid, rfl⟩ := Array.mem_iff_getElem.mp hnode
    have hregular : t.Regular := Track.regular_of_map t (hshown ▸ ofExpr_regular p.expr)
    exact htree.linked.kind_of_regular hregular id ((htree.mem_iff id).mpr hid) _
      (Array.getElem?_eq_getElem hid)
  · rw [htree.similar.levels_eq]
    exact htree.similar.complete.once

/-- A sequence in a sequence and in a branch, behind a loop whose body it would repeat. -/
def steppedProduction : Production where
  name := "p"
  expr := .sequence
    [.literal ⟨"a", {}⟩,
      .sequence [.oneOrMore (.sequence [.identifier ⟨"a", {}⟩]), .identifier ⟨"a", {}⟩],
      .alternation
        [.empty,
          .sequence
            [.optional (.literal ⟨"a", { font := some {} }⟩), .sequence [.literal ⟨"b", {}⟩]]]]

theorem compile_reads_steppedProduction :
    (∀ e ∈ steppedProduction.expr.subexprs, e ≠ .sequence [] ∧ e ≠ .alternation []) ∧
    ∃ g, (compile {} false steppedProduction).1 = .ok g ∧
      Picture.level (g.levels.map (·.node.leaf? (compile {} false steppedProduction).2.symbols)) =
        [.literal ⟨"a", {}⟩, .repetition (.sequence [.identifier ⟨"a", {}⟩]), .identifier ⟨"a", {}⟩,
          .alternation
            [.sequence [.empty],
              .sequence [.optional (.sequence [.literal ⟨"a", { font := some {} }⟩]),
                .literal ⟨"b", {}⟩]]] ∧
      (∀ node ∈ g.nodes, node.kind ≠ .rerun ∧ node.kind ≠ .wrap) ∧
      (g.levels.toList.map (·.id)).Perm (List.range g.nodes.size) := by
  have h : ∀ e ∈ steppedProduction.expr.subexprs, e ≠ .sequence [] ∧ e ≠ .alternation [] := by
    simp [steppedProduction, Expr.subexprs, Expr.subexprsAll]
  exact ⟨h, compile_reads {} steppedProduction h⟩

end Build

end Railroad
