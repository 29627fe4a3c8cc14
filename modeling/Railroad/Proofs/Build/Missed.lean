/-
# No rerun is missed

Where a sequence is cut, a repetition that stays alone agrees with nothing beside it
(`Covers.single`).  That is said of the expression.  Here it is carried over to the graph: no loop
repeats what stands right beside it on its level (`compile_missed`).

What is carried over is that nodes which show the same come from expressions which are the same
(`beq_of_matches`).  It holds of nodes without reruns only: `a { b a }` and `{ a b } a` become the
same rerun.  And it says something of the levels of sequences that were cut.  The two levels of a
rerun are made of items that are built one by one, and in `a { b { b } a }` a loop of `b` stands
behind a `b` on the way back (`compile_missed_between`).

The way there is by nodes and their expressions.  An expression that says nothing twice
(`RegularThroughout`) and is no sequence becomes one node, and a sequence of them a row of nodes,
one for each segment of its cut (`row_picture`).  So a loop on a level is a segment that stayed
single, the nodes beside it are items beside it, and if they matched they would be the same items.
That no such items are there is what the cut says.  A level further inside is again the level of an
expression (`level_of_item`), unless a rerun owns it.
-/
import Railroad.Proofs.Build.Longest
import Railroad.Proofs.Ebnf.GraphText
import Railroad.Proofs.Graph.Matches

namespace Railroad

open Build (Construct Plan)

/-! ## 1. Regular expressions -/

/-- An expression that says nothing twice, whatever is inside it: at least two items or branches, no
sequence in a sequence, and no repetition that has to be taken. -/
def Expr.IsRegular : Expr → Prop
  | .sequence items => 2 ≤ items.length ∧ ∀ item ∈ items, item.Whole .sequence
  | .alternation branches => 2 ≤ branches.length
  | .oneOrMore _ => False
  | _ => True

namespace Expr

/-- **An expression that is regular with all that is inside it.** -/
def RegularThroughout (e : Expr) : Prop := ∀ x ∈ e.subexprs, x.IsRegular

namespace RegularThroughout

variable {e : Expr}

theorem self (h : e.RegularThroughout) : e.IsRegular := h e (mem_subexprs_self e)

theorem of_subset {x : Expr} (h : e.RegularThroughout) (hx : x.subexprs ⊆ e.subexprs) :
    x.RegularThroughout := fun y hy => h y (hx hy)

theorem of_node {c : Construct} {es : List Expr} (h : (node c es).RegularThroughout) :
    2 ≤ es.length ∧ ∀ x ∈ es, x.RegularThroughout := by
  refine ⟨?_, fun x hx => h.of_subset fun y hy => mem_subexprs_node hx hy⟩
  cases c with
  | sequence => exact (h.self).1
  | alternation => exact h.self

/-- The items of a regular expression are regular, and none is a sequence. -/
theorem items (h : e.RegularThroughout) :
    ∀ x ∈ e.items, x.RegularThroughout ∧ x.Whole .sequence := by
  rcases eq_node_or_whole .sequence e with ⟨es, rfl⟩ | hwhole
  · exact fun x hx => ⟨h.of_node.2 x hx, h.self.2 x hx⟩
  · intro x hx
    obtain rfl : x = e := by
      unfold Expr.items at hx
      split at hx
      · exact absurd rfl (hwhole _)
      · exact List.mem_singleton.mp hx
    exact ⟨h, hwhole⟩

/-- A regular expression is a sequence if it has more than one item. -/
theorem items_length (h : e.RegularThroughout) :
    (∃ es, e = .sequence es ∧ e.items = es ∧ 2 ≤ es.length) ∨
      e.Whole .sequence ∧ e.items = [e] := by
  rcases eq_node_or_whole .sequence e with ⟨es, rfl⟩ | hwhole
  · exact .inl ⟨es, rfl, rfl, h.of_node.1⟩
  · refine .inr ⟨hwhole, ?_⟩
    unfold Expr.items
    split
    · exact absurd rfl (hwhole _)
    · rfl

/-- Nothing is empty in a regular expression. -/
theorem firstEmpty? (h : e.RegularThroughout) : e.firstEmpty? = none := by
  refine (firstEmpty?_eq_none_iff e).mpr fun x hx => ⟨?_, ?_⟩
  · rintro rfl
    have hlen : 2 ≤ [].length := (h _ hx).1
    cases hlen
  · rintro rfl
    have hlen : 2 ≤ [].length := h _ hx
    cases hlen

end RegularThroughout

/-- Lists are compared item by item. -/
theorem beqList_iff_alike : ∀ {as bs : List Expr},
    Expr.beqList as bs = true ↔ Build.Alike as bs
  | [], [] => by simp [Expr.beqList]
  | [], _ :: _ => by simp [Expr.beqList]
  | _ :: _, [] => by simp [Expr.beqList]
  | a :: as, b :: bs => by
    rw [Expr.beqList, Bool.and_eq_true, beqList_iff_alike]
    exact (List.forall₂_cons (R := fun a b : Expr => (a == b) = true)).symm

end Expr

namespace Build

/-! ## 2. The row of a sequence -/

/-- What an expression looks like when it is collapsed. -/
abbrev picture (e : Expr) : Picture := (Plan.ofExpr true e).track

/-- An item that is alone is not cut. -/
theorem collapse_singleton (e : Expr) : collapse [e] = [.single e] := by
  have hnone : ∀ es : List Expr, agreement es [] = 0 := by
    intro es
    cases es <;> rfl
  cases e with
  | repetition inner => simp [collapse, collapseFrom, singles, hnone]
  | _ => rfl

/-- An expression looks like its segments in a row. -/
theorem picture_eq (e : Expr) :
    picture e = trackAll ((collapse e.items).map (Segment.plan true)) := by
  rcases Expr.eq_node_or_whole .sequence e with ⟨es, rfl⟩ | hwhole
  · rw [picture, Expr.node, Plan.ofExpr_sequence, if_pos rfl, Plan.track]
    rfl
  · have hitems : e.items = [e] := by
      unfold Expr.items
      split
      · exact absurd rfl (hwhole _)
      · rfl
    rw [hitems, collapse_singleton, List.map_singleton, trackAll, trackAll, Track.append_stop]
    rfl

/-- **The node that an expression becomes,** if it is one node and regular.  A sequence becomes a
row of nodes, and so none.  Only such an item can be compared with another as one node is with one.
-/
def soleNode? : Expr → Option (Item (Option (SymbolKind × Leaf)))
  | .literal leaf => some (.symbol (some (.terminal, leaf)))
  | .identifier leaf => some (.symbol (some (.nonterminal, leaf)))
  | .empty => some (.epsilon none)
  | .alternation (first :: others) =>
    some (.choice (addBranches (.last none (picture first)) (others.map (Plan.ofExpr true))))
  | .optional inner => some (.optional none (picture inner))
  | .repetition inner => some (.iteration none (picture inner))
  | _ => none

theorem picture_of_soleNode? {e : Expr} {item : Item (Option (SymbolKind × Leaf))}
    (h : soleNode? e = some item) : picture e = item.alone := by
  unfold soleNode? at h
  split at h <;> cases h
  case h_4 => rw [picture, Plan.ofExpr_alternation]; rfl
  all_goals rw [picture, Plan.ofExpr]; rfl

/-- **A regular expression that is no sequence is one node.** -/
theorem exists_soleNode {e : Expr} (h : e.RegularThroughout) (hwhole : e.Whole .sequence) :
    ∃ item, soleNode? e = some item := by
  cases e with
  | sequence items => exact absurd rfl (hwhole items)
  | alternation branches =>
    cases branches with
    | nil => exact absurd h.self (by simp [Expr.IsRegular])
    | cons first others => exact ⟨_, rfl⟩
  | oneOrMore inner => exact h.self.elim
  | _ => exact ⟨_, rfl⟩

section Node

variable {e : Expr} {b : Option (SymbolKind × Leaf)} {body : Picture}

theorem soleNode?_symbol (h : soleNode? e = some (.symbol b)) :
    (∃ leaf, e = .literal leaf ∧ b = some (.terminal, leaf)) ∨
      ∃ leaf, e = .identifier leaf ∧ b = some (.nonterminal, leaf) := by
  unfold soleNode? at h
  split at h <;> cases h
  · exact .inl ⟨_, rfl, rfl⟩
  · exact .inr ⟨_, rfl, rfl⟩

theorem soleNode?_epsilon (h : soleNode? e = some (.epsilon b)) : e = .empty := by
  unfold soleNode? at h
  split at h <;> cases h
  rfl

theorem soleNode?_optional (h : soleNode? e = some (.optional b body)) :
    ∃ inner, e = .optional inner ∧ picture inner = body := by
  unfold soleNode? at h
  split at h <;> cases h
  exact ⟨_, rfl, rfl⟩

theorem soleNode?_iteration (h : soleNode? e = some (.iteration b body)) :
    ∃ inner, e = .repetition inner ∧ picture inner = body := by
  unfold soleNode? at h
  split at h <;> cases h
  exact ⟨_, rfl, rfl⟩

/-- The branches of an alternation look like the expressions they come from. -/
theorem levels_addBranches (plans : List Plan) : ∀ bs : Branches (Option (SymbolKind × Leaf)),
    (addBranches bs plans).levels.map Prod.snd = bs.levels.map Prod.snd ++ plans.map Plan.track := by
  induction plans with
  | nil => exact fun bs => (List.append_nil _).symm
  | cons plan rest ih =>
    intro bs
    rw [addBranches, ih, Track.levels_snoc, List.map_append, List.append_assoc]
    rfl

theorem soleNode?_alternation {es : List Expr} {item : Item (Option (SymbolKind × Leaf))}
    (h : soleNode? (.alternation es) = some item) :
    ∃ branches, item = .choice branches ∧ es.map picture = branches.levels.map Prod.snd := by
  cases es with
  | nil => exact nomatch h
  | cons first others =>
    obtain rfl := Option.some.inj h
    refine ⟨_, rfl, ?_⟩
    rw [levels_addBranches, List.map_map]
    rfl

theorem soleNode?_choice {branches : Branches (Option (SymbolKind × Leaf))}
    (h : soleNode? e = some (.choice branches)) :
    ∃ es, e = .alternation es ∧ es.map picture = branches.levels.map Prod.snd := by
  have halternation : ∃ es, e = .alternation es := by
    unfold soleNode? at h
    split at h <;> cases h
    exact ⟨_, rfl⟩
  obtain ⟨es, rfl⟩ := halternation
  obtain ⟨_, ⟨⟩, hes⟩ := soleNode?_alternation h
  exact ⟨es, rfl, hes⟩

end Node

/-- Plans that are one node each have these nodes in their row. -/
theorem row_trackAll : ∀ {plans : List Plan},
    (∀ plan ∈ plans, ∃ item : Item (Option (SymbolKind × Leaf)), plan.track = item.alone) →
    (trackAll plans).row.map Item.alone = plans.map Plan.track
  | [], _ => rfl
  | plan :: plans, h => by
    obtain ⟨⟨item, hitem⟩, hplans⟩ := List.forall_mem_cons.mp h
    rw [trackAll, Track.row_append, hitem, Item.row_alone, List.singleton_append, List.map_cons,
      List.map_cons, row_trackAll hplans, hitem]

/-- Single items of a sequence that is cut are items of the sequence. -/
theorem mem_of_single_mem {items : List Expr} {e : Expr} (h : .single e ∈ collapse items) :
    e ∈ items := by
  obtain ⟨before, after, hsplit⟩ := List.append_of_mem h
  have haccounts := collapse_accounts items
  rw [hsplit] at haccounts
  obtain ⟨front, _, back, rfl, hcovers, -⟩ := haccounts.of_append_cons
  cases hcovers
  simp

/-- **Each segment of a regular expression is one node on its level.** -/
theorem row_picture {e : Expr} (h : e.RegularThroughout) : (picture e).row.map Item.alone =
    (collapse e.items).map fun segment => (segment.plan true).track := by
  rw [picture_eq, row_trackAll, List.map_map]
  · rfl
  rw [List.forall_mem_map]
  rintro (y | ⟨body, between⟩) hs
  · obtain ⟨hy, hwhole⟩ := h.items y (mem_of_single_mem hs)
    obtain ⟨item, hitem⟩ := exists_soleNode hy hwhole
    exact ⟨item, picture_of_soleNode? hitem⟩
  · exact ⟨.rerun _ _ _, rfl⟩

/-- Segments without reruns are single items. -/
theorem eq_map_single : ∀ {segments : List Segment} {row : List (Item (Option (SymbolKind × Leaf)))},
    segments.map (fun segment => (segment.plan true).track) = row.map Item.alone →
    (∀ item ∈ row, item.isRerun = false) → ∃ es : List Expr, segments = es.map .single
  | [], _, _, _ => ⟨[], rfl⟩
  | .single e :: segments, [], hrow, _ => nomatch hrow
  | .single e :: segments, item :: row, hrow, hfree => by
    obtain ⟨es, rfl⟩ := eq_map_single (List.cons.inj hrow).2 (List.forall_mem_cons.mp hfree).2
    exact ⟨e :: es, rfl⟩
  | .rerun body between :: segments, [], hrow, _ => nomatch hrow
  | .rerun body between :: segments, item :: row, hrow, hfree => by
    have hitem := (List.cons.inj hrow).1
    have hkind := (List.forall_mem_cons.mp hfree).1
    cases item with
    | rerun _ _ _ => exact nomatch hkind
    | _ => exact nomatch hitem

/-- A loop on the level of a regular expression is a repetition that stayed alone. -/
theorem eq_single_of_iteration {e : Expr} (h : e.RegularThroughout) {segment : Segment}
    (hs : segment ∈ collapse e.items) {b : Option (SymbolKind × Leaf)} {body : Picture}
    (htrack : (segment.plan true).track = (Item.iteration b body).alone) :
    ∃ inner, segment = .single (.repetition inner) ∧ picture inner = body := by
  cases segment with
  | rerun _ _ => exact nomatch htrack
  | single y =>
    obtain ⟨hy, hwhole⟩ := h.items y (mem_of_single_mem hs)
    obtain ⟨item, hitem⟩ := exists_soleNode hy hwhole
    have halone : item.alone = (Item.iteration b body).alone :=
      (picture_of_soleNode? hitem).symm.trans htrack
    have hrow := congrArg Track.row halone
    rw [Item.row_alone, Item.row_alone, List.singleton_inj] at hrow
    obtain ⟨inner, rfl, hbody⟩ := soleNode?_iteration (hitem.trans (congrArg some hrow))
    exact ⟨inner, rfl, hbody⟩

/-! ## 3. Nodes that show the same come from the same expressions -/

/-- Two nodes show the same leaf, or no leaf at all. -/
def ShowSame : Option (SymbolKind × Leaf) → Option (SymbolKind × Leaf) → Prop
  | none, none => True
  | some (kind, leaf), some (kind', leaf') => kind = kind' ∧ (leaf == leaf') = true
  | _, _ => False

/-- Where there is no rerun, an expression looks like its items in a row. -/
theorem picture_eq_of_rerunFree {e : Expr} (h : e.RegularThroughout)
    (hfree : (picture e).RerunFree) : picture e = trackAll (e.items.map (Plan.ofExpr true)) ∧
      (picture e).row.map Item.alone = e.items.map picture := by
  have hrow := row_picture h
  obtain ⟨es, hes⟩ := eq_map_single hrow.symm fun item hitem =>
    hfree item (Track.items_alone_subset hitem (by rw [Item.items_alone]; exact List.mem_cons_self))
  have haccounts := collapse_accounts e.items
  rw [hes] at haccounts
  have hitems := haccounts.eq_of_map_single
  constructor
  · rw [picture_eq, hes, List.map_map, hitems]
    rfl
  · rw [hrow, hes, List.map_map, hitems]
    rfl

/-- Where there is no rerun, expressions that look the same have items that do so one by one. -/
theorem items_of_matches {a b : Expr} (ha : a.RegularThroughout) (hb : b.RegularThroughout)
    (hfree : (picture a).RerunFree) (h : (picture a).Matches ShowSame (picture b)) :
    List.Forall₂ (fun x y => (picture x).Matches ShowSame (picture y)) a.items b.items ∧
      ∀ x ∈ a.items, (picture x).RerunFree := by
  obtain ⟨htrack, hrow⟩ := picture_eq_of_rerunFree ha hfree
  obtain ⟨-, hrow'⟩ := picture_eq_of_rerunFree hb (h.rerunFree_iff.mp hfree)
  constructor
  · have hmatches := h.row
    have hmapped : List.Forall₂ (Track.Matches ShowSame) ((picture a).row.map Item.alone)
        ((picture b).row.map Item.alone) := by
      rw [List.forall₂_map_left_iff, List.forall₂_map_right_iff]
      exact hmatches
    rw [hrow, hrow', List.forall₂_map_left_iff, List.forall₂_map_right_iff] at hmapped
    exact hmapped
  · intro x hx item hitem
    refine hfree item ?_
    rw [htrack, items_trackAll, List.mem_flatMap]
    exact ⟨_, List.mem_map_of_mem hx, hitem⟩

/-- An expression that is no sequence looks like none. -/
theorem nodes_of_matches {a b : Expr} (ha : a.RegularThroughout) (hb : b.RegularThroughout)
    (hwhole : a.Whole .sequence) (hfree : (picture a).RerunFree)
    (h : (picture a).Matches ShowSame (picture b)) :
    ∃ item item', soleNode? a = some item ∧ soleNode? b = some item' ∧
      item.Matches ShowSame item' ∧ item.RerunFree := by
  have hlength := (items_of_matches ha hb hfree h).1.length_eq
  have hwhole' : b.Whole .sequence := by
    rcases ha.items_length with ⟨es, rfl, -⟩ | ⟨-, hitems⟩
    · exact absurd rfl (hwhole es)
    · rcases hb.items_length with ⟨es, rfl, hes, hlen⟩ | ⟨hwhole', -⟩
      · rw [hitems, hes, List.length_singleton] at hlength
        omega
      · exact hwhole'
  obtain ⟨item, hitem⟩ := exists_soleNode ha hwhole
  obtain ⟨item', hitem'⟩ := exists_soleNode hb hwhole'
  rw [picture_of_soleNode? hitem] at hfree h
  rw [picture_of_soleNode? hitem'] at h
  exact ⟨item, item', hitem, hitem', h, hfree⟩

/-- Members of lists that are related one by one. -/
theorem forall₂_imp_mem {R S : Expr → Expr → Prop} {as bs : List Expr} (h : List.Forall₂ R as bs)
    (hRS : ∀ a ∈ as, ∀ b ∈ bs, R a b → S a b) : List.Forall₂ S as bs := by
  refine List.forall₂_iff_zip.mpr ⟨h.length_eq, fun hab => ?_⟩
  obtain ⟨ha, hb⟩ := List.of_mem_zip hab
  exact hRS _ ha _ hb (List.forall₂_zip h hab)

/-- **Regular expressions that look the same are the same,** unless there is a rerun in them.  The
kind of the one node tells the construct, and the levels in it are those of the parts, which are
smaller. -/
theorem beq_of_matches {a : Expr} : ∀ {b : Expr}, a.RegularThroughout → b.RegularThroughout →
    (picture a).RerunFree → (picture a).Matches ShowSame (picture b) → (a == b) = true := by
  induction a using Expr.node_induction with
  | literal leaf =>
    intro b ha hb hfree h
    obtain ⟨_, item, ⟨⟩, hitem, hmatches, -⟩ := nodes_of_matches ha hb (by nofun) hfree h
    obtain ⟨c, rfl, hsame⟩ := hmatches.of_symbol
    rcases soleNode?_symbol hitem with ⟨leaf', rfl, rfl⟩ | ⟨leaf', rfl, rfl⟩
    · exact hsame.2
    · exact nomatch hsame.1
  | identifier leaf =>
    intro b ha hb hfree h
    obtain ⟨_, item, ⟨⟩, hitem, hmatches, -⟩ := nodes_of_matches ha hb (by nofun) hfree h
    obtain ⟨c, rfl, hsame⟩ := hmatches.of_symbol
    rcases soleNode?_symbol hitem with ⟨leaf', rfl, rfl⟩ | ⟨leaf', rfl, rfl⟩
    · exact nomatch hsame.1
    · exact hsame.2
  | empty =>
    intro b ha hb hfree h
    obtain ⟨_, item, ⟨⟩, hitem, hmatches, -⟩ := nodes_of_matches ha hb (by nofun) hfree h
    obtain ⟨c, rfl⟩ := hmatches.of_epsilon
    obtain rfl := soleNode?_epsilon hitem
    rfl
  | node c es ih =>
    intro b ha hb hfree h
    cases c with
    | sequence =>
      obtain ⟨hitems, hfrees⟩ := items_of_matches ha hb hfree h
      have hlength := hitems.length_eq
      rcases hb.items_length with ⟨es', rfl, hes', -⟩ | ⟨-, hone⟩
      · rw [hes'] at hitems
        refine Expr.beqList_iff_alike.mpr (forall₂_imp_mem hitems fun x hx y hy hxy => ?_)
        exact ih x hx (ha.of_node.2 x hx) ((hb.of_node (c := .sequence)).2 y hy) (hfrees x hx) hxy
      · have hlen := ha.of_node.1
        rw [hone] at hlength
        have hes : es.length = 1 := hlength
        omega
    | alternation =>
      obtain ⟨item, item', hitem, hitem', hmatches, hfree⟩ :=
        nodes_of_matches ha hb (by nofun) hfree h
      obtain ⟨branches, rfl, hes⟩ := soleNode?_alternation hitem
      obtain ⟨branches', rfl, hbranches⟩ := hmatches.of_choice
      obtain ⟨es', rfl, hes'⟩ := soleNode?_choice hitem'
      rw [← hes, ← hes', List.forall₂_map_left_iff, List.forall₂_map_right_iff] at hbranches
      refine Expr.beqList_iff_alike.mpr (forall₂_imp_mem hbranches fun x hx y hy hxy => ?_)
      have hx' : picture x ∈ branches.levels.map Prod.snd := hes ▸ List.mem_map_of_mem hx
      exact ih x hx (ha.of_node.2 x hx) ((hb.of_node (c := .alternation)).2 y hy)
        (hfree.levels _ hx') hxy
  | optional inner ih =>
    intro b ha hb hfree h
    obtain ⟨_, item, ⟨⟩, hitem, hmatches, hfree⟩ := nodes_of_matches ha hb (by nofun) hfree h
    obtain ⟨c, body, rfl, hbody⟩ := hmatches.of_optional
    obtain ⟨inner', rfl, rfl⟩ := soleNode?_optional hitem
    exact ih (ha.of_subset (List.subset_cons_self _ _)) (hb.of_subset (List.subset_cons_self _ _))
      (hfree.levels _ (List.mem_singleton_self _)) hbody
  | repetition inner ih =>
    intro b ha hb hfree h
    obtain ⟨_, item, ⟨⟩, hitem, hmatches, hfree⟩ := nodes_of_matches ha hb (by nofun) hfree h
    obtain ⟨c, body, rfl, hbody⟩ := hmatches.of_iteration
    obtain ⟨inner', rfl, rfl⟩ := soleNode?_iteration hitem
    exact ih (ha.of_subset (List.subset_cons_self _ _)) (hb.of_subset (List.subset_cons_self _ _))
      (hfree.levels _ (List.mem_singleton_self _)) hbody
  | oneOrMore inner => exact fun ha => ha.self.elim

/-! ## 4. The levels of a graph -/

/-- The levels that a node owns are those of the parts of its expression. -/
theorem level_of_soleNode {e : Expr} {node : Item (Option (SymbolKind × Leaf))} {level : Picture}
    (h : soleNode? e = some node) (hlevel : level ∈ node.levels) :
    ∃ x, picture x = level ∧ x.subexprs ⊆ e.subexprs ∧ sizeOf x < sizeOf e := by
  cases e with
  | literal _ | identifier _ | empty =>
    cases h
    exact absurd hlevel List.not_mem_nil
  | sequence _ | oneOrMore _ => exact nomatch h
  | alternation es =>
    obtain ⟨branches, rfl, hes⟩ := soleNode?_alternation h
    have hmem : level ∈ branches.levels.map Prod.snd := hlevel
    rw [← hes] at hmem
    obtain ⟨x, hx, rfl⟩ := List.mem_map.mp hmem
    refine ⟨x, rfl, fun y hy => Expr.mem_subexprs_node (c := .alternation) hx hy, ?_⟩
    have := List.sizeOf_lt_of_mem hx
    simp only [Expr.alternation.sizeOf_spec]
    omega
  | optional inner =>
    cases h
    refine ⟨inner, (List.mem_singleton.mp hlevel).symm, List.subset_cons_self _ _, ?_⟩
    simp only [Expr.optional.sizeOf_spec]
    omega
  | repetition inner =>
    cases h
    refine ⟨inner, (List.mem_singleton.mp hlevel).symm, List.subset_cons_self _ _, ?_⟩
    simp only [Expr.repetition.sizeOf_spec]
    omega

/-- The nodes of a segment are those of its expressions, but for the rerun itself. -/
theorem exists_expr_of_item {segment : Segment} {item : Item (Option (SymbolKind × Leaf))}
    (hitem : item ∈ (segment.plan true).track.items) (hkind : item.isRerun = false) :
    ∃ y ∈ segment.exprs, item ∈ (picture y).items := by
  cases segment with
  | single y => exact ⟨y, List.mem_singleton_self y, hitem⟩
  | rerun body between =>
    have hsplit : item = .rerun none (trackAll (body.map (Plan.ofExpr true)))
          (trackAll (between.map (Plan.ofExpr true))) ∨
        item ∈ (trackAll (body.map (Plan.ofExpr true))).items ∨
        item ∈ (trackAll (between.map (Plan.ofExpr true))).items := by
      simpa [Segment.plan, Plan.track, Track.items] using hitem
    have hparts : ∀ es : List Expr, item ∈ (trackAll (es.map (Plan.ofExpr true))).items →
        ∃ y ∈ es, item ∈ (picture y).items := by
      intro es hes
      rw [items_trackAll, List.flatMap_map] at hes
      exact List.mem_flatMap.mp hes
    rcases hsplit with rfl | hbody | hbetween
    · cases hkind
    · obtain ⟨y, hy, h⟩ := hparts body hbody
      exact ⟨y, List.mem_append_left _ hy, h⟩
    · obtain ⟨y, hy, h⟩ := hparts between hbetween
      exact ⟨y, List.mem_append_right _ hy, h⟩

/-- **A level that no rerun owns is the level of an expression,** wherever it is in the graph. -/
theorem level_of_item {e : Expr} (h : e.RegularThroughout)
    {item : Item (Option (SymbolKind × Leaf))} {level : Picture} (hitem : item ∈ (picture e).items)
    (hkind : item.isRerun = false) (hlevel : level ∈ item.levels) :
    ∃ x, picture x = level ∧ x.subexprs ⊆ e.subexprs := by
  rcases h.items_length with ⟨es, he, hes, -⟩ | ⟨hwhole, -⟩
  · rw [picture_eq, items_trackAll, List.flatMap_map, hes] at hitem
    obtain ⟨segment, hsegment, hitem⟩ := List.mem_flatMap.mp hitem
    obtain ⟨y, hy, hitem⟩ := exists_expr_of_item hitem hkind
    have hlt : sizeOf y < sizeOf e := he ▸ sizeOf_lt_of_mem_collapse hsegment hy
    have hsub : y.subexprs ⊆ e.subexprs := by
      intro x hx
      rw [he]
      exact List.mem_cons_of_mem _ ((collapse_cuts es).subexprs_subset (Expr.mem_subexprsAll.mpr
        ⟨y, List.mem_flatMap.mpr ⟨segment, hsegment, hy⟩, hx⟩))
    obtain ⟨x, hpicture, hx⟩ := level_of_item (h.of_subset hsub) hitem hkind hlevel
    exact ⟨x, hpicture, List.Subset.trans hx hsub⟩
  · obtain ⟨node, hnode⟩ := exists_soleNode h hwhole
    rw [picture_of_soleNode? hnode, Item.items_alone] at hitem
    rcases List.mem_cons.mp hitem with rfl | hitem
    · obtain ⟨x, hpicture, hsub, -⟩ := level_of_soleNode hnode hlevel
      exact ⟨x, hpicture, hsub⟩
    · obtain ⟨outer, houter, hitem⟩ := List.mem_flatMap.mp hitem
      obtain ⟨y, rfl, hsub, hlt⟩ := level_of_soleNode hnode houter
      obtain ⟨x, hpicture, hx⟩ := level_of_item (h.of_subset hsub) hitem hkind hlevel
      exact ⟨x, hpicture, List.Subset.trans hx hsub⟩
termination_by sizeOf e
decreasing_by all_goals exact hlt

/-- Nodes without reruns on the level of a regular expression come from items that stayed single. -/
theorem exists_singles {e : Expr} (h : e.RegularThroughout)
    {front run rest : List (Item (Option (SymbolKind × Leaf)))}
    (hrow : (picture e).row = front ++ (run ++ rest)) (hfree : ∀ item ∈ run, item.RerunFree) :
    ∃ (before after : List Segment) (es : List Expr),
      collapse e.items = before ++ (es.map .single ++ after) ∧
      before.map (fun segment => (segment.plan true).track) = front.map Item.alone ∧
      es.map picture = run.map Item.alone ∧
      after.map (fun segment => (segment.plan true).track) = rest.map Item.alone := by
  have hpicture := row_picture h
  rw [hrow, List.map_append, List.map_append] at hpicture
  obtain ⟨before, others, hsegments, hbefore, hothers⟩ := List.map_eq_append_iff.mp hpicture.symm
  obtain ⟨within, after, rfl, hwithin, hafter⟩ := List.map_eq_append_iff.mp hothers
  obtain ⟨es, rfl⟩ := eq_map_single hwithin fun item hitem => (hfree item hitem).isRerun_eq
  refine ⟨before, after, es, hsegments, hbefore, ?_, hafter⟩
  rw [List.map_map] at hwithin
  exact hwithin

/-- Items that stayed single are regular. -/
theorem regular_of_singles {e : Expr} (h : e.RegularThroughout) {before after : List Segment}
    {es : List Expr} (hsegments : collapse e.items = before ++ (es.map .single ++ after)) :
    ∀ x ∈ es, x.RegularThroughout := by
  intro x hx
  refine (h.items x (mem_of_single_mem ?_)).1
  rw [hsegments]
  exact List.mem_append_right _ (List.mem_append_left _ (List.mem_map_of_mem hx))

/-- Items that look like nodes which match are the same. -/
theorem alike_of_matches {as bs : List Expr}
    {xs ys : List (Item (Option (SymbolKind × Leaf)))} (ha : ∀ a ∈ as, a.RegularThroughout)
    (hb : ∀ b ∈ bs, b.RegularThroughout) (has : as.map picture = xs.map Item.alone)
    (hbs : bs.map picture = ys.map Item.alone) (hfree : ∀ item ∈ xs, item.RerunFree)
    (h : List.Forall₂ (Item.Matches ShowSame) xs ys) : Alike as bs := by
  have hmapped : List.Forall₂ (Track.Matches ShowSame) (xs.map Item.alone) (ys.map Item.alone) := by
    rw [List.forall₂_map_left_iff, List.forall₂_map_right_iff]
    exact h
  rw [← has, ← hbs, List.forall₂_map_left_iff, List.forall₂_map_right_iff] at hmapped
  refine forall₂_imp_mem hmapped fun a ha' b hb' hab => ?_
  refine beq_of_matches (ha a ha') (hb b hb') ?_ hab
  obtain ⟨item, hitem, heq⟩ := List.mem_map.mp (has ▸ List.mem_map_of_mem (f := picture) ha')
  exact heq ▸ hfree item hitem

/-- The last nodes on the level of a regular expression come from its last items. -/
theorem exists_last_items {e : Expr} (h : e.RegularThroughout)
    {start last : List (Item (Option (SymbolKind × Leaf)))} (hrow : (picture e).row = start ++ last)
    (hfree : ∀ item ∈ last, item.RerunFree) :
    ∃ front es, e.items = front ++ es ∧ es.map picture = last.map Item.alone ∧
      ∀ x ∈ es, x.RegularThroughout := by
  rw [← List.append_nil last] at hrow
  obtain ⟨before, after, es, hsegments, -, hes, hafter⟩ := exists_singles h hrow hfree
  obtain rfl := List.map_eq_nil_iff.mp hafter
  have haccounts := collapse_accounts e.items
  rw [hsegments, List.append_nil] at haccounts
  obtain ⟨front, _, hitems, -, hback⟩ := haccounts.of_append
  rw [hback.eq_of_map_single] at hitems
  exact ⟨front, es, hitems, hes, regular_of_singles h hsegments⟩

/-- The first nodes on the level of a regular expression come from its first items. -/
theorem exists_first_items {e : Expr} (h : e.RegularThroughout)
    {first others : List (Item (Option (SymbolKind × Leaf)))}
    (hrow : (picture e).row = first ++ others) (hfree : ∀ item ∈ first, item.RerunFree) :
    ∃ es back, e.items = es ++ back ∧ es.map picture = first.map Item.alone ∧
      ∀ x ∈ es, x.RegularThroughout := by
  rw [← List.nil_append (first ++ others)] at hrow
  obtain ⟨before, after, es, hsegments, hbefore, hes, -⟩ := exists_singles h hrow hfree
  obtain rfl := List.map_eq_nil_iff.mp hbefore
  have haccounts := collapse_accounts e.items
  rw [hsegments, List.nil_append] at haccounts
  obtain ⟨_, back, hitems, hfront, -⟩ := haccounts.of_append
  rw [hfront.eq_of_map_single] at hitems
  exact ⟨es, back, hitems, hes, regular_of_singles h hsegments⟩

/-- **A loop on the level of a regular expression is a repetition that agrees with nothing beside
it.** -/
theorem exists_unmatched {e : Expr} (h : e.RegularThroughout) {before after : List Segment}
    {segment : Segment} (hsegments : collapse e.items = before ++ segment :: after)
    {b : Option (SymbolKind × Leaf)} {body : Picture}
    (htrack : (segment.plan true).track = (Item.iteration b body).alone) :
    ∃ inner following, picture inner = body ∧ inner.RegularThroughout ∧
      Unmatched inner (lastSingles before) following ∧
      Accounts (before ++ [segment]) after following [] := by
  have hmem : segment ∈ collapse e.items := by simp [hsegments]
  obtain ⟨inner, rfl, hbody⟩ := eq_single_of_iteration h hmem htrack
  have haccounts := collapse_accounts e.items
  rw [hsegments] at haccounts
  obtain ⟨_, _, following, -, hcovers, hafter⟩ := haccounts.of_append_cons
  refine ⟨inner, following, hbody, ?_, ?_, hafter⟩
  · exact (h.items _ (mem_of_single_mem hmem)).1.of_subset (List.subset_cons_self _ _)
  · rw [List.append_nil, List.nil_append] at hcovers
    cases hcovers with
    | single _ hunmatched => exact hunmatched inner rfl

/-- **On the level of a regular expression no loop repeats what stands beside it,** unless there is a
rerun in it. -/
theorem not_missed {e : Expr} (h : e.RegularThroughout)
    {run : List (Item (Option (SymbolKind × Leaf)))} (hmissed : (picture e).Missed ShowSame run) :
    ∃ item ∈ run, ¬ item.RerunFree := by
  by_contra hnone
  have hfree : ∀ item ∈ run, item.RerunFree := by
    intro item hitem
    by_contra hrerun
    exact hnone ⟨item, hitem, hrerun⟩
  cases hmissed with
  | @behind front rest start last b body hrow hbody hne hrun =>
    obtain ⟨before, _, es, hsegments, -, hes, hafter⟩ := exists_singles h hrow hfree
    obtain ⟨segment, after, rfl, hsegment, -⟩ := List.map_eq_cons_iff.mp hafter
    obtain ⟨inner, following, rfl, hinner, ⟨hunmatched, -⟩, -⟩ :=
      exists_unmatched h (hsegments.trans (List.append_assoc ..).symm) hsegment
    -- the items of the repetition end with those that stayed single before it
    have hlast := Item.rerunFree_of_matches hrun hfree
    obtain ⟨front', es', hitems, hes', hregular⟩ := exists_last_items hinner hbody hlast
    have halike := alike_of_matches hregular (regular_of_singles h hsegments) hes' hes hlast hrun
    have hend := halike.endAlike front' (lastSingles before)
    rw [← hitems, ← lastSingles_append_map] at hend
    have hnil := List.eq_nil_of_length_eq_zero (hunmatched _ hend)
    rw [hnil, List.map_nil] at hes
    exact hne (List.map_eq_nil_iff.mp hes.symm)
  | @ahead front rest first others b body hrow hbody hne hrun =>
    rw [List.append_cons] at hrow
    obtain ⟨before, after, es, hsegments, hbefore, hes, -⟩ := exists_singles h hrow hfree
    rw [List.map_append] at hbefore
    obtain ⟨earlier, _, rfl, -, hlone⟩ := List.map_eq_append_iff.mp hbefore
    obtain ⟨segment, rfl, hsegment⟩ := List.map_eq_singleton_iff.mp hlone
    obtain ⟨inner, following, rfl, hinner, ⟨-, hunmatched⟩, hfollowing⟩ :=
      exists_unmatched h (hsegments.trans (List.append_cons ..).symm) hsegment
    obtain ⟨_, later, rfl, hsingles, -⟩ := hfollowing.of_append
    obtain rfl := hsingles.eq_of_map_single
    -- the items of the repetition begin with those that stayed single after it
    have hfirst := Item.rerunFree_of_matches hrun hfree
    obtain ⟨es', back, hitems, hes', hregular⟩ := exists_first_items hinner hbody hfirst
    have halike := alike_of_matches hregular (regular_of_singles h hsegments) hes' hes hfirst hrun
    have hbegin := halike.beginAlike back later
    rw [← hitems] at hbegin
    have hnil := List.eq_nil_of_length_eq_zero (hunmatched _ hbegin)
    rw [hnil, List.map_nil] at hes
    exact hne (List.map_eq_nil_iff.mp hes.symm)

end Build

/-! ## 5. The loops of a graph -/

/-- Two nodes are of one kind, and have the same symbol and the same style. -/
def Spot.ShowSame (a b : Spot) : Prop :=
  a.node.kind = b.node.kind ∧ a.node.symbol = b.node.symbol ∧ (a.node.style == b.node.style) = true

/-- Nodes with the same symbol in the same style show the same leaf. -/
theorem Spot.ShowSame.leaf {a b : Spot} (h : a.ShowSame b) (symbols : SymbolTable) :
    Build.ShowSame (a.node.leaf? symbols) (b.node.leaf? symbols) := by
  obtain ⟨hkind, hsymbol, hstyle⟩ := h
  unfold Node.leaf?
  rw [← hkind, ← hsymbol]
  split
  · exact ⟨rfl, by simpa [BEq.beq] using hstyle⟩
  · exact ⟨rfl, by simpa [BEq.beq] using hstyle⟩
  · trivial

namespace Build

/-- **A graph without missed reruns.**  In the graph of a regular production no loop, at whatever
depth, has nodes right before it that are the same as the last ones of its body, or nodes right
behind it that are the same as the first ones.  This is so on every level but the two of a rerun,
and of nodes with no rerun in them.

The two levels of a rerun are left out for a reason: they are built without looking for more reruns,
and there is a graph in which one is missed there (`compile_missed_between`). -/
theorem compile_missed (r : Registry) {p : Production} (h : p.expr.RegularThroughout) :
    ∃ g, (compile r true p).1 = .ok g ∧ ∀ (level : Track Spot) (run : List (Item Spot)),
      (level = g.track ∨ ∃ item ∈ g.track.items, item.isRerun = false ∧ level ∈ item.levels) →
      level.Missed Spot.ShowSame run → ∃ item ∈ run, ¬ item.RerunFree := by
  obtain ⟨g, t, hok, htree, hshown⟩ := compile_eq_ok r true h.firstEmpty?
  set symbols := (compile r true p).2.symbols
  have hpicture : g.track.map (fun spot => spot.node.leaf? symbols) = picture p.expr := by
    rw [htree.similar.track_eq, Track.map_map, picture, ← hshown]
    refine Track.map_congr t fun id hid => ?_
    obtain ⟨node, hn⟩ := htree.node_of_mem hid
    rw [Graph.spotAt_node hn, hn, Option.bind_some]
  refine ⟨g, hok, fun level run hlevel hmissed => ?_⟩
  have hlevel' : ∃ x, picture x = level.map (fun spot => spot.node.leaf? symbols) ∧
      x.subexprs ⊆ p.expr.subexprs := by
    rcases hlevel with rfl | ⟨item, hitem, hkind, hlevel⟩
    · exact ⟨p.expr, hpicture.symm, List.Subset.refl _⟩
    · have hitem' : item.map (fun spot => spot.node.leaf? symbols) ∈ (picture p.expr).items := by
        rw [← hpicture, Track.items_map]
        exact List.mem_map_of_mem hitem
      refine level_of_item h hitem' ((Item.isRerun_map _ item).trans hkind) ?_
      rw [Track.levels_map]
      exact List.mem_map_of_mem hlevel
  obtain ⟨x, hpicture', hx⟩ := hlevel'
  have hmissed' := hmissed.map fun (a b : Spot) (hab : a.ShowSame b) => hab.leaf symbols
  rw [← hpicture'] at hmissed'
  obtain ⟨_, hshownItem, hrerun⟩ := not_missed (h.of_subset hx) hmissed'
  obtain ⟨item, hitem, rfl⟩ := List.mem_map.mp hshownItem
  exact ⟨item, hitem, fun hfree => hrerun (Item.rerunFree_map.mpr hfree)⟩

/-- The production `a { b { b } a }`. -/
def loopBetween : Production where
  name := "p"
  expr := .sequence
    [.literal ⟨"a", {}⟩,
      .repetition (.sequence
        [.literal ⟨"b", {}⟩, .repetition (.literal ⟨"b", {}⟩), .literal ⟨"a", {}⟩])]

/-- Its graph, a rerun at the place 4 with the loop of `b` at the place 3 on the way back. -/
def loopBetweenGraph : Graph where
  nodes := #[
    { serial := 0, kind := .terminal, symbol := some 0, next := some 4, escapes := true },
    { serial := 1, kind := .terminal, symbol := some 1, next := some 3 },
    { serial := 2, kind := .terminal, symbol := some 1, next := some 3, escapes := true },
    { serial := 3, kind := .iteration, next := some 4, escapes := true, sub := some 2 },
    { serial := 4, kind := .rerun, sub := some 0, between := some 1 }]
  entry := 4

theorem regular_loopBetween : loopBetween.expr.RegularThroughout := by
  simp [Expr.RegularThroughout, loopBetween, Expr.subexprs, Expr.subexprsAll, Expr.IsRegular,
    Expr.Whole, Expr.node]

theorem compile_loopBetween : (compile {} true loopBetween).1 = .ok loopBetweenGraph := by cbv

/-- The production `[ a { b } ]`. -/
def loopInside : Production where
  name := "p"
  expr := .optional (.sequence [.literal ⟨"a", {}⟩, .repetition (.literal ⟨"b", {}⟩)])

/-- Its graph, in which what may be left out is a level of its own. -/
def loopInsideGraph : Graph where
  nodes := #[
    { serial := 0, kind := .terminal, symbol := some 0, next := some 2 },
    { serial := 1, kind := .terminal, symbol := some 1, next := some 2, escapes := true },
    { serial := 2, kind := .iteration, escapes := true, sub := some 1 },
    { serial := 3, kind := .optional, sub := some 0 }]
  entry := 3

/-- The level inside: an `a`, and the loop of `b` beside it. -/
def loopInsideLevel : Track Spot :=
  .symbol (loopInsideGraph.spotAt 0)
    (.iteration (loopInsideGraph.spotAt 2) (.symbol (loopInsideGraph.spotAt 1) .stop) .stop)

theorem regular_loopInside : loopInside.expr.RegularThroughout := by
  simp [Expr.RegularThroughout, loopInside, Expr.subexprs, Expr.subexprsAll, Expr.IsRegular,
    Expr.Whole, Expr.node]

theorem compile_loopInside : (compile {} true loopInside).1 = .ok loopInsideGraph := by cbv

theorem loopInsideLevel_inside : ∃ item ∈ loopInsideGraph.track.items, item.isRerun = false ∧
    loopInsideLevel ∈ item.levels := by
  have htrack : loopInsideGraph.track
      = .optional (loopInsideGraph.spotAt 3) loopInsideLevel .stop := by rfl
  rw [htrack]
  exact ⟨_, List.mem_cons_self, rfl, List.mem_cons_self⟩

/-- The sequence itself is cut, so nothing is missed on the level of the graph; and nothing is missed
on a level inside, where a loop stands beside another item. -/
theorem compile_missed_loopBetween : loopBetween.expr.RegularThroughout ∧
    (compile {} true loopBetween).1 = .ok loopBetweenGraph ∧
    (∀ run, loopBetweenGraph.track.Missed Spot.ShowSame run → ∃ item ∈ run, ¬ item.RerunFree) ∧
    loopInside.expr.RegularThroughout ∧ (compile {} true loopInside).1 = .ok loopInsideGraph ∧
    (∃ item ∈ loopInsideGraph.track.items, item.isRerun = false ∧ loopInsideLevel ∈ item.levels) ∧
    ∀ run, loopInsideLevel.Missed Spot.ShowSame run → ∃ item ∈ run, ¬ item.RerunFree := by
  refine ⟨regular_loopBetween, compile_loopBetween, fun run => ?_, regular_loopInside,
    compile_loopInside, loopInsideLevel_inside, fun run => ?_⟩
  · obtain ⟨g, hok, hmissed⟩ := compile_missed {} regular_loopBetween
    obtain rfl := Except.ok.inj (compile_loopBetween.symm.trans hok)
    exact hmissed _ run (.inl rfl)
  · obtain ⟨g, hok, hmissed⟩ := compile_missed {} regular_loopInside
    obtain rfl := Except.ok.inj (compile_loopInside.symm.trans hok)
    exact hmissed _ run (.inr loopInsideLevel_inside)

/-- **On the way back the loop of `b` stands behind a `b`:** what a rerun is made of is not cut. -/
theorem compile_missed_between : loopBetween.expr.RegularThroughout ∧
    (compile {} true loopBetween).1 = .ok loopBetweenGraph ∧
    ∃ item ∈ loopBetweenGraph.track.items, ∃ level ∈ item.levels, ∃ run,
      level.Missed Spot.ShowSame run ∧ ∀ x ∈ run, x.RerunFree := by
  refine ⟨regular_loopBetween, compile_loopBetween, ?_⟩
  have htrack : loopBetweenGraph.track = .rerun (loopBetweenGraph.spotAt 4)
      (.symbol (loopBetweenGraph.spotAt 0) .stop)
      (.symbol (loopBetweenGraph.spotAt 1) (.iteration (loopBetweenGraph.spotAt 3)
        (.symbol (loopBetweenGraph.spotAt 2) .stop) .stop)) .stop := by rfl
  have hrow : ((Track.symbol (loopBetweenGraph.spotAt 1) (.iteration (loopBetweenGraph.spotAt 3)
        (.symbol (loopBetweenGraph.spotAt 2) .stop) .stop)).row) = [] ++
      ([.symbol (loopBetweenGraph.spotAt 1)] ++ .iteration (loopBetweenGraph.spotAt 3)
        (.symbol (loopBetweenGraph.spotAt 2) .stop) :: []) := rfl
  have hbody : (Track.symbol (loopBetweenGraph.spotAt 2) .stop).row
      = [] ++ [.symbol (loopBetweenGraph.spotAt 2)] := rfl
  rw [htrack]
  refine ⟨_, List.mem_cons_self, _, List.mem_cons_of_mem _ (List.mem_singleton_self _),
    [.symbol (loopBetweenGraph.spotAt 1)], ?_, ?_⟩
  · refine .behind hrow hbody (List.cons_ne_nil _ _) (.cons ?_ .nil)
    refine ⟨.symbol (loopBetweenGraph.spotAt 2, loopBetweenGraph.spotAt 1) .stop, rfl, rfl, ?_⟩
    intro p hp
    obtain rfl := List.mem_singleton.mp hp
    exact ⟨rfl, rfl, rfl⟩
  · intro x hx y hy
    obtain rfl := List.mem_singleton.mp hx
    obtain rfl := List.mem_singleton.mp hy
    rfl

end Build

end Railroad
