/-
# Sizes in a graph with wraps

A node is as large as it was before wraps were put into its graph: where it leads has no part in its
size (`Ruler.Local`).  So the page of a graph with wraps, once the wraps that are not used are off
it, is the page of the graph without any, with the breaks put in that are wanted
(`Track.breaking_sized`).

A ruler might measure a node by anything in it, its links included.  That of a grammar looks at the
symbol and the style, and so has the one property that is needed here, `Ruler.Local`.
-/
import Railroad.Proofs.Layout.Breaks
import Railroad.Proofs.Layout.Pages

namespace Railroad

open Scalar

variable {α : Type}

/-! ## 1. Wraps on a page that has only been sized -/

namespace Track

/-- A level without wraps, with wraps put behind its nodes. -/
theorem spaced_withWraps {w : NodeId → Option NodeId} {f : NodeId → Spot} :
    ∀ t : Track NodeId, t.WrapFree → (∀ id v, w id = some v → (f v).node.kind = .wrap) →
    ((t.withWraps w).map f).Spaced
  | .stop, _, _ => trivial
  | .wrap _ _, h, _ => h.elim
  | .symbol id rest, h, hkind | .epsilon id rest, h, hkind =>
    spaced_behind h (hkind id) (spaced_withWraps rest h hkind)
  | .optional id _ rest, ⟨_, h⟩, hkind | .iteration id _ rest, ⟨_, h⟩, hkind
  | .rerun id _ _ rest, ⟨_, _, h⟩, hkind =>
    spaced_behind h (hkind id) (spaced_withWraps rest h hkind)
  | .choice branches rest, ⟨_, h⟩, hkind =>
    spaced_behind h (hkind branches.head) (spaced_withWraps rest h hkind)
where
  /-- A wrap may be put before a level without wraps. -/
  spaced_behind {w : NodeId → Option NodeId} {f : NodeId → Spot} {wrap : Option NodeId}
      {rest : Track NodeId} (hfree : rest.WrapFree)
      (hkind : ∀ v, wrap = some v → (f v).node.kind = .wrap)
      (h : ((rest.withWraps w).map f).Spaced) : ((behind wrap (rest.withWraps w)).map f).Spaced := by
    cases wrap with
    | none => exact h
    | some v => exact ⟨hkind v rfl, startsWithWrap_withWraps w f hfree, h⟩

variable [Scalar α]

/-- **Before the rows are set no wrap has a height,** for nothing is less than itself. -/
theorem idle_sized (r : Ruler α) (hzero : lt (0.0 : α) 0.0 = false) :
    ∀ t : Track Spot, (t.sized r).Idle
  | .stop => trivial
  | .wrap _ rest => ⟨hzero, idle_sized r hzero rest⟩
  | .symbol _ rest | .epsilon _ rest | .optional _ _ rest | .iteration _ _ rest | .rerun _ _ _ rest
  | .choice _ rest => by
    rw [sized]
    exact idle_sized r hzero rest

end Track

/-! ## 2. Where a node leads has no part in its size -/

variable [Scalar α]

/-- **The ruler measures the label of a node** without regard to where the node leads. -/
def Ruler.Local (r : Ruler α) : Prop :=
  ∀ (node : Node) (next : Option NodeId) (escapes : Bool),
    r.label (node.link next escapes) = r.label node

theorem Ruler.local_ofSymbols [Shaping α] (settings : LayoutSettings α) (symbols : SymbolTable) :
    (Ruler.ofSymbols settings symbols).Local := fun _ _ _ => rfl

theorem Ruler.Local.symbolBox_eq {r : Ruler α} (hr : r.Local) {a b : Node}
    (h : a.unlinked = b.unlinked) : r.symbolBox a = r.symbolBox b := by
  have hlabel : r.label a = r.label b := by
    rw [← hr a (a.next.map fun _ => 0) false, ← hr b (b.next.map fun _ => 0) false]
    exact congrArg r.label h
  have hkind : a.unlinked.kind = b.unlinked.kind := congrArg Node.kind h
  change a.kind = b.kind at hkind
  rw [Ruler.symbolBox, Ruler.symbolBox, hlabel, hkind]

namespace Track

/-- A wrap without a height. -/
def idleWrap : Cell α := { id := 0, node := { serial := 0, kind := .wrap }, box := .zero }

/-- Such a wrap for the nodes that are marked. -/
def wrapIf (marked : NodeId → Bool) (c : Cell α) : Option (Cell α) :=
  if marked c.id then some idleWrap else none

variable {g g₀ : Graph} {r : Ruler α} {w : NodeId → Option NodeId} {used marked : NodeId → Bool}

/-- A wrap is left if it is used. -/
theorem breaking_behind (wrap : Option NodeId) (rest : Track NodeId) :
    (((behind wrap rest).map g.spotAt).sized r).breaking used
      = if wrap.any used then .wrap idleWrap (((rest.map g.spotAt).sized r).breaking used)
        else ((rest.map g.spotAt).sized r).breaking used := by
  cases wrap with
  | none => rfl
  | some v =>
    rw [behind, map, sized, breaking]
    rfl

/-- A wrap is there if its node is marked. -/
theorem breaking_wrapIf (c : Cell α) (rest : Track (Cell α)) :
    (behind (wrapIf marked c) rest).breaking (fun _ => true)
      = if marked c.id then .wrap idleWrap (rest.breaking fun _ => true)
        else rest.breaking fun _ => true := by
  unfold wrapIf
  split <;> rfl

omit [Scalar α] in
theorem unlinked_spotAt {id : NodeId}
    (h : (g.spotAt id).node.unlinked = (g₀.spotAt id).node.unlinked) (box : Box α) :
    Cell.unlinked ⟨g.spotAt id, box⟩ = Cell.unlinked ⟨g₀.spotAt id, box⟩ := by
  unfold Cell.unlinked
  rw [h]
  rfl

theorem head_sizedBranches (r : Ruler α) (change : Box α → Box α) (bs : Branches NodeId) :
    ((sizedBranches r (mapBranches g.spotAt bs)).mapMarks (·.mapBox change)).head.id = bs.head := by
  cases bs <;> rfl

/-- Branches are as large as they were, if nothing but the links of the head has changed. -/
theorem sizedBranches_unlinked (r : Ruler α) (bs : Branches NodeId)
    (hhead : (g.spotAt bs.head).node.unlinked = (g₀.spotAt bs.head).node.unlinked)
    (hnested : ∀ id ∈ nestedBranches bs, g.spotAt id = g₀.spotAt id) :
    (∀ change : Box α → Box α,
      ((sizedBranches r (mapBranches g.spotAt bs)).mapMarks (·.mapBox change)).mapHead Cell.unlinked
        = ((sizedBranches r (mapBranches g₀.spotAt bs)).mapMarks (·.mapBox change)).mapHead
          Cell.unlinked)
      ∧ (sizedBranches r (mapBranches g.spotAt bs)).marks.map (·.box.size)
        = (sizedBranches r (mapBranches g₀.spotAt bs)).marks.map (·.box.size) := by
  cases bs with
  | last id body =>
    have hbody : body.map g.spotAt = body.map g₀.spotAt := map_congr body hnested
    rw [mapBranches, mapBranches, hbody, sizedBranches, sizedBranches]
    exact ⟨fun _ => congrArg (Branches.last · _) (unlinked_spotAt hhead _), rfl⟩
  | more id body others =>
    have hbody : body.map g.spotAt = body.map g₀.spotAt :=
      map_congr body fun x hx => hnested x (List.mem_append_left _ hx)
    have hothers : mapBranches g.spotAt others = mapBranches g₀.spotAt others :=
      mapBranches_congr others fun x hx => hnested x (List.mem_append_right _ hx)
    rw [mapBranches, mapBranches, hbody, hothers, sizedBranches, sizedBranches]
    exact ⟨fun _ => congrArg (Branches.more · _ _) (unlinked_spotAt hhead _), rfl⟩

/-! ## 3. The page of a graph with wraps -/

/-- **The page of a graph with wraps,** without those that are not used, is the page of the graph
without any and with the breaks put in. -/
theorem breaking_sized (hr : r.Local) : ∀ t : Track NodeId, t.WrapFree →
    (∀ id ∈ t.chain, (g.spotAt id).node.unlinked = (g₀.spotAt id).node.unlinked) →
    (∀ id ∈ t.nested, g.spotAt id = g₀.spotAt id) →
    (∀ id ∈ t.chain, (w id).any used = marked id) →
    (((t.withWraps w).map g.spotAt).sized r).breaking used
      = (((t.map g₀.spotAt).sized r).withWraps (wrapIf marked)).breaking fun _ => true
  | .stop, _, _, _, _ => rfl
  | .wrap _ _, h, _, _, _ => h.elim
  | .symbol id rest, h, hlevel, hsame, hused => by
    have ih := breaking_sized hr rest h (fun x hx => hlevel x (List.mem_cons_of_mem _ hx)) hsame
      fun x hx => hused x (List.mem_cons_of_mem _ hx)
    have hid := hlevel id List.mem_cons_self
    simp only [withWraps, map, sized, breaking, breaking_behind, breaking_wrapIf, ih,
      hused id List.mem_cons_self, hr.symbolBox_eq hid, unlinked_spotAt hid]
    rfl
  | .epsilon id rest, h, hlevel, hsame, hused => by
    have ih := breaking_sized hr rest h (fun x hx => hlevel x (List.mem_cons_of_mem _ hx)) hsame
      fun x hx => hused x (List.mem_cons_of_mem _ hx)
    simp only [withWraps, map, sized, breaking, breaking_behind, breaking_wrapIf, ih,
      hused id List.mem_cons_self, unlinked_spotAt (hlevel id List.mem_cons_self)]
    rfl
  | .optional id body rest, ⟨_, h⟩, hlevel, hsame, hused
  | .iteration id body rest, ⟨_, h⟩, hlevel, hsame, hused => by
    have ih := breaking_sized hr rest h (fun x hx => hlevel x (List.mem_cons_of_mem _ hx))
      (fun x hx => hsame x (List.mem_append_right _ hx))
      fun x hx => hused x (List.mem_cons_of_mem _ hx)
    have hbody : body.map g.spotAt = body.map g₀.spotAt :=
      map_congr body fun x hx => hsame x (List.mem_append_left _ hx)
    simp only [withWraps, map, sized, breaking, breaking_behind, breaking_wrapIf, ih, hbody,
      hused id List.mem_cons_self, unlinked_spotAt (hlevel id List.mem_cons_self)]
    rfl
  | .rerun id body between rest, ⟨_, _, h⟩, hlevel, hsame, hused => by
    simp only [nested, List.mem_append] at hsame
    have ih := breaking_sized hr rest h (fun x hx => hlevel x (List.mem_cons_of_mem _ hx))
      (fun x hx => hsame x (.inr hx)) fun x hx => hused x (List.mem_cons_of_mem _ hx)
    have hbody : body.map g.spotAt = body.map g₀.spotAt :=
      map_congr body fun x hx => hsame x (.inl (.inl hx))
    have hbetween : between.map g.spotAt = between.map g₀.spotAt :=
      map_congr between fun x hx => hsame x (.inl (.inr hx))
    simp only [withWraps, map, sized, breaking, breaking_behind, breaking_wrapIf, ih, hbody,
      hbetween, hused id List.mem_cons_self, unlinked_spotAt (hlevel id List.mem_cons_self)]
    rfl
  | .choice branches rest, ⟨_, h⟩, hlevel, hsame, hused => by
    have ih := breaking_sized hr rest h (fun x hx => hlevel x (List.mem_cons_of_mem _ hx))
      (fun x hx => hsame x (List.mem_append_right _ hx))
      fun x hx => hused x (List.mem_cons_of_mem _ hx)
    have hbranches := sizedBranches_unlinked r branches (hlevel _ List.mem_cons_self)
      fun x hx => hsame x (List.mem_append_left _ hx)
    simp only [withWraps, map, sized, breaking, breaking_behind, breaking_wrapIf, ih,
      hused branches.head List.mem_cons_self, hbranches.1, hbranches.2, head_sizedBranches]

end Track

end Railroad
