/-
# How a sequence is cut

`Cuts segments items` says what the cutting of a sequence does to its items: none is lost, none is
moved, and a rerun stands for a repetition together with the items that its body ends or begins
with, right before or right behind it.  `collapse_cuts` is the invariant of `collapseFrom`, the
segments so far being a cut of the items so far.

Whatever is read off a sequence item by item can be read off its segments as soon as it agrees on
these two kinds of reruns; the language of a graph and the error of a failed build are such.

The invariant needs one fact that looks backwards: the single items at the end of the segments so
far can be taken out of the cut again, since each of them covers just itself (`Cuts.drop_singles`).
With it a repetition may swallow what was cut before.  The items after a repetition are not cut yet,
and `skip` counts them off; `collapseFrom_cuts` is therefore about the items that are left behind
those.

A cut says nothing of how much a repetition takes.  That it takes as much as it can is a stronger
statement of the same form, in `Railroad.Proofs.Build.Longest`.
-/
import Mathlib.Data.List.Forall2
import Railroad.Build.Plan

namespace Railroad.Build

/-! ## 1. Items that agree -/

/-- Items that are pairwise the same for the comparison of expressions. -/
abbrev Alike (as bs : List Expr) : Prop := List.Forall₂ (fun a b => (a == b) = true) as bs

theorem Alike.ne_nil {as bs : List Expr} (h : Alike as bs) (hb : bs ≠ []) : as ≠ [] := by
  cases h with
  | nil => exact hb
  | cons _ _ => exact List.cons_ne_nil _ _

theorem agreement_alike : ∀ as bs : List Expr,
    Alike (as.take (agreement as bs)) (bs.take (agreement as bs))
  | [], bs => by simp [agreement]
  | a :: as, [] => by simp [agreement]
  | a :: as, b :: bs => by
    rw [agreement]
    split
    · rename_i h
      exact .cons h (agreement_alike as bs)
    · simp

theorem agreement_le_right : ∀ as bs : List Expr, agreement as bs ≤ bs.length
  | [], bs => by simp [agreement]
  | a :: as, [] => by simp [agreement]
  | a :: as, b :: bs => by
    have := agreement_le_right as bs
    rw [agreement]
    split <;> simp only [List.length_cons] <;> omega

/-! ## 2. Cuts -/

/-- **What a cut does to the items of a sequence.**  The items of a rerun are compared with the body
of its repetition, not equal to it: expressions that the comparison takes for the same need not be.
What is proved of cutting from here on uses these rules and never the search for a match. -/
inductive Cuts : List Segment → List Expr → Prop where
  | nil : Cuts [] []
  | single {segments : List Segment} {items : List Expr} (item : Expr) :
    Cuts segments items → Cuts (.single item :: segments) (item :: items)
  /-- A repetition that ends with what stands before it. -/
  | behind {segments : List Segment} {items : List Expr} {inner : Expr}
      {body between same : List Expr} :
    body ≠ [] → inner.items = between ++ same → Alike same body → Cuts segments items →
    Cuts (.rerun body between :: segments) (body ++ .repetition inner :: items)
  /-- A repetition that begins with what follows it. -/
  | ahead {segments : List Segment} {items : List Expr} {inner : Expr}
      {body between same : List Expr} :
    body ≠ [] → inner.items = same ++ between → Alike same body → Cuts segments items →
    Cuts (.rerun body between :: segments) (.repetition inner :: (body ++ items))

namespace Cuts

variable {segments segments' : List Segment} {items items' : List Expr}

theorem append (h : Cuts segments items) (h' : Cuts segments' items') :
    Cuts (segments ++ segments') (items ++ items') := by
  induction h with
  | nil => exact h'
  | single item _ ih => exact .single item ih
  | behind hb hi ha _ ih =>
    rw [List.append_assoc, List.cons_append]
    exact .behind hb hi ha ih
  | ahead hb hi ha _ ih =>
    rw [List.cons_append, List.cons_append, List.append_assoc]
    exact .ahead hb hi ha ih

/-- A cut of which the last segment is a single item. -/
theorem of_append_single {item : Expr} : ∀ {segments : List Segment} {items : List Expr},
    Cuts (segments ++ [.single item]) items →
    ∃ before, items = before ++ [item] ∧ Cuts segments before
  | [], _, .single _ .nil => ⟨[], rfl, .nil⟩
  | _ :: _, _, .single first h => by
    obtain ⟨before, rfl, hbefore⟩ := of_append_single h
    exact ⟨first :: before, rfl, .single first hbefore⟩
  | _ :: _, _, .behind hb hi ha h => by
    obtain ⟨before, rfl, hbefore⟩ := of_append_single h
    exact ⟨_, by simp, .behind hb hi ha hbefore⟩
  | _ :: _, _, .ahead hb hi ha h => by
    obtain ⟨before, rfl, hbefore⟩ := of_append_single h
    exact ⟨_, by simp, .ahead hb hi ha hbefore⟩

/-- The single items that the segments so far end with can be taken back. -/
theorem drop_singles : ∀ {n : Nat} {done : List Segment} {items : List Expr},
    n ≤ (singles done).length → Cuts done.reverse items →
    ∃ before, items = before ++ ((singles done).take n).reverse ∧ Cuts (done.drop n).reverse before
  | 0, done, items, _, h => ⟨items, by simp, h⟩
  | n + 1, [], items, hn, _ => absurd hn (by simp [singles])
  | n + 1, .rerun _ _ :: _, items, hn, _ => absurd hn (by simp [singles])
  | n + 1, .single item :: done, items, hn, h => by
    rw [List.reverse_cons] at h
    obtain ⟨before, rfl, hbefore⟩ := of_append_single h
    obtain ⟨first, rfl, hfirst⟩ := drop_singles (Nat.le_of_succ_le_succ hn) hbefore
    exact ⟨first, by simp [singles], hfirst⟩

/-- Something is left of a sequence that is cut. -/
theorem ne_nil (h : Cuts segments items) (hitems : items ≠ []) : segments ≠ [] := by
  cases h with
  | nil => exact absurd rfl hitems
  | _ => exact List.cons_ne_nil _ _

/-- No rerun is without a body. -/
theorem body_ne_nil (h : Cuts segments items) {body between : List Expr}
    (hmem : .rerun body between ∈ segments) : body ≠ [] := by
  induction h with
  | nil => exact absurd hmem List.not_mem_nil
  | single item _ ih =>
    rcases List.mem_cons.mp hmem with heq | hmem
    · cases heq
    · exact ih hmem
  | behind hb _ _ _ ih | ahead hb _ _ _ ih =>
    rcases List.mem_cons.mp hmem with heq | hmem
    · cases heq
      exact hb
    · exact ih hmem

end Cuts

/-! ## 3. Cutting is a cut -/

/-- A repetition together with the items before it, taken back from the segments so far. -/
theorem cuts_behind {inner : Expr} {done : List Segment} {before : List Expr} {n : Nat}
    (hn : n = agreement inner.items.reverse (singles done)) (hpos : 0 < n)
    (h : Cuts done.reverse before) :
    Cuts (Segment.rerun ((singles done).take n).reverse (inner.items.reverse.drop n).reverse ::
      done.drop n).reverse (before ++ [.repetition inner]) := by
  have hle : n ≤ (singles done).length := hn ▸ agreement_le_right _ _
  obtain ⟨first, rfl, hfirst⟩ := Cuts.drop_singles hle h
  have hbody : ((singles done).take n).reverse ≠ [] := by
    intro hnil
    have hlength := congrArg List.length hnil
    rw [List.length_reverse, List.length_take_of_le hle, List.length_nil] at hlength
    omega
  have hsplit : inner.items
      = (inner.items.reverse.drop n).reverse ++ (inner.items.reverse.take n).reverse := by
    rw [← List.reverse_append, List.take_append_drop, List.reverse_reverse]
  have halike : Alike (inner.items.reverse.take n).reverse ((singles done).take n).reverse := by
    rw [hn]
    exact List.forall₂_reverse_iff.mpr (agreement_alike _ _)
  rw [List.reverse_cons, List.append_assoc]
  exact hfirst.append (.behind hbody hsplit halike .nil)

/-- A repetition together with the items that follow it. -/
theorem cuts_ahead {inner : Expr} {done : List Segment} {before rest : List Expr} {n : Nat}
    (hn : n = agreement inner.items rest) (hpos : 0 < n) (h : Cuts done.reverse before) :
    Cuts (Segment.rerun (rest.take n) (inner.items.drop n) :: done).reverse
      (before ++ .repetition inner :: rest.take n) := by
  have hbody : rest.take n ≠ [] := by
    intro hnil
    have hlength := congrArg List.length hnil
    rw [List.length_take_of_le (hn ▸ agreement_le_right _ _), List.length_nil] at hlength
    omega
  have halike : Alike (inner.items.take n) (rest.take n) := by
    rw [hn]
    exact agreement_alike _ _
  rw [List.reverse_cons]
  refine h.append ?_
  simpa using Cuts.ahead hbody (List.take_append_drop n inner.items).symm halike .nil

/-- **The invariant of cutting:** with the segments so far a cut of the items so far, all segments
are a cut of all items. -/
theorem collapseFrom_cuts : ∀ (items : List Expr) (skip : Nat) {done : List Segment}
    {before : List Expr}, Cuts done.reverse before →
    Cuts (collapseFrom done skip items) (before ++ items.drop skip)
  | [], skip, done, before, h => by
    rw [collapseFrom, List.drop_nil, List.append_nil]
    exact h
  | item :: rest, skip + 1, done, before, h => by
    rw [collapseFrom, List.drop_succ_cons]
    exact collapseFrom_cuts rest skip h
  | item :: rest, 0, done, before, h => by
    have hsingle : Cuts (collapseFrom (.single item :: done) 0 rest) (before ++ item :: rest) := by
      have hcons : Cuts (Segment.single item :: done).reverse (before ++ [item]) := by
        rw [List.reverse_cons]
        exact h.append (.single item .nil)
      have hrest := collapseFrom_cuts rest 0 hcons
      rwa [List.append_assoc] at hrest
    cases item with
    | repetition inner =>
      simp only [collapseFrom, List.drop_zero]
      split
      · rename_i hpos
        have hrest := collapseFrom_cuts rest 0 (cuts_behind rfl hpos h)
        rwa [List.append_assoc] at hrest
      · split
        · rename_i hpos
          have hrest := collapseFrom_cuts rest (agreement inner.items rest) (cuts_ahead rfl hpos h)
          rwa [List.append_assoc, List.cons_append, List.take_append_drop] at hrest
        · exact hsingle
    | _ => exact hsingle

/-- **The segments of a sequence are a cut of its items,** whatever the items are. -/
theorem collapse_cuts (items : List Expr) : Cuts (collapse items) items := by
  have hnil : Cuts ([] : List Segment).reverse [] := .nil
  exact collapseFrom_cuts items 0 hnil

/-! ## 4. Plans of cut sequences -/

/-- The plan of a segment. -/
def Segment.plan (collapsing : Bool) : Segment → Plan
  | .single item => .ofExpr collapsing item
  | .rerun body between =>
    .rerun (body.map (Plan.ofExpr collapsing)) (between.map (Plan.ofExpr collapsing))

namespace Plan

variable (collapsing : Bool)

/-- A sequence is cut before it is planned, unless reruns are not looked for. -/
theorem ofExpr_sequence (items : List Expr) : ofExpr collapsing (.sequence items) =
    .sequence (if collapsing then (collapse items).map (Segment.plan collapsing)
      else items.map (ofExpr collapsing)) := by
  rw [ofExpr]
  cases collapsing with
  | false => simp
  | true =>
    simp only [if_true]
    refine congrArg Plan.sequence (Eq.trans (List.map_congr_left ?_)
      List.attach_map_val)
    rintro ⟨segment, h⟩ -
    cases segment <;> simp [Segment.plan]

theorem ofExpr_alternation (branches : List Expr) :
    ofExpr collapsing (.alternation branches) = .choice (branches.map (ofExpr collapsing)) := by
  rw [ofExpr]
  simp

end Plan

end Railroad.Build
