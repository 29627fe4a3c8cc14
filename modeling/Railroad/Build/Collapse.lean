/-
# Repetitions next to their own body

In `a { b a }` the repetition ends with what stands before it: one run through `a`, and as often
as one likes back over `b` to another.  That is drawn as one loop around `a` with `b` on the way
back, a *rerun*.  The same holds of `{ a b } a`, where the repetition begins with what follows.

`collapse` cuts a sequence into segments, single items and reruns.  A repetition is first matched
against the single items right before it, then against the items after it, and takes as many of
them as agree with its body from that side on.  Items that went into a rerun are out of reach for
the repetitions that follow.

The items that were read already are kept as segments in reverse, so those a repetition can still
take are the ones that this list begins with (`singles`).  Matching backwards then is the same as
matching forwards, `longest_match`, of two lists that are both turned around; `agreement` serves for
both.

At the end of the module stands what the compiler needs in order to go on into the segments: all the
expressions in them are smaller than the sequence.  What collapsing means is told elsewhere.  That
it does not change the language is in `Railroad.Proofs.Build.Language`, that it takes as much as it
can in `Railroad.Proofs.Build.Longest`, and what it does not look at in
`Railroad.Proofs.Build.Missed`.
-/
import Railroad.Expr.Basic

namespace Railroad.Build

/-- **A piece of a sequence.**  A rerun is its `body` at least once, each time but the first after
`between`.  A single item may be a repetition too, namely one that repeats neither of its
neighbours. -/
inductive Segment where
  | single (item : Expr)
  | rerun (body between : List Expr)

/-- The expressions of a segment. -/
def Segment.exprs : Segment → List Expr
  | .single item => [item]
  | .rerun body between => body ++ between

/-- How many items two lists have in common at their beginning, `longest_match`. -/
def agreement : List Expr → List Expr → Nat
  | a :: as, b :: bs => if a == b then agreement as bs + 1 else 0
  | _, _ => 0

/-- The single items that a list of segments begins with, up to the first rerun. -/
def singles : List Segment → List Expr
  | .single item :: segments => item :: singles segments
  | _ => []

/-- Goes on cutting: `done` are the segments so far, last first, and `skip` says how many of the
items left were taken by the last one. -/
def collapseFrom (done : List Segment) : Nat → List Expr → List Segment
  | _, [] => done.reverse
  | skip + 1, _ :: rest => collapseFrom done skip rest
  | 0, .repetition inner :: rest =>
    let behind := agreement inner.items.reverse (singles done)
    let ahead := agreement inner.items rest
    if 0 < behind then
      let body := ((singles done).take behind).reverse
      let between := (inner.items.reverse.drop behind).reverse
      collapseFrom (.rerun body between :: done.drop behind) 0 rest
    else if 0 < ahead then
      collapseFrom (.rerun (rest.take ahead) (inner.items.drop ahead) :: done) ahead rest
    else
      collapseFrom (.single (.repetition inner) :: done) 0 rest
  | 0, item :: rest => collapseFrom (.single item :: done) 0 rest

/-- **Cuts a sequence into segments,** `collapse_reruns`.  In reading order they hold all the items,
a rerun its body first and then its repetition.  It looks at one sequence and not into its items;
whoever builds an item that is a sequence cuts that as well. -/
def collapse (items : List Expr) : List Segment := collapseFrom [] 0 items

/-! ## Segments hold smaller expressions -/

theorem mem_of_mem_singles {e : Expr} : ∀ {segments : List Segment},
    e ∈ singles segments → .single e ∈ segments
  | [], h => by simp [singles] at h
  | .rerun _ _ :: _, h => by simp [singles] at h
  | .single item :: rest, h => by
    simp only [singles, List.mem_cons] at h
    rcases h with rfl | h
    · exact List.mem_cons_self
    · exact List.mem_cons_of_mem _ (mem_of_mem_singles h)

/-- The items of a sequence are smaller than it, and no expression has larger items than itself. -/
theorem sizeOf_le_of_mem_items {e inner : Expr} (h : e ∈ inner.items) : sizeOf e ≤ sizeOf inner := by
  unfold Expr.items at h
  split at h
  · rename_i items
    have := List.sizeOf_lt_of_mem h
    simp only [Expr.sequence.sizeOf_spec]
    omega
  · simp only [List.mem_singleton] at h
    exact Nat.le_of_eq (congrArg sizeOf h)

/-- What a cut produces comes from the items or from the inside of a repetition among them. -/
theorem sizeOf_lt_of_mem_collapseFrom {bound : Nat} : ∀ {items : List Expr} {done : List Segment}
    {skip : Nat}, (∀ e ∈ items, sizeOf e < bound) → (∀ s ∈ done, ∀ e ∈ s.exprs, sizeOf e < bound) →
    ∀ s ∈ collapseFrom done skip items, ∀ e ∈ s.exprs, sizeOf e < bound
  | [], done, skip, _, hd => by
    intro s hs
    rw [collapseFrom, List.mem_reverse] at hs
    exact hd s hs
  | item :: rest, done, skip + 1, hi, hd => by
    rw [collapseFrom]
    exact sizeOf_lt_of_mem_collapseFrom (fun e he => hi e (List.mem_cons_of_mem _ he)) hd
  | item :: rest, done, 0, hi, hd => by
    have hrest : ∀ e ∈ rest, sizeOf e < bound := fun e he => hi e (List.mem_cons_of_mem _ he)
    have hsingle : ∀ s ∈ Segment.single item :: done, ∀ e ∈ s.exprs, sizeOf e < bound := by
      intro s hs e he
      rcases List.mem_cons.mp hs with rfl | hs
      · simp only [Segment.exprs, List.mem_singleton] at he
        rw [he]; exact hi item List.mem_cons_self
      · exact hd s hs e he
    cases item with
    | repetition inner =>
      have hinner : ∀ e ∈ inner.items, sizeOf e < bound := by
        intro e he
        have h1 := sizeOf_le_of_mem_items he
        have h2 := hi (.repetition inner) List.mem_cons_self
        simp only [Expr.repetition.sizeOf_spec] at h2
        omega
      simp only [collapseFrom]
      split
      · refine sizeOf_lt_of_mem_collapseFrom hrest ?_
        intro s hs e he
        rcases List.mem_cons.mp hs with rfl | hs
        · simp only [Segment.exprs, List.mem_append, List.mem_reverse] at he
          rcases he with he | he
          · have hm := mem_of_mem_singles (List.mem_of_mem_take he)
            exact hd _ hm e (by simp [Segment.exprs])
          · exact hinner e (List.mem_reverse.mp (List.mem_of_mem_drop he))
        · exact hd s (List.mem_of_mem_drop hs) e he
      · split
        · refine sizeOf_lt_of_mem_collapseFrom hrest ?_
          intro s hs e he
          rcases List.mem_cons.mp hs with rfl | hs
          · simp only [Segment.exprs, List.mem_append] at he
            rcases he with he | he
            · exact hrest e (List.mem_of_mem_take he)
            · exact hinner e (List.mem_of_mem_drop he)
          · exact hd s hs e he
        · exact sizeOf_lt_of_mem_collapseFrom hrest hsingle
    | _ => simp only [collapseFrom]; exact sizeOf_lt_of_mem_collapseFrom hrest hsingle

/-- Every expression in a segment of a sequence is smaller than the sequence. -/
theorem sizeOf_lt_of_mem_collapse {items : List Expr} {s : Segment} (hs : s ∈ collapse items)
    {e : Expr} (he : e ∈ s.exprs) : sizeOf e < sizeOf (Expr.sequence items) := by
  have hitems : ∀ e ∈ items, sizeOf e < sizeOf (Expr.sequence items) := by
    intro e he
    have := List.sizeOf_lt_of_mem he
    simp only [Expr.sequence.sizeOf_spec]
    omega
  have hnone : ∀ s ∈ ([] : List Segment), ∀ e ∈ s.exprs, sizeOf e < sizeOf (Expr.sequence items) := by
    simp
  exact sizeOf_lt_of_mem_collapseFrom hitems hnone s hs e he

end Railroad.Build
