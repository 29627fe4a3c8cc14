/-
# The longest match of a repetition

`Cuts` says that the segments of a sequence stand for its items, each once and in order.  Here a
cut also says why it is this one: a repetition takes the items before it if it can take any of
them, and else the items after it, and always as many as agree with its body.

The items before a repetition are those that are still single when it is its turn.  A rerun is
never taken apart again, so they are the single items at the end of the segments that stand before
it in the finished cut, followed by those it took.

How much agrees is stated without the function that finds it: `BeginAlike` and `EndAlike` say that
so many items are the same, and `agreement` is the greatest such number (`agreement_isGreatest`).
The items before a repetition are matched in reverse, and `endAlike_iff_reverse` turns them around.

`Accounts` is the invariant, with the segments on both sides of each segment in view.  Its steps are
those of `Cuts`, and a rerun that takes items back takes back the segments that accounted for them
(`Accounts.drop_singles`).
-/
import Mathlib.Data.List.DropRight
import Mathlib.Order.Bounds.Defs
import Railroad.Proofs.Build.Cuts

namespace Railroad.Build

/-! ## 1. Agreement from either side -/

/-- The first `k` items of the two lists are pairwise the same. -/
def BeginAlike (as bs : List Expr) (k : Nat) : Prop :=
  k ≤ as.length ∧ k ≤ bs.length ∧ Alike (as.take k) (bs.take k)

/-- The last `k` items of the two lists are pairwise the same. -/
def EndAlike (as bs : List Expr) (k : Nat) : Prop :=
  k ≤ as.length ∧ k ≤ bs.length ∧ Alike (as.rtake k) (bs.rtake k)

theorem beginAlike_iff_le_agreement : ∀ {as bs : List Expr} {k : Nat},
    BeginAlike as bs k ↔ k ≤ agreement as bs
  | as, bs, 0 => by simp [BeginAlike]
  | [], bs, k + 1 => by simp [BeginAlike, agreement]
  | a :: as, [], k + 1 => by simp [BeginAlike, agreement]
  | a :: as, b :: bs, k + 1 => by
    have ih : BeginAlike as bs k ↔ k ≤ agreement as bs := beginAlike_iff_le_agreement
    simp only [BeginAlike, List.length_cons, Nat.add_le_add_iff_right, List.take_succ_cons,
      List.forall₂_cons, agreement] at ih ⊢
    split
    · rename_i hab
      rw [Nat.add_le_add_iff_right, ← ih]
      exact and_congr_right' (and_congr_right' (and_iff_right hab))
    · rename_i hab
      exact iff_of_false (fun h => hab h.2.2.1) (Nat.not_succ_le_zero k)

/-- Two lists end alike as far as the reversed lists begin alike. -/
theorem endAlike_iff_reverse {as bs : List Expr} {k : Nat} :
    EndAlike as bs k ↔ BeginAlike as.reverse bs.reverse k := by
  rw [EndAlike, BeginAlike, List.length_reverse, List.length_reverse,
    List.rtake_eq_reverse_take_reverse, List.rtake_eq_reverse_take_reverse]
  exact and_congr_right' (and_congr_right' List.forall₂_reverse_iff)

theorem endAlike_iff_le_agreement {as bs : List Expr} {k : Nat} :
    EndAlike as bs k ↔ k ≤ agreement as.reverse bs.reverse :=
  endAlike_iff_reverse.trans beginAlike_iff_le_agreement

/-- Items that are pairwise the same, at the beginning of two lists. -/
theorem Alike.beginAlike {as bs : List Expr} (h : Alike as bs) (as' bs' : List Expr) :
    BeginAlike (as ++ as') (bs ++ bs') bs.length := by
  have hlength := h.length_eq
  refine ⟨?_, ?_, ?_⟩
  · rw [List.length_append, hlength]
    exact Nat.le_add_right _ _
  · rw [List.length_append]
    exact Nat.le_add_right _ _
  · rw [List.take_left, ← hlength, List.take_left]
    exact h

/-- Items that are pairwise the same, at the end of two lists. -/
theorem Alike.endAlike {as bs : List Expr} (h : Alike as bs) (as' bs' : List Expr) :
    EndAlike (as' ++ as) (bs' ++ bs) bs.length := by
  rw [endAlike_iff_reverse, List.reverse_append, List.reverse_append, ← List.length_reverse]
  exact Alike.beginAlike (List.forall₂_reverse_iff.mpr h) _ _

/-- **`agreement` is the longest match.** -/
theorem agreement_isGreatest (as bs : List Expr) :
    IsGreatest {k | BeginAlike as bs k} (agreement as bs) :=
  ⟨beginAlike_iff_le_agreement.mpr (Nat.le_refl _), fun _ h => beginAlike_iff_le_agreement.mp h⟩

theorem agreement_reverse_isGreatest (as bs : List Expr) :
    IsGreatest {k | EndAlike as bs k} (agreement as.reverse bs.reverse) :=
  ⟨endAlike_iff_le_agreement.mpr (Nat.le_refl _), fun _ h => endAlike_iff_le_agreement.mp h⟩

/-! ## 2. The single items at the end of the segments -/

/-- The single items that a list of segments ends with. -/
def lastSingles (segments : List Segment) : List Expr := (singles segments.reverse).reverse

theorem lastSingles_reverse (done : List Segment) :
    lastSingles done.reverse = (singles done).reverse := by
  rw [lastSingles, List.reverse_reverse]

/-- Single items that are added are at the end of the segments. -/
theorem lastSingles_append_map (segments : List Segment) (es : List Expr) :
    lastSingles (segments ++ es.map .single) = lastSingles segments ++ es := by
  have hsingles : ∀ (es : List Expr) (segments : List Segment),
      singles (es.map .single ++ segments) = es ++ singles segments := by
    intro es segments
    induction es with
    | nil => rfl
    | cons e es ih => exact congrArg (e :: ·) ih
  rw [lastSingles, List.reverse_append, ← List.map_reverse, hsingles, List.reverse_append,
    List.reverse_reverse, lastSingles]

/-- Single items that are taken back are no longer at the end of the segments. -/
theorem singles_drop : ∀ {n : Nat} {done : List Segment}, n ≤ (singles done).length →
    singles (done.drop n) = (singles done).drop n
  | 0, done, _ => by simp
  | n + 1, [], h => absurd h (by simp [singles])
  | n + 1, .rerun _ _ :: _, h => absurd h (by simp [singles])
  | n + 1, .single item :: done, h => by
    rw [singles, List.drop_succ_cons, List.drop_succ_cons]
    exact singles_drop (Nat.le_of_succ_le_succ h)

theorem lastSingles_drop {n : Nat} {done : List Segment} (h : n ≤ (singles done).length) :
    lastSingles (done.drop n).reverse ++ ((singles done).take n).reverse
      = lastSingles done.reverse := by
  rw [lastSingles_reverse, lastSingles_reverse, singles_drop h, ← List.reverse_append,
    List.take_append_drop]

/-! ## 3. What each segment covers -/

/-- The repetition of `inner` agrees neither with the end of the items `earlier` nor with the
beginning of the items `later`. -/
def Unmatched (inner : Expr) (earlier later : List Expr) : Prop :=
  (∀ k, EndAlike inner.items earlier k → k = 0) ∧ ∀ k, BeginAlike inner.items later k → k = 0

/-- **The items that a segment covers,** the segments `before` standing in front of it and the items
`following` behind them.  The length of a match is the greatest of a set of lengths, whatever way it
is searched for. -/
inductive Covers (before : List Segment) (following : List Expr) : Segment → List Expr → Prop where
  /-- An item that is alone; a repetition is so only if it agrees with neither side. -/
  | single (item : Expr) :
    (∀ inner, item = .repetition inner → Unmatched inner (lastSingles before) following) →
    Covers before following (.single item) [item]
  /-- As many of the items before a repetition as it can take. -/
  | behind {inner : Expr} {body between same : List Expr} :
    body ≠ [] → inner.items = between ++ same → Alike same body →
    IsGreatest {k | EndAlike inner.items (lastSingles before ++ body) k} body.length →
    Covers before following (.rerun body between) (body ++ [.repetition inner])
  /-- As many of the items after a repetition as it can take, if it can take none before it. -/
  | ahead {inner : Expr} {body between same : List Expr} :
    body ≠ [] → inner.items = same ++ between → Alike same body →
    (∀ k, EndAlike inner.items (lastSingles before) k → k = 0) →
    IsGreatest {k | BeginAlike inner.items (body ++ following) k} body.length →
    Covers before following (.rerun body between) (.repetition inner :: body)

/-- **Segments that account for items,** in order and each covering a block of its own, with the
segments `before` in front of them and the items `following` behind.  What stands behind a segment
counts as it is in the sequence, and what stands before it as it was cut. -/
inductive Accounts : List Segment → List Segment → List Expr → List Expr → Prop where
  | nil {before : List Segment} {following : List Expr} : Accounts before [] [] following
  | cons {before segments : List Segment} {segment : Segment} {block items following : List Expr} :
    Covers before (items ++ following) segment block →
    Accounts (before ++ [segment]) segments items following →
    Accounts before (segment :: segments) (block ++ items) following

namespace Accounts

variable {before segments segments' : List Segment} {items items' following : List Expr}

theorem append (h : Accounts before segments items (items' ++ following))
    (h' : Accounts (before ++ segments) segments' items' following) :
    Accounts before (segments ++ segments') (items ++ items') following := by
  generalize hlater : items' ++ following = later at h
  induction h with
  | nil =>
    rw [List.append_nil] at h'
    exact h'
  | cons hcovers _ ih =>
    rw [List.append_assoc]
    refine .cons ?_ (ih ?_ hlater)
    · rw [List.append_assoc, hlater]
      exact hcovers
    · rw [List.append_assoc]
      exact h'

/-- One more segment. -/
theorem snoc {segment : Segment} {block : List Expr}
    (h : Accounts before segments items (block ++ following))
    (hblock : Covers (before ++ segments) following segment block) :
    Accounts before (segments ++ [segment]) (items ++ block) following := by
  have hlast : Accounts (before ++ segments) [segment] (block ++ []) following := .cons hblock .nil
  rw [List.append_nil] at hlast
  exact h.append hlast

/-- The segments can be parted anywhere, and the items with them. -/
theorem of_append : ∀ {before segments segments' : List Segment} {items : List Expr},
    Accounts before (segments ++ segments') items following →
    ∃ front back, items = front ++ back ∧ Accounts before segments front (back ++ following) ∧
      Accounts (before ++ segments) segments' back following
  | before, [], _, items, h => ⟨[], items, rfl, .nil, by rwa [List.append_nil]⟩
  | before, segment :: segments, _, _, @Accounts.cons _ _ _ block _ _ hcovers h => by
    obtain ⟨front, back, rfl, hfront, hback⟩ := of_append h
    refine ⟨block ++ front, back, (List.append_assoc ..).symm, .cons ?_ hfront, ?_⟩
    · rwa [List.append_assoc] at hcovers
    · rwa [List.append_assoc] at hback

/-- What a segment covers, with what stands before it and what follows it. -/
theorem of_append_cons {segment : Segment}
    (h : Accounts before (segments ++ segment :: segments') items following) :
    ∃ front block back, items = front ++ (block ++ back) ∧
      Covers (before ++ segments) (back ++ following) segment block ∧
      Accounts (before ++ segments ++ [segment]) segments' back following := by
  obtain ⟨front, _, rfl, -, hback⟩ := of_append h
  cases hback with
  | cons hcovers hback => exact ⟨front, _, _, rfl, hcovers, hback⟩

/-- Segments that are single items cover these items. -/
theorem eq_of_map_single : ∀ {before : List Segment} {es items : List Expr},
    Accounts before (es.map .single) items following → items = es
  | _, [], _, .nil => rfl
  | _, e :: _, _, .cons (.single _ _) h => congrArg (e :: ·) (eq_of_map_single h)

/-- The single items that the segments so far end with can be taken back. -/
theorem drop_singles : ∀ {n : Nat} {done : List Segment} {items following : List Expr},
    n ≤ (singles done).length → Accounts [] done.reverse items following →
    ∃ front, items = front ++ ((singles done).take n).reverse ∧
      Accounts [] (done.drop n).reverse front (((singles done).take n).reverse ++ following)
  | 0, done, items, following, _, h => ⟨items, by simp, by simpa using h⟩
  | n + 1, [], _, _, hn, _ => absurd hn (by simp [singles])
  | n + 1, .rerun _ _ :: _, _, _, hn, _ => absurd hn (by simp [singles])
  | n + 1, .single item :: done, items, following, hn, h => by
    rw [List.reverse_cons] at h
    obtain ⟨before, last, rfl, hbefore, hlast⟩ := of_append h
    obtain rfl : last = [item] := eq_of_map_single hlast
    obtain ⟨front, rfl, hfront⟩ := drop_singles (Nat.le_of_succ_le_succ hn) hbefore
    refine ⟨front, by simp [singles], ?_⟩
    simpa [singles] using hfront

end Accounts

/-! ## 4. Cutting takes the longest match -/

/-- A repetition together with the items before it, taken back from the segments so far. -/
theorem accounts_behind {inner : Expr} {done : List Segment} {items following : List Expr}
    {n : Nat} (hn : n = agreement inner.items.reverse (singles done)) (hpos : 0 < n)
    (h : Accounts [] done.reverse items (.repetition inner :: following)) :
    Accounts [] (Segment.rerun ((singles done).take n).reverse
      (inner.items.reverse.drop n).reverse :: done.drop n).reverse
      (items ++ [.repetition inner]) following := by
  have hle : n ≤ (singles done).length := hn ▸ agreement_le_right _ _
  obtain ⟨front, rfl, hfront⟩ := Accounts.drop_singles hle h
  set body := ((singles done).take n).reverse with hbody
  have hlength : body.length = n := by
    rw [hbody, List.length_reverse, List.length_take_of_le hle]
  have hne : body ≠ [] := List.ne_nil_of_length_pos (hlength.symm ▸ hpos)
  have hsplit : inner.items
      = (inner.items.reverse.drop n).reverse ++ (inner.items.reverse.take n).reverse := by
    rw [← List.reverse_append, List.take_append_drop, List.reverse_reverse]
  have halike : Alike (inner.items.reverse.take n).reverse body := by
    rw [hbody, hn]
    exact List.forall₂_reverse_iff.mpr (agreement_alike _ _)
  -- what stood before the repetition is what is left of it and what was taken
  have hgreatest : IsGreatest {k | EndAlike inner.items (lastSingles (done.drop n).reverse ++ body) k}
      body.length := by
    rw [lastSingles_drop hle, lastSingles_reverse, hlength, hn]
    have := agreement_reverse_isGreatest inner.items (singles done).reverse
    rwa [List.reverse_reverse] at this
  rw [List.reverse_cons, List.append_assoc]
  refine Accounts.snoc ?_ (.behind hne hsplit halike hgreatest)
  rw [List.append_assoc]
  exact hfront

/-- A repetition that agrees with nothing before it, together with the items that follow it. -/
theorem accounts_ahead {inner : Expr} {done : List Segment} {items rest : List Expr} {n : Nat}
    (hn : n = agreement inner.items rest) (hpos : 0 < n)
    (hbehind : agreement inner.items.reverse (singles done) = 0)
    (h : Accounts [] done.reverse items (.repetition inner :: rest)) :
    Accounts [] (Segment.rerun (rest.take n) (inner.items.drop n) :: done).reverse
      (items ++ .repetition inner :: rest.take n) (rest.drop n) := by
  have hlength : (rest.take n).length = n :=
    List.length_take_of_le (hn ▸ agreement_le_right _ _)
  have hne : rest.take n ≠ [] := List.ne_nil_of_length_pos (hlength.symm ▸ hpos)
  have halike : Alike (inner.items.take n) (rest.take n) := by
    rw [hn]
    exact agreement_alike _ _
  have hnone : ∀ k, EndAlike inner.items (lastSingles done.reverse) k → k = 0 := by
    intro k hk
    rw [endAlike_iff_le_agreement, lastSingles_reverse, List.reverse_reverse, hbehind] at hk
    exact Nat.le_zero.mp hk
  have hgreatest : IsGreatest {k | BeginAlike inner.items (rest.take n ++ rest.drop n) k}
      (rest.take n).length := by
    rw [List.take_append_drop, hlength, hn]
    exact agreement_isGreatest _ _
  rw [List.reverse_cons]
  refine Accounts.snoc ?_
    (.ahead hne (List.take_append_drop n inner.items).symm halike hnone hgreatest)
  rw [List.cons_append, List.take_append_drop]
  exact h

/-- An item that stays alone. -/
theorem accounts_single {item : Expr} {done : List Segment} {items rest : List Expr}
    (hitem : ∀ inner, item = .repetition inner → Unmatched inner (lastSingles done.reverse) rest)
    (h : Accounts [] done.reverse items (item :: rest)) :
    Accounts [] (Segment.single item :: done).reverse (items ++ [item]) rest := by
  rw [List.reverse_cons]
  exact h.snoc (.single item hitem)

/-- **The invariant of cutting:** with the segments so far accounting for the items so far, all
segments account for all items. -/
theorem collapseFrom_accounts : ∀ (items : List Expr) (skip : Nat) {done : List Segment}
    {before : List Expr}, Accounts [] done.reverse before (items.drop skip) →
    Accounts [] (collapseFrom done skip items) (before ++ items.drop skip) []
  | [], skip, done, before, h => by
    rw [List.drop_nil] at h ⊢
    rw [collapseFrom, List.append_nil]
    exact h
  | item :: rest, skip + 1, done, before, h => by
    rw [List.drop_succ_cons] at h ⊢
    rw [collapseFrom]
    exact collapseFrom_accounts rest skip h
  | item :: rest, 0, done, before, h => by
    rw [List.drop_zero] at h ⊢
    have hsingle (hitem : ∀ inner, item = .repetition inner →
        Unmatched inner (lastSingles done.reverse) rest) :
        Accounts [] (collapseFrom (.single item :: done) 0 rest) (before ++ item :: rest) [] := by
      have hrest := collapseFrom_accounts rest 0 (accounts_single hitem h)
      rwa [List.append_assoc] at hrest
    cases item with
    | repetition inner =>
      rw [collapseFrom]
      split
      · rename_i hpos
        have hrest := collapseFrom_accounts rest 0 (accounts_behind rfl hpos h)
        rwa [List.append_assoc] at hrest
      · rename_i hbehind
        have hbehind := Nat.eq_zero_of_not_pos hbehind
        split
        · rename_i hpos
          have hrest := collapseFrom_accounts rest (agreement inner.items rest)
            (accounts_ahead rfl hpos hbehind h)
          rwa [List.append_assoc, List.cons_append, List.take_append_drop] at hrest
        · rename_i hahead
          have hahead := Nat.eq_zero_of_not_pos hahead
          refine hsingle ?_
          rintro _ ⟨⟩
          refine ⟨fun k hk => ?_, fun k hk => ?_⟩
          · rw [endAlike_iff_le_agreement, lastSingles_reverse, List.reverse_reverse, hbehind] at hk
            exact Nat.le_zero.mp hk
          · rw [beginAlike_iff_le_agreement, hahead] at hk
            exact Nat.le_zero.mp hk
    | _ => exact hsingle (by rintro _ ⟨⟩)

/-- The segments of a sequence account for its items. -/
theorem collapse_accounts (items : List Expr) : Accounts [] (collapse items) items [] := by
  have hnil : Accounts [] ([] : List Segment).reverse [] (items.drop 0) := .nil
  exact collapseFrom_accounts items 0 hnil

/-! ## 5. The blocks of a cut -/

/-- The blocks of segments that account for items, one for each segment. -/
theorem Accounts.exists_blocks {before segments : List Segment} {items following : List Expr}
    (h : Accounts before segments items following) :
    ∃ blocks : List (List Expr), blocks.flatten = items ∧ blocks.length = segments.length ∧
      ∀ (i : Nat) (hs : i < segments.length) (hb : i < blocks.length),
        Covers (before ++ segments.take i) ((blocks.drop (i + 1)).flatten ++ following)
          segments[i] blocks[i] := by
  induction h with
  | nil => exact ⟨[], rfl, rfl, fun i hs => absurd hs (Nat.not_lt_zero i)⟩
  | cons hcovers _ ih =>
    rename_i segment block items following _
    obtain ⟨blocks, rfl, hlength, hblocks⟩ := ih
    refine ⟨block :: blocks, List.flatten_cons, by simp [hlength], ?_⟩
    rintro (_ | i) hs hb
    · simpa using hcovers
    · have hi := hblocks i (Nat.lt_of_succ_lt_succ hs) (Nat.lt_of_succ_lt_succ hb)
      simpa using hi

/-- **A sequence is cut into consecutive blocks, one for each segment, with the longest match
first.**  A single item is a block of its own.  A rerun is a repetition with the items before it if
the repetition ends like any of those that were still single, and with as many as it ends like; else
a repetition with as many of the items after it as it begins like.

"Those that were still single" are the segments before, back to the last rerun; what has become part
of a rerun is not matched again. -/
theorem collapse_blocks (items : List Expr) :
    ∃ blocks : List (List Expr), blocks.flatten = items ∧
      blocks.length = (collapse items).length ∧
      ∀ (i : Nat) (hs : i < (collapse items).length) (hb : i < blocks.length),
        Covers ((collapse items).take i) (blocks.drop (i + 1)).flatten (collapse items)[i]
          blocks[i] := by
  obtain ⟨blocks, hitems, hlength, hblocks⟩ := (collapse_accounts items).exists_blocks
  refine ⟨blocks, hitems, hlength, fun i hs hb => ?_⟩
  have hi := hblocks i hs hb
  rwa [List.nil_append, List.append_nil] at hi

end Railroad.Build
