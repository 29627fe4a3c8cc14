/-
# How a chain is cut into rows

A row runs on to the end of the chain if no running sum exceeds the limit.  Otherwise it ends behind
the first breakable node from the place of the overflow on, or else behind the last one before that,
or else behind its first node (`Stop.EndsAt`).  `Stop.Rows` is a chain cut by that policy, and a page
is broken in just this way, whatever the advances of its nodes are (`rowBreaks_policy`).

A row may end before the place where it overflows or behind it, so the next one begins anywhere in
what is left.  What carries the induction is that all nodes but the last are followed by another
(`Stop.Leading`): an end is then never the last node, and something is left for the next row.

The policy is stated as what is true of a row that has ended, not as how its end was found: the
place of the overflow is the first with a running sum over the limit, and each of the three kinds of
ends says that no better one was there.  That the search finds an end of this kind is
`endsAt_of_rowEnd?`; that the cutting goes on like this to the end of the chain is an induction on
its length (`exists_rows`).

Widths play no part but as advances, which may be any numbers at all, also ones that are not
numbers.
-/
import Railroad.Proofs.Layout.Breaks
import Railroad.Proofs.Layout.LaidOut

namespace Railroad

open Scalar

variable {α : Type}

/-! ## 1. The policy -/

namespace Stop

/-- A row may well end after the node at a place: it is a symbol that something follows. -/
def BreakableAt (stops : List (Stop α)) (k : Nat) : Prop :=
  ∃ stop, stops[k]? = some stop ∧ stop.breakable = true

/-- **Every node of a chain but the last is followed by another,** and the last one is not. -/
def Leading (stops : List (Stop α)) : Prop :=
  ∀ k stop, stops[k]? = some stop → (stop.followed = true ↔ k + 1 < stops.length) ∧
    (stop.breakable = true → stop.followed = true)

/-- The nodes that rows end after: the last one of each, but for the last row. -/
def lastIds (rows : List (List (Stop α))) : List NodeId :=
  rows.dropLast.filterMap fun row => row.getLast?.map (·.id)

variable [Scalar α]

/-- A running sum after some more nodes, up to a place. -/
def sumTo (sum : α) (stops : List (Stop α)) (k : Nat) : α :=
  (stops.take (k + 1)).foldl (fun sum stop => sum + stop.advance) sum

/-- A row that begins with the chain is not wider than the limit at a place. -/
def FitsTo (limit : α) (stops : List (Stop α)) (k : Nat) : Prop :=
  le (sumTo 0.0 stops k) limit = true

/-- **The place where the row overflows:** the first one with a running sum that is not at most the
limit.  A sum that is not a number counts as too large. -/
structure OverflowsAt (limit : α) (stops : List (Stop α)) (i : Nat) : Prop where
  lt_length : i < stops.length
  exceeds : ¬ FitsTo limit stops i
  least : ∀ j < i, FitsTo limit stops j

/-- **The place where the row ends that a chain begins with,** if it does not run on to the end.  A
breakable node from the overflow on comes before one in front of it, so a row may be wider than the
limit. -/
inductive EndsAt (limit : α) (stops : List (Stop α)) : Nat → Prop
  /-- The first breakable node from the overflow on. -/
  | ahead {i k : Nat} (overflow : OverflowsAt limit stops i) (le : i ≤ k)
      (here : BreakableAt stops k) (first : ∀ j, i ≤ j → j < k → ¬ BreakableAt stops j) :
      EndsAt limit stops k
  /-- The last breakable node before the overflow, if there is none from there on. -/
  | behind {i k : Nat} (overflow : OverflowsAt limit stops i)
      (none : ∀ j, i ≤ j → ¬ BreakableAt stops j) (lt : k < i) (here : BreakableAt stops k)
      (last : ∀ j, k < j → j < i → ¬ BreakableAt stops j) : EndsAt limit stops k
  /-- The first node, if there is no breakable one at all and it is not the last. -/
  | first {i : Nat} (overflow : OverflowsAt limit stops i) (none : ∀ j, ¬ BreakableAt stops j)
      (more : 1 < stops.length) : EndsAt limit stops 0

/-- **A chain cut into rows by the policy.**  Each row is cut off what the rows before it have left,
with the sums begun anew. -/
inductive Rows (limit : α) : List (Stop α) → List (List (Stop α)) → Prop
  /-- The last row fits. -/
  | fits {row : List (Stop α)} (fits : ∀ k < row.length, FitsTo limit row k) : Rows limit row [row]
  /-- The last row does not fit, but it has only one node. -/
  | single {stop : Stop α} (exceeds : ¬ FitsTo limit [stop] 0) : Rows limit [stop] [[stop]]
  /-- A row ends, and another one begins behind it. -/
  | cut {stops : List (Stop α)} {k : Nat} {rows : List (List (Stop α))} (ends : EndsAt limit stops k)
      (rest : Rows limit (stops.drop (k + 1)) rows) :
      Rows limit stops (stops.take (k + 1) :: rows)

/-- **The breaks of a chain are those of the policy,** and so they are after different nodes that
another one follows, there are fewer of them than nodes, and there is one if a chain of two or more
nodes does not fit.  The last row fits, or it has only one node.

All of it follows from the rows, and is said so that nobody has to look for it. -/
structure Broken (limit : α) (stops : List (Stop α)) (ids : List NodeId) : Prop where
  rows : ∃ rows, Rows limit stops rows ∧ lastIds rows = ids ∧ rows.flatten = stops ∧
    ∀ row, rows.getLast? = some row → (∀ k < row.length, FitsTo limit row k) ∨ row.length = 1
  followed : ∀ id ∈ ids, ∃ stop ∈ stops, stop.id = id ∧ stop.followed = true
  nodup : ids.Nodup
  few : ids.length ≤ stops.length - 1
  some : 2 ≤ stops.length → (∃ k < stops.length, ¬ FitsTo limit stops k) → 1 ≤ ids.length

end Stop

/-! ## 2. The searches -/

namespace Stop

variable {stops : List (Stop α)}

theorem breakableFrom?_eq_some {i k : Nat} (h : breakableFrom? i stops = some k) :
    i ≤ k ∧ BreakableAt stops k ∧ ∀ j, i ≤ j → j < k → ¬ BreakableAt stops j := by
  rw [breakableFrom?, Option.map_eq_some_iff] at h
  obtain ⟨n, hn, rfl⟩ := h
  obtain ⟨hlt, hbreakable, hfirst⟩ := List.findIdx?_eq_some_iff_getElem.mp hn
  have hat := List.getElem?_eq_getElem hlt
  rw [List.getElem?_drop, Nat.add_comm] at hat
  refine ⟨Nat.le_add_left _ _, ⟨_, hat, hbreakable⟩, ?_⟩
  rintro j hij hj ⟨stop, hstop, hbreak⟩
  refine hfirst (j - i) (by omega) ?_
  have hsame : (stops.drop i)[j - i]? = some stop := by
    rw [List.getElem?_drop, Nat.add_sub_cancel' hij, hstop]
  obtain ⟨_, hget⟩ := List.getElem?_eq_some_iff.mp hsame
  rw [hget]
  exact hbreak

theorem breakableFrom?_eq_none {i : Nat} (h : breakableFrom? i stops = none) :
    ∀ j, i ≤ j → ¬ BreakableAt stops j := by
  rw [breakableFrom?, Option.map_eq_none_iff, List.findIdx?_eq_none_iff] at h
  rintro j hij ⟨stop, hstop, hbreak⟩
  have hmem : stop ∈ stops.drop i := by
    refine List.mem_of_getElem? (i := j - i) ?_
    rw [List.getElem?_drop, Nat.add_sub_cancel' hij, hstop]
  exact absurd hbreak (by simp [h stop hmem])

/-- What stands before a place, counted back from there. -/
theorem getElem?_reverse_take {i j : Nat} (hi : i ≤ stops.length) (hj : j < i) :
    (stops.take i).reverse[i - 1 - j]? = stops[j]? := by
  have hlength : (stops.take i).length = i := List.length_take_of_le hi
  rw [List.getElem?_reverse (by omega), hlength, List.getElem?_take_of_lt (by omega)]
  congr 1
  omega

theorem breakableBefore?_eq_some {i k : Nat} (hi : i ≤ stops.length)
    (h : breakableBefore? i stops = some k) :
    k < i ∧ BreakableAt stops k ∧ ∀ j, k < j → j < i → ¬ BreakableAt stops j := by
  rw [breakableBefore?, Option.map_eq_some_iff, Nat.min_eq_left hi] at h
  obtain ⟨n, hn, rfl⟩ := h
  obtain ⟨hlt, hbreakable, hfirst⟩ := List.findIdx?_eq_some_iff_getElem.mp hn
  have hni : n < i := by
    rw [List.length_reverse, List.length_take_of_le hi] at hlt
    exact hlt
  have hat := List.getElem?_eq_getElem hlt
  have hback : i - 1 - (i - 1 - n) = n := by omega
  refine ⟨by omega, ⟨_, ?_, hbreakable⟩, ?_⟩
  · rw [← hat, ← getElem?_reverse_take hi (by omega), hback]
  · rintro j hkj hji ⟨stop, hstop, hbreak⟩
    refine hfirst (i - 1 - j) (by omega) ?_
    obtain ⟨_, hget⟩ :=
      List.getElem?_eq_some_iff.mp ((getElem?_reverse_take hi hji).trans hstop)
    rw [hget]
    exact hbreak

theorem breakableBefore?_eq_none {i : Nat} (h : breakableBefore? i stops = none) :
    ∀ j < i, ¬ BreakableAt stops j := by
  rw [breakableBefore?, Option.map_eq_none_iff, List.findIdx?_eq_none_iff] at h
  rintro j hji ⟨stop, hstop, hbreak⟩
  have hmem : stop ∈ (stops.take i).reverse := by
    refine List.mem_reverse.mpr (List.mem_of_getElem? (i := j) ?_)
    rw [List.getElem?_take_of_lt hji, hstop]
  exact absurd hbreak (by simp [h stop hmem])

namespace Leading

theorem drop (h : Leading stops) (n : Nat) : Leading (stops.drop n) := by
  intro k stop hstop
  rw [List.getElem?_drop] at hstop
  obtain ⟨hfollowed, hbreakable⟩ := h _ _ hstop
  refine ⟨hfollowed.trans ?_, hbreakable⟩
  rw [List.length_drop]
  omega

/-- A node before a chain is followed by another if there is one on the chain. -/
theorem cons {stop : Stop α} (hfollowed : stop.followed = !stops.isEmpty)
    (hbreakable : stop.breakable = true → stop.followed = true) (h : Leading stops) :
    Leading (stop :: stops) := by
  intro k other hother
  cases k with
  | zero =>
    obtain rfl := Option.some.inj hother
    refine ⟨?_, hbreakable⟩
    rw [hfollowed, Bool.not_eq_true', List.isEmpty_eq_false_iff, ← List.length_pos_iff,
      List.length_cons]
    omega
  | succ k =>
    obtain ⟨hlast, hbreaks⟩ := h k other hother
    refine ⟨hlast.trans ?_, hbreaks⟩
    rw [List.length_cons]
    omega

/-- The last node of a chain is not breakable. -/
theorem succ_lt_of_breakableAt (h : Leading stops) {k : Nat} (hk : BreakableAt stops k) :
    k + 1 < stops.length := by
  obtain ⟨stop, hstop, hbreakable⟩ := hk
  obtain ⟨hfollowed, himp⟩ := h k stop hstop
  exact hfollowed.mp (himp hbreakable)

/-- The first node of a chain is the first one that is followed, unless it is the only one. -/
theorem firstFollowed?_eq (h : Leading stops) (hne : stops ≠ []) (i : Nat) :
    firstFollowed? i stops = if 1 < stops.length then some 0 else none := by
  match stops with
  | [] => exact absurd rfl hne
  | [stop] => rfl
  | stop :: next :: rest =>
    obtain ⟨hfollowed, -⟩ := h 0 stop rfl
    have hfirst : stop.followed = true := hfollowed.mpr (by simp)
    rw [firstFollowed?, List.dropLast_cons_cons, List.take_succ_cons, List.findIdx?_cons, hfirst]
    simp

end Leading

variable [Scalar α] {limit : α}

/-- **The search for an overflow** finds the first place where the running sum exceeds the limit. -/
theorem overflow?_spec (stops : List (Stop α)) : ∀ sum : α,
    (∀ i, overflow? limit sum stops = some i → i < stops.length ∧
      ¬ le (sumTo sum stops i) limit = true ∧ ∀ j < i, le (sumTo sum stops j) limit = true) ∧
    (overflow? limit sum stops = none → ∀ k < stops.length, le (sumTo sum stops k) limit = true) := by
  induction stops with
  | nil =>
    exact fun sum => ⟨fun i h => absurd h (by simp [overflow?]), fun _ k hk => absurd hk (by simp)⟩
  | cons stop stops ih =>
    intro sum
    obtain ⟨hsome, hnone⟩ := ih (sum + stop.advance)
    rw [overflow?]
    by_cases hle : le (sum + stop.advance) limit = true
    · simp only [hle, if_true]
      constructor
      · intro i hi
        obtain ⟨n, hn, rfl⟩ := Option.map_eq_some_iff.mp hi
        obtain ⟨hlt, hexceeds, hfits⟩ := hsome n hn
        refine ⟨Nat.succ_lt_succ hlt, hexceeds, fun j hj => ?_⟩
        cases j with
        | zero => exact hle
        | succ j => exact hfits j (by omega)
      · intro h k hk
        cases k with
        | zero => exact hle
        | succ k => exact hnone (Option.map_eq_none_iff.mp h) k (Nat.lt_of_succ_lt_succ hk)
    · simp only [hle]
      constructor
      · rintro i hi
        obtain rfl := Option.some.inj hi
        exact ⟨Nat.succ_pos _, hle, fun j hj => absurd hj (Nat.not_lt_zero j)⟩
      · intro h
        cases h

theorem overflow?_eq_some {i : Nat} (h : overflow? limit 0.0 stops = some i) :
    OverflowsAt limit stops i :=
  have ⟨hlt, hexceeds, hleast⟩ := (overflow?_spec stops 0.0).1 i h
  ⟨hlt, hexceeds, hleast⟩

theorem overflow?_eq_none (h : overflow? limit 0.0 stops = none) :
    ∀ k < stops.length, FitsTo limit stops k :=
  (overflow?_spec stops 0.0).2 h

/-! ## 3. Rows -/

/-- **A row ends where the policy says.** -/
theorem endsAt_of_rowEnd? (hleading : Leading stops) {k : Nat}
    (h : rowEnd? limit stops = some k) : EndsAt limit stops k := by
  rw [rowEnd?, Option.bind_eq_bind, Option.bind_eq_some_iff] at h
  obtain ⟨i, hi, h⟩ := h
  have hover := overflow?_eq_some hi
  have hne : stops ≠ [] := List.ne_nil_of_length_pos (Nat.zero_lt_of_lt hover.lt_length)
  simp only [Option.orElse_eq_orElse, Option.orElse_eq_or, Option.or_eq_some_iff] at h
  rcases h with hahead | ⟨hnone, hbehind | ⟨hnone', hfirst⟩⟩
  · obtain ⟨hle, hhere, hleast⟩ := breakableFrom?_eq_some hahead
    exact .ahead hover hle hhere hleast
  · obtain ⟨hlt, hhere, hlast⟩ := breakableBefore?_eq_some (Nat.le_of_lt hover.lt_length) hbehind
    exact .behind hover (breakableFrom?_eq_none hnone) hlt hhere hlast
  · rw [hleading.firstFollowed?_eq hne] at hfirst
    split at hfirst
    case isFalse => cases hfirst
    case isTrue hmore =>
      obtain rfl := Option.some.inj hfirst
      refine .first hover (fun j => ?_) hmore
      rcases Nat.lt_or_ge j i with hj | hj
      · exact breakableBefore?_eq_none hnone' j hj
      · exact breakableFrom?_eq_none hnone j hj

/-- A row that does not end before the chain does fits, or it has only one node. -/
theorem last_of_rowEnd? (hleading : Leading stops) (h : rowEnd? limit stops = none) :
    (∀ k < stops.length, FitsTo limit stops k) ∨ ∃ stop, stops = [stop] ∧ ¬ FitsTo limit [stop] 0 := by
  rw [rowEnd?, Option.bind_eq_bind, Option.bind_eq_none_iff] at h
  cases hi : overflow? limit 0.0 stops with
  | none => exact .inl (overflow?_eq_none hi)
  | some i =>
    have hover := overflow?_eq_some hi
    have hpos := Nat.zero_lt_of_lt hover.lt_length
    have hnone := h i hi
    simp only [Option.orElse_eq_orElse, Option.orElse_eq_or, Option.or_eq_none_iff] at hnone
    obtain ⟨-, -, hfirst⟩ := hnone
    rw [hleading.firstFollowed?_eq (List.ne_nil_of_length_pos hpos)] at hfirst
    have hone : stops.length = 1 := by
      by_contra hmore
      rw [if_pos (by omega)] at hfirst
      cases hfirst
    obtain ⟨stop, rfl⟩ := List.length_eq_one_iff.mp hone
    obtain rfl : i = 0 := by
      have hlt := hover.lt_length
      rw [hone] at hlt
      omega
    exact .inr ⟨stop, rfl, hover.exceeds⟩

namespace EndsAt

/-- **A row that ends before the chain does leaves something behind.** -/
theorem succ_lt (hleading : Leading stops) {k : Nat} (h : EndsAt limit stops k) :
    k + 1 < stops.length := by
  cases h with
  | ahead _ _ here _ => exact hleading.succ_lt_of_breakableAt here
  | behind _ _ _ here _ => exact hleading.succ_lt_of_breakableAt here
  | first _ _ more => exact more

end EndsAt

/-- There is a row, even if it has no nodes. -/
theorem Rows.ne_nil {rows : List (List (Stop α))} (h : Rows limit stops rows) : rows ≠ [] := by
  cases h <;> exact List.cons_ne_nil _ _

omit [Scalar α] in
/-- The nodes that rows end after, if the first one ends at a place. -/
theorem lastIds_cons {k : Nat} {rows : List (List (Stop α))} (hk : k < stops.length)
    (hne : rows ≠ []) : lastIds (stops.take (k + 1) :: rows) = stops[k].id :: lastIds rows := by
  rw [lastIds, List.dropLast_cons_of_ne_nil hne, List.filterMap_cons, List.getLast?_take,
    if_neg (Nat.succ_ne_zero k), Nat.add_sub_cancel, List.getElem?_eq_getElem hk]
  rfl

/-- **The breaks of a chain cut it by the policy.** -/
theorem exists_rows (limit : α) (stops : List (Stop α)) (hleading : Leading stops) :
    ∃ rows, Rows limit stops rows ∧ lastIds rows = breaks limit stops := by
  fun_induction breaks limit stops with
  | case1 => exact ⟨[[]], .fits fun k hk => absurd hk (Nat.not_lt_zero k), rfl⟩
  | case2 stop stops hend =>
    rcases last_of_rowEnd? hleading hend with hfits | ⟨other, hone, hexceeds⟩
    · exact ⟨_, .fits hfits, rfl⟩
    · rw [hone]
      exact ⟨_, .single hexceeds, rfl⟩
  | case3 stop stops k hend ih =>
    obtain ⟨rows, hrows, hids⟩ := ih (hleading.drop (k + 1))
    have hends := endsAt_of_rowEnd? hleading hend
    refine ⟨_, .cut hends hrows, ?_⟩
    have hlt : k < (stop :: stops).length := Nat.lt_of_succ_lt (hends.succ_lt hleading)
    rw [lastIds_cons hlt hrows.ne_nil, hids, List.getElem?_eq_getElem hlt]
    rfl

namespace Rows

variable {rows : List (List (Stop α))}

/-- No node is lost between the rows. -/
theorem flatten_eq (h : Rows limit stops rows) : rows.flatten = stops := by
  induction h with
  | fits | single => exact List.flatten_singleton
  | cut _ _ ih => rw [List.flatten_cons, ih, List.take_append_drop]

/-- The last row fits, or it has only one node. -/
theorem last_row (h : Rows limit stops rows) : ∀ row, rows.getLast? = some row →
    (∀ k < row.length, FitsTo limit row k) ∨ row.length = 1 := by
  induction h with
  | fits hfits =>
    rintro _ hrow
    obtain rfl := Option.some.inj hrow
    exact .inl hfits
  | single =>
    rintro _ hrow
    obtain rfl := Option.some.inj hrow
    exact .inr rfl
  | cut _ hrest ih =>
    intro row hrow
    refine ih row ?_
    rwa [List.getLast?_cons_of_ne_nil hrest.ne_nil] at hrow

/-- Rows end after nodes of the chain, in their order. -/
theorem lastIds_sublist (h : Rows limit stops rows) (hleading : Leading stops) :
    (lastIds rows).Sublist (stops.map (·.id)) := by
  induction h with
  | fits | single => exact List.nil_sublist _
  | @cut stops k rows ends hrest ih =>
    have hlt : k < stops.length := Nat.lt_of_succ_lt (ends.succ_lt hleading)
    rw [lastIds_cons hlt hrest.ne_nil]
    have hkeep := (ih (hleading.drop (k + 1))).cons_cons stops[k].id
    rw [← List.map_cons, List.getElem_cons_drop] at hkeep
    exact hkeep.trans ((List.drop_sublist k stops).map _)

/-- Rows end after nodes that another one follows. -/
theorem followed_of_mem (h : Rows limit stops rows) (hleading : Leading stops) :
    ∀ id ∈ lastIds rows, ∃ stop ∈ stops, stop.id = id ∧ stop.followed = true := by
  induction h with
  | fits | single => exact fun id hid => absurd hid List.not_mem_nil
  | @cut stops k rows ends hrest ih =>
    have hlt := ends.succ_lt hleading
    have hk : k < stops.length := Nat.lt_of_succ_lt hlt
    rw [lastIds_cons hk hrest.ne_nil]
    intro id hid
    rcases List.mem_cons.mp hid with rfl | hid
    · obtain ⟨hfollowed, -⟩ := hleading k _ (List.getElem?_eq_getElem hk)
      exact ⟨_, List.getElem_mem hk, rfl, hfollowed.mpr hlt⟩
    · obtain ⟨stop, hstop, hfound⟩ := ih (hleading.drop (k + 1)) id hid
      exact ⟨stop, List.mem_of_mem_drop hstop, hfound⟩

/-- There are fewer breaks than nodes. -/
theorem length_lastIds_le (h : Rows limit stops rows) (hleading : Leading stops) :
    (lastIds rows).length ≤ stops.length - 1 := by
  induction h with
  | fits | single => exact Nat.zero_le _
  | @cut stops k rows ends hrest ih =>
    have hlt := ends.succ_lt hleading
    have hfew := ih (hleading.drop (k + 1))
    rw [lastIds_cons (Nat.lt_of_succ_lt hlt) hrest.ne_nil, List.length_cons]
    rw [List.length_drop] at hfew
    omega

/-- A chain that does not fit is cut, unless it has only one node. -/
theorem lastIds_pos (h : Rows limit stops rows) (hleading : Leading stops)
    (hmany : 2 ≤ stops.length) (hover : ∃ k < stops.length, ¬ FitsTo limit stops k) :
    1 ≤ (lastIds rows).length := by
  cases h with
  | fits hfits =>
    obtain ⟨k, hk, hexceeds⟩ := hover
    exact absurd (hfits k hk) hexceeds
  | single => exact absurd hmany (by simp)
  | cut ends hrest =>
    rw [lastIds_cons (Nat.lt_of_succ_lt (ends.succ_lt hleading)) hrest.ne_nil]
    exact Nat.succ_pos _

end Rows

/-- **A chain is broken by the policy,** whatever its advances are. -/
theorem broken_breaks (limit : α) (hleading : Leading stops) (hnodup : (stops.map (·.id)).Nodup) :
    Broken limit stops (breaks limit stops) := by
  obtain ⟨rows, hrows, hids⟩ := exists_rows limit stops hleading
  rw [← hids]
  constructor
  case rows => exact ⟨rows, hrows, rfl, hrows.flatten_eq, hrows.last_row⟩
  case followed => exact hrows.followed_of_mem hleading
  case nodup => exact (hrows.lastIds_sublist hleading).nodup hnodup
  case few => exact hrows.length_lastIds_le hleading
  case some => exact hrows.lastIds_pos hleading

end Stop

/-! ## 4. The nodes of a level -/

namespace Track

/-- **Every node of a level leads on if something is behind it,** and only then. -/
def Leads : Track Spot → Prop
  | .stop => True
  | .symbol b rest => b.node.next.isSome = !rest.isStop ∧ rest.Leads
  | .epsilon b rest => b.node.next.isSome = !rest.isStop ∧ rest.Leads
  | .wrap b rest => b.node.next.isSome = !rest.isStop ∧ rest.Leads
  | .optional b _ rest => b.node.next.isSome = !rest.isStop ∧ rest.Leads
  | .iteration b _ rest => b.node.next.isSome = !rest.isStop ∧ rest.Leads
  | .rerun b _ _ rest => b.node.next.isSome = !rest.isStop ∧ rest.Leads
  | .choice branches rest => branches.head.node.next.isSome = !rest.isStop ∧ rest.Leads

theorem leads_before {item : Item Spot} {rest : Track Spot} :
    (item.before rest).Leads ↔ item.mark.node.next.isSome = !rest.isStop ∧ rest.Leads := by
  cases item <;> exact Iff.rfl

end Track

/-- Where a level begins, a link leads to it unless it is empty. -/
theorem Linked.next_isSome {arena : Arena} {t : Track NodeId} {into : Exit}
    (h : Linked Exit.Similar arena (.along none) into t) : into.next.isSome = !t.isStop := by
  cases t with
  | stop =>
    obtain ⟨-, hnext⟩ := h
    rw [hnext rfl]
    rfl
  | _ =>
    obtain ⟨rfl, -⟩ := h
    rfl

/-- **The nodes of a level that leads nowhere** lead on to each other. -/
theorem Linked.map_leads {g : Graph} : ∀ {t : Track NodeId} {into : Exit},
    Linked Exit.Similar g.arena (.along none) into t → (t.map g.spotAt).Leads
  | .stop, _, _ => trivial
  | .symbol id rest, _, ⟨_, _, hn, _, _, hr⟩ | .epsilon id rest, _, ⟨_, _, hn, _, hr⟩
  | .wrap id rest, _, ⟨_, _, hn, _, hr⟩ | .optional id _ rest, _, ⟨_, _, hn, _, _, hr⟩
  | .iteration id _ rest, _, ⟨_, _, hn, _, _, hr⟩
  | .rerun id _ _ rest, _, ⟨_, _, hn, _, _, _, hr⟩ => by
    refine ⟨?_, hr.map_leads⟩
    rw [Track.isStop_map, ← hr.next_isSome, Graph.spotAt_node hn]
    rfl
  | .choice branches rest, _, ⟨_, _, hn, _, _, hr⟩ => by
    refine ⟨?_, hr.map_leads⟩
    rw [Track.isStop_map, ← hr.next_isSome, Track.head_mapBranches, Graph.spotAt_node hn]
    rfl

/-- **What a node of the top level is as a place where a row may end.**  Nothing is said about its
advance. -/
structure Stop.At (stop : Stop α) (spot : Spot) : Prop where
  id : stop.id = spot.id
  breakable : stop.breakable = (spot.node.kind.isSymbol && spot.node.next.isSome)
  followed : stop.followed = spot.node.next.isSome

namespace Track

/-- The nodes of a level, without the wraps. -/
def pageNodes (t : Track Spot) : List Spot := t.chain.filter (·.node.kind != .wrap)

theorem pageNodes_before {item : Item Spot} {rest : Track Spot}
    (hproper : item.Proper (·.node.kind)) (hitem : item.isWrap = false) :
    (item.before rest).pageNodes = item.mark :: rest.pageNodes := by
  rw [pageNodes, chain_before, List.filter_cons, hproper.kind_mark, hitem]
  rfl

/-- Something that is no wrap is on a level, unless nothing is. -/
theorem pageNodes_isEmpty (t : Track Spot) : t.Led →
    (∀ item ∈ t.items, item.Proper (·.node.kind)) → t.pageNodes.isEmpty = t.isStop := by
  induction t using row_induction with
  | stop => exact fun _ _ => rfl
  | wrap b rest ih =>
    rintro ⟨hrest, hled⟩ hproper
    obtain ⟨hwrap, hproper⟩ := List.forall_mem_cons.mp hproper
    have hkind : b.node.kind = .wrap := hwrap
    have ih := ih hled hproper
    rw [pageNodes] at ih ⊢
    rw [chain, List.filter_cons, hkind]
    exact ih.trans hrest
  | before item rest hitem _ ih =>
    intro _ hproper
    obtain ⟨hproper, -⟩ := forall_items_before.mp hproper
    rw [pageNodes_before hproper hitem]
    cases item <;> rfl

/-- **The nodes of a level are a chain** in which all but the last are followed by another, with any
advances. -/
theorem leading_of_at {stops : List (Stop α)} (t : Track Spot) : t.Leads → t.Led →
    (∀ item ∈ t.items, item.Proper (·.node.kind)) → List.Forall₂ Stop.At stops t.pageNodes →
    Stop.Leading stops := by
  induction t using row_induction generalizing stops with
  | stop =>
    intro _ _ _ hat
    cases hat
    exact fun k stop hstop => absurd hstop (by simp)
  | wrap b rest ih =>
    rintro ⟨-, hleads⟩ ⟨-, hled⟩ hproper hat
    obtain ⟨hwrap, hproper⟩ := List.forall_mem_cons.mp hproper
    have hkind : b.node.kind = .wrap := hwrap
    rw [pageNodes, chain, List.filter_cons, hkind] at hat
    exact ih hleads hled hproper hat
  | before item rest hitem _ ih =>
    intro hleads hled hproper hat
    obtain ⟨hnext, hleads⟩ := leads_before.mp hleads
    obtain ⟨hproperItem, -, hproper⟩ := forall_items_before.mp hproper
    rw [pageNodes_before hproperItem hitem] at hat
    cases hat with
    | @cons stop _ stops _ hstop hrest =>
      have hled := (led_before hitem).mp hled
      have hempty : stops.isEmpty = rest.isStop := by
        rw [← pageNodes_isEmpty rest hled hproper, Bool.eq_iff_iff, List.isEmpty_iff_length_eq_zero,
          List.isEmpty_iff_length_eq_zero, hrest.length_eq]
      refine .cons ?_ (fun hbreakable => ?_) (ih hleads hled hproper hrest)
      · rw [hstop.followed, hnext, hempty]
      · rw [hstop.breakable, Bool.and_eq_true] at hbreakable
        rw [hstop.followed, hbreakable.2]

variable [Scalar α]

theorem plain_at {c : Cell α} {kind : NodeKind} (h : c.node.kind = kind)
    (hkind : kind.isSymbol = false) : (stops.plain c).At c.toSpot where
  id := rfl
  breakable := by
    have hnode : c.toSpot.node.kind = kind := h
    rw [hnode, hkind]
    rfl
  followed := rfl

/-- A row may have to end after a node that is no wrap. -/
theorem stops_before (gap : α) {item : Item (Cell α)} (rest : Track (Cell α))
    (hproper : item.Proper (·.node.kind)) (hitem : item.isWrap = false) :
    ∃ stop, (item.before rest).stops gap = stop :: rest.stops gap ∧
      stop.At (item.map Cell.toSpot).mark := by
  cases item with
  | symbol c =>
    refine ⟨_, rfl, rfl, ?_, rfl⟩
    have hkind : c.node.kind.isSymbol = true := hproper
    show _ = (c.node.kind.isSymbol && _)
    rw [hkind, Bool.true_and]
    rfl
  | epsilon c => exact ⟨_, rfl, plain_at hproper rfl⟩
  | wrap _ => cases hitem
  | optional c body | iteration c body | rerun c body between =>
    exact ⟨_, rfl, plain_at hproper.1 rfl⟩
  | choice branches =>
    obtain ⟨body, hlevels⟩ := levels_eq_head_cons branches
    have hmem : (branches.head, body) ∈ branches.levels := hlevels ▸ List.mem_cons_self
    rw [Item.map, Item.mark, head_mapBranches]
    exact ⟨_, rfl, plain_at (hproper _ hmem).1 rfl⟩

/-- **A row may have to end after any node of a level,** but not after a wrap. -/
theorem stops_at (gap : α) (page : Track (Cell α)) :
    (∀ item ∈ page.items, item.Proper (·.node.kind)) →
    List.Forall₂ Stop.At (page.stops gap) (page.map Cell.toSpot).pageNodes := by
  induction page using row_induction with
  | stop => exact fun _ => .nil
  | wrap c rest ih =>
    intro hproper
    obtain ⟨hwrap, hproper⟩ := List.forall_mem_cons.mp hproper
    have hkind : c.toSpot.node.kind = .wrap := hwrap
    rw [map, pageNodes, chain, List.filter_cons, hkind]
    exact ih hproper
  | before item rest hitem _ ih =>
    intro hproper
    obtain ⟨hproperItem, -, hproper⟩ := forall_items_before.mp hproper
    obtain ⟨stop, hstops, hat⟩ := stops_before gap rest hproperItem hitem
    have hwrap : (item.map Cell.toSpot).isWrap = false := by
      cases item <;> first | rfl | cases hitem
    rw [hstops, map_before, pageNodes_before ((Item.proper_map item).mpr hproperItem) hwrap]
    exact .cons hat (ih hproper)

end Track

/-! ## 5. The rows of a graph -/

namespace Wrapped

variable {g₀ g : Graph} {t₀ : Track NodeId} {w : NodeId → Option NodeId}

/-- **The top level of a graph with wraps** is a chain, without the wraps and with any advances. -/
theorem leading (hbare : g₀.Bare t₀) (h : Wrapped g₀ t₀ g w) {stops : List (Stop α)}
    (hstops : List.Forall₂ Stop.At stops g.track.pageNodes) :
    Stop.Leading stops ∧ (stops.map (·.id)).Nodup := by
  have htree := h.hasTree hbare
  have htrack := h.track_eq hbare
  have hleads : g.track.Leads := htrack ▸ htree.linked.map_leads
  have hled : g.track.Led := by
    rw [htrack, Track.led_map]
    exact h.led hbare.linked hbare.wrapFree
  refine ⟨Track.leading_of_at g.track hleads hled (h.items_proper hbare) hstops, ?_⟩
  have hids : stops.map (·.id) = g.track.pageNodes.map (·.id) :=
    List.forall₂_eq_eq_eq ▸ (List.forall₂_map_left_iff.mpr
      (List.forall₂_map_right_iff.mpr (hstops.imp fun _ _ hat => hat.id)))
  rw [hids]
  have hnodup : (g.track.chain.map (·.id)).Nodup := by
    rw [htrack, Track.chain_map, List.map_map]
    simpa [Function.comp_def] using Track.chain_nodup htree.nodup
  exact hnodup.sublist (List.filter_sublist.map _)

variable [Scalar α]

/-- The stops of the page of a graph are the nodes of its top level. -/
theorem stops_at (hbare : g₀.Bare t₀) (h : Wrapped g₀ t₀ g w) (r : Ruler α) (gap : α) :
    List.Forall₂ Stop.At ((g.track.sized r).stops gap) g.track.pageNodes := by
  have hspots := Track.spots_sized r g.track
  have hproper := h.items_proper hbare
  rw [← hspots, Track.items_map, List.forall_mem_map] at hproper
  have hat := Track.stops_at gap (g.track.sized r) fun item hitem =>
    (Item.proper_map (f := Cell.toSpot) item).mp (hproper item hitem)
  rwa [hspots] at hat

/-- A wrap that is used stands right behind the node that its row ends after. -/
theorem map_wrapBehind? (hbare : g₀.Bare t₀) (h : Wrapped g₀ t₀ g w) (r : Ruler α) :
    (g.rowBreaks r).map (g.breakRows r).1.wrapBehind? = (g.breakRows r).2.map some := by
  rw [Graph.breakRows_eq]
  obtain ⟨w', h', hused, -⟩ := h.breakAfterAll hbare _ fun id (hid : id ∈ g.rowBreaks r) =>
    h.followed_of_mem hbare hid
  rw [← hused]
  refine List.map_congr_left fun id hid => ?_
  have hmem : w' id ∈ (g.breakAfterAll (g.rowBreaks r)).2.map some :=
    hused ▸ List.mem_map_of_mem hid
  obtain ⟨v, -, hv⟩ := List.mem_map.mp hmem
  rw [← hv]
  exact h'.wrapBehind?_of_some hv.symm

end Wrapped

/-- **Rows of a graph end where the policy says.**  The nodes of its top level are cut by it with any
advances and any limit (`broken`).  A page is such a chain, with the advances that are measured
(`measured`), and its breaks are those of the chain (`page`), each with a wrap that is used right
behind it (`wraps`). -/
structure Graph.FollowsPolicy (α : Type) [Scalar α] (g : Graph) : Prop where
  broken : ∀ (limit : α) (stops : List (Stop α)), List.Forall₂ Stop.At stops g.track.pageNodes →
    Stop.Broken limit stops (Stop.breaks limit stops)
  measured : ∀ (r : Ruler α) (gap : α),
    List.Forall₂ Stop.At ((g.track.sized r).stops gap) g.track.pageNodes
  page : ∀ (r : Ruler α) (limit : α), r.settings.pageWidth = some limit →
    g.rowBreaks r = Stop.breaks limit ((g.track.sized r).stops r.settings.componentGap.width)
  wraps : ∀ r : Ruler α,
    (g.rowBreaks r).map (g.breakRows r).1.wrapBehind? = (g.breakRows r).2.map some

/-- **The rows of a page end where the policy says,** in every graph that is compiled and whatever
layouts it has been through.

The policy is stated for any numbers and any ruler, and without the loop that looks for places to
end a row, so it says what the rows are and not how they are found. -/
theorem rowBreaks_policy [Scalar α] {registry : Build.Registry} {collapsing : Bool}
    {p : Production} {g : Graph} (h : (Build.compile registry collapsing p).1 = .ok g)
    (rulers : List (Ruler α)) : (g.afterLayouts rulers).FollowsPolicy α := by
  obtain ⟨t, hbare⟩ := Build.bare_of_compile h
  obtain ⟨w, hw⟩ := (Wrapped.refl g t).afterLayouts hbare rulers
  constructor
  case broken =>
    intro limit stops hstops
    obtain ⟨hleading, hnodup⟩ := hw.leading hbare hstops
    exact Stop.broken_breaks limit hleading hnodup
  case measured => exact hw.stops_at hbare
  case page =>
    intro r limit hlimit
    rw [Graph.rowBreaks, hlimit]
  case wraps => exact hw.map_wrapBehind? hbare

/-- Two words that do not fit on a narrow page side by side: the first row ends behind the first of
them, before the layout and after it. -/
theorem rowBreaks_policy_twoWords : (Build.compile {} true twoWords).1 = .ok twoWordsGraph ∧
    twoWordsGraph.rowBreaks (twoWordsRuler (some 40.0)) = [0] ∧
    (twoWordsGraph.afterLayouts [twoWordsRuler (some 40.0)]).FollowsPolicy Float32 := by
  have hg : (Build.compile {} true twoWords).1 = .ok twoWordsGraph := by cbv
  exact ⟨hg, rowBreaks_twoWords, rowBreaks_policy hg [twoWordsRuler (some 40.0)]⟩

end Railroad
