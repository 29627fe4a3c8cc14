/-
# Where rows may end

A row ends after a node that something follows (`Stop.mem_breaks`, `Track.mem_stops`).  On a page
that has been set, `Track.rowEnds` are the nodes that a wrap with a height stands behind.

These are the two ends of one thing.  Before the rows are set a break is a number in a list;
afterwards it is a wrap with a height.  `Track.rowEnds` reads the breaks off a page again, and it
gives the same nodes on every page that has the same ones, whatever other wraps there are.
-/
import Railroad.Proofs.Layout.Idle
import Railroad.Proofs.Layout.Wraps

namespace Railroad

open Scalar

variable {α : Type}

/-! ## 1. The nodes that rows end after -/

namespace Stop

/-- A row may end here. -/
def Ends (stop : Stop α) : Prop := stop.breakable = true ∨ stop.followed = true

theorem breakableFrom?_ends {place k : Nat} {stops : List (Stop α)}
    (h : breakableFrom? place stops = some k) : ∃ stop, stops[k]? = some stop ∧ stop.Ends := by
  rw [breakableFrom?, Option.map_eq_some_iff] at h
  obtain ⟨i, hi, rfl⟩ := h
  obtain ⟨hlt, hbreakable, -⟩ := List.findIdx?_eq_some_iff_getElem.mp hi
  have hat := List.getElem?_eq_getElem hlt
  rw [List.getElem?_drop, Nat.add_comm] at hat
  exact ⟨_, hat, .inl hbreakable⟩

theorem breakableBefore?_ends {place k : Nat} {stops : List (Stop α)}
    (h : breakableBefore? place stops = some k) : ∃ stop, stops[k]? = some stop ∧ stop.Ends := by
  rw [breakableBefore?, Option.map_eq_some_iff] at h
  obtain ⟨i, hi, rfl⟩ := h
  obtain ⟨hlt, hbreakable, -⟩ := List.findIdx?_eq_some_iff_getElem.mp hi
  have hat := List.getElem?_eq_getElem hlt
  have hlen : i < min place stops.length := by simpa using hlt
  have hplace : min place stops.length - 1 - i < place := by omega
  rw [List.getElem?_reverse (by simpa using hlen), List.length_take,
    List.getElem?_take_of_lt hplace] at hat
  exact ⟨_, hat, .inl hbreakable⟩

theorem firstFollowed?_ends {place k : Nat} {stops : List (Stop α)}
    (h : firstFollowed? place stops = some k) : ∃ stop, stops[k]? = some stop ∧ stop.Ends := by
  obtain ⟨hlt, hfollowed, -⟩ := List.findIdx?_eq_some_iff_getElem.mp h
  refine ⟨_, ?_, .inr hfollowed⟩
  rw [List.getElem_take, List.getElem_dropLast]
  exact List.getElem?_eq_getElem _

variable [Scalar α]

theorem rowEnd?_ends {limit : α} {k : Nat} {stops : List (Stop α)}
    (h : rowEnd? limit stops = some k) : ∃ stop, stops[k]? = some stop ∧ stop.Ends := by
  rw [rowEnd?, Option.bind_eq_bind, Option.bind_eq_some_iff] at h
  obtain ⟨place, -, h⟩ := h
  simp only [Option.orElse_eq_orElse, Option.orElse_eq_or, Option.or_eq_some_iff] at h
  rcases h with h | ⟨-, h | ⟨-, h⟩⟩
  · exact breakableFrom?_ends h
  · exact breakableBefore?_ends h
  · exact firstFollowed?_ends h

/-- **A row ends after a node where it may end.** -/
theorem mem_breaks (limit : α) (stops : List (Stop α)) {id : NodeId} (h : id ∈ breaks limit stops) :
    ∃ stop ∈ stops, stop.id = id ∧ stop.Ends := by
  fun_induction breaks limit stops with
  | case1 => exact absurd h List.not_mem_nil
  | case2 stop stops hend => exact absurd h List.not_mem_nil
  | case3 stop stops place hend ih =>
    rcases List.mem_append.mp h with h | h
    · obtain ⟨last, hlast, hends⟩ := rowEnd?_ends hend
      rw [hlast] at h
      obtain rfl : id = last.id := by simpa using h
      exact ⟨last, List.mem_of_getElem? hlast, rfl, hends⟩
    · obtain ⟨last, hlast, hends⟩ := ih h
      exact ⟨last, List.mem_cons_of_mem _ (List.mem_of_mem_drop hlast), hends⟩

end Stop

namespace Track

variable [Scalar α]

theorem plain_ends {c : Cell α} (h : (stops.plain c).Ends) : c.node.next.isSome = true :=
  h.elim (fun hf => absurd hf Bool.false_ne_true) id

/-- **A place where a row may end** is a node of the level, and if a row ends there something
follows it. -/
theorem mem_stops (gap : α) : ∀ (t : Track (Cell α)) {stop : Stop α}, stop ∈ t.stops gap →
    ∃ c ∈ t.chain, c.id = stop.id ∧ (stop.Ends → c.node.next.isSome = true)
  | .stop, _, h => absurd h List.not_mem_nil
  | .wrap _ rest, _, h => by
    obtain ⟨c, hc, hfound⟩ := mem_stops gap rest h
    exact ⟨c, List.mem_cons_of_mem _ hc, hfound⟩
  | .symbol c rest, _, h => by
    rcases List.mem_cons.mp h with rfl | h
    · exact ⟨c, List.mem_cons_self, rfl, fun hends => hends.elim id id⟩
    · obtain ⟨c, hc, hfound⟩ := mem_stops gap rest h
      exact ⟨c, List.mem_cons_of_mem _ hc, hfound⟩
  | .epsilon c rest, _, h | .optional c _ rest, _, h | .iteration c _ rest, _, h
  | .rerun c _ _ rest, _, h => by
    rcases List.mem_cons.mp h with rfl | h
    · exact ⟨c, List.mem_cons_self, rfl, plain_ends⟩
    · obtain ⟨c, hc, hfound⟩ := mem_stops gap rest h
      exact ⟨c, List.mem_cons_of_mem _ hc, hfound⟩
  | .choice branches rest, _, h => by
    rcases List.mem_cons.mp h with rfl | h
    · exact ⟨branches.head, List.mem_cons_self, rfl, plain_ends⟩
    · obtain ⟨c, hc, hfound⟩ := mem_stops gap rest h
      exact ⟨c, List.mem_cons_of_mem _ hc, hfound⟩

/-! ## 2. The rows of a page that has been set -/

/-- The level begins with a wrap that breaks the row. -/
def startsWithBreak : Track (Cell α) → Bool
  | .wrap c _ => c.box.hasHeight
  | _ => false

/-- **The nodes of a page that rows end after.**  They are read off the heights of wraps, which only
those have that end a row. -/
def rowEnds : Track (Cell α) → List NodeId
  | .stop => []
  | .wrap _ rest => rest.rowEnds
  | .symbol c rest => endAt c rest ++ rest.rowEnds
  | .epsilon c rest => endAt c rest ++ rest.rowEnds
  | .optional c _ rest => endAt c rest ++ rest.rowEnds
  | .iteration c _ rest => endAt c rest ++ rest.rowEnds
  | .rerun c _ _ rest => endAt c rest ++ rest.rowEnds
  | .choice branches rest => endAt branches.head rest ++ rest.rowEnds
where
  /-- The node, if the row ends after it. -/
  endAt (c : Cell α) (rest : Track (Cell α)) : List NodeId :=
    if rest.startsWithBreak then [c.id] else []

/-- A row ends at the same place across wraps that break nothing. -/
theorem startsWithBreak_tidy {t : Track (Cell α)} (h : (t.map Cell.toSpot).Spaced) :
    t.tidy.startsWithBreak = t.startsWithBreak := by
  cases t with
  | wrap c rest =>
    obtain ⟨-, hrest, -⟩ := h
    by_cases hh : c.box.hasHeight = true
    · simp [tidy, startsWithBreak, Cell.blank, hh]
    · rw [tidy, if_neg hh]
      cases rest with
      | wrap _ _ => exact absurd hrest (by simp [map, startsWithWrap])
      | _ => simp [tidy, startsWithBreak, hh]
  | _ => rfl

theorem endAt_tidy (c : Cell α) (rest : Track (Cell α)) (h : (rest.map Cell.toSpot).Spaced) :
    rowEnds.endAt c.unlinked rest.tidy = rowEnds.endAt c rest := by
  unfold rowEnds.endAt
  rw [startsWithBreak_tidy h]
  rfl

/-- **The ends of rows are not seen better with the wraps that break nothing.** -/
theorem rowEnds_tidy : ∀ t : Track (Cell α), (t.map Cell.toSpot).Spaced → t.tidy.rowEnds = t.rowEnds
  | .stop, _ => rfl
  | .wrap c rest, ⟨_, _, hr⟩ => by
    rw [tidy, rowEnds]
    split
    · rw [rowEnds, rowEnds_tidy rest hr]
    · exact rowEnds_tidy rest hr
  | .symbol c rest, h | .epsilon c rest, h | .optional c _ rest, h | .iteration c _ rest, h
  | .rerun c _ _ rest, h => by
    rw [tidy, rowEnds, rowEnds, endAt_tidy c rest h, rowEnds_tidy rest h]
  | .choice branches rest, h => by
    rw [tidy, rowEnds, rowEnds, head_mapHead, endAt_tidy branches.head rest h, rowEnds_tidy rest h]

/-- A level without wraps does not begin with one, whatever is put behind its nodes. -/
theorem startsWithWrap_withWraps {β γ : Type} (w : β → Option β) (f : β → γ) {t : Track β}
    (h : t.WrapFree) : ((t.withWraps w).map f).startsWithWrap = false := by
  cases t with
  | wrap _ _ => exact h.elim
  | _ => rfl

theorem startsWithBreak_of_startsWithWrap {t : Track (Cell α)} (h : t.startsWithWrap = false) :
    t.startsWithBreak = false := by
  cases t with
  | wrap _ _ => exact absurd h (by simp [startsWithWrap])
  | _ => rfl

variable {w : NodeId → Option NodeId} {f : NodeId → Cell α}

/-- A row ends after a node if a wrap with a height is put behind it. -/
theorem endAt_behind (c : Cell α) (wrap : Option NodeId) {rest : Track NodeId} (h : rest.WrapFree) :
    rowEnds.endAt c ((behind wrap (rest.withWraps w)).map f)
      = if wrap.any fun v => (f v).box.hasHeight then [c.id] else [] := by
  unfold rowEnds.endAt
  cases wrap with
  | some v => rfl
  | none =>
    rw [behind, startsWithBreak_of_startsWithWrap (startsWithWrap_withWraps w f h)]
    rfl

theorem rowEnds_behind (wrap : Option NodeId) (rest : Track NodeId) :
    ((behind wrap rest).map f).rowEnds = (rest.map f).rowEnds := by
  cases wrap <;> rfl

/-- **Rows end after the nodes that a wrap with a height was put behind.** -/
theorem rowEnds_withWraps : ∀ t : Track NodeId, t.WrapFree → (∀ id ∈ t.chain, (f id).id = id) →
    ((t.withWraps w).map f).rowEnds
      = t.chain.filter fun id => (w id).any fun v => (f v).box.hasHeight
  | .stop, _, _ => rfl
  | .wrap _ _, h, _ => h.elim
  | .symbol id rest, h, hid | .epsilon id rest, h, hid => by
    have hfree : rest.WrapFree := h
    have ih := rowEnds_withWraps rest h fun x hx => hid x (List.mem_cons_of_mem _ hx)
    rw [withWraps, map, rowEnds, endAt_behind _ _ hfree, rowEnds_behind, ih, chain,
      List.filter_cons, hid id List.mem_cons_self]
    split <;> rfl
  | .optional id _ rest, ⟨_, h⟩, hid | .iteration id _ rest, ⟨_, h⟩, hid
  | .rerun id _ _ rest, ⟨_, _, h⟩, hid => by
    have ih := rowEnds_withWraps rest h fun x hx => hid x (List.mem_cons_of_mem _ hx)
    rw [withWraps, map, rowEnds, endAt_behind _ _ h, rowEnds_behind, ih, chain, List.filter_cons,
      hid id List.mem_cons_self]
    split <;> rfl
  | .choice branches rest, ⟨_, h⟩, hid => by
    have ih := rowEnds_withWraps rest h fun x hx => hid x (List.mem_cons_of_mem _ hx)
    rw [withWraps, map, rowEnds, head_mapBranches, endAt_behind _ _ h, rowEnds_behind, ih, chain,
      List.filter_cons, hid branches.head List.mem_cons_self]
    split <;> rfl

end Track

end Railroad
