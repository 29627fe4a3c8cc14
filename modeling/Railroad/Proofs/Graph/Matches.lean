/-
# Nodes that show the same

Two levels match when they have the same shape and the nodes in the same places show the same
(`Track.Matches`, with the relation between two nodes left open).  Rather than by one more
recursion over trees this is said with a third tree, of the pairs.

`Track.row` lists the nodes of a level itself, each with what it owns, and `Track.Missed` says that
a loop on the level repeats what stands right beside it.

A tree of pairs has two sides, and both are maps of it.  So facts about matching levels, such as
that they have rows of equal length with matching nodes, are facts about `Track.map`, which are
there already.
-/
import Mathlib.Data.List.Forall2
import Railroad.Proofs.Graph.Items

namespace Railroad

variable {β γ β' γ' : Type}

/-! ## 1. The nodes of one level -/

namespace Track

/-- The nodes of the level itself with their levels. -/
def row : Track β → List (Item β)
  | .stop => []
  | .symbol b rest => .symbol b :: rest.row
  | .epsilon b rest => .epsilon b :: rest.row
  | .wrap b rest => .wrap b :: rest.row
  | .optional b body rest => .optional b body :: rest.row
  | .iteration b body rest => .iteration b body :: rest.row
  | .rerun b body between rest => .rerun b body between :: rest.row
  | .choice branches rest => .choice branches :: rest.row

theorem row_before (item : Item β) (rest : Track β) : (item.before rest).row = item :: rest.row := by
  cases item <;> rfl

theorem row_append (s t : Track β) : (t.append s).row = t.row ++ s.row := by
  cases t with
  | stop => rfl
  | symbol _ rest | epsilon _ rest | wrap _ rest | optional _ _ rest | iteration _ _ rest
  | rerun _ _ _ rest | choice _ rest =>
    simp only [append, row, row_append s rest, List.cons_append]

theorem row_map (f : β → γ) (t : Track β) : (t.map f).row = t.row.map (Item.map f) := by
  cases t with
  | stop => rfl
  | symbol _ rest | epsilon _ rest | wrap _ rest | optional _ _ rest | iteration _ _ rest
  | rerun _ _ _ rest | choice _ rest =>
    simp only [map, row, row_map f rest, List.map_cons, Item.map]

theorem levels_snoc (b : β) (t : Track β) (bs : Branches β) :
    (snoc bs b t).levels = bs.levels ++ [(b, t)] := by
  cases bs with
  | last _ _ => rfl
  | more c body others => exact congrArg ((c, body) :: ·) (levels_snoc b t others)

end Track

/-- The level of a node that is alone. -/
def Item.alone (item : Item β) : Track β := item.before .stop

theorem Item.map_alone (f : β → γ) (item : Item β) : item.alone.map f = (item.map f).alone :=
  Track.map_before f item .stop

theorem Item.row_alone (item : Item β) : item.alone.row = [item] := Track.row_before item .stop

theorem Item.items_alone (item : Item β) :
    item.alone.items = item :: item.levels.flatMap Track.items := by
  rw [alone, Track.items_before, Track.items, List.append_nil]

/-- What holds of all nodes in a tree holds of all nodes in each node of its level. -/
theorem Track.items_alone_subset {item : Item β} {t : Track β} (hitem : item ∈ t.row) :
    item.alone.items ⊆ t.items := by
  induction t using item_induction with
  | stop => exact absurd hitem List.not_mem_nil
  | before first rest _ ih =>
    rw [row_before] at hitem
    rw [items_before]
    rcases List.mem_cons.mp hitem with rfl | hitem
    · rw [Item.items_alone]
      exact List.cons_subset_cons _ (List.subset_append_left _ _)
    · exact List.subset_cons_of_subset _ (List.subset_append_of_subset_right _ (ih hitem))

/-! ## 2. Levels that match -/

variable {same : β → γ → Prop}

/-- **Levels of the same shape with the same in the same places.**  What is compared of two nodes is
up to `same`. -/
def Track.Matches (same : β → γ → Prop) (t : Track β) (u : Track γ) : Prop :=
  ∃ w : Track (β × γ), w.map Prod.fst = t ∧ w.map Prod.snd = u ∧ ∀ p ∈ w.toList, same p.1 p.2

/-- **Nodes that show the same,** with all that is inside them. -/
def Item.Matches (same : β → γ → Prop) (a : Item β) (b : Item γ) : Prop :=
  Track.Matches same a.alone b.alone

/-- A relation that the changes respect. -/
theorem Track.Matches.map {same' : β' → γ' → Prop} {f : β → β'} {g : γ → γ'}
    (hfg : ∀ a b, same a b → same' (f a) (g b)) {t : Track β} {u : Track γ}
    (h : t.Matches same u) : (t.map f).Matches same' (u.map g) := by
  obtain ⟨w, rfl, rfl, hw⟩ := h
  refine ⟨w.map (Prod.map f g), ?_, ?_, ?_⟩
  · rw [Track.map_map, Track.map_map]
    rfl
  · rw [Track.map_map, Track.map_map]
    rfl
  · rw [Track.toList_map, List.forall_mem_map]
    exact fun p hp => hfg _ _ (hw p hp)

theorem Item.Matches.map {same' : β' → γ' → Prop} {f : β → β'} {g : γ → γ'}
    (hfg : ∀ a b, same a b → same' (f a) (g b)) {a : Item β} {b : Item γ}
    (h : a.Matches same b) : (a.map f).Matches same' (b.map g) := by
  have := Track.Matches.map hfg h
  rwa [Item.map_alone, Item.map_alone] at this

/-- Nodes that show the same are the two sides of a node of pairs. -/
theorem Item.Matches.exists_pair {a : Item β} {b : Item γ} (h : a.Matches same b) :
    ∃ item : Item (β × γ), item.map Prod.fst = a ∧ item.map Prod.snd = b ∧
      ∀ p ∈ item.alone.toList, same p.1 p.2 := by
  obtain ⟨w, ha, hb, hw⟩ := h
  have hrow := congrArg Track.row ha
  have hrow' := congrArg Track.row hb
  rw [Track.row_map, Item.row_alone] at hrow hrow'
  obtain ⟨item, hitem, rfl⟩ := List.map_eq_singleton_iff.mp hrow
  rw [hitem, List.map_singleton] at hrow'
  refine ⟨item, rfl, List.singleton_inj.mp hrow', fun p hp => hw p ?_⟩
  obtain ⟨x, hx, hp⟩ := Track.mem_toList_iff.mp hp
  exact Track.mem_toList_iff.mpr
    ⟨x, Track.items_alone_subset (hitem ▸ List.mem_singleton_self item) hx, hp⟩

/-- The nodes of levels that match do so one by one. -/
theorem Track.Matches.row {t : Track β} {u : Track γ} (h : t.Matches same u) :
    List.Forall₂ (Item.Matches same) t.row u.row := by
  obtain ⟨w, rfl, rfl, hw⟩ := h
  rw [Track.row_map, Track.row_map, List.forall₂_map_left_iff, List.forall₂_map_right_iff,
    List.forall₂_same]
  intro item hitem
  refine ⟨item.alone, Item.map_alone _ item, Item.map_alone _ item, fun p hp => hw p ?_⟩
  obtain ⟨x, hx, hp⟩ := Track.mem_toList_iff.mp hp
  exact Track.mem_toList_iff.mpr ⟨x, Track.items_alone_subset hitem hx, hp⟩

/-- Nodes that show the same own levels that match. -/
theorem Item.Matches.levels {a : Item β} {b : Item γ} (h : a.Matches same b) :
    List.Forall₂ (Track.Matches same) a.levels b.levels := by
  obtain ⟨item, rfl, rfl, hitem⟩ := h.exists_pair
  rw [Track.levels_map, Track.levels_map, List.forall₂_map_left_iff, List.forall₂_map_right_iff,
    List.forall₂_same]
  intro level hlevel
  refine ⟨level, rfl, rfl, fun p hp => hitem p ?_⟩
  obtain ⟨x, hx, hp⟩ := Track.mem_toList_iff.mp hp
  refine Track.mem_toList_iff.mpr ⟨x, ?_, hp⟩
  rw [Item.items_alone]
  exact List.mem_cons_of_mem _ (List.mem_flatMap.mpr ⟨level, hlevel, hx⟩)

namespace Item.Matches

variable {b : β} {y : Item γ}

theorem of_symbol (h : (Item.symbol b).Matches same y) : ∃ c, y = .symbol c ∧ same b c := by
  obtain ⟨item, hb, rfl, hitem⟩ := h.exists_pair
  cases item <;> cases hb
  exact ⟨_, rfl, hitem _ (List.mem_singleton_self _)⟩

theorem of_epsilon (h : (Item.epsilon b).Matches same y) : ∃ c, y = .epsilon c := by
  obtain ⟨item, hb, rfl, -⟩ := h.exists_pair
  cases item <;> cases hb
  exact ⟨_, rfl⟩

theorem of_optional {body : Track β} (h : (Item.optional b body).Matches same y) :
    ∃ c body', y = .optional c body' ∧ body.Matches same body' := by
  have hlevels := h.levels
  obtain ⟨item, hb, rfl, -⟩ := h.exists_pair
  cases item <;> cases hb
  exact ⟨_, _, rfl, (List.forall₂_cons.mp hlevels).1⟩

theorem of_iteration {body : Track β} (h : (Item.iteration b body).Matches same y) :
    ∃ c body', y = .iteration c body' ∧ body.Matches same body' := by
  have hlevels := h.levels
  obtain ⟨item, hb, rfl, -⟩ := h.exists_pair
  cases item <;> cases hb
  exact ⟨_, _, rfl, (List.forall₂_cons.mp hlevels).1⟩

theorem of_choice {branches : Branches β} (h : (Item.choice branches).Matches same y) :
    ∃ others, y = .choice others ∧ List.Forall₂ (Track.Matches same)
      (branches.levels.map Prod.snd) (others.levels.map Prod.snd) := by
  have hlevels := h.levels
  obtain ⟨item, hb, rfl, -⟩ := h.exists_pair
  cases item <;> cases hb
  exact ⟨_, rfl, hlevels⟩

end Item.Matches

/-! ## 3. Nodes without reruns -/

/-- It is a rerun. -/
def Item.isRerun : Item β → Bool
  | .rerun _ _ _ => true
  | _ => false

/-- No rerun is on the level or inside it. -/
def Track.RerunFree (t : Track β) : Prop := ∀ item ∈ t.items, item.isRerun = false

/-- The node is no rerun, nor is there one inside it. -/
def Item.RerunFree (item : Item β) : Prop := item.alone.RerunFree

theorem Item.isRerun_map (f : β → γ) (item : Item β) : (item.map f).isRerun = item.isRerun := by
  cases item <;> rfl

theorem Track.rerunFree_map {f : β → γ} {t : Track β} : (t.map f).RerunFree ↔ t.RerunFree := by
  rw [RerunFree, items_map, List.forall_mem_map]
  exact forall₂_congr fun item _ => by rw [Item.isRerun_map]

theorem Item.rerunFree_map {f : β → γ} {item : Item β} :
    (item.map f).RerunFree ↔ item.RerunFree := by
  rw [RerunFree, RerunFree, ← map_alone, Track.rerunFree_map]

theorem Item.RerunFree.isRerun_eq {item : Item β} (h : item.RerunFree) : item.isRerun = false := by
  refine h item ?_
  rw [items_alone]
  exact List.mem_cons_self

theorem Item.RerunFree.levels {item : Item β} (h : item.RerunFree) :
    ∀ level ∈ item.levels, level.RerunFree := by
  intro level hlevel x hx
  refine h x ?_
  rw [items_alone]
  exact List.mem_cons_of_mem _ (List.mem_flatMap.mpr ⟨level, hlevel, hx⟩)

/-- What a level matches has reruns where it has. -/
theorem Track.Matches.rerunFree_iff {t : Track β} {u : Track γ} (h : t.Matches same u) :
    t.RerunFree ↔ u.RerunFree := by
  obtain ⟨w, rfl, rfl, -⟩ := h
  rw [Track.rerunFree_map, Track.rerunFree_map]

theorem Item.rerunFree_of_matches {xs : List (Item β)} {ys : List (Item γ)}
    (h : List.Forall₂ (Item.Matches same) xs ys) (hys : ∀ y ∈ ys, y.RerunFree) :
    ∀ x ∈ xs, x.RerunFree := by
  induction h with
  | nil => exact List.forall_mem_nil _
  | cons hxy _ ih =>
    obtain ⟨hy, hys⟩ := List.forall_mem_cons.mp hys
    exact List.forall_mem_cons.mpr ⟨(Track.Matches.rerunFree_iff hxy).mpr hy, ih hys⟩

/-! ## 4. Loops beside their own body -/

/-- **A loop repeats what stands beside it:** the nodes `run` of the level, one at least, stand
right before a loop and match the last nodes of its body, or they stand right behind it and match
the first.  A loop with a body that would fit on both sides counts for both. -/
inductive Track.Missed (same : β → β → Prop) (level : Track β) (run : List (Item β)) : Prop where
  | behind {front rest start last : List (Item β)} {b : β} {body : Track β} :
    level.row = front ++ (run ++ .iteration b body :: rest) → body.row = start ++ last →
    run ≠ [] → List.Forall₂ (Item.Matches same) last run → Missed same level run
  | ahead {front rest first others : List (Item β)} {b : β} {body : Track β} :
    level.row = front ++ .iteration b body :: (run ++ rest) → body.row = first ++ others →
    run ≠ [] → List.Forall₂ (Item.Matches same) first run → Missed same level run

/-- A loop that repeats what stands beside it does so whatever is read off the nodes. -/
theorem Track.Missed.map {same : β → β → Prop} {same' : γ → γ → Prop} {f : β → γ}
    (hf : ∀ a b, same a b → same' (f a) (f b)) {level : Track β} {run : List (Item β)}
    (h : level.Missed same run) : (level.map f).Missed same' (run.map (Item.map f)) := by
  have hmatches : ∀ {as bs : List (Item β)}, List.Forall₂ (Item.Matches same) as bs →
      List.Forall₂ (Item.Matches same') (as.map (Item.map f)) (bs.map (Item.map f)) := by
    intro as bs has
    rw [List.forall₂_map_left_iff, List.forall₂_map_right_iff]
    exact has.imp fun _ _ hab => hab.map hf
  have hnonempty : run ≠ [] → run.map (Item.map f) ≠ [] := List.map_eq_nil_iff.not.mpr
  cases h with
  | behind hrow hbody hne hrun =>
    replace hrow := congrArg (List.map (Item.map f)) hrow
    replace hbody := congrArg (List.map (Item.map f)) hbody
    rw [← row_map, List.map_append, List.map_append, List.map_cons] at hrow
    rw [← row_map, List.map_append] at hbody
    exact .behind hrow hbody (hnonempty hne) (hmatches hrun)
  | ahead hrow hbody hne hrun =>
    replace hrow := congrArg (List.map (Item.map f)) hrow
    replace hbody := congrArg (List.map (Item.map f)) hbody
    rw [← row_map, List.map_append, List.map_cons, List.map_append] at hrow
    rw [← row_map, List.map_append] at hbody
    exact .ahead hrow hbody (hnonempty hne) (hmatches hrun)

end Railroad
