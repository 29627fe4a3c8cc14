/-
# Trees of a walk, changed and joined

What is attached to the nodes of a `Track` can be changed (`map`), one level can be put behind
another (`append`), and a branch can be put below the last one (`snoc`).  The lists that are read
off a tree follow each of these: the marks of all nodes (`toList`), those of one level (`chain`)
and those of the branches (`marks`).

The inner levels of a tree are listed by `inner`: what the options, the loops and the branches in
it own, at any depth.

These are the lemmas that the recursion on constructors costs once.  Those about `map` say that a
pass which only looks at marks can be moved past a change of marks; those about `append` and `snoc`
are what building needs, where levels are put behind each other and branches below each other.
-/
import Railroad.Graph.Track

namespace Railroad

variable {β γ : Type}

namespace Track

/-! ## 1. Definitions -/

mutual

/-- Changes what is attached to the nodes. -/
def map (f : β → γ) : Track β → Track γ
  | .stop => .stop
  | .symbol b rest => .symbol (f b) (rest.map f)
  | .epsilon b rest => .epsilon (f b) (rest.map f)
  | .wrap b rest => .wrap (f b) (rest.map f)
  | .optional b body rest => .optional (f b) (body.map f) (rest.map f)
  | .iteration b body rest => .iteration (f b) (body.map f) (rest.map f)
  | .rerun b body between rest => .rerun (f b) (body.map f) (between.map f) (rest.map f)
  | .choice branches rest => .choice (mapBranches f branches) (rest.map f)

/-- Changes what is attached to the branches and to the nodes inside them. -/
def mapBranches (f : β → γ) : Branches β → Branches γ
  | .last b body => .last (f b) (body.map f)
  | .more b body others => .more (f b) (body.map f) (mapBranches f others)

end

/-- One level behind the other. -/
def append : Track β → Track β → Track β
  | .stop, t => t
  | .symbol b rest, t => .symbol b (rest.append t)
  | .epsilon b rest, t => .epsilon b (rest.append t)
  | .wrap b rest, t => .wrap b (rest.append t)
  | .optional b body rest, t => .optional b body (rest.append t)
  | .iteration b body rest, t => .iteration b body (rest.append t)
  | .rerun b body between rest, t => .rerun b body between (rest.append t)
  | .choice branches rest, t => .choice branches (rest.append t)

/-- The branches with one more below the last. -/
def snoc : Branches β → β → Track β → Branches β
  | .last b body, c, below => .more b body (.last c below)
  | .more b body others, c, below => .more b body (snoc others c below)

/-- The level itself, unless nothing is on it. -/
def present (t : Track β) : List (Track β) := if t.isStop then [] else [t]

mutual

/-- The levels inside a level, at any depth.  Where nothing lies between two runs of a rerun there
is no level. -/
def inner : Track β → List (Track β)
  | .stop => []
  | .symbol _ rest => rest.inner
  | .epsilon _ rest => rest.inner
  | .wrap _ rest => rest.inner
  | .optional _ body rest => body :: (body.inner ++ rest.inner)
  | .iteration _ body rest => body :: (body.inner ++ rest.inner)
  | .rerun _ body between rest =>
    body :: (body.inner ++ (between.present ++ (between.inner ++ rest.inner)))
  | .choice branches rest => innerBranches branches ++ rest.inner

/-- The levels of the branches and those inside them. -/
def innerBranches : Branches β → List (Track β)
  | .last _ body => body :: body.inner
  | .more _ body others => body :: (body.inner ++ innerBranches others)

end

mutual

/-- No wrap is on the level or inside it. -/
def WrapFree : Track β → Prop
  | .stop => True
  | .symbol _ rest => rest.WrapFree
  | .epsilon _ rest => rest.WrapFree
  | .wrap _ _ => False
  | .optional _ body rest => body.WrapFree ∧ rest.WrapFree
  | .iteration _ body rest => body.WrapFree ∧ rest.WrapFree
  | .rerun _ body between rest => body.WrapFree ∧ between.WrapFree ∧ rest.WrapFree
  | .choice branches rest => BranchesWrapFree branches ∧ rest.WrapFree

/-- No wrap is inside the branches. -/
def BranchesWrapFree : Branches β → Prop
  | .last _ body => body.WrapFree
  | .more _ body others => body.WrapFree ∧ BranchesWrapFree others

end

/-- What is attached to the branches below the head and to the nodes inside all branches. -/
def nestedBranches : Branches β → List β
  | .last _ body => body.toList
  | .more _ body others => body.toList ++ branchList others

/-- What is attached to the nodes that are not on the level but inside it. -/
def nested : Track β → List β
  | .stop => []
  | .symbol _ rest => rest.nested
  | .epsilon _ rest => rest.nested
  | .wrap _ rest => rest.nested
  | .optional _ body rest => body.toList ++ rest.nested
  | .iteration _ body rest => body.toList ++ rest.nested
  | .rerun _ body between rest => body.toList ++ between.toList ++ rest.nested
  | .choice branches rest => nestedBranches branches ++ rest.nested

/-! ## 2. Marks under a change -/

mutual

theorem toList_map (f : β → γ) : ∀ t : Track β, (t.map f).toList = t.toList.map f
  | .stop => rfl
  | .symbol b rest => by simp [map, toList, toList_map f rest]
  | .epsilon b rest => by simp [map, toList, toList_map f rest]
  | .wrap b rest => by simp [map, toList, toList_map f rest]
  | .optional b body rest => by simp [map, toList, toList_map f body, toList_map f rest]
  | .iteration b body rest => by simp [map, toList, toList_map f body, toList_map f rest]
  | .rerun b body between rest => by
    simp [map, toList, toList_map f body, toList_map f between, toList_map f rest]
  | .choice branches rest => by
    simp [map, toList, branchList_map f branches, toList_map f rest]

theorem branchList_map (f : β → γ) : ∀ bs : Branches β,
    branchList (mapBranches f bs) = (branchList bs).map f
  | .last b body => by simp [mapBranches, branchList, toList_map f body]
  | .more b body others => by
    simp [mapBranches, branchList, toList_map f body, branchList_map f others]

end

mutual

/-- Changes that agree on the marks of a tree change it in the same way. -/
theorem map_congr {f g : β → γ} : ∀ t : Track β, (∀ b ∈ t.toList, f b = g b) → t.map f = t.map g
  | .stop, _ => rfl
  | .symbol b rest, h => by
    rw [map, map, h b (by simp [toList]), map_congr rest fun x hx => h x (by simp [toList, hx])]
  | .epsilon b rest, h => by
    rw [map, map, h b (by simp [toList]), map_congr rest fun x hx => h x (by simp [toList, hx])]
  | .wrap b rest, h => by
    rw [map, map, h b (by simp [toList]), map_congr rest fun x hx => h x (by simp [toList, hx])]
  | .optional b body rest, h => by
    rw [map, map, h b (by simp [toList]), map_congr body fun x hx => h x (by simp [toList, hx]),
      map_congr rest fun x hx => h x (by simp [toList, hx])]
  | .iteration b body rest, h => by
    rw [map, map, h b (by simp [toList]), map_congr body fun x hx => h x (by simp [toList, hx]),
      map_congr rest fun x hx => h x (by simp [toList, hx])]
  | .rerun b body between rest, h => by
    rw [map, map, h b (by simp [toList]), map_congr body fun x hx => h x (by simp [toList, hx]),
      map_congr between fun x hx => h x (by simp [toList, hx]),
      map_congr rest fun x hx => h x (by simp [toList, hx])]
  | .choice branches rest, h => by
    rw [map, map, mapBranches_congr branches fun x hx => h x (by simp [toList, hx]),
      map_congr rest fun x hx => h x (by simp [toList, hx])]

theorem mapBranches_congr {f g : β → γ} : ∀ bs : Branches β, (∀ b ∈ branchList bs, f b = g b) →
    mapBranches f bs = mapBranches g bs
  | .last b body, h => by
    rw [mapBranches, mapBranches, h b (by simp [branchList]),
      map_congr body fun x hx => h x (by simp [branchList, hx])]
  | .more b body others, h => by
    rw [mapBranches, mapBranches, h b (by simp [branchList]),
      map_congr body fun x hx => h x (by simp [branchList, hx]),
      mapBranches_congr others fun x hx => h x (by simp [branchList, hx])]

end

mutual

theorem map_map {δ : Type} (f : β → γ) (g : γ → δ) : ∀ t : Track β,
    (t.map f).map g = t.map fun b => g (f b)
  | .stop => rfl
  | .symbol b rest => by simp [map, map_map f g rest]
  | .epsilon b rest => by simp [map, map_map f g rest]
  | .wrap b rest => by simp [map, map_map f g rest]
  | .optional b body rest => by simp [map, map_map f g body, map_map f g rest]
  | .iteration b body rest => by simp [map, map_map f g body, map_map f g rest]
  | .rerun b body between rest => by
    simp [map, map_map f g body, map_map f g between, map_map f g rest]
  | .choice branches rest => by simp [map, mapBranches_mapBranches f g branches, map_map f g rest]

theorem mapBranches_mapBranches {δ : Type} (f : β → γ) (g : γ → δ) : ∀ bs : Branches β,
    mapBranches g (mapBranches f bs) = mapBranches (fun b => g (f b)) bs
  | .last b body => by simp [mapBranches, map_map f g body]
  | .more b body others => by
    simp [mapBranches, map_map f g body, mapBranches_mapBranches f g others]

end

mutual

/-- A change that changes no mark changes nothing. -/
theorem map_eq_self {f : β → β} : ∀ t : Track β, (∀ b ∈ t.toList, f b = b) → t.map f = t
  | .stop, _ => rfl
  | .symbol b rest, h | .epsilon b rest, h | .wrap b rest, h => by
    rw [map, h b (by simp [toList]), map_eq_self rest fun x hx => h x (by simp [toList, hx])]
  | .optional b body rest, h | .iteration b body rest, h => by
    rw [map, h b (by simp [toList]), map_eq_self body fun x hx => h x (by simp [toList, hx]),
      map_eq_self rest fun x hx => h x (by simp [toList, hx])]
  | .rerun b body between rest, h => by
    rw [map, h b (by simp [toList]), map_eq_self body fun x hx => h x (by simp [toList, hx]),
      map_eq_self between fun x hx => h x (by simp [toList, hx]),
      map_eq_self rest fun x hx => h x (by simp [toList, hx])]
  | .choice branches rest, h => by
    rw [map, mapBranches_eq_self branches fun x hx => h x (by simp [toList, hx]),
      map_eq_self rest fun x hx => h x (by simp [toList, hx])]

theorem mapBranches_eq_self {f : β → β} : ∀ bs : Branches β, (∀ b ∈ branchList bs, f b = b) →
    mapBranches f bs = bs
  | .last b body, h => by
    rw [mapBranches, h b (by simp [branchList]),
      map_eq_self body fun x hx => h x (by simp [branchList, hx])]
  | .more b body others, h => by
    rw [mapBranches, h b (by simp [branchList]),
      map_eq_self body fun x hx => h x (by simp [branchList, hx]),
      mapBranches_eq_self others fun x hx => h x (by simp [branchList, hx])]

end

@[simp] theorem head_mapBranches (f : β → γ) (bs : Branches β) :
    (mapBranches f bs).head = f bs.head := by
  cases bs <;> rfl

@[simp] theorem lastMark_mapBranches (f : β → γ) : ∀ bs : Branches β,
    (mapBranches f bs).lastMark = f bs.lastMark
  | .last _ _ => rfl
  | .more _ _ others => lastMark_mapBranches f others

theorem chain_map (f : β → γ) : ∀ t : Track β, (t.map f).chain = t.chain.map f
  | .stop => rfl
  | .symbol b rest => by simp [map, chain, chain_map f rest]
  | .epsilon b rest => by simp [map, chain, chain_map f rest]
  | .wrap b rest => by simp [map, chain, chain_map f rest]
  | .optional b body rest => by simp [map, chain, chain_map f rest]
  | .iteration b body rest => by simp [map, chain, chain_map f rest]
  | .rerun b body between rest => by simp [map, chain, chain_map f rest]
  | .choice branches rest => by simp [map, chain, chain_map f rest]

theorem isStop_map (f : β → γ) (t : Track β) : (t.map f).isStop = t.isStop := by
  cases t <;> rfl

theorem present_map (f : β → γ) (t : Track β) : (t.map f).present = t.present.map (map f) := by
  cases t <;> rfl

theorem mem_present {level t : Track β} : level ∈ t.present ↔ level = t ∧ t.isStop = false := by
  unfold present
  split
  case isTrue h => simp [h]
  case isFalse h => simpa using fun _ => h

theorem eq_of_mem_present {level t : Track β} (h : level ∈ t.present) : level = t :=
  (mem_present.mp h).1

mutual

theorem inner_map (f : β → γ) : ∀ t : Track β, (t.map f).inner = t.inner.map (map f)
  | .stop => rfl
  | .symbol _ rest => by simp [map, inner, inner_map f rest]
  | .epsilon _ rest => by simp [map, inner, inner_map f rest]
  | .wrap _ rest => by simp [map, inner, inner_map f rest]
  | .optional _ body rest => by simp [map, inner, inner_map f body, inner_map f rest]
  | .iteration _ body rest => by simp [map, inner, inner_map f body, inner_map f rest]
  | .rerun _ body between rest => by
    simp [map, inner, inner_map f body, inner_map f between, inner_map f rest, present_map]
  | .choice branches rest => by simp [map, inner, innerBranches_map f branches, inner_map f rest]

theorem innerBranches_map (f : β → γ) : ∀ bs : Branches β,
    innerBranches (mapBranches f bs) = (innerBranches bs).map (map f)
  | .last _ body => by simp [mapBranches, innerBranches, inner_map f body]
  | .more _ body others => by
    simp [mapBranches, innerBranches, inner_map f body, innerBranches_map f others]

end

/-! ## 3. Levels joined, branches added -/

theorem toList_append (s : Track β) : ∀ t : Track β, (t.append s).toList = t.toList ++ s.toList
  | .stop => rfl
  | .symbol b rest => by simp [append, toList, toList_append s rest]
  | .epsilon b rest => by simp [append, toList, toList_append s rest]
  | .wrap b rest => by simp [append, toList, toList_append s rest]
  | .optional b body rest => by simp [append, toList, toList_append s rest]
  | .iteration b body rest => by simp [append, toList, toList_append s rest]
  | .rerun b body between rest => by simp [append, toList, toList_append s rest]
  | .choice branches rest => by simp [append, toList, toList_append s rest]

theorem map_append (f : β → γ) (s : Track β) : ∀ t : Track β,
    (t.append s).map f = (t.map f).append (s.map f)
  | .stop => rfl
  | .symbol b rest => by simp [append, map, map_append f s rest]
  | .epsilon b rest => by simp [append, map, map_append f s rest]
  | .wrap b rest => by simp [append, map, map_append f s rest]
  | .optional b body rest => by simp [append, map, map_append f s rest]
  | .iteration b body rest => by simp [append, map, map_append f s rest]
  | .rerun b body between rest => by simp [append, map, map_append f s rest]
  | .choice branches rest => by simp [append, map, map_append f s rest]

theorem append_assoc (s u : Track β) : ∀ t : Track β,
    (t.append s).append u = t.append (s.append u)
  | .stop => rfl
  | .symbol b rest => by simp [append, append_assoc s u rest]
  | .epsilon b rest => by simp [append, append_assoc s u rest]
  | .wrap b rest => by simp [append, append_assoc s u rest]
  | .optional b body rest => by simp [append, append_assoc s u rest]
  | .iteration b body rest => by simp [append, append_assoc s u rest]
  | .rerun b body between rest => by simp [append, append_assoc s u rest]
  | .choice branches rest => by simp [append, append_assoc s u rest]

theorem append_stop : ∀ t : Track β, t.append .stop = t
  | .stop => rfl
  | .symbol b rest => by simp [append, append_stop rest]
  | .epsilon b rest => by simp [append, append_stop rest]
  | .wrap b rest => by simp [append, append_stop rest]
  | .optional b body rest => by simp [append, append_stop rest]
  | .iteration b body rest => by simp [append, append_stop rest]
  | .rerun b body between rest => by simp [append, append_stop rest]
  | .choice branches rest => by simp [append, append_stop rest]

@[simp] theorem head_snoc (bs : Branches β) (c : β) (t : Track β) :
    (snoc bs c t).head = bs.head := by
  cases bs <;> rfl

@[simp] theorem lastMark_snoc (c : β) (t : Track β) : ∀ bs : Branches β, (snoc bs c t).lastMark = c
  | .last _ _ => rfl
  | .more _ _ others => lastMark_snoc c t others

theorem marks_snoc (c : β) (t : Track β) : ∀ bs : Branches β, (snoc bs c t).marks = bs.marks ++ [c]
  | .last _ _ => rfl
  | .more b body others => by simp [snoc, Branches.marks, marks_snoc c t others]

theorem branchList_snoc (c : β) (t : Track β) : ∀ bs : Branches β,
    branchList (snoc bs c t) = branchList bs ++ c :: t.toList
  | .last _ _ => rfl
  | .more b body others => by simp [snoc, branchList, branchList_snoc c t others]

theorem mapBranches_snoc (f : β → γ) (c : β) (t : Track β) : ∀ bs : Branches β,
    mapBranches f (snoc bs c t) = snoc (mapBranches f bs) (f c) (t.map f)
  | .last _ _ => rfl
  | .more b body others => by simp [snoc, mapBranches, mapBranches_snoc f c t others]

/-! ## 4. Marks of a level and of branches are marks of the tree -/

theorem head_mem_branchList : ∀ bs : Branches β, bs.head ∈ branchList bs
  | .last _ _ => List.mem_cons_self
  | .more _ _ _ => List.mem_cons_self

theorem mem_branchList_of_mem_marks {b : β} : ∀ bs : Branches β, b ∈ bs.marks → b ∈ branchList bs
  | .last _ _, h => by
    rw [List.mem_singleton.mp h]
    exact List.mem_cons_self
  | .more _ body others, h => by
    rcases List.mem_cons.mp h with rfl | h
    · exact List.mem_cons_self
    · exact List.mem_cons_of_mem _
        (List.mem_append_right _ (mem_branchList_of_mem_marks others h))

theorem lastMark_mem_marks : ∀ bs : Branches β, bs.lastMark ∈ bs.marks
  | .last _ _ => List.mem_singleton_self _
  | .more _ _ others => List.mem_cons_of_mem _ (lastMark_mem_marks others)

theorem marks_eq_head_cons (bs : Branches β) : bs.marks = bs.head :: bs.marks.tail := by
  cases bs <;> rfl

theorem mem_toList_of_mem_chain {b : β} : ∀ t : Track β, b ∈ t.chain → b ∈ t.toList
  | .symbol _ rest, h | .epsilon _ rest, h | .wrap _ rest, h | .optional _ _ rest, h
  | .iteration _ _ rest, h | .rerun _ _ _ rest, h => by
    rcases List.mem_cons.mp h with rfl | h
    · simp [toList]
    · simp [toList, mem_toList_of_mem_chain rest h]
  | .choice branches rest, h => by
    rcases List.mem_cons.mp h with rfl | h
    · simp [toList, head_mem_branchList]
    · simp [toList, mem_toList_of_mem_chain rest h]

theorem branchList_eq_head_cons (bs : Branches β) :
    branchList bs = bs.head :: nestedBranches bs := by
  cases bs <;> rfl

theorem mem_nestedBranches_of_mem_tail {b : β} (bs : Branches β) (h : b ∈ bs.marks.tail) :
    b ∈ nestedBranches bs := by
  cases bs with
  | last _ _ => exact absurd h List.not_mem_nil
  | more _ body others => exact List.mem_append_right _ (mem_branchList_of_mem_marks others h)

/-- A tree has the nodes of its level and those inside. -/
theorem toList_perm : ∀ t : Track β, t.toList.Perm (t.chain ++ t.nested)
  | .stop => .nil
  | .symbol b rest | .epsilon b rest | .wrap b rest => (toList_perm rest).cons b
  | .optional b body rest | .iteration b body rest => by
    refine List.Perm.cons b (((toList_perm rest).append_left body.toList).trans ?_)
    exact List.perm_append_comm_assoc body.toList rest.chain rest.nested
  | .rerun b body between rest => by
    refine List.Perm.cons b
      (((toList_perm rest).append_left (body.toList ++ between.toList)).trans ?_)
    exact List.perm_append_comm_assoc (body.toList ++ between.toList) rest.chain rest.nested
  | .choice branches rest => by
    rw [toList, branchList_eq_head_cons]
    refine List.Perm.cons branches.head
      (((toList_perm rest).append_left (nestedBranches branches)).trans ?_)
    exact List.perm_append_comm_assoc (nestedBranches branches) rest.chain rest.nested

theorem chain_nodup {t : Track β} (h : t.toList.Nodup) : t.chain.Nodup :=
  (List.nodup_append.mp ((toList_perm t).nodup_iff.mp h)).1

/-! ## 5. Trees without wraps -/

mutual

theorem wrapFree_of_map {f : β → γ} : ∀ t : Track β, (t.map f).WrapFree → t.WrapFree
  | .stop, h => h
  | .symbol _ rest, h => wrapFree_of_map rest h
  | .epsilon _ rest, h => wrapFree_of_map rest h
  | .wrap _ _, h => h
  | .optional _ body rest, ⟨hb, hr⟩ => ⟨wrapFree_of_map body hb, wrapFree_of_map rest hr⟩
  | .iteration _ body rest, ⟨hb, hr⟩ => ⟨wrapFree_of_map body hb, wrapFree_of_map rest hr⟩
  | .rerun _ body between rest, ⟨hb, hw, hr⟩ =>
    ⟨wrapFree_of_map body hb, wrapFree_of_map between hw, wrapFree_of_map rest hr⟩
  | .choice branches rest, ⟨hb, hr⟩ => ⟨branchesWrapFree_of_map branches hb, wrapFree_of_map rest hr⟩

theorem branchesWrapFree_of_map {f : β → γ} : ∀ bs : Branches β,
    BranchesWrapFree (mapBranches f bs) → BranchesWrapFree bs
  | .last _ body, h => wrapFree_of_map body h
  | .more _ body others, ⟨hb, ho⟩ => ⟨wrapFree_of_map body hb, branchesWrapFree_of_map others ho⟩

end

mutual

theorem wrapFree_map (f : β → γ) : ∀ t : Track β, t.WrapFree → (t.map f).WrapFree
  | .stop, h => h
  | .symbol _ rest, h | .epsilon _ rest, h => wrapFree_map f rest h
  | .wrap _ _, h => h
  | .optional _ body rest, ⟨hb, hr⟩ | .iteration _ body rest, ⟨hb, hr⟩ =>
    ⟨wrapFree_map f body hb, wrapFree_map f rest hr⟩
  | .rerun _ body between rest, ⟨hb, hw, hr⟩ =>
    ⟨wrapFree_map f body hb, wrapFree_map f between hw, wrapFree_map f rest hr⟩
  | .choice branches rest, ⟨hb, hr⟩ => ⟨branchesWrapFree_map f branches hb, wrapFree_map f rest hr⟩

theorem branchesWrapFree_map (f : β → γ) : ∀ bs : Branches β,
    BranchesWrapFree bs → BranchesWrapFree (mapBranches f bs)
  | .last _ body, h => wrapFree_map f body h
  | .more _ body others, ⟨hb, ho⟩ => ⟨wrapFree_map f body hb, branchesWrapFree_map f others ho⟩

end

mutual

/-- No wrap is on the levels inside either. -/
theorem wrapFree_of_mem_inner {level : Track β} : ∀ t : Track β, t.WrapFree → level ∈ t.inner →
    level.WrapFree
  | .stop, _, h => absurd h List.not_mem_nil
  | .symbol _ rest, hfree, h | .epsilon _ rest, hfree, h => wrapFree_of_mem_inner rest hfree h
  | .optional _ body rest, ⟨hb, hr⟩, h | .iteration _ body rest, ⟨hb, hr⟩, h => by
    simp only [inner, List.mem_cons, List.mem_append] at h
    rcases h with rfl | h | h
    · exact hb
    · exact wrapFree_of_mem_inner body hb h
    · exact wrapFree_of_mem_inner rest hr h
  | .rerun _ body between rest, ⟨hb, hw, hr⟩, h => by
    simp only [inner, List.mem_cons, List.mem_append] at h
    rcases h with rfl | h | h | h | h
    · exact hb
    · exact wrapFree_of_mem_inner body hb h
    · exact eq_of_mem_present h ▸ hw
    · exact wrapFree_of_mem_inner between hw h
    · exact wrapFree_of_mem_inner rest hr h
  | .choice branches rest, ⟨hb, hr⟩, h => by
    rcases List.mem_append.mp h with h | h
    · exact wrapFree_of_mem_innerBranches branches hb h
    · exact wrapFree_of_mem_inner rest hr h

theorem wrapFree_of_mem_innerBranches {level : Track β} : ∀ bs : Branches β, BranchesWrapFree bs →
    level ∈ innerBranches bs → level.WrapFree
  | .last _ body, hb, h => by
    rcases List.mem_cons.mp h with rfl | h
    · exact hb
    · exact wrapFree_of_mem_inner body hb h
  | .more _ body others, ⟨hb, ho⟩, h => by
    simp only [innerBranches, List.mem_cons, List.mem_append] at h
    rcases h with rfl | h | h
    · exact hb
    · exact wrapFree_of_mem_inner body hb h
    · exact wrapFree_of_mem_innerBranches others ho h

end

theorem wrapFree_append {s : Track β} (hs : s.WrapFree) : ∀ t : Track β, t.WrapFree →
    (t.append s).WrapFree
  | .stop, _ => hs
  | .symbol _ rest, h | .epsilon _ rest, h => wrapFree_append hs rest h
  | .optional _ _ rest, ⟨hb, hr⟩ | .iteration _ _ rest, ⟨hb, hr⟩ | .choice _ rest, ⟨hb, hr⟩ =>
    ⟨hb, wrapFree_append hs rest hr⟩
  | .rerun _ _ _ rest, ⟨hb, hw, hr⟩ => ⟨hb, hw, wrapFree_append hs rest hr⟩

theorem branchesWrapFree_snoc {c : β} {t : Track β} (ht : t.WrapFree) : ∀ bs : Branches β,
    BranchesWrapFree bs → BranchesWrapFree (snoc bs c t)
  | .last _ _, h => ⟨h, ht⟩
  | .more _ _ others, ⟨hb, ho⟩ => ⟨hb, branchesWrapFree_snoc ht others ho⟩

end Track
end Railroad
