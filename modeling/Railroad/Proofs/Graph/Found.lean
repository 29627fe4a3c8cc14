/-
# Levels that begin at a node

A level may be followed from any of its nodes on.  A branch below the head of an alternation is a
level of its own then, which has that branch and those below it.  `Track.Begins` says which levels
begin somewhere in a tree in this way, and `Track.find?` finds the one that begins with a node
(`Track.exists_find?`).

What holds of the nodes of a tree, each with the levels it owns, holds of those of every level that
begins in it, if it passes from an alternation to its further branches
(`Track.Begins.forall_items`).  In the tree of a graph, a level that begins with a node is the one
that is read off the graph from there (`Graph.HasTree.trackFrom_eq`).

A search for a node goes through the tree in reading order and stops at the first that has the
property.  `Found` says what such a search has come to, and its few rules (`Found.orElse`,
`Found.first`) follow the search itself; the lemma about the whole is then one case for each kind of
node.
-/
import Railroad.Proofs.Graph.Items

namespace Railroad

variable {β : Type}

/-- The branches of an alternation from each branch below the head on. -/
def Branches.further : Branches β → List (Branches β)
  | .last _ _ => []
  | .more _ _ others => others :: others.further

namespace Track

/-! ## 1. Levels in a tree -/

/-- **A level begins in a tree:** with it, behind its first node, inside that node, or with one of
the further branches if the node is an alternation.  These are the places that the search for a node
may stop at. -/
inductive Begins : Track β → Track β → Prop where
  | here (t : Track β) : Begins t t
  | behind {level rest : Track β} (item : Item β) (h : Begins level rest) :
    Begins level (item.before rest)
  | inside {level own : Track β} (item : Item β) (rest : Track β) (hown : own ∈ item.levels)
    (h : Begins level own) : Begins level (item.before rest)
  | branch {branches others : Branches β} (rest : Track β) (h : others ∈ branches.further) :
    Begins (.choice others .stop) (.choice branches rest)

/-- What holds of an alternation and inside it holds of its further branches and inside them. -/
theorem forall_items_further {p : Item β → Prop}
    (hp : ∀ b body others, p (.choice (.more b body others)) → p (.choice others)) :
    ∀ {branches : Branches β}, p (.choice branches) → (∀ x ∈ branchItems branches, p x) →
    ∀ others ∈ branches.further, p (.choice others) ∧ ∀ x ∈ branchItems others, p x
  | .last _ _, _, _ => List.forall_mem_nil _
  | .more b body others, hchoice, hinside => by
    have hothers := hp b body others hchoice
    have hbelow : ∀ x ∈ branchItems others, p x := (List.forall_mem_append.mp hinside).2
    exact List.forall_mem_cons.mpr ⟨⟨hothers, hbelow⟩, forall_items_further hp hothers hbelow⟩

/-- **What holds of all nodes of a tree holds of those of the levels that begin in it.** -/
theorem Begins.forall_items {p : Item β → Prop} {level t : Track β} (h : Begins level t)
    (hp : ∀ b body others, p (.choice (.more b body others)) → p (.choice others))
    (ht : ∀ item ∈ t.items, p item) : ∀ item ∈ level.items, p item := by
  induction h with
  | here t => exact ht
  | behind item h ih => exact ih (forall_items_before.mp ht).2.2
  | inside item rest hown h ih => exact ih ((forall_items_before.mp ht).2.1 _ hown)
  | branch rest hbelow =>
    obtain ⟨hchoice, hinside⟩ := List.forall_mem_cons.mp ht
    obtain ⟨hothers, hbranches⟩ := forall_items_further hp hchoice
      (List.forall_mem_append.mp hinside).1 _ hbelow
    refine List.forall_mem_cons.mpr ⟨hothers, List.forall_mem_append.mpr ⟨hbranches, ?_⟩⟩
    exact List.forall_mem_nil _

theorem suffix_before (item : Item β) (rest : Track β) :
    rest.toList <:+ (item.before rest).toList := by
  cases item with
  | symbol _ | epsilon _ | wrap _ => exact List.suffix_cons _ _
  | choice _ => exact List.suffix_append _ _
  | _ => exact (List.suffix_append _ _).trans (List.suffix_cons _ _)

theorem infix_before {item : Item β} {own : Track β} (h : own ∈ item.levels) (rest : Track β) :
    own.toList <:+: (item.before rest).toList := by
  cases item with
  | symbol _ | epsilon _ | wrap _ => exact absurd h List.not_mem_nil
  | optional b body | iteration b body =>
    obtain rfl := List.mem_singleton.mp h
    exact ⟨[b], rest.toList, rfl⟩
  | rerun b body between =>
    rcases List.mem_pair.mp h with rfl | rfl
    · exact ⟨[b], between.toList ++ rest.toList, by simp [Item.before, toList]⟩
    · exact ⟨b :: body.toList, rest.toList, by simp [Item.before, toList]⟩
  | choice branches =>
    obtain ⟨level, hlevel, rfl⟩ := List.mem_map.mp h
    have hbranch : level.2.toList <:+: branchList branches := by
      rw [branchList_eq]
      exact (List.suffix_cons level.1 level.2.toList).isInfix.trans
        (List.infix_of_mem_flatten (List.mem_map_of_mem hlevel))
    exact hbranch.trans (List.prefix_append _ _).isInfix

theorem suffix_further {others : Branches β} : ∀ {branches : Branches β},
    others ∈ branches.further → branchList others <:+ branchList branches
  | .last _ _, h => absurd h List.not_mem_nil
  | .more _ _ below, h => by
    have hbelow : branchList others <:+ branchList below := by
      rcases List.mem_cons.mp h with rfl | h
      · exact List.suffix_refl _
      · exact suffix_further h
    exact hbelow.trans ((List.suffix_append _ _).trans (List.suffix_cons _ _))

/-- The nodes of a level that begins in a tree are read one after the other in the tree. -/
theorem Begins.infix {level t : Track β} (h : Begins level t) : level.toList <:+: t.toList := by
  induction h with
  | here t => exact List.infix_refl _
  | behind item h ih => exact ih.trans (suffix_before item _).isInfix
  | inside item rest hown h ih => exact ih.trans (infix_before hown rest)
  | branch rest hbelow =>
    rw [toList, toList, toList, List.append_nil]
    exact (suffix_further hbelow).isInfix.trans (List.prefix_append _ _).isInfix

/-! ## 2. The search for a node -/

/-- **What a search has come to:** one of the levels `places`, whose first node has the property
`p`, or nothing, and then none of the nodes `seen` has it.  It is carried from one part of a search
to the next. -/
def Found (p : β → Bool) (places : Track β → Prop) (seen : List β) : Option (Track β) → Prop
  | some level => places level ∧ ∃ b, level.first? = some b ∧ p b = true
  | none => ∀ b ∈ seen, p b = false

namespace Found

variable {p : β → Bool} {places : Track β → Prop} {seen seen' : List β}
  {found found' : Option (Track β)}

/-- The second search is made where the first one comes to nothing. -/
theorem orElse (h : Found p places seen found) (h' : Found p places seen' found') :
    Found p places (seen ++ seen') (found <|> found') := by
  cases found with
  | some level => exact h
  | none =>
    cases found' with
    | some level => exact h'
    | none => exact List.forall_mem_append.mpr ⟨h, h'⟩

/-- A search that looks at one node first. -/
theorem first {b : β} {level : Track β} (hlevel : places level) (hfirst : level.first? = some b)
    (h : Found p places seen found) :
    Found p places (b :: seen) (if p b then some level else found) := by
  cases hb : p b with
  | true => exact ⟨hlevel, b, hfirst, hb⟩
  | false =>
    cases found with
    | some level => exact h
    | none => exact List.forall_mem_cons.mpr ⟨hb, h⟩

theorem mono {places' : Track β → Prop} (hplaces : ∀ level, places level → places' level)
    (h : Found p places seen found) : Found p places' seen found := by
  cases found with
  | some level => exact ⟨hplaces level h.1, h.2⟩
  | none => exact h

end Found

/-- The levels that begin with a branch or inside one. -/
def BeginsBranch (branches : Branches β) (level : Track β) : Prop :=
  (∃ others ∈ branches :: branches.further, level = .choice others .stop) ∨
    ∃ own ∈ branches.levels, Begins level own.2

theorem BeginsBranch.more {b : β} {body : Track β} {others : Branches β} {level : Track β}
    (h : BeginsBranch others level) : BeginsBranch (.more b body others) level := by
  rcases h with ⟨branches, hmem, rfl⟩ | ⟨own, hown, hlevel⟩
  · exact .inl ⟨branches, List.mem_cons_of_mem _ hmem, rfl⟩
  · exact .inr ⟨own, List.mem_cons_of_mem _ hown, hlevel⟩

/-- An alternation that does not begin with the node itself has it further down, or inside. -/
theorem Found.choice {p : β → Bool} {branches : Branches β} {rest : Track β} {seen : List β}
    {found : Option (Track β)} (hhead : p branches.head = false)
    (h : Found p (BeginsBranch branches) seen found) :
    Found p (Begins · (.choice branches rest)) seen found := by
  cases found with
  | none => exact h
  | some level =>
    obtain ⟨hlevel, b, hfirst, hb⟩ := h
    refine ⟨?_, b, hfirst, hb⟩
    rcases hlevel with ⟨others, hmem, rfl⟩ | ⟨own, hown, hlevel⟩
    · rcases List.mem_cons.mp hmem with rfl | hbelow
      · obtain rfl : others.head = b := Option.some.inj hfirst
        rw [hhead] at hb
        cases hb
      · exact .branch rest hbelow
    · exact .inside (.choice branches) rest (List.mem_map_of_mem hown) hlevel

mutual

/-- **The search finds a level that begins in the tree,** unless no node has the property. -/
theorem found_find? (p : β → Bool) : ∀ t : Track β, Found p (Begins · t) t.toList (t.find? p)
  | .stop => List.forall_mem_nil _
  | .symbol b rest =>
    .first (.here _) rfl ((found_find? p rest).mono fun _ => .behind (.symbol b))
  | .epsilon b rest =>
    .first (.here _) rfl ((found_find? p rest).mono fun _ => .behind (.epsilon b))
  | .wrap b rest =>
    .first (.here _) rfl ((found_find? p rest).mono fun _ => .behind (.wrap b))
  | .optional b body rest => by
    have hbody := (found_find? p body).mono fun _ =>
      Begins.inside (.optional b body) rest (List.mem_singleton_self _)
    exact .first (.here _) rfl
      (hbody.orElse ((found_find? p rest).mono fun _ => .behind (.optional b body)))
  | .iteration b body rest => by
    have hbody := (found_find? p body).mono fun _ =>
      Begins.inside (.iteration b body) rest (List.mem_singleton_self _)
    exact .first (.here _) rfl
      (hbody.orElse ((found_find? p rest).mono fun _ => .behind (.iteration b body)))
  | .rerun b body between rest => by
    have hbody := (found_find? p body).mono fun _ =>
      Begins.inside (.rerun b body between) rest List.mem_cons_self
    have hbetween := (found_find? p between).mono fun _ =>
      Begins.inside (.rerun b body between) rest
        (List.mem_cons_of_mem _ (List.mem_singleton_self _))
    have hrest := (found_find? p rest).mono fun _ => Begins.behind (.rerun b body between)
    rw [toList, List.append_assoc]
    exact .first (.here _) rfl (hbody.orElse (hbetween.orElse hrest))
  | .choice branches rest => by
    rw [find?]
    split
    case isTrue hhead => exact ⟨.here _, branches.head, rfl, hhead⟩
    case isFalse hhead =>
      have hrest := (found_find? p rest).mono fun _ => Begins.behind (.choice branches)
      exact ((found_findBranch? p branches).choice (eq_false_of_ne_true hhead)).orElse hrest

theorem found_findBranch? (p : β → Bool) : ∀ branches : Branches β,
    Found p (BeginsBranch branches) (branchList branches) (findBranch? p branches)
  | .last b body => by
    have hbody : Found p (BeginsBranch (.last b body)) body.toList (body.find? p) :=
      (found_find? p body).mono fun _ h => .inr ⟨(b, body), List.mem_singleton_self _, h⟩
    exact .first (.inl ⟨_, List.mem_cons_self, rfl⟩) rfl hbody
  | .more b body others => by
    have hbody : Found p (BeginsBranch (.more b body others)) body.toList (body.find? p) :=
      (found_find? p body).mono fun _ h => .inr ⟨(b, body), List.mem_cons_self, h⟩
    exact .first (.inl ⟨_, List.mem_cons_self, rfl⟩) rfl
      (hbody.orElse ((found_findBranch? p others).mono fun _ => .more))

end

/-- **There is a level that begins with a node of the tree,** and the search finds it. -/
theorem exists_find? {p : β → Bool} {t : Track β} {b : β} (hb : b ∈ t.toList) (hp : p b = true) :
    ∃ level first, t.find? p = some level ∧ level.Begins t ∧ level.first? = some first ∧
      p first = true := by
  have hfound := found_find? p t
  cases hfind : t.find? p with
  | none =>
    rw [hfind] at hfound
    rw [hfound b hb] at hp
    cases hp
  | some level =>
    rw [hfind] at hfound
    obtain ⟨hlevel, first, hfirst, hpfirst⟩ := hfound
    exact ⟨level, first, rfl, hlevel, hfirst, hpfirst⟩

theorem map_orElse {α γ : Type} (f : α → γ) (found other : Option α) :
    (found <|> other).map f = (found.map f <|> other.map f) := by
  cases found <;> rfl

mutual

/-- The search looks at what is attached to the nodes only. -/
theorem find?_map {γ : Type} (f : β → γ) (p : γ → Bool) : ∀ t : Track β,
    (t.map f).find? p = (t.find? fun b => p (f b)).map (map f)
  | .stop => rfl
  | .symbol b rest | .epsilon b rest | .wrap b rest => by
    rw [map, find?, find?, find?_map f p rest, apply_ite (Option.map (map f))]
    rfl
  | .optional b body rest | .iteration b body rest => by
    rw [map, find?, find?, find?_map f p body, find?_map f p rest, apply_ite (Option.map (map f)),
      map_orElse]
    rfl
  | .rerun b body between rest => by
    rw [map, find?, find?, find?_map f p body, find?_map f p between, find?_map f p rest,
      apply_ite (Option.map (map f)), map_orElse, map_orElse]
    rfl
  | .choice branches rest => by
    rw [map, find?, find?, findBranch?_map f p branches, find?_map f p rest, head_mapBranches,
      apply_ite (Option.map (map f)), map_orElse]
    rfl

theorem findBranch?_map {γ : Type} (f : β → γ) (p : γ → Bool) : ∀ branches : Branches β,
    findBranch? p (mapBranches f branches) = (findBranch? (fun b => p (f b)) branches).map (map f)
  | .last b body => by
    rw [mapBranches, findBranch?, findBranch?, find?_map f p body, apply_ite (Option.map (map f))]
    rfl
  | .more b body others => by
    rw [mapBranches, findBranch?, findBranch?, find?_map f p body, findBranch?_map f p others,
      apply_ite (Option.map (map f)), map_orElse]
    rfl

end

end Track

/-! ## 3. Levels of a graph -/

variable {arena : Arena} {ends : Exit → Exit → Prop}

/-- A walk begins with its first node. -/
theorem Traced.first?_eq {start : Option NodeId} {t : Track NodeId} (h : Traced arena start t) :
    t.first? = start := by
  cases t with
  | stop => exact h.symm
  | choice branches rest =>
    obtain ⟨_, _, hbranches, _⟩ := h
    exact hbranches.head.1.symm
  | _ => exact h.1.symm

/-- The links run along what follows a node of a level. -/
theorem Linked.of_before {leaves into : Exit} {item : Item NodeId} {rest : Track NodeId}
    (h : Linked ends arena leaves into (item.before rest)) :
    ∃ into', Linked ends arena leaves into' rest := by
  cases item with
  | symbol _ => exact ⟨_, h.2.choose_spec.2.2.2⟩
  | epsilon _ | wrap _ => exact ⟨_, h.2.choose_spec.2.2⟩
  | optional _ _ | iteration _ _ => exact ⟨_, h.2.choose_spec.2.2.2⟩
  | rerun _ _ _ => exact ⟨_, h.2.choose_spec.2.2.2.2⟩
  | choice _ => exact ⟨_, h.2.choose_spec.2.2.2⟩

/-- They run along the levels of branches, which all lead to the same place. -/
theorem LinkedBranches.of_levels {leaves : Exit} : ∀ {branches : Branches NodeId}
    {start : Option NodeId}, LinkedBranches ends arena leaves start branches →
    ∀ level ∈ branches.levels, ∃ into, Linked ends arena leaves into level.2
  | .last _ _, _, ⟨_, _, _, _, _, hbody⟩ => List.forall_mem_singleton.mpr ⟨_, hbody⟩
  | .more _ _ _, _, ⟨_, _, _, _, hbody, hothers⟩ =>
    List.forall_mem_cons.mpr ⟨⟨_, hbody⟩, hothers.of_levels⟩

/-- They run down the further branches. -/
theorem LinkedBranches.of_further {leaves : Exit} : ∀ {branches : Branches NodeId}
    {start : Option NodeId}, LinkedBranches ends arena leaves start branches →
    ∀ others ∈ branches.further, others.head ∈ branches.marks.tail ∧
      LinkedBranches ends arena leaves (some others.head) others
  | .last _ _, _, _ => List.forall_mem_nil _
  | .more _ _ others, _, ⟨_, _, _, _, _, hothers⟩ => by
    have hstart := hothers.start_eq.1
    refine List.forall_mem_cons.mpr ⟨⟨?_, hstart ▸ hothers⟩, fun below hbelow => ?_⟩
    · rw [Branches.marks, List.tail_cons, Track.marks_eq_head_cons]
      exact List.mem_cons_self
    · obtain ⟨hmem, hlinked⟩ := hothers.of_further below hbelow
      exact ⟨List.mem_of_mem_tail hmem, hlinked⟩

/-- They run along the levels inside a node, which lead out of themselves or nowhere. -/
theorem Linked.of_levels {leaves into : Exit} {item : Item NodeId} {rest : Track NodeId}
    (h : Linked ends arena leaves into (item.before rest)) :
    ∀ own ∈ item.levels, ∃ leaves' into', leaves'.onLevel = none ∧
      Linked ends arena leaves' into' own := by
  cases item with
  | symbol _ | epsilon _ | wrap _ => exact List.forall_mem_nil _
  | optional _ _ | iteration _ _ =>
    obtain ⟨_, _, _, _, hbody, _⟩ := h
    exact List.forall_mem_singleton.mpr ⟨_, _, rfl, hbody⟩
  | rerun _ _ _ =>
    obtain ⟨_, _, _, _, hbody, hbetween, _⟩ := h
    exact List.forall_mem_cons.mpr ⟨⟨_, _, rfl, hbody⟩,
      List.forall_mem_singleton.mpr ⟨_, _, Exit.onLevel_wayBack _ _, hbetween⟩⟩
  | choice branches =>
    obtain ⟨_, _, _, hbranches, _⟩ := h
    refine List.forall_mem_map.mpr fun level hlevel => ?_
    obtain ⟨into', hlinked⟩ := hbranches.of_levels level hlevel
    exact ⟨_, into', rfl, hlinked⟩

/-- **A level that begins in a tree is one that a walk comes by,** if the links run through the tree. -/
theorem Track.Begins.traced {level t : Track NodeId} (h : level.Begins t) : ∀ {leaves into : Exit},
    Linked Exit.Similar arena leaves into t → leaves.onLevel = none →
    ∃ start, Traced arena start level := by
  induction h with
  | here t => exact fun hlinked hleaves => ⟨_, hlinked.traced hleaves⟩
  | behind item h ih =>
    intro leaves into hlinked hleaves
    obtain ⟨_, hrest⟩ := hlinked.of_before
    exact ih hrest hleaves
  | inside item rest hown h ih =>
    intro leaves into hlinked _
    obtain ⟨_, _, hleaves, hlevel⟩ := hlinked.of_levels _ hown
    exact ih hlevel hleaves
  | @branch branches others rest hbelow =>
    intro leaves into hlinked _
    obtain ⟨_, _, _, hbranches, hout, _⟩ := hlinked
    obtain ⟨hmem, hothers⟩ := hbranches.of_further others hbelow
    obtain ⟨node, hn, hexit⟩ := hout _ hmem
    -- A further branch leaves the alternation, so nothing follows it on a level of its own.
    exact ⟨some others.head, node, hn, hothers.traced rfl, hexit.onLevel_eq⟩

/-- **The level that begins with a node is the one that is read from there.** -/
theorem Graph.HasTree.trackFrom_eq {g : Graph} {level t : Track NodeId} {id : NodeId}
    (h : g.HasTree Exit.Similar t) (hlevel : level.Begins t) (hfirst : level.first? = some id) :
    g.trackFrom id = level.map g.spotAt := by
  obtain ⟨start, htraced⟩ := hlevel.traced h.linked rfl
  have hstart : some id = start := hfirst.symm.trans htraced.first?_eq
  have hlength := hlevel.infix.length_le
  rw [h.length_eq] at hlength
  rw [Graph.trackFrom, hstart]
  exact htraced.readTrack_eq (by omega)

end Railroad
