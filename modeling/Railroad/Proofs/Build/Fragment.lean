/-
# What a fragment is

A fragment of a graph under construction stands for a level whose continuation is not known yet.
`Built` says what that means: whatever its open ends are pointed at (`Fragment.close`), the links
of the arena then run along the level and lead there.  With it goes which places the fragment is
made of, an interval of the arena, each of them once.

There is one lemma for each way a fragment is made (`Built.symbol` .. `Built.branch`).  None of
them looks at how the parts were made: the ends of a fragment are pointed at something by the
construct around it, and what that does to the inside is what `Built` of the parts says.

A fragment is looked at before and after its ends are pointed somewhere, and the difference is a
function on arenas, `close`.  Two facts about it carry all the lemmas: it touches no place outside
of the fragment (`close_outside`), and what happens outside of the fragment does not matter to it
(`congr`).  So constructs that close one fragment and then another can be taken apart again.
-/
import Railroad.Build.Draft
import Railroad.Proofs.Graph.Linked

namespace Railroad.Build

/-! ## 1. Arenas of drafts -/

variable {arena arena' : Arena} {lo mid hi n : Nat} {t : Track NodeId}

/-- The arena with the open ends of a fragment pointed at `e`: the last node of its level leads
there, and every node further inside leaves to there. -/
def Fragment.close (f : Fragment) (e : Exit) (arena : Arena) : Arena := fun id =>
  (arena id).map fun node =>
    if id ∈ f.exits then node.link e.next true
    else if id = f.tail then node.link e.next e.escapes
    else node

theorem Fragment.close_of_not_mem {f : Fragment} {e : Exit} {id : Nat} (h : id ∉ f.openEnds) :
    f.close e arena id = arena id := by
  simp only [Fragment.openEnds, List.mem_cons, not_or] at h
  simp [Fragment.close, h.1, h.2]

/-- Pointing every open end out of the level does not tell the tail from the exits. -/
theorem Fragment.close_out {f : Fragment} {next : Option NodeId} {id : Nat} :
    f.close (.out next) arena id =
      (arena id).map fun node => if id ∈ f.openEnds then node.link next true else node := by
  unfold Fragment.close Fragment.openEnds
  congr 1
  funext node
  by_cases h1 : id ∈ f.exits <;> by_cases h2 : id = f.tail <;> simp [h1, h2, Exit.out]

theorem Fragment.close_single {e : Exit} {node : Node} (hn : arena n = some node) :
    Fragment.close ⟨n, n, []⟩ e arena n = some (node.link e.next e.escapes) := by
  simp [Fragment.close, hn]

theorem Fragment.close_single_of_ne {e : Exit} {id : Nat} (hne : id ≠ n) :
    Fragment.close ⟨n, n, []⟩ e arena id = arena id :=
  Fragment.close_of_not_mem (by simpa [Fragment.openEnds] using hne)

/-- **A fragment is a level with an open end.**  `t` is the tree of its places, which are those from
`lo` up to `hi`.  Every step of building gives such a fragment if it is given such ones (`Made`),
and a finished graph is one that was closed. -/
structure Built (arena : Arena) (lo hi : Nat) (f : Fragment) (t : Track NodeId) : Prop where
  /-- Wherever the open ends are pointed at, there the level leads. -/
  leads : ∀ e, Linked Eq (f.close e arena) e (.along (some f.entry)) t
  /-- Until then the last node of the level leads nowhere. -/
  tail_open : ∃ node, arena f.tail = some node ∧ node.exit = .along none
  ends : ∀ id ∈ f.openEnds, id ∈ t.toList
  nodup : t.toList.Nodup
  mem_iff : ∀ id : Nat, id ∈ t.toList ↔ lo ≤ id ∧ id < hi

namespace Built

variable {f first second inner : Fragment} {s : Track NodeId} {node : Node}

theorem end_lt (h : Built arena lo hi f t) {id : Nat} (hid : id ∈ f.openEnds) :
    lo ≤ id ∧ id < hi :=
  (h.mem_iff id).mp (h.ends id hid)

theorem tail_lt (h : Built arena lo hi f t) : lo ≤ f.tail ∧ f.tail < hi :=
  h.end_lt List.mem_cons_self

theorem lo_lt_hi (h : Built arena lo hi f t) : lo < hi :=
  Nat.lt_of_le_of_lt h.tail_lt.1 h.tail_lt.2

/-- Closing a fragment does not change a node outside of it. -/
theorem close_outside (h : Built arena lo hi f t) {e : Exit} {id : Nat} (hid : id < lo ∨ hi ≤ id) :
    f.close e arena' id = arena' id := by
  refine Fragment.close_of_not_mem fun hmem => ?_
  have := h.end_lt hmem
  omega

/-- **The frame of a fragment:** only the nodes at its own places matter. -/
theorem congr (h : Built arena lo hi f t)
    (ha : ∀ id : Nat, lo ≤ id → id < hi → arena' id = arena id) :
    Built arena' lo hi f t where
  leads e := by
    refine (h.leads e).congr fun id hid => ?_
    obtain ⟨h1, h2⟩ := (h.mem_iff id).mp hid
    simp only [Fragment.close, ha id h1 h2]
  tail_open := by
    rw [ha _ h.tail_lt.1 h.tail_lt.2]
    exact h.tail_open
  ends := h.ends
  nodup := h.nodup
  mem_iff := h.mem_iff

/-! ## 2. Fragments of one node -/

/-- A fragment that ends with its only node on the level. -/
theorem of_single {exits : List NodeId} (hn : arena n = some node) (ho : node.exit = .along none)
    (hl : ∀ e, Linked Eq (Fragment.close ⟨n, n, exits⟩ e arena) e (.along (some n)) t)
    (hends : ∀ id ∈ exits, id ∈ t.toList) (hnodup : t.toList.Nodup)
    (hmem : ∀ id : Nat, id ∈ t.toList ↔ lo ≤ id ∧ id < n + 1) (hlo : lo ≤ n) :
    Built arena lo (n + 1) ⟨n, n, exits⟩ t where
  leads := hl
  tail_open := ⟨node, hn, ho⟩
  ends id hid := by
    rcases List.mem_cons.mp hid with rfl | hid
    · exact (hmem _).mpr ⟨hlo, by omega⟩
    · exact hends id hid
  nodup := hnodup
  mem_iff := hmem

theorem symbol (hn : arena n = some node) (ho : node.exit = .along none)
    (hk : node.kind.isSymbol = true) (hs : node.symbol.isSome = true) :
    Built arena n (n + 1) ⟨n, n, []⟩ (.symbol n .stop) := by
  refine of_single hn ho (fun e => ?_) (by simp) (by simp [Track.toList]) ?_ (Nat.le_refl n)
  · exact ⟨rfl, _, Fragment.close_single hn, hk, hs, rfl⟩
  · intro id
    simp only [Track.toList, List.mem_singleton]
    omega

theorem epsilon (hn : arena n = some node) (ho : node.exit = .along none)
    (hk : node.kind = .epsilon) :
    Built arena n (n + 1) ⟨n, n, []⟩ (.epsilon n .stop) := by
  refine of_single hn ho (fun e => ?_) (by simp) (by simp [Track.toList]) ?_ (Nat.le_refl n)
  · exact ⟨rfl, _, Fragment.close_single hn, hk, rfl⟩
  · intro id
    simp only [Track.toList, List.mem_singleton]
    omega

/-! ## 3. One fragment behind the other -/

/-- **A sequence:** the open ends of the first fragment lead to the second. -/
theorem sequence (h₁ : Built arena lo mid first t) (h₂ : Built arena mid hi second s) :
    Built (first.close (.along (some second.entry)) arena) lo hi
      { second with entry := first.entry } (t.append s) where
  leads e := by
    have hfirst : ∀ id ∈ t.toList,
        Fragment.close { second with entry := first.entry } e
          (first.close (.along (some second.entry)) arena) id
        = first.close (.along (some second.entry)) arena id := by
      intro id hid
      have := (h₁.mem_iff id).mp hid
      exact h₂.close_outside (.inl (by omega))
    have hsecond : ∀ id ∈ s.toList,
        Fragment.close { second with entry := first.entry } e
          (first.close (.along (some second.entry)) arena) id
        = second.close e arena id := by
      intro id hid
      have := (h₂.mem_iff id).mp hid
      exact congrArg (Option.map _) (h₁.close_outside (.inr (by omega)))
    exact ((h₂.leads e).congr hsecond).append ((h₁.leads _).congr hfirst)
  tail_open := by
    obtain ⟨node, hn, ho⟩ := h₂.tail_open
    exact ⟨node, (h₁.close_outside (.inr h₂.tail_lt.1)).trans hn, ho⟩
  ends id hid := by
    rw [Track.toList_append]
    exact List.mem_append_right _ (h₂.ends id hid)
  nodup := by
    rw [Track.toList_append, List.nodup_append]
    refine ⟨h₁.nodup, h₂.nodup, ?_⟩
    rintro id h _ h' rfl
    have := (h₁.mem_iff id).mp h
    have := (h₂.mem_iff id).mp h'
    omega
  mem_iff id := by
    have := h₁.lo_lt_hi
    have := h₂.lo_lt_hi
    rw [Track.toList_append, List.mem_append, h₁.mem_iff, h₂.mem_iff]
    omega

/-! ## 4. A fragment inside a node

The node comes right behind the places of the fragment in the arena. -/

/-- Putting a node behind the places of a tree keeps them an interval. -/
theorem nodup_cons (h : Built arena lo n inner t) : (n :: t.toList).Nodup := by
  refine List.nodup_cons.mpr ⟨fun hmem => ?_, h.nodup⟩
  have := (h.mem_iff n).mp hmem
  omega

theorem mem_cons_iff (h : Built arena lo n inner t) (id : Nat) :
    id ∈ n :: t.toList ↔ lo ≤ id ∧ id < n + 1 := by
  have := h.lo_lt_hi
  rw [List.mem_cons, h.mem_iff]
  omega

/-- A new node that leads on with the open ends of a fragment inside it: seen from the inside, the
ends leave to where the node leads. -/
theorem close_around (h : Built arena lo n inner t) {e : Exit} {entry : NodeId} {id : Nat}
    (hid : id ∈ t.toList) :
    Fragment.close ⟨entry, n, inner.openEnds⟩ e arena id = inner.close (.out e.next) arena id := by
  have := (h.mem_iff id).mp hid
  have hne : id ≠ n := by omega
  rw [Fragment.close_out]
  simp [Fragment.close, hne]

/-- The new node itself leads where the fragment around it leads. -/
theorem close_node (h : Built arena lo n inner t) (hn : arena n = some node) {e : Exit}
    {entry : NodeId} :
    Fragment.close ⟨entry, n, inner.openEnds⟩ e arena n = some (node.link e.next e.escapes) := by
  have hnot : n ∉ inner.openEnds := by
    intro hmem
    have := h.end_lt hmem
    omega
  simp [Fragment.close, hn, hnot]

/-- **An option:** it can be left from its end and from every open end inside. -/
theorem optional (h : Built arena lo n inner t) (hn : arena n = some node)
    (ho : node.exit = .along none) (hk : node.kind = .optional) (hs : node.sub = some inner.entry) :
    Built arena lo (n + 1) ⟨n, n, inner.openEnds⟩ (.optional n t .stop) := by
  have hlist : (Track.optional n t .stop).toList = n :: t.toList := by simp [Track.toList]
  refine of_single hn ho (fun e => ?_) ?_ (hlist ▸ h.nodup_cons) (hlist ▸ h.mem_cons_iff)
    (Nat.le_of_lt h.lo_lt_hi)
  · refine ⟨rfl, _, h.close_node hn, hk, ?_, rfl⟩
    exact (congrArg Exit.along hs) ▸ (h.leads (.out e.next)).congr fun id hid => h.close_around hid
  · intro id hid
    rw [hlist]
    exact List.mem_cons_of_mem _ (h.ends id hid)

/-- **The first branch of an alternation.** -/
theorem firstBranch (h : Built arena lo n inner t) (hn : arena n = some node)
    (ho : node.exit = .along none) (hk : node.kind = .alternative) (hs : node.sub = some inner.entry)
    (hd : node.down = none) :
    Built arena lo (n + 1) ⟨n, n, inner.openEnds⟩ (.choice (.last n t) .stop) := by
  have hlist : (Track.choice (.last n t) .stop).toList = n :: t.toList := by
    simp [Track.toList, Track.branchList]
  refine of_single hn ho (fun e => ?_) ?_ (hlist ▸ h.nodup_cons) (hlist ▸ h.mem_cons_iff)
    (Nat.le_of_lt h.lo_lt_hi)
  · refine ⟨rfl, _, h.close_node hn, ⟨rfl, _, h.close_node hn, hk, hd, ?_⟩, by simp [Branches.marks],
      rfl⟩
    exact (congrArg Exit.along hs) ▸ (h.leads (.out e.next)).congr fun id hid => h.close_around hid
  · intro id hid
    rw [hlist]
    exact List.mem_cons_of_mem _ (h.ends id hid)

/-- **An iteration:** the open ends inside lead back to it, so that it has one way out. -/
theorem iteration (h : Built arena lo n inner t) (hn : arena n = some node)
    (ho : node.exit = .along none) (hk : node.kind = .iteration) (hs : node.sub = some inner.entry) :
    Built (inner.close (.out (some n)) arena) lo (n + 1) ⟨n, n, []⟩ (.iteration n t .stop) := by
  have hlist : (Track.iteration n t .stop).toList = n :: t.toList := by simp [Track.toList]
  have hn' : inner.close (.out (some n)) arena n = some node :=
    (h.close_outside (.inr (Nat.le_refl n))).trans hn
  refine of_single hn' ho (fun e => ?_) (by simp) (hlist ▸ h.nodup_cons) (hlist ▸ h.mem_cons_iff)
    (Nat.le_of_lt h.lo_lt_hi)
  refine ⟨rfl, _, Fragment.close_single hn', hk, ?_, rfl⟩
  refine (congrArg Exit.along hs) ▸ (h.leads (.out (some n))).congr fun id hid => ?_
  have := (h.mem_iff id).mp hid
  exact Fragment.close_single_of_ne (by omega)

/-- A node outside of a rerun's two levels, which are closed one after the other. -/
theorem close_close (h : Built arena lo mid inner t) (h₂ : Built arena mid n second s) {e : Exit}
    {id : Nat} (hid : id ∈ s.toList) :
    second.close e (inner.close e arena) id = second.close e arena id := by
  have := (h₂.mem_iff id).mp hid
  exact congrArg (Option.map _) (h.close_outside (.inr (by omega)))

/-- **A rerun with nothing on its way back.** -/
theorem rerun (h : Built arena lo n inner t) (hn : arena n = some node)
    (ho : node.exit = .along none) (hk : node.kind = .rerun) (hs : node.sub = some inner.entry)
    (hw : node.between = none) :
    Built (inner.close (.out (some n)) arena) lo (n + 1) ⟨n, n, []⟩ (.rerun n t .stop .stop) := by
  have hlist : (Track.rerun n t .stop .stop).toList = n :: t.toList := by simp [Track.toList]
  have hn' : inner.close (.out (some n)) arena n = some node :=
    (h.close_outside (.inr (Nat.le_refl n))).trans hn
  refine of_single hn' ho (fun e => ?_) (by simp) (hlist ▸ h.nodup_cons) (hlist ▸ h.mem_cons_iff)
    (Nat.le_of_lt h.lo_lt_hi)
  refine ⟨rfl, _, Fragment.close_single hn', hk, ?_, ?_, rfl⟩
  · refine (congrArg Exit.along hs) ▸ (h.leads (.out (some n))).congr fun id hid => ?_
    have := (h.mem_iff id).mp hid
    exact Fragment.close_single_of_ne (by omega)
  · show Exit.wayBack n node.between = .along node.between
    rw [hw]
    rfl

/-- **A rerun over a second level:** the open ends of both lead back to it. -/
theorem rerunOver (h : Built arena lo mid inner t) (h₂ : Built arena mid n second s)
    (hn : arena n = some node) (ho : node.exit = .along none) (hk : node.kind = .rerun)
    (hs : node.sub = some inner.entry) (hw : node.between = some second.entry) :
    Built (second.close (.out (some n)) (inner.close (.out (some n)) arena)) lo (n + 1) ⟨n, n, []⟩
      (.rerun n t s .stop) := by
  have hlist : (Track.rerun n t s .stop).toList = n :: (t.append s).toList := by
    simp [Track.toList, Track.toList_append]
  have hboth := h.sequence h₂
  have hlo := h.lo_lt_hi
  have hhi := h₂.lo_lt_hi
  have hn' : second.close (.out (some n)) (inner.close (.out (some n)) arena) n = some node :=
    (h₂.close_outside (.inr (Nat.le_refl n))).trans ((h.close_outside (.inr (by omega))).trans hn)
  refine of_single hn' ho (fun e => ?_) (by simp) (hlist ▸ hboth.nodup_cons)
    (hlist ▸ hboth.mem_cons_iff) (Nat.le_of_lt hboth.lo_lt_hi)
  refine ⟨rfl, _, Fragment.close_single hn', hk, ?_, ?_, rfl⟩
  · refine (congrArg Exit.along hs) ▸ (h.leads (.out (some n))).congr fun id hid => ?_
    have := (h.mem_iff id).mp hid
    rw [Fragment.close_single_of_ne (by omega), h₂.close_outside (.inl (by omega))]
  · show Linked Eq _ (.wayBack n node.between) (.along node.between) s
    rw [hw]
    refine (h₂.leads (.out (some n))).congr fun id hid => ?_
    have := (h₂.mem_iff id).mp hid
    rw [Fragment.close_single_of_ne (by omega), h.close_close h₂ hid]

/-! ## 5. Further branches

A new branch changes the group in two ways: the branch above is linked down to it, and its open
ends join those of the group. -/

section Branch

variable {group : Fragment} {bs : Branches NodeId} {above : Node} {e : Exit}

/-- The group with the new branch. -/
def withBranch (group : Fragment) (n : NodeId) (branch : Fragment) : Fragment :=
  { group with exits := group.exits ++ n :: branch.openEnds }

theorem close_withBranch_below (h₂ : Built arena mid n inner t) {id : Nat} (hid : id < mid) :
    (withBranch group n inner).close e arena' id = group.close e arena' id := by
  have hmem : id ∈ (withBranch group n inner).exits ↔ id ∈ group.exits := by
    have hne : id ≠ n := by
      have := h₂.lo_lt_hi
      omega
    have hnot : id ∉ inner.openEnds := fun hmem => by
      have := h₂.end_lt hmem
      omega
    simp [withBranch, hne, hnot]
  unfold Fragment.close
  simp only [hmem]
  rfl

theorem close_withBranch_node (hn : arena' n = some node) :
    (withBranch group n inner).close e arena' n = some (node.link e.next true) := by
  simp [Fragment.close, hn, withBranch]

theorem close_withBranch_inside (h : Built arena lo mid group s) (h₂ : Built arena mid n inner t)
    {id : Nat} (hid : id ∈ t.toList) (ha : arena' id = arena id) :
    (withBranch group n inner).close e arena' id = inner.close (.out e.next) arena id := by
  have hrange := (h₂.mem_iff id).mp hid
  have hexits : id ∉ group.exits := fun hmem => by
    have := h.end_lt (List.mem_cons_of_mem _ hmem)
    omega
  have htail : id ≠ group.tail := fun heq =>
    Nat.not_lt.mpr hrange.1 (heq ▸ h.tail_lt.2)
  have hne : id ≠ n := by omega
  rw [Fragment.close_out, Fragment.close, ha]
  simp [withBranch, hexits, hne, htail]

section Below

/-! The node `last` is linked down to the new branch, and no other node is changed. -/

variable {last : NodeId} {f : Fragment} (harena : ∀ id : Nat, arena' id =
  if id = last then some { above with down := some n } else arena id)
include harena

theorem close_of_ne_last {id : NodeId} (hne : id ≠ last) :
    f.close e arena' id = f.close e arena id :=
  congrArg (Option.map _) (by rw [harena, if_neg hne])

theorem close_last (ha : arena last = some above) : ∃ x, f.close e arena last = some x ∧
    f.close e arena' last = some { x with down := some n } := by
  unfold Fragment.close
  rw [harena, if_pos rfl, ha]
  refine ⟨_, rfl, ?_⟩
  simp only [Option.map_some]
  split
  · rfl
  · split <;> rfl

/-- Every node keeps its exit. -/
theorem exit_close (ha : arena last = some above) {id : NodeId} {x : Node}
    (hx : f.close e arena id = some x) : ∃ y, f.close e arena' id = some y ∧ y.exit = x.exit := by
  by_cases heq : id = last
  · obtain ⟨x', hl, hl'⟩ := close_last harena ha
    rw [heq] at hx ⊢
    obtain rfl := Option.some.inj (hl.symm.trans hx)
    exact ⟨_, hl', rfl⟩
  · exact ⟨x, (close_of_ne_last harena heq).trans hx, rfl⟩

end Below

/-- **A further branch of an alternation:** the branch above leads down to it, and it is left like
every other branch.  Closing the larger group does to the branches that were there what closing
the smaller one does. -/
theorem branch (h : Built arena lo mid group (.choice bs .stop)) (h₂ : Built arena mid n inner t)
    (hn : arena n = some node) (hk : node.kind = .alternative) (hs : node.sub = some inner.entry)
    (hd : node.down = none) (ha : arena bs.lastMark = some above)
    (harena : ∀ id : Nat, arena' id =
      if id = bs.lastMark then some { above with down := some n } else arena id) :
    Built arena' lo (n + 1) (withBranch group n inner) (.choice (Track.snoc bs n t) .stop) := by
  have hlist : (Track.choice (Track.snoc bs n t) .stop).toList
      = Track.branchList bs ++ n :: t.toList := by
    simp [Track.toList, Track.branchList_snoc]
  have hbs : (Track.choice bs .stop).toList = Track.branchList bs := by simp [Track.toList]
  have hmem : ∀ id : Nat, id ∈ Track.branchList bs ↔ lo ≤ id ∧ id < mid := hbs ▸ h.mem_iff
  have hlo := h.lo_lt_hi
  have hhi := h₂.lo_lt_hi
  have hlast := Track.mem_branchList_of_mem_marks bs (Track.lastMark_mem_marks bs)
  have hlastlt := ((hmem _).mp hlast).2
  have hhigh : ∀ id : Nat, mid ≤ id → arena' id = arena id := by
    intro id hid
    rw [harena, if_neg (by omega)]
  have hbelow : ∀ e : Exit, ∀ id ∈ Track.branchList bs,
      (withBranch group n inner).close e arena' id = group.close e arena' id :=
    fun e id hid => close_withBranch_below h₂ ((hmem id).mp hid).2
  constructor
  case leads =>
    intro e
    obtain ⟨hentry, head, hhead, hb, hm, rfl⟩ := h.leads e
    have hheadMem := Track.head_mem_branchList bs
    obtain ⟨head', hhead', he⟩ := exit_close harena ha hhead
    have hnext : head'.next = head.next := congrArg Exit.next he
    refine ⟨hentry.trans (by rw [Track.head_snoc]), head',
      by rw [Track.head_snoc]; exact (hbelow _ _ hheadMem).trans hhead', ?_, ?_, he.symm⟩
    · obtain ⟨last, hl, hl'⟩ := close_last harena ha
      have hnew : LinkedBranches Eq ((withBranch group n inner).close head.exit arena')
          (.out head.next) (some n) (.last n t) := by
        refine ⟨rfl, _, close_withBranch_node ((hhigh n (by omega)).trans hn), hk, hd, ?_⟩
        refine (congrArg Exit.along hs) ▸ (h₂.leads (.out head.next)).congr fun id hid => ?_
        exact close_withBranch_inside h h₂ hid (hhigh id ((h₂.mem_iff id).mp hid).1)
      have hsame : ∀ id ∈ Track.branchList bs, id ≠ bs.lastMark →
          (withBranch group n inner).close head.exit arena' id = group.close head.exit arena id :=
        fun id hid hne => (hbelow _ id hid).trans (close_of_ne_last harena hne)
      rw [hnext, Track.head_snoc]
      exact hnew.snoc hb (hbs ▸ h.nodup) hsame hl ((hbelow _ _ hlast).trans hl')
    · rw [Track.marks_snoc, Track.marks_eq_head_cons, List.cons_append, List.tail_cons, hnext]
      intro id hid
      rcases List.mem_append.mp hid with hid | hid
      · obtain ⟨below, hbelowAt, hout⟩ := hm id hid
        have hidMem := Track.mem_branchList_of_mem_marks bs (List.mem_of_mem_tail hid)
        obtain ⟨y, hy, hye⟩ := exit_close harena ha hbelowAt
        exact ⟨y, (hbelow _ id hidMem).trans hy, hout.trans hye.symm⟩
      · rw [List.mem_singleton.mp hid]
        exact ⟨_, close_withBranch_node ((hhigh n (by omega)).trans hn), rfl⟩
  case tail_open =>
    obtain ⟨tail, htail, hopen⟩ := h.tail_open
    show ∃ node, arena' group.tail = some node ∧ node.exit = .along none
    rw [harena]
    split
    · rename_i heq
      rw [heq] at htail
      obtain rfl := Option.some.inj (ha.symm.trans htail)
      exact ⟨_, rfl, hopen⟩
    · exact ⟨tail, htail, hopen⟩
  case ends =>
    intro id hid
    have hold : ∀ x ∈ group.openEnds, x ∈ Track.branchList bs := fun x hx => hbs ▸ h.ends x hx
    rw [hlist]
    simp only [withBranch, Fragment.openEnds, List.mem_cons, List.mem_append] at hid ⊢
    rcases hid with rfl | hid | rfl | hid
    · exact .inl (hold _ List.mem_cons_self)
    · exact .inl (hold _ (List.mem_cons_of_mem _ hid))
    · exact .inr (.inl rfl)
    · exact .inr (.inr (h₂.ends id (List.mem_cons.mpr hid)))
  case nodup =>
    rw [hlist, List.nodup_append]
    refine ⟨hbs ▸ h.nodup, h₂.nodup_cons, ?_⟩
    rintro x hx _ hy rfl
    have := (hmem x).mp hx
    have := (h₂.mem_cons_iff x).mp hy
    omega
  case mem_iff =>
    intro id
    rw [hlist, List.mem_append, h₂.mem_cons_iff, hmem]
    omega

end Branch

end Built
end Railroad.Build
