/-
# Things on layers, sorted and gathered

What was put on layers is sorted by its layers and then gathered from the lowest layer up.  Sorting
keeps things on one layer in their order (`Layered.filter_sorted`), because they are in the order of
their layers already.  Gathering only puts brackets around what is sorted (`Layered.scatter_gather`),
and each layer comes up once.

So the groups are the layers in use with what was put on them (`Layered.mem_groups`), whatever was
added and merged before (`Layered.toSvg_after`).

The steps are those that a program can take with several collections: add to one, or merge one into
another and leave that one empty.  What a layer should hold in the end is recorded beside, layer by
layer and without any collection (`Layered.received`), so the last theorem compares what is shown
with what was asked for.
-/
import Mathlib.Data.List.Induction
import Mathlib.Data.List.Sort
import Railroad.Drawing.Svg

namespace Railroad

namespace Layer

theorem rank_inj {layer other : Layer} : layer.rank = other.rank ↔ layer = other := by
  cases layer <;> cases other <;> decide

theorem mem_all (layer : Layer) : layer ∈ all := by
  cases layer <;> decide

theorem pairwise_all : all.Pairwise fun a b => a.rank < b.rank := by decide

end Layer

namespace Layered

variable {β : Type}

/-! ## 1. Sorting -/

theorem on_eq_map_filter (l : Layered β) (layer : Layer) :
    l.on layer = (l.items.filter (·.1 = layer)).map (·.2) := by
  rw [on]
  induction l.items with
  | nil => rfl
  | cons thing things ih =>
    obtain ⟨other, item⟩ := thing
    by_cases h : other = layer <;> simp [h, ih]

theorem below_trans (a b c : Layer × β) (hab : decide (a.1.rank ≤ b.1.rank) = true)
    (hbc : decide (b.1.rank ≤ c.1.rank) = true) : decide (a.1.rank ≤ c.1.rank) = true :=
  decide_eq_true ((of_decide_eq_true hab).trans (of_decide_eq_true hbc))

theorem below_total (a b : Layer × β) :
    (decide (a.1.rank ≤ b.1.rank) || decide (b.1.rank ≤ a.1.rank)) = true := by
  simpa using Nat.le_total a.1.rank b.1.rank

theorem perm_sorted (l : Layered β) : l.sorted.Perm l.items := List.mergeSort_perm ..

theorem pairwise_sorted (l : Layered β) : l.sorted.Pairwise fun a b => a.1.rank ≤ b.1.rank := by
  have hsorted : l.sorted.Pairwise fun a b => decide (a.1.rank ≤ b.1.rank) = true :=
    List.pairwise_mergeSort below_trans below_total l.items
  exact hsorted.imp of_decide_eq_true

/-- **Sorting keeps the order on each layer.**  What is on one layer is sorted already, so it is found
in its order among everything that is sorted; and there is no more of it there. -/
theorem filter_sorted (l : Layered β) (layer : Layer) :
    l.sorted.filter (·.1 = layer) = l.items.filter (·.1 = layer) := by
  have hlayer : ∀ thing ∈ l.items.filter (·.1 = layer), thing.1 = layer := by
    intro thing hthing
    simpa using List.of_mem_filter hthing
  have hsame : (l.items.filter (·.1 = layer)).Pairwise
      fun a b => decide (a.1.rank ≤ b.1.rank) = true := by
    refine List.pairwise_of_forall_mem_list fun a ha b hb => ?_
    rw [hlayer a ha, hlayer b hb]
    exact decide_eq_true (Nat.le_refl _)
  have hsub : (l.items.filter (·.1 = layer)).Sublist l.sorted :=
    List.sublist_mergeSort below_trans below_total hsame List.filter_sublist
  have hsub' := hsub.filter (·.1 = layer)
  rw [List.filter_filter] at hsub'
  simp only [Bool.and_self] at hsub'
  exact (hsub'.eq_of_length (l.perm_sorted.filter _).length_eq.symm).symm

theorem on_sorted (l : Layered β) (layer : Layer) : (⟨l.sorted⟩ : Layered β).on layer = l.on layer := by
  rw [on_eq_map_filter, on_eq_map_filter, filter_sorted]

/-! ## 2. Gathering -/

/-- What is in some groups, thing by thing. -/
def scatter (groups : List (Layer × List β)) : List (Layer × β) :=
  groups.flatMap fun (layer, group) => group.map (layer, ·)

/-- **Groups in order:** the lower layers first, no layer twice, and something in each group.  There
is one way only to put things on layers into such groups. -/
structure Ordered (groups : List (Layer × List β)) : Prop where
  ascending : groups.Pairwise fun a b => a.1.rank < b.1.rank
  filled : ∀ group ∈ groups, group.2 ≠ []

/-- **Gathering leaves things where they are.** -/
theorem scatter_gather (layer : Layer) (group : List β) (items : List (Layer × β)) :
    scatter (gather layer group items) = group.map (layer, ·) ++ items := by
  induction items generalizing layer group with
  | nil => simp [gather, scatter]
  | cons thing items ih =>
    obtain ⟨other, item⟩ := thing
    rw [gather]
    split
    case isTrue h => simp [ih, h]
    case isFalse =>
      rw [scatter, List.flatMap_cons]
      exact congrArg (_ ++ ·) (ih other [item])

/-- No group is below the layer that gathering begins with, if nothing is. -/
theorem rank_le_of_mem_gather {layer : Layer} {group : List β} {items : List (Layer × β)}
    (h : ∀ thing ∈ items, layer.rank ≤ thing.1.rank) :
    ∀ g ∈ gather layer group items, layer.rank ≤ g.1.rank := by
  intro g hg
  have hmem : g.1 = layer ∨ g.1 ∈ items.map (·.1) := by
    clear h
    induction items generalizing layer group with
    | nil =>
      rw [gather, List.mem_singleton] at hg
      exact .inl (congrArg Prod.fst hg)
    | cons thing items ih =>
      obtain ⟨other, item⟩ := thing
      rw [List.map_cons, List.mem_cons]
      rw [gather] at hg
      split at hg
      case isTrue => exact (ih hg).imp id .inr
      case isFalse =>
        rcases List.mem_cons.mp hg with rfl | hg
        · exact .inl rfl
        · exact .inr (ih hg)
  rcases hmem with rfl | hmem
  · exact Nat.le_refl _
  · obtain ⟨thing, hthing, hlayer⟩ := List.mem_map.mp hmem
    rw [← hlayer]
    exact h thing hthing

/-- **What is sorted is gathered into groups in order.** -/
theorem ordered_gather {layer : Layer} {group : List β} {items : List (Layer × β)}
    (hgroup : group ≠ []) (hsorted : items.Pairwise fun a b => a.1.rank ≤ b.1.rank)
    (hle : ∀ thing ∈ items, layer.rank ≤ thing.1.rank) : Ordered (gather layer group items) := by
  induction items generalizing layer group with
  | nil => exact ⟨List.pairwise_singleton _ _, List.forall_mem_singleton.mpr hgroup⟩
  | cons thing items ih =>
    obtain ⟨other, item⟩ := thing
    obtain ⟨hfirst, hrest⟩ := List.pairwise_cons.mp hsorted
    rw [gather]
    split
    case isTrue =>
      exact ih (List.append_ne_nil_of_left_ne_nil hgroup _) hrest
        fun thing hthing => hle thing (List.mem_cons_of_mem _ hthing)
    case isFalse hne =>
      have hlt : layer.rank < other.rank :=
        Nat.lt_of_le_of_ne (hle _ List.mem_cons_self) fun h => hne (Layer.rank_inj.mp h).symm
      have hbehind := ih (List.cons_ne_nil item []) hrest hfirst
      refine ⟨List.pairwise_cons.mpr ⟨fun g hg => ?_, hbehind.ascending⟩,
        List.forall_mem_cons.mpr ⟨hgroup, hbehind.filled⟩⟩
      exact Nat.lt_of_lt_of_le hlt (rank_le_of_mem_gather hfirst g hg)

theorem groups_cases (l : Layered β) : (l.sorted = [] ∧ l.groups = []) ∨
    ∃ layer item rest, l.sorted = (layer, item) :: rest ∧ l.groups = gather layer [item] rest := by
  unfold groups
  cases h : l.sorted with
  | nil => exact .inl ⟨rfl, rfl⟩
  | cons first rest =>
    obtain ⟨layer, item⟩ := first
    refine .inr ⟨layer, item, rest, rfl, ?_⟩
    show gather layer [] ((layer, item) :: rest) = _
    rw [gather, if_pos rfl, List.nil_append]

theorem scatter_groups (l : Layered β) : scatter l.groups = l.sorted := by
  rcases l.groups_cases with ⟨hsorted, hgroups⟩ | ⟨layer, item, rest, hsorted, hgroups⟩
  · rw [hsorted, hgroups]
    rfl
  · rw [hsorted, hgroups, scatter_gather]
    rfl

theorem ordered_groups (l : Layered β) : Ordered l.groups := by
  rcases l.groups_cases with ⟨-, hgroups⟩ | ⟨layer, item, rest, hsorted, hgroups⟩
  · rw [hgroups]
    exact ⟨.nil, List.forall_mem_nil _⟩
  · have hpairwise := l.pairwise_sorted
    rw [hsorted, List.pairwise_cons] at hpairwise
    rw [hgroups]
    exact ordered_gather (List.cons_ne_nil item []) hpairwise.2 hpairwise.1

/-! ## 3. Groups -/

theorem on_scatter_cons (layer other : Layer) (group : List β) (groups : List (Layer × List β)) :
    (⟨scatter ((other, group) :: groups)⟩ : Layered β).on layer
      = (if other = layer then group else []) ++ (⟨scatter groups⟩ : Layered β).on layer := by
  have hgroup : ((group.map (other, ·)).filter (·.1 = layer)).map (·.2)
      = if other = layer then group else [] := by
    by_cases h : other = layer <;> simp [List.filter_map, Function.comp_def, h]
  rw [on_eq_map_filter, on_eq_map_filter, scatter, List.flatMap_cons, List.filter_append,
    List.map_append, hgroup]
  rfl

/-- **Groups in order have what is on each layer.** -/
theorem Ordered.mem_iff {groups : List (Layer × List β)} (h : Ordered groups) (layer : Layer)
    (items : List β) : (layer, items) ∈ groups ↔
      (⟨scatter groups⟩ : Layered β).on layer = items ∧ items ≠ [] := by
  obtain ⟨hascending, hfilled⟩ := h
  induction groups generalizing items with
  | nil =>
    constructor
    · exact fun h => absurd h List.not_mem_nil
    · rintro ⟨rfl, hne⟩
      exact absurd rfl hne
  | cons first groups ih =>
    obtain ⟨other, group⟩ := first
    obtain ⟨hfirst, hrest⟩ := List.pairwise_cons.mp hascending
    obtain ⟨hgroup, hgroups⟩ := List.forall_mem_cons.mp hfilled
    rw [on_scatter_cons, List.mem_cons]
    by_cases heq : other = layer
    · subst heq
      -- the groups further up are on higher layers
      have hlater : ∀ items, (other, items) ∉ groups :=
        fun items hmem => Nat.lt_irrefl _ (hfirst (other, items) hmem)
      have hnone : (⟨scatter groups⟩ : Layered β).on other = [] := by
        by_contra hne
        exact hlater _ ((ih _ hrest hgroups).mpr ⟨rfl, hne⟩)
      rw [if_pos rfl, hnone, List.append_nil]
      constructor
      · rintro (heq | hmem)
        · obtain rfl : items = group := congrArg Prod.snd heq
          exact ⟨rfl, hgroup⟩
        · exact absurd hmem (hlater items)
      · rintro ⟨rfl, -⟩
        exact .inl rfl
    · have hne : (layer, items) ≠ (other, group) := fun h => heq (congrArg Prod.fst h).symm
      rw [if_neg heq, List.nil_append, ← ih items hrest hgroups]
      exact or_iff_right hne

/-- **The groups are the layers in use,** each with what was put on it. -/
theorem mem_groups (l : Layered β) (layer : Layer) (items : List β) :
    (layer, items) ∈ l.groups ↔ l.on layer = items ∧ items ≠ [] := by
  rw [l.ordered_groups.mem_iff, scatter_groups, on_sorted]

/-- The groups, layer by layer. -/
theorem groups_eq (l : Layered β) : l.groups = Layer.all.filterMap fun layer =>
    if l.on layer = [] then none else some (layer, l.on layer) := by
  have hall : (Layer.all.filterMap fun layer =>
      if l.on layer = [] then none else some (layer, l.on layer)).Pairwise
        fun a b => a.1.rank < b.1.rank := by
    refine List.pairwise_filterMap.mpr (Layer.pairwise_all.imp fun hlt a ha b hb => ?_)
    split at ha
    · cases ha
    split at hb
    · cases hb
    obtain rfl := Option.some.inj ha
    obtain rfl := Option.some.inj hb
    exact hlt
  have : Std.Irrefl fun a b : Layer × List β => a.1.rank < b.1.rank := ⟨fun a => Nat.lt_irrefl _⟩
  have : Std.Antisymm fun a b : Layer × List β => a.1.rank < b.1.rank :=
    ⟨fun a b hab hba => absurd hab (Nat.lt_asymm hba)⟩
  refine l.ordered_groups.ascending.eq_of_mem_iff hall fun (layer, items) => ?_
  rw [mem_groups, List.mem_filterMap]
  constructor
  · rintro ⟨rfl, hne⟩
    exact ⟨layer, layer.mem_all, if_neg hne⟩
  · rintro ⟨other, -, h⟩
    split at h
    case isTrue => cases h
    case isFalse hne =>
      cases h
      exact ⟨rfl, hne⟩

/-! ## 4. Collections that are filled and merged -/

/-- **What is done with some collections,** which go by numbers. -/
inductive Step (β : Type) where
  | add (place : Nat) (layer : Layer) (item : β)
  /-- Everything of another collection goes on top, and nothing is left of that one. -/
  | merge (place other : Nat)

/-- The collections after a step. -/
def Step.run (collections : Nat → Layered β) : Step β → Nat → Layered β
  | .add place layer item =>
    Function.update collections place ((collections place).add layer item)
  | .merge place other =>
    Function.update (Function.update collections other {}) place
      ((collections place).merge (collections other))

/-- **Collections after some steps.**  They are empty at first. -/
def after (steps : List (Step β)) : Nat → Layered β := steps.foldl Step.run fun _ => {}

/-- What is on the layers of the collections after a step, each layer by itself. -/
def Step.record (received : Nat → Layer → List β) : Step β → Nat → Layer → List β
  | .add place layer item => fun p other =>
    received p other ++ if p = place ∧ other = layer then [item] else []
  | .merge place other => fun p layer =>
    if p = place then received place layer ++ received other layer
    else if p = other then []
    else received p layer

/-- **What the layers of the collections have received** in some steps.  It is computed from the
steps and never looks at a collection. -/
def received (steps : List (Step β)) : Nat → Layer → List β := steps.foldl Step.record fun _ _ => []

/-- A step does with each layer what it does with the whole. -/
theorem on_run (collections : Nat → Layered β) (step : Step β) (place : Nat) (layer : Layer) :
    (step.run collections place).on layer
      = step.record (fun p other => (collections p).on other) place layer := by
  cases step with
  | add p other item =>
    by_cases hp : place = p
    · subst hp
      simp [Step.run, Step.record, on_add, eq_comm]
    · simp [Step.run, Step.record, hp]
  | merge p other =>
    by_cases hp : place = p
    · subst hp
      simp [Step.run, Step.record, on_merge]
    · by_cases hother : place = other
      · subst hother
        have hnone : (({} : Layered β).on layer) = [] := rfl
        simp [Step.run, Step.record, hp, hnone]
      · simp [Step.run, Step.record, hp, hother]

/-- **Each layer of a collection has what it received.** -/
theorem on_after (steps : List (Step β)) (place : Nat) (layer : Layer) :
    (after steps place).on layer = received steps place layer := by
  suffices h : (fun p other => (after steps p).on other) = received steps from
    congrFun (congrFun h place) layer
  induction steps using List.reverseRecOn with
  | nil => rfl
  | append_singleton steps step ih =>
    funext p other
    rw [after, received, List.foldl_concat, List.foldl_concat, on_run]
    exact congrFun (congrFun (congrArg (fun r => step.record r) ih) p) other

/-- **What is shown of a collection,** whatever was added to it and merged into it before.  There is
one group for each layer that has received something, the lower layers first: an element that says
which layer it is, and in it, as its children, is just what the layer has received, in that order.
Nothing is lost, and nothing is shown twice.

The steps may be made in any order and may merge collections that were made by such steps
themselves. -/
theorem toSvg_after (steps : List (Step Xml)) (place : Nat) :
    ∃ groups : List (Layer × List Xml),
      (after steps place).toSvg = groups.map (fun (layer, items) =>
        .element "g" [("data-layer", layer.name)] items) ∧
      groups.Pairwise (fun a b => a.1.rank < b.1.rank) ∧
      (∀ layer items, (layer, items) ∈ groups ↔
        received steps place layer = items ∧ items ≠ []) ∧
      (scatter groups).Perm (after steps place).items ∧
      ((after steps place).toSvg = [] ↔ ∀ layer, received steps place layer = []) := by
  have hmem : ∀ layer items, (layer, items) ∈ (after steps place).groups ↔
      received steps place layer = items ∧ items ≠ [] := by
    intro layer items
    rw [mem_groups, on_after]
  refine ⟨(after steps place).groups, rfl, (ordered_groups _).ascending, hmem, ?_, ?_⟩
  · rw [scatter_groups]
    exact perm_sorted _
  · rw [toSvg, List.map_eq_nil_iff, List.eq_nil_iff_forall_not_mem]
    constructor
    · intro hnone layer
      by_contra hne
      exact hnone (layer, _) ((hmem layer _).mpr ⟨rfl, hne⟩)
    · rintro hempty ⟨layer, items⟩ hgroup
      obtain ⟨rfl, hne⟩ := (hmem layer items).mp hgroup
      exact hne (hempty layer)

/-- What is merged comes behind what is there, and before what is added later. -/
example : (after [.add 0 .text "a", .add 1 .track "b", .add 0 .track "c", .merge 0 1,
    .add 0 .text "d"] 0).groups = [(.track, ["c", "b"]), (.text, ["a", "d"])] := by cbv

end Layered

end Railroad
