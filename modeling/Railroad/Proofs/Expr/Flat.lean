/-
# Flattening

A sequence directly inside a sequence says no more than its items do there, and a sequence of one
item says no more than the item; the same holds of alternations.  `Expr.Flattens` is one step of
leaving such nesting out, `Expr.flatten` leaves out all of it at once.

Every expression comes to its flattened form step by step (`reflTransGen_flatten`), no step leads
away from it (`flat_iff_forall_not_flattens`), and two expressions come to the same one exactly if
they are the same up to such steps (`flatten_eq_iff_eqvGen`).  Sequences and alternations are
treated as one: `Expr.node` makes the one or the other.

So `flatten` gives the normal forms of these steps, and equality of normal forms can be taken for
sameness of expressions.  That is what is meant where an expression is read back up to nesting.
-/
import Mathlib.Logic.Relation
import Railroad.Proofs.Build.Faults

namespace Railroad.Expr

open Build (Construct)
open Relation (ReflTransGen EqvGen)

/-! ## 1. Sequences and alternations as one -/

/-- A sequence or an alternation. -/
def node : Construct → List Expr → Expr
  | .sequence, items => .sequence items
  | .alternation, branches => .alternation branches

/-- What an expression is made of as a sequence or as an alternation.  One that is none is its own
only part. -/
def parts : Construct → Expr → List Expr
  | .sequence, .sequence items => items
  | .alternation, .alternation branches => branches
  | _, e => [e]

/-- Some parts as one expression; a single one stands for itself. -/
def join (c : Construct) : List Expr → Expr
  | [e] => e
  | es => node c es

/-- Not a sequence, or not an alternation. -/
def Whole (c : Construct) (e : Expr) : Prop := ∀ es, e ≠ node c es

@[simp] theorem node_inj {c c' : Construct} {es es' : List Expr} :
    node c es = node c' es' ↔ c = c' ∧ es = es' := by
  cases c <;> cases c' <;> simp [node]

@[simp] theorem parts_node (c : Construct) (es : List Expr) : parts c (node c es) = es := by
  cases c <;> rfl

theorem parts_of_whole {c : Construct} {e : Expr} (h : e.Whole c) : parts c e = [e] := by
  unfold parts
  split
  · exact absurd rfl (h _)
  · exact absurd rfl (h _)
  · rfl

theorem eq_node_or_whole (c : Construct) (e : Expr) : (∃ es, e = node c es) ∨ e.Whole c := by
  by_cases h : ∃ es, e = node c es
  · exact .inl h
  · exact .inr fun es hes => h ⟨es, hes⟩

theorem whole_node {c c' : Construct} (h : c' ≠ c) (es : List Expr) : (node c' es).Whole c := by
  intro es' heq
  exact h (node_inj.mp heq).1

@[simp] theorem join_singleton (c : Construct) (e : Expr) : join c [e] = e := rfl

theorem join_of_length_ne_one {c : Construct} {es : List Expr} (h : es.length ≠ 1) :
    join c es = node c es := by
  match es with
  | [] => rfl
  | [_] => exact absurd rfl h
  | _ :: _ :: _ => rfl

/-- Parts that are whole are found again. -/
theorem parts_join {c : Construct} {es : List Expr} (h : ∀ e ∈ es, e.Whole c) :
    parts c (join c es) = es := by
  by_cases hlen : es.length = 1
  · obtain ⟨e, rfl⟩ := List.length_eq_one_iff.mp hlen
    exact parts_of_whole (h e (List.mem_singleton_self e))
  · rw [join_of_length_ne_one hlen, parts_node]

/-- **Induction on expressions,** with one case for sequences and alternations. -/
@[elab_as_elim]
theorem node_induction {motive : Expr → Prop} (literal : ∀ leaf, motive (.literal leaf))
    (identifier : ∀ leaf, motive (.identifier leaf)) (empty : motive .empty)
    (node : ∀ c es, (∀ e ∈ es, motive e) → motive (node c es))
    (optional : ∀ e, motive e → motive (.optional e))
    (repetition : ∀ e, motive e → motive (.repetition e))
    (oneOrMore : ∀ e, motive e → motive (.oneOrMore e)) (e : Expr) : motive e :=
  @Expr.rec motive (fun es => ∀ e ∈ es, motive e) literal identifier empty (node .sequence)
    (node .alternation) optional repetition oneOrMore (fun _ he => absurd he List.not_mem_nil)
    (fun _ _ hfirst hrest => List.forall_mem_cons.mpr ⟨hfirst, hrest⟩) e

/-! ## 2. Expressions inside an expression -/

theorem mem_subexprs_self (e : Expr) : e ∈ e.subexprs := by
  cases e <;> simp [subexprs]

theorem mem_subexprsAll {x : Expr} {es : List Expr} :
    x ∈ subexprsAll es ↔ ∃ e ∈ es, x ∈ e.subexprs := by
  induction es with
  | nil => simp [subexprsAll]
  | cons e es ih => simp [subexprsAll, ih]

theorem subexprs_node (c : Construct) (es : List Expr) :
    (node c es).subexprs = node c es :: subexprsAll es := by
  cases c <;> rfl

theorem subexprs_optional (e : Expr) :
    (Expr.optional e).subexprs = .optional e :: subexprsAll [e] := by
  simp [subexprs, subexprsAll]

theorem subexprs_repetition (e : Expr) :
    (Expr.repetition e).subexprs = .repetition e :: subexprsAll [e] := by
  simp [subexprs, subexprsAll]

theorem subexprs_oneOrMore (e : Expr) :
    (Expr.oneOrMore e).subexprs = .oneOrMore e :: subexprsAll [e] := by
  simp [subexprs, subexprsAll]

theorem mem_subexprs_node {c : Construct} {es : List Expr} {e x : Expr} (he : e ∈ es)
    (hx : x ∈ e.subexprs) : x ∈ (node c es).subexprs := by
  rw [subexprs_node]
  exact List.mem_cons_of_mem _ (mem_subexprsAll.mpr ⟨e, he, hx⟩)

/-! ## 3. Flattening -/

mutual

/-- **An expression without needless nesting:** the parts of a part are parts of the whole, and a
single part is the whole. -/
def flatten : Expr → Expr
  | .sequence items => join .sequence (flattenParts .sequence items)
  | .alternation branches => join .alternation (flattenParts .alternation branches)
  | .optional inner => .optional inner.flatten
  | .repetition inner => .repetition inner.flatten
  | .oneOrMore inner => .oneOrMore inner.flatten
  | .literal leaf => .literal leaf
  | .identifier leaf => .identifier leaf
  | .empty => .empty

/-- The parts that the flattened expressions have together. -/
def flattenParts (c : Construct) : List Expr → List Expr
  | [] => []
  | e :: es => parts c e.flatten ++ flattenParts c es

end

/-- **Without needless nesting,** all the way down. -/
def Flat (e : Expr) : Prop :=
  ∀ c es, node c es ∈ e.subexprs → es.length ≠ 1 ∧ ∀ x ∈ es, x.Whole c

theorem flattenParts_eq_flatMap (c : Construct) (es : List Expr) :
    flattenParts c es = es.flatMap fun e => parts c e.flatten := by
  induction es with
  | nil => rfl
  | cons e es ih => rw [flattenParts, ih, List.flatMap_cons]

theorem flatten_node (c : Construct) (es : List Expr) :
    (node c es).flatten = join c (es.flatMap fun e => parts c e.flatten) := by
  rw [← flattenParts_eq_flatMap]
  cases c <;> rfl

namespace Flat

theorem of_subset {e x : Expr} (h : e.Flat) (hx : ∀ y ∈ x.subexprs, y ∈ e.subexprs) : x.Flat :=
  fun c es hes => h c es (hx _ hes)

theorem node {c : Construct} {es : List Expr} (hlen : es.length ≠ 1)
    (h : ∀ e ∈ es, e.Flat ∧ e.Whole c) : (Expr.node c es).Flat := by
  intro c' es' hmem
  rw [subexprs_node, List.mem_cons, node_inj, mem_subexprsAll] at hmem
  rcases hmem with ⟨rfl, rfl⟩ | ⟨e, he, hmem⟩
  · exact ⟨hlen, fun e he => (h e he).2⟩
  · exact (h e he).1 c' es' hmem

theorem of_node {c : Construct} {es : List Expr} (h : (Expr.node c es).Flat) :
    es.length ≠ 1 ∧ ∀ e ∈ es, e.Flat ∧ e.Whole c := by
  obtain ⟨hlen, hwhole⟩ := h c es (mem_subexprs_self _)
  exact ⟨hlen, fun e he => ⟨h.of_subset fun y hy => mem_subexprs_node he hy, hwhole e he⟩⟩

theorem join {c : Construct} {es : List Expr} (h : ∀ e ∈ es, e.Flat ∧ e.Whole c) :
    (Expr.join c es).Flat := by
  by_cases hlen : es.length = 1
  · obtain ⟨e, rfl⟩ := List.length_eq_one_iff.mp hlen
    exact (h e (List.mem_singleton_self e)).1
  · rw [join_of_length_ne_one hlen]
    exact Flat.node hlen h

/-- The parts of a flat expression are flat and whole. -/
theorem parts {e : Expr} (h : e.Flat) (c : Construct) :
    ∀ x ∈ Expr.parts c e, x.Flat ∧ x.Whole c := by
  rcases eq_node_or_whole c e with ⟨es, rfl⟩ | hwhole
  · rw [parts_node]
    exact h.of_node.2
  · rw [parts_of_whole hwhole, List.forall_mem_singleton]
    exact ⟨h, hwhole⟩

/-- A flat expression is what its parts make. -/
theorem join_parts {e : Expr} (h : e.Flat) (c : Construct) :
    Expr.join c (Expr.parts c e) = e := by
  rcases eq_node_or_whole c e with ⟨es, rfl⟩ | hwhole
  · rw [parts_node, join_of_length_ne_one h.of_node.1]
  · rw [parts_of_whole hwhole, join_singleton]

end Flat

/-- An expression that is neither a sequence nor an alternation is as flat as what is in it. -/
theorem flat_of_whole {e : Expr} {inner : List Expr} (hwhole : ∀ c, e.Whole c)
    (h : e.subexprs = e :: subexprsAll inner) : e.Flat ↔ ∀ x ∈ inner, x.Flat := by
  constructor
  · intro he x hx
    refine he.of_subset fun y hy => ?_
    rw [h]
    exact List.mem_cons_of_mem _ (mem_subexprsAll.mpr ⟨x, hx, hy⟩)
  · intro hinner c es hmem
    rw [h, List.mem_cons, mem_subexprsAll] at hmem
    rcases hmem with hmem | ⟨x, hx, hmem⟩
    · exact absurd hmem.symm (hwhole c es)
    · exact hinner x hx c es hmem

@[simp] theorem flat_literal (leaf : Leaf) : (Expr.literal leaf).Flat :=
  (flat_of_whole (by rintro (_ | _) es <;> nofun) rfl).mpr (List.forall_mem_nil _)

@[simp] theorem flat_identifier (leaf : Leaf) : (Expr.identifier leaf).Flat :=
  (flat_of_whole (by rintro (_ | _) es <;> nofun) rfl).mpr (List.forall_mem_nil _)

@[simp] theorem flat_empty : Expr.empty.Flat :=
  (flat_of_whole (by rintro (_ | _) es <;> nofun) rfl).mpr (List.forall_mem_nil _)

@[simp] theorem flat_optional {e : Expr} : (Expr.optional e).Flat ↔ e.Flat := by
  rw [flat_of_whole (by rintro (_ | _) es <;> nofun) (subexprs_optional e),
    List.forall_mem_singleton]

@[simp] theorem flat_repetition {e : Expr} : (Expr.repetition e).Flat ↔ e.Flat := by
  rw [flat_of_whole (by rintro (_ | _) es <;> nofun) (subexprs_repetition e),
    List.forall_mem_singleton]

@[simp] theorem flat_oneOrMore {e : Expr} : (Expr.oneOrMore e).Flat ↔ e.Flat := by
  rw [flat_of_whole (by rintro (_ | _) es <;> nofun) (subexprs_oneOrMore e),
    List.forall_mem_singleton]

/-- **Nothing is left to flatten** in a flattened expression. -/
theorem flat_flatten (e : Expr) : e.flatten.Flat := by
  induction e using node_induction with
  | literal leaf => exact flat_literal leaf
  | identifier leaf => exact flat_identifier leaf
  | empty => exact flat_empty
  | node c es ih =>
    rw [flatten_node]
    refine Flat.join fun x hx => ?_
    obtain ⟨e, he, hx⟩ := List.mem_flatMap.mp hx
    exact (ih e he).parts c x hx
  | optional e ih => exact flat_optional.mpr ih
  | repetition e ih => exact flat_repetition.mpr ih
  | oneOrMore e ih => exact flat_oneOrMore.mpr ih

/-- A flat expression is flattened already. -/
theorem Flat.flatten_eq {e : Expr} (h : e.Flat) : e.flatten = e := by
  induction e using node_induction with
  | literal | identifier | empty => rfl
  | node c es ih =>
    obtain ⟨hlen, hes⟩ := h.of_node
    have hparts : ∀ x ∈ es, Expr.parts c x.flatten = [x] := by
      intro x hx
      rw [ih x hx (hes x hx).1, parts_of_whole (hes x hx).2]
    rw [flatten_node, List.flatMap_congr hparts, List.flatMap_singleton',
      join_of_length_ne_one hlen]
  | optional e ih => exact congrArg Expr.optional (ih (flat_optional.mp h))
  | repetition e ih => exact congrArg Expr.repetition (ih (flat_repetition.mp h))
  | oneOrMore e ih => exact congrArg Expr.oneOrMore (ih (flat_oneOrMore.mp h))

/-- What flattening leaves of a sequence or alternation is what its parts leave together. -/
theorem parts_flatten_node (c : Construct) (es : List Expr) :
    parts c (node c es).flatten = es.flatMap fun e => parts c e.flatten := by
  rw [flatten_node]
  refine parts_join fun x hx => ?_
  obtain ⟨e, -, hx⟩ := List.mem_flatMap.mp hx
  exact ((flat_flatten e).parts c x hx).2

theorem join_parts_flatten (c : Construct) (e : Expr) : join c (parts c e.flatten) = e.flatten :=
  (flat_flatten e).join_parts c

/-- Joined parts are flattened as the sequence or alternation of them. -/
theorem flatten_join (c : Construct) (es : List Expr) :
    (join c es).flatten = join c (es.flatMap fun e => parts c e.flatten) := by
  by_cases hlen : es.length = 1
  · obtain ⟨e, rfl⟩ := List.length_eq_one_iff.mp hlen
    rw [join_singleton, List.flatMap_singleton, join_parts_flatten]
  · rw [join_of_length_ne_one hlen, flatten_node]

/-! ## 4. Flattening step by step -/

/-- **One step of flattening,** anywhere in an expression: one of the two rules below, or a step
inside a construct. -/
inductive Flattens : Expr → Expr → Prop where
  /-- A single part stands for itself. -/
  | single (c : Construct) (e : Expr) : Flattens (node c [e]) e
  /-- The parts of a part are parts. -/
  | splice (c : Construct) (before inner after : List Expr) :
    Flattens (node c (before ++ node c inner :: after)) (node c (before ++ inner ++ after))
  | part (c : Construct) (before after : List Expr) {e e' : Expr} (h : Flattens e e') :
    Flattens (node c (before ++ e :: after)) (node c (before ++ e' :: after))
  | optional {e e' : Expr} (h : Flattens e e') : Flattens (.optional e) (.optional e')
  | repetition {e e' : Expr} (h : Flattens e e') : Flattens (.repetition e) (.repetition e')
  | oneOrMore {e e' : Expr} (h : Flattens e e') : Flattens (.oneOrMore e) (.oneOrMore e')

/-- The parts are flattened one after the other, from the left to the right. -/
theorem reflTransGen_flattenParts {c : Construct} {es : List Expr}
    (h : ∀ e ∈ es, ReflTransGen Flattens e e.flatten) (before : List Expr) :
    ReflTransGen Flattens (node c (before ++ es))
      (node c (before ++ es.flatMap fun e => parts c e.flatten)) := by
  induction es generalizing before with
  | nil => exact .refl
  | cons e es ih =>
    obtain ⟨hfirst, hrest⟩ := List.forall_mem_cons.mp h
    have hflatten : ReflTransGen Flattens (node c (before ++ e :: es))
        (node c (before ++ e.flatten :: es)) :=
      hfirst.lift (fun x => node c (before ++ x :: es)) fun _ _ hstep => .part c before es hstep
    have hsplice : ReflTransGen Flattens (node c (before ++ e.flatten :: es))
        (node c (before ++ parts c e.flatten ++ es)) := by
      rcases eq_node_or_whole c e.flatten with ⟨inner, hinner⟩ | hwhole
      · rw [hinner, parts_node]
        exact .single (.splice c before inner es)
      · rw [parts_of_whole hwhole, List.append_assoc, List.singleton_append]
    rw [List.flatMap_cons, ← List.append_assoc]
    exact (hflatten.trans hsplice).trans (ih hrest _)

/-- **Every expression is flattened step by step.** -/
theorem reflTransGen_flatten (e : Expr) : ReflTransGen Flattens e e.flatten := by
  induction e using node_induction with
  | literal | identifier | empty => exact .refl
  | node c es ih =>
    rw [flatten_node]
    refine (reflTransGen_flattenParts ih []).trans ?_
    rw [List.nil_append]
    generalize (es.flatMap fun e => parts c e.flatten) = fs
    by_cases hlen : fs.length = 1
    · obtain ⟨e, rfl⟩ := List.length_eq_one_iff.mp hlen
      exact .single (.single c e)
    · rw [join_of_length_ne_one hlen]
  | optional e ih => exact ih.lift _ fun _ _ => .optional
  | repetition e ih => exact ih.lift _ fun _ _ => .repetition
  | oneOrMore e ih => exact ih.lift _ fun _ _ => .oneOrMore

/-- A step does not change what flattening comes to. -/
theorem Flattens.flatten_eq {e e' : Expr} (h : Flattens e e') : e.flatten = e'.flatten := by
  induction h with
  | single c e => rw [flatten_node, List.flatMap_singleton, join_parts_flatten]
  | splice c before inner after =>
    rw [flatten_node, flatten_node]
    simp only [List.flatMap_append, List.flatMap_cons, parts_flatten_node, List.append_assoc]
  | part c before after _ ih =>
    rw [flatten_node, flatten_node]
    simp only [List.flatMap_append, List.flatMap_cons, ih]
  | optional _ ih => exact congrArg Expr.optional ih
  | repetition _ ih => exact congrArg Expr.repetition ih
  | oneOrMore _ ih => exact congrArg Expr.oneOrMore ih

/-- **Two expressions have the same flattened form** exactly if steps, taken forth and back, lead
from the one to the other. -/
theorem flatten_eq_iff_eqvGen {e e' : Expr} : e.flatten = e'.flatten ↔ EqvGen Flattens e e' := by
  constructor
  · intro h
    have hdown : ∀ x, EqvGen Flattens x x.flatten := fun x =>
      EqvGen.reflTransGen_le_eqvGen Flattens _ _ (reflTransGen_flatten x)
    have he : EqvGen Flattens e e'.flatten := h ▸ hdown e
    exact .trans _ _ _ he (.symm _ _ (hdown e'))
  · intro h
    induction h with
    | rel _ _ h => exact h.flatten_eq
    | refl => rfl
    | symm _ _ _ ih => exact ih.symm
    | trans _ _ _ _ _ ih ih' => exact ih.trans ih'

/-- No step leads away from a flat expression. -/
theorem Flattens.not_flat {e e' : Expr} (h : Flattens e e') : ¬ e.Flat := by
  intro hflat
  induction h with
  | single c e => exact hflat.of_node.1 rfl
  | splice c before inner after => exact (hflat.of_node.2 _ (by simp)).2 inner rfl
  | part c before after _ ih => exact ih (hflat.of_node.2 _ (by simp)).1
  | optional _ ih => exact ih (flat_optional.mp hflat)
  | repetition _ ih => exact ih (flat_repetition.mp hflat)
  | oneOrMore _ ih => exact ih (flat_oneOrMore.mp hflat)

/-- **An expression is flat exactly if no step can be taken.** -/
theorem flat_iff_forall_not_flattens {e : Expr} : e.Flat ↔ ∀ e', ¬ Flattens e e' := by
  constructor
  · intro hflat e' h
    exact h.not_flat hflat
  · intro hend
    rcases (reflTransGen_flatten e).cases_head with heq | ⟨e', h, -⟩
    · rw [heq]
      exact flat_flatten e
    · exact absurd h (hend e')

end Railroad.Expr
