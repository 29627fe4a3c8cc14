/-
# When a production has no graph

Building stops at the first empty construct it meets.  `Expr.firstEmpty?` is the first one in
reading order, and `Plan.fault?` the one that building a plan stops at (`failure_build`).  The two
are the same (`fault?_ofExpr`), also when reruns are looked for: the items that go into a rerun are
met in another order or not at all, but what was left out has been met in the body already.

Nothing else goes wrong: a graph that has been built is closed (`Graph.HasTree.checkClosed_eq`).

The argument has three parts.  Building is a computation with a state, and where it fails does not
depend on the state; so a failure is found by going through the plan alone (`failure_build`, from
one lemma for each way to put steps together).  What a plan fails at is what its expression does, by
induction on the size of the expression.  And the one place where the two are in different orders is
a rerun: there the part of the repetition that was left out is the same as items of the sequence, so
it is empty where they are (`Cuts.firstEmptyOf?_eq`).
-/
import Railroad.Proofs.Build.Cuts
import Railroad.Proofs.Build.Shape

namespace Railroad

open Build (Construct)

/-! ## 1. Empty constructs of an expression -/

namespace Expr

mutual

/-- The expression and all the expressions inside it, in reading order. -/
def subexprs : Expr → List Expr
  | .literal leaf => [.literal leaf]
  | .identifier leaf => [.identifier leaf]
  | .empty => [.empty]
  | .sequence items => .sequence items :: subexprsAll items
  | .alternation branches => .alternation branches :: subexprsAll branches
  | .optional inner => .optional inner :: inner.subexprs
  | .repetition inner => .repetition inner :: inner.subexprs
  | .oneOrMore inner => .oneOrMore inner :: inner.subexprs

/-- The same for some expressions, one after the other. -/
def subexprsAll : List Expr → List Expr
  | [] => []
  | e :: es => e.subexprs ++ subexprsAll es

end

/-- The construct of an expression that has no items although it needs some. -/
def emptyConstruct? : Expr → Option Construct
  | .sequence [] => some .sequence
  | .alternation [] => some .alternation
  | _ => none

/-- **The first empty construct** of an expression, in reading order.  It is found in the list of
all that is inside the expression, and not by a recursion of its own. -/
def firstEmpty? (e : Expr) : Option Construct := e.subexprs.findSome? emptyConstruct?

/-- The first empty construct in some expressions. -/
def firstEmptyOf? (es : List Expr) : Option Construct := (subexprsAll es).findSome? emptyConstruct?

@[simp] theorem firstEmptyOf?_nil : firstEmptyOf? [] = none := rfl

@[simp] theorem firstEmptyOf?_cons (e : Expr) (es : List Expr) :
    firstEmptyOf? (e :: es) = e.firstEmpty?.or (firstEmptyOf? es) := by
  rw [firstEmptyOf?, subexprsAll, List.findSome?_append]
  rfl

theorem firstEmptyOf?_append (es es' : List Expr) :
    firstEmptyOf? (es ++ es') = (firstEmptyOf? es).or (firstEmptyOf? es') := by
  induction es with
  | nil => rfl
  | cons e es ih =>
    rw [List.cons_append, firstEmptyOf?_cons, firstEmptyOf?_cons, ih, Option.or_assoc]

theorem firstEmptyOf?_eq_none_iff {es : List Expr} :
    firstEmptyOf? es = none ↔ ∀ e ∈ es, e.firstEmpty? = none := by
  induction es with
  | nil => simp
  | cons e es ih => rw [firstEmptyOf?_cons, Option.or_eq_none_iff, ih, List.forall_mem_cons]

/-- A sequence with items is as empty as the first of them that is empty. -/
theorem firstEmpty?_sequence {items : List Expr} (h : items ≠ []) :
    (Expr.sequence items).firstEmpty? = firstEmptyOf? items := by
  cases items with
  | nil => exact absurd rfl h
  | cons item rest => rfl

theorem firstEmpty?_alternation {branches : List Expr} (h : branches ≠ []) :
    (Expr.alternation branches).firstEmpty? = firstEmptyOf? branches := by
  cases branches with
  | nil => exact absurd rfl h
  | cons branch rest => rfl

theorem firstEmpty?_optional (inner : Expr) :
    (Expr.optional inner).firstEmpty? = inner.firstEmpty? := rfl

theorem firstEmpty?_repetition (inner : Expr) :
    (Expr.repetition inner).firstEmpty? = inner.firstEmpty? := rfl

theorem firstEmpty?_oneOrMore (inner : Expr) :
    (Expr.oneOrMore inner).firstEmpty? = inner.firstEmpty? := rfl

/-- The items of an expression, if there are any, are empty where it is. -/
theorem firstEmptyOf?_items {e : Expr} (h : e.items ≠ []) :
    firstEmptyOf? e.items = e.firstEmpty? := by
  unfold items at h ⊢
  split
  · exact (firstEmpty?_sequence h).symm
  · rw [firstEmptyOf?_cons, firstEmptyOf?_nil, Option.or_none]

/-- Nothing is empty in an expression in which no sequence and no alternation is. -/
theorem firstEmpty?_eq_none_iff (e : Expr) :
    e.firstEmpty? = none ↔ ∀ x ∈ e.subexprs, x ≠ .sequence [] ∧ x ≠ .alternation [] := by
  rw [firstEmpty?, List.findSome?_eq_none_iff]
  refine forall₂_congr fun x _ => ?_
  unfold emptyConstruct?
  constructor
  · intro h
    constructor
    · rintro rfl
      exact absurd h (by simp)
    · rintro rfl
      exact absurd h (by simp)
  · rintro ⟨hs, ha⟩
    split
    · exact absurd rfl hs
    · exact absurd rfl ha
    · rfl

/-! ## 2. Expressions that are the same but for their styles -/

mutual

theorem firstEmpty?_of_beq : ∀ {a b : Expr}, Expr.beq a b = true → a.firstEmpty? = b.firstEmpty?
  | .literal _, b, h => by
    cases b <;> simp [Expr.beq] at h
    rfl
  | .identifier _, b, h => by
    cases b <;> simp [Expr.beq] at h
    rfl
  | .empty, b, h => by
    cases b <;> simp [Expr.beq] at h
    rfl
  | .sequence [], b, h => by
    cases b <;> simp [Expr.beq] at h
    rename_i bs
    cases bs <;> simp [Expr.beqList] at h
    rfl
  | .sequence (a :: as), b, h => by
    cases b <;> simp only [Expr.beq, Bool.false_eq_true] at h
    rename_i bs
    have hitems := firstEmptyOf?_of_beqList h
    cases bs with
    | nil => simp [Expr.beqList] at h
    | cons b bs => exact hitems
  | .alternation [], b, h => by
    cases b <;> simp [Expr.beq] at h
    rename_i bs
    cases bs <;> simp [Expr.beqList] at h
    rfl
  | .alternation (a :: as), b, h => by
    cases b <;> simp only [Expr.beq, Bool.false_eq_true] at h
    rename_i bs
    have hitems := firstEmptyOf?_of_beqList h
    cases bs with
    | nil => simp [Expr.beqList] at h
    | cons b bs => exact hitems
  | .optional _, b, h => by
    cases b <;> simp [Expr.beq] at h
    rw [firstEmpty?_optional, firstEmpty?_optional, firstEmpty?_of_beq h]
  | .repetition _, b, h => by
    cases b <;> simp [Expr.beq] at h
    rw [firstEmpty?_repetition, firstEmpty?_repetition, firstEmpty?_of_beq h]
  | .oneOrMore _, b, h => by
    cases b <;> simp [Expr.beq] at h
    rw [firstEmpty?_oneOrMore, firstEmpty?_oneOrMore, firstEmpty?_of_beq h]

theorem firstEmptyOf?_of_beqList : ∀ {as bs : List Expr}, Expr.beqList as bs = true →
    firstEmptyOf? as = firstEmptyOf? bs
  | [], [], _ => rfl
  | a :: as, b :: bs, h => by
    rw [Expr.beqList, Bool.and_eq_true] at h
    rw [firstEmptyOf?_cons, firstEmptyOf?_cons, firstEmpty?_of_beq h.1, firstEmptyOf?_of_beqList h.2]

end

theorem firstEmptyOf?_of_alike {as bs : List Expr} (h : Build.Alike as bs) :
    firstEmptyOf? as = firstEmptyOf? bs := by
  induction h with
  | nil => rfl
  | cons hab _ ih => rw [firstEmptyOf?_cons, firstEmptyOf?_cons, firstEmpty?_of_beq hab, ih]

end Expr

namespace Build

/-! ## 3. Faults of a plan -/

mutual

/-- **The empty construct that building a plan stops at.**  The parts of a construct are built
before the construct itself, so theirs come first.  That this is the first one in reading order is
proved, not defined. -/
def Plan.fault? : Plan → Option Construct
  | .symbol _ _ => none
  | .epsilon => none
  | .sequence items => faultOfSequence? items
  | .choice [] => some .alternation
  | .choice (first :: others) => first.fault?.or (faultOf? others)
  | .optional inner => inner.fault?
  | .iteration inner => inner.fault?
  | .rerun body between => (faultOfSequence? body).or (faultOf? between)

/-- The same for plans of which there must be one. -/
def faultOfSequence? : List Plan → Option Construct
  | [] => some .sequence
  | first :: rest => first.fault?.or (faultOf? rest)

/-- The first fault of some plans. -/
def faultOf? : List Plan → Option Construct
  | [] => none
  | item :: rest => item.fault?.or (faultOf? rest)

end

theorem faultOfSequence?_eq {items : List Plan} (h : items ≠ []) :
    faultOfSequence? items = faultOf? items := by
  cases items with
  | nil => exact absurd rfl h
  | cons first rest => rfl

theorem fault?_choice {branches : List Plan} (h : branches ≠ []) :
    (Plan.choice branches).fault? = faultOf? branches := by
  cases branches with
  | nil => exact absurd rfl h
  | cons first others => rfl

/-- Why a step of building failed, if it did. -/
def failure? {α : Type} : EStateM.Result Construct Draft α → Option Construct
  | .ok _ _ => none
  | .error construct _ => some construct

/-- A step that is made of two fails where the first one fails, and else where the second does. -/
theorem failure_bind {α β : Type} {x : BuildM α} {k : α → BuildM β} {d : Draft}
    {fault fault' : Option Construct} (hx : failure? (x d) = fault)
    (hk : ∀ a d₁, failure? (k a d₁) = fault') : failure? ((x >>= k) d) = fault.or fault' := by
  cases h : x d with
  | ok a d₁ =>
    rw [h] at hx
    simp only [bind, EStateM.bind, h, ← hx, failure?, Option.none_or]
    exact hk a d₁
  | error construct d₁ =>
    rw [h] at hx
    simp only [bind, EStateM.bind, h, ← hx, failure?, Option.some_or]

/-- A second step that does not fail adds nothing to the failures. -/
theorem failure_bind_left {α β : Type} {x : BuildM α} {k : α → BuildM β} {d : Draft}
    {fault : Option Construct} (hx : failure? (x d) = fault)
    (hk : ∀ a d₁, failure? (k a d₁) = none) : failure? ((x >>= k) d) = fault := by
  rw [failure_bind hx hk, Option.or_none]

/-- Nor does a first step that cannot fail. -/
theorem failure_bind_perform {α β : Type} {f : Draft → Draft × α} {k : α → BuildM β} {d : Draft}
    {fault : Option Construct} (hk : ∀ a d₁, failure? (k a d₁) = fault) :
    failure? ((perform f >>= k) d) = fault := by
  rw [failure_bind rfl hk, perform_apply]
  rfl

mutual

/-- **Building a plan fails at its fault,** and only there, whatever the draft is that it begins
with. -/
theorem failure_build : ∀ (plan : Plan) (d : Draft), failure? (build plan d) = plan.fault?
  | .symbol _ _, _ => by
    rw [build]
    rfl
  | .epsilon, _ => by
    rw [build]
    rfl
  | .sequence items, d => by
    rw [build]
    exact failure_buildSequence items d
  | .choice [], _ => by
    rw [build]
    rfl
  | .choice (first :: others), d => by
    rw [build, Plan.fault?]
    refine failure_bind (failure_build first d) fun _ _ => ?_
    exact failure_bind_perform fun _ _ => failure_buildBranches others _ _ _
  | .optional inner, d => by
    rw [build, Plan.fault?]
    exact failure_bind_left (failure_build inner d) fun _ _ => rfl
  | .iteration inner, d => by
    rw [build, Plan.fault?]
    exact failure_bind_left (failure_build inner d) fun _ _ => rfl
  | .rerun body [], d => by
    rw [build, Plan.fault?]
    exact failure_bind (failure_buildSequence body d) fun _ _ => rfl
  | .rerun body (item :: rest), d => by
    rw [build, Plan.fault?]
    refine failure_bind (failure_buildSequence body d) fun _ _ => ?_
    refine failure_bind_left ?_ fun _ _ => rfl
    exact failure_bind_left (failure_buildSequence (item :: rest) _) fun _ _ => rfl

theorem failure_buildSequence : ∀ (items : List Plan) (d : Draft),
    failure? (buildSequence items d) = faultOfSequence? items
  | [], _ => by
    rw [buildSequence]
    rfl
  | first :: rest, d => by
    rw [buildSequence, faultOfSequence?]
    exact failure_bind (failure_build first d) fun _ _ => failure_buildBehind rest _ _

theorem failure_buildBehind : ∀ (rest : List Plan) (before : Fragment) (d : Draft),
    failure? (buildBehind before rest d) = faultOf? rest
  | [], _, _ => by
    rw [buildBehind]
    rfl
  | item :: rest, _, d => by
    rw [buildBehind, faultOf?]
    refine failure_bind (failure_build item d) fun _ _ => ?_
    exact failure_bind_perform fun _ _ => failure_buildBehind rest _ _

theorem failure_buildBranches : ∀ (others : List Plan) (group : Fragment) (above : NodeId)
    (d : Draft), failure? (buildBranches group above others d) = faultOf? others
  | [], _, _, _ => by
    rw [buildBranches]
    rfl
  | item :: rest, _, _, d => by
    rw [buildBranches, faultOf?]
    refine failure_bind (failure_build item d) fun _ _ => ?_
    exact failure_bind_perform fun _ _ => failure_buildBranches rest _ _ _

end

/-! ## 4. The fault of a plan is the first empty construct -/

/-- **Cutting a sequence does not move its first empty construct.**  What a rerun leaves out of a
repetition is empty where its body is, and the body is met first. -/
theorem Cuts.firstEmptyOf?_eq {segments : List Segment} {items : List Expr}
    (h : Cuts segments items) :
    Expr.firstEmptyOf? (segments.flatMap Segment.exprs) = Expr.firstEmptyOf? items := by
  induction h with
  | nil => rfl
  | single item _ ih =>
    rw [List.flatMap_cons, Segment.exprs, List.singleton_append, Expr.firstEmptyOf?_cons,
      Expr.firstEmptyOf?_cons, ih]
  | @behind _ rest inner body between same hb hi ha _ ih =>
    have hinner : inner.firstEmpty? = (Expr.firstEmptyOf? between).or (Expr.firstEmptyOf? body) := by
      rw [← Expr.firstEmptyOf?_of_alike ha, ← Expr.firstEmptyOf?_append, ← hi]
      refine (Expr.firstEmptyOf?_items ?_).symm
      rw [hi]
      exact List.append_ne_nil_of_right_ne_nil _ (ha.ne_nil hb)
    rw [List.flatMap_cons, Segment.exprs, Expr.firstEmptyOf?_append, Expr.firstEmptyOf?_append,
      Expr.firstEmptyOf?_append, Expr.firstEmptyOf?_cons, Expr.firstEmpty?_repetition, hinner, ih]
    cases Expr.firstEmptyOf? body <;> cases Expr.firstEmptyOf? between <;> rfl
  | @ahead _ rest inner body between same hb hi ha _ ih =>
    have hinner : inner.firstEmpty? = (Expr.firstEmptyOf? body).or (Expr.firstEmptyOf? between) := by
      rw [← Expr.firstEmptyOf?_of_alike ha, ← Expr.firstEmptyOf?_append, ← hi]
      refine (Expr.firstEmptyOf?_items ?_).symm
      rw [hi]
      exact List.append_ne_nil_of_left_ne_nil (ha.ne_nil hb) _
    rw [List.flatMap_cons, Segment.exprs, Expr.firstEmptyOf?_append, Expr.firstEmptyOf?_append,
      Expr.firstEmptyOf?_cons, Expr.firstEmptyOf?_append, Expr.firstEmpty?_repetition, hinner, ih]
    cases Expr.firstEmptyOf? body <;> cases Expr.firstEmptyOf? between <;> rfl

variable {collapsing : Bool}

theorem faultOf?_map {es : List Expr}
    (h : ∀ e ∈ es, (Plan.ofExpr collapsing e).fault? = e.firstEmpty?) :
    faultOf? (es.map (Plan.ofExpr collapsing)) = Expr.firstEmptyOf? es := by
  induction es with
  | nil => rfl
  | cons e es ih =>
    rw [List.map_cons, faultOf?, Expr.firstEmptyOf?_cons, h e List.mem_cons_self,
      ih fun x hx => h x (List.mem_cons_of_mem _ hx)]

/-- The fault of the plan of a segment. -/
theorem fault?_plan {segment : Segment}
    (hbody : ∀ body between, segment = .rerun body between → body ≠ [])
    (h : ∀ e ∈ segment.exprs, (Plan.ofExpr collapsing e).fault? = e.firstEmpty?) :
    (segment.plan collapsing).fault? = Expr.firstEmptyOf? segment.exprs := by
  cases segment with
  | single item =>
    rw [Segment.plan, h item List.mem_cons_self, Segment.exprs, Expr.firstEmptyOf?_cons,
      Expr.firstEmptyOf?_nil, Option.or_none]
  | rerun body between =>
    have hne := hbody body between rfl
    rw [Segment.exprs, Expr.firstEmptyOf?_append, Segment.plan, Plan.fault?,
      faultOfSequence?_eq (by simpa using hne),
      faultOf?_map fun e he => h e (List.mem_append_left _ he),
      faultOf?_map fun e he => h e (List.mem_append_right _ he)]

theorem faultOf?_segments {segments : List Segment}
    (hbody : ∀ body between, .rerun body between ∈ segments → body ≠ [])
    (h : ∀ segment ∈ segments, ∀ e ∈ segment.exprs,
      (Plan.ofExpr collapsing e).fault? = e.firstEmpty?) :
    faultOf? (segments.map (Segment.plan collapsing))
      = Expr.firstEmptyOf? (segments.flatMap Segment.exprs) := by
  induction segments with
  | nil => rfl
  | cons segment rest ih =>
    have hfirst : (segment.plan collapsing).fault? = Expr.firstEmptyOf? segment.exprs := by
      refine fault?_plan ?_ (h segment List.mem_cons_self)
      rintro body between rfl
      exact hbody body between List.mem_cons_self
    have hrest := ih (fun body between hmem => hbody body between (List.mem_cons_of_mem _ hmem))
      fun s hs => h s (List.mem_cons_of_mem _ hs)
    rw [List.map_cons, faultOf?, hfirst, hrest, List.flatMap_cons, Expr.firstEmptyOf?_append]

/-- **Building the plan of an expression stops at the first empty construct,** whether or not
reruns are looked for. -/
theorem fault?_ofExpr (collapsing : Bool) (e : Expr) :
    (Plan.ofExpr collapsing e).fault? = e.firstEmpty? := by
  match e with
  | .literal _ | .identifier _ | .empty =>
    rw [Plan.ofExpr]
    rfl
  | .optional inner =>
    rw [Plan.ofExpr, Plan.fault?, fault?_ofExpr collapsing inner, Expr.firstEmpty?_optional]
  | .repetition inner =>
    rw [Plan.ofExpr, Plan.fault?, fault?_ofExpr collapsing inner, Expr.firstEmpty?_repetition]
  | .oneOrMore inner =>
    rw [Plan.ofExpr, Plan.fault?, fault?_ofExpr collapsing inner, Expr.firstEmpty?_oneOrMore]
  | .alternation [] =>
    rw [Plan.ofExpr_alternation]
    rfl
  | .alternation (first :: others) =>
    have hitems : ∀ item ∈ first :: others,
        (Plan.ofExpr collapsing item).fault? = item.firstEmpty? :=
      fun item hitem => fault?_ofExpr collapsing item
    rw [Plan.ofExpr_alternation, fault?_choice (by simp), faultOf?_map hitems,
      Expr.firstEmpty?_alternation (by simp)]
  | .sequence [] =>
    rw [Plan.ofExpr_sequence]
    cases collapsing <;> rfl
  | .sequence (first :: rest) =>
    rw [Plan.ofExpr_sequence, Plan.fault?, Expr.firstEmpty?_sequence (by simp)]
    cases collapsing with
    | false =>
      have hitems : ∀ item ∈ first :: rest, (Plan.ofExpr false item).fault? = item.firstEmpty? :=
        fun item hitem => fault?_ofExpr false item
      rw [if_neg Bool.false_ne_true, faultOfSequence?_eq (by simp), faultOf?_map hitems]
    | true =>
      have hcuts := collapse_cuts (first :: rest)
      have hne : collapse (first :: rest) ≠ [] := hcuts.ne_nil (by simp)
      have hexprs : ∀ segment ∈ collapse (first :: rest), ∀ x ∈ segment.exprs,
          (Plan.ofExpr true x).fault? = x.firstEmpty? :=
        fun segment hsegment x hx => fault?_ofExpr true x
      rw [if_pos rfl, faultOfSequence?_eq (by simpa using hne),
        faultOf?_segments (fun _ _ => hcuts.body_ne_nil) hexprs, hcuts.firstEmptyOf?_eq]
termination_by sizeOf e
decreasing_by
  · simp only [Expr.optional.sizeOf_spec]; omega
  · simp only [Expr.repetition.sizeOf_spec]; omega
  · simp only [Expr.oneOrMore.sizeOf_spec]; omega
  · have := List.sizeOf_lt_of_mem hitem; simp only [Expr.alternation.sizeOf_spec]; omega
  · have := List.sizeOf_lt_of_mem hitem; simp only [Expr.sequence.sizeOf_spec]; omega
  · exact sizeOf_lt_of_mem_collapse hsegment hx

/-! ## 5. Compiling a production -/

variable {r : Registry} {p : Production}

/-- A production with an empty construct has no graph. -/
theorem compile_eq_error {construct : Construct} (h : p.expr.firstEmpty? = some construct) :
    (compile r collapsing p).1 = .error (.emptyConstruct p.name construct) := by
  have hfault := failure_build (Plan.ofExpr collapsing p.expr) { r with }
  rw [fault?_ofExpr, h] at hfault
  unfold compile
  cases hbuild : build (Plan.ofExpr collapsing p.expr) { r with } with
  | ok f d =>
    rw [hbuild] at hfault
    exact absurd hfault (by simp [failure?])
  | error found d =>
    rw [hbuild] at hfault
    obtain rfl := Option.some.inj hfault
    rfl

/-- **A production without empty constructs has a graph,** which has the tree of its plan. -/
theorem compile_eq_ok (r : Registry) (collapsing : Bool) {p : Production}
    (h : p.expr.firstEmpty? = none) :
    ∃ g t, (compile r collapsing p).1 = .ok g ∧ g.HasTree Eq t ∧
      t.map (fun id => (g.arena id).bind (·.leaf? (compile r collapsing p).2.symbols))
        = (Plan.ofExpr collapsing p.expr).track := by
  have hfault := failure_build (Plan.ofExpr collapsing p.expr) { r with }
  rw [fault?_ofExpr, h] at hfault
  unfold compile
  cases hbuild : build (Plan.ofExpr collapsing p.expr) { r with } with
  | error found d =>
    rw [hbuild] at hfault
    exact absurd hfault (by simp [failure?])
  | ok f d =>
    obtain ⟨t, htree, hshown⟩ := finish_hasTree hbuild
    simp only [htree.similar.checkClosed_eq]
    exact ⟨d.finish f, t, rfl, htree, hshown⟩

/-- What has a graph has no empty construct. -/
theorem firstEmpty?_of_compile {g : Graph} (h : (compile r collapsing p).1 = .ok g) :
    p.expr.firstEmpty? = none := by
  cases hempty : p.expr.firstEmpty? with
  | none => rfl
  | some construct =>
    rw [compile_eq_error hempty] at h
    cases h

/-- The graph of a production has a tree. -/
theorem hasTree_of_compile {g : Graph} (h : (compile r collapsing p).1 = .ok g) :
    ∃ t, g.HasTree Eq t ∧
      t.map (fun id => (g.arena id).bind (·.leaf? (compile r collapsing p).2.symbols))
        = (Plan.ofExpr collapsing p.expr).track := by
  obtain ⟨g', t, hok, htree, hshown⟩ :=
    compile_eq_ok r collapsing (firstEmpty?_of_compile h)
  rw [h] at hok
  cases hok
  exact ⟨t, htree, hshown⟩

/-- **A production has a graph exactly if nothing in it is empty.**  If something is, the error
names the production and the first empty construct in reading order, whether or not reruns are
looked for, and there is no other error.  Every graph is complete.

The error is said to be the *only* one because compiling has another, for a draft whose ends are not
all connected, and that never comes out.  Reading order is the order in which the text of the
production would show its parts (`Expr.subexprs`). -/
theorem compile_fails_iff_empty (r : Registry) (collapsing : Bool) (p : Production) :
    ((∃ g, (compile r collapsing p).1 = .ok g) ↔
      ∀ e ∈ p.expr.subexprs, e ≠ .sequence [] ∧ e ≠ .alternation []) ∧
    (∀ error, (compile r collapsing p).1 = .error error ↔
      ∃ construct, p.expr.firstEmpty? = some construct ∧
        error = .emptyConstruct p.name construct) ∧
    ∀ g, (compile r collapsing p).1 = .ok g → g.Complete := by
  refine ⟨⟨?_, ?_⟩, fun error => ⟨?_, ?_⟩, ?_⟩
  · rintro ⟨g, hg⟩
    exact (Expr.firstEmpty?_eq_none_iff p.expr).mp (firstEmpty?_of_compile hg)
  · intro h
    obtain ⟨g, -, hg, -⟩ := compile_eq_ok r collapsing
      ((Expr.firstEmpty?_eq_none_iff p.expr).mpr h)
    exact ⟨g, hg⟩
  · intro h
    cases hempty : p.expr.firstEmpty? with
    | none =>
      obtain ⟨g, -, hg, -⟩ := compile_eq_ok r collapsing hempty
      rw [hg] at h
      cases h
    | some construct =>
      rw [compile_eq_error hempty] at h
      cases h
      exact ⟨construct, rfl, rfl⟩
  · rintro ⟨construct, hempty, rfl⟩
    exact compile_eq_error hempty
  · intro g hg
    obtain ⟨t, htree, -⟩ := hasTree_of_compile hg
    exact htree.similar.complete

end Build
end Railroad
