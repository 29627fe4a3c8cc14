/-
# When colors are equal

Colors are compared by their numbers and looked up by their text.  The two agree but for one thing: a
zero equals the zero of the other sign, and is written with its sign.  So colors that are equal have one
text when they are the same color, and only then (`Library.equality`).

Reading, comparing and writing colors is the work of a library from outside.  `Library` says what is
relied on, and no more than its description says of it:

* a color is a tag, which is everything about it but numbers, with up to four components
  (`tag_ext`), and colors are compared tag by tag and number by number (`equal_iff`);
* the text is a name, or the components in their order between fixed texts (`text_eq`); what is fixed
  depends on the tag, and on whether the color is opaque;
* what stands in a text is a number (`numbers_of_read`), and a name stands for the same numbers each
  time (`named_of_read`);
* another opacity changes nothing but the opacity, and a color that was changed is not written by name
  any more (`components_withAlpha`, `unnamed_withAlpha`).

That a color equals itself is not a matter of course, since a value that is no number does not.  It
follows for the colors that can come about (`Library.Obtained`), because neither a text nor a finite
opacity brings such a value in.

The colors of style sheets are such a library; see `Railroad.Proofs.Color.Identity`.
-/
import Railroad.Number.Text
import Railroad.Proofs.Number.Equality

namespace Railroad.Color

open Binary

/-! ## 1. Components and texts -/

/-- **A component of a color:** a number, or nothing if it was left open. -/
abbrev Component := Option Float32

namespace Component

/-- It is not the value that is no number. -/
def IsNumber (x : Component) : Prop := ∀ y, x = some y → y.isNaN = false

/-- Equal numbers, or both left open. -/
def agrees : Component → Component → Bool
  | none, none => true
  | some x, some y => x == y
  | _, _ => false

/-- The component with every zero made the positive one. -/
def signless (x : Component) : Component := x.map dropSign

/-- The text of a component: the number times a factor, or `none`. -/
def text (scale : Float32) (x : Component) : String :=
  x.elim "none" fun x => Number.plain (x * scale)

end Component

/-- **The components of a color,** the last of them its opacity. -/
structure Components where
  first : Component
  second : Component
  third : Component
  opacity : Component

namespace Components

/-- All components agree. -/
def agrees (a b : Components) : Bool :=
  a.first.agrees b.first && a.second.agrees b.second && a.third.agrees b.third &&
    a.opacity.agrees b.opacity

/-- All components are numbers, as far as they are there. -/
structure AreNumbers (c : Components) : Prop where
  first : c.first.IsNumber
  second : c.second.IsNumber
  third : c.third.IsNumber
  opacity : c.opacity.IsNumber

/-- The components with every zero made the positive one. -/
def signless (c : Components) : Components :=
  ⟨c.first.signless, c.second.signless, c.third.signless, c.opacity.signless⟩

/-- The color is not opaque.  An opacity that was left open counts as zero. -/
def isFaint (c : Components) : Bool := decide (c.opacity.getD 0.0 < 1.0)

end Components

/-- **How the text of a color is put together.** -/
inductive Form where
  /-- The text is a name, whatever the components. -/
  | name (name : String)
  /-- A function of the components.  What it opens with may depend on whether the color is opaque; then
  come the first three components, as bytes or as they are, with a text `between` them, and for a color
  that is not opaque the opacity, with a text before it. -/
  | parts (opening : Bool → String) (between beforeOpacity : String) (bytes : Bool)

namespace Form

/-- The end of a text: the opacity, unless the color is opaque. -/
def ending (beforeOpacity : String) (c : Components) : String :=
  (if c.isFaint then beforeOpacity ++ c.opacity.text 1.0 else "") ++ ")"

/-- The text of a color with these components. -/
def text : Form → Components → String
  | .name called, _ => called
  | .parts opening between beforeOpacity bytes, c =>
    let scale : Float32 := if bytes then 255.0 else 1.0
    opening c.isFaint ++ (c.first.text scale ++ (between ++ (c.second.text scale ++
      (between ++ (c.third.text scale ++ ending beforeOpacity c)))))

end Form

/-! ## 2. Libraries -/

/-- **A library of colors,** and what is relied on.  Nothing else is known of a library; in
particular not how many spaces of color there are, nor what any text looks like beyond its form. -/
structure Library (C : Type) where
  /-- Reads a color, or says why the text is none. -/
  read : String → Except String C
  /-- The color with another opacity. -/
  withAlpha : C → Float32 → C
  /-- Whether two colors are equal. -/
  equal : C → C → Bool
  /-- The text of a color. -/
  text : C → String
  /-- What there is about a color besides its components: the space they are measured in, and how the
  color was written. -/
  Tag : Type
  tag : C → Tag
  components : C → Components
  /-- How colors with a tag are written. -/
  form : Tag → Form
  /-- There is nothing more about a color. -/
  tag_ext : ∀ {a b}, tag a = tag b → components a = components b → a = b
  /-- Equal colors have one tag, and components that agree. -/
  equal_iff : ∀ {a b}, equal a b = true ↔
    tag a = tag b ∧ (components a).agrees (components b) = true
  /-- The text follows the form. -/
  text_eq : ∀ c, text c = (form (tag c)).text (components c)
  /-- What is read are numbers. -/
  numbers_of_read : ∀ {s c}, read s = .ok c → (components c).AreNumbers
  /-- A name is the name of one color. -/
  named_of_read : ∀ {s s' a b name}, read s = .ok a → read s' = .ok b → tag a = tag b →
    form (tag a) = .name name → components a = components b
  /-- Another opacity is put in the place of the one that is there, or nothing changes. -/
  components_withAlpha : ∀ c alpha, components (withAlpha c alpha) = components c ∨
    components (withAlpha c alpha) = { components c with opacity := some alpha }
  /-- A color that was changed is not written by name. -/
  unnamed_withAlpha : ∀ c alpha, withAlpha c alpha = c ∨
    ∀ name, form (tag (withAlpha c alpha)) ≠ .name name

variable {C : Type} (L : Library C)

/-- **The colors that can come about:** those that are read from a text, and these with another opacity
that is finite, as often as one likes. -/
inductive Library.Obtained : C → Prop
  | read {s : String} {c : C} (h : L.read s = .ok c) : Obtained c
  | withAlpha {c : C} {alpha : Float32} (h : Obtained c) (halpha : alpha.isFinite = true) :
    Obtained (L.withAlpha c alpha)

/-- **A table finds a color** among those that were put in when one of them has its hash and equals
it. The hash is that of the text, or the part of it that the table looks at.  Any function of texts
may be the hash, also one that tells nothing apart. -/
def Library.foundIn (hash : String → UInt64) (entries : List C) (c : C) : Bool :=
  entries.any fun d => hash (L.text d) == hash (L.text c) && L.equal d c

/-! ## 3. Components that agree -/

namespace Component

variable {x y : Component}

/-- Components agree when they are the same without the signs of zeros. -/
theorem agrees_iff (hx : x.IsNumber) : x.agrees y = true ↔ x.signless = y.signless := by
  cases x with
  | none => cases y <;> simp [agrees, signless]
  | some x =>
    cases y with
    | none => simp [agrees, signless]
    | some y => simpa [agrees, signless] using beq_iff_dropSign (hx x rfl)

/-- Components that agree are told apart by their texts, whatever follows. -/
theorem eq_of_text {bytes : Bool} (hx : x.IsNumber) (hsame : x.agrees y = true) {s t : String}
    (h : x.text (if bytes then 255.0 else 1.0) ++ s = y.text (if bytes then 255.0 else 1.0) ++ t) :
    x = y ∧ s = t := by
  have hzero : Number.plain (0.0 * if bytes then 255.0 else 1.0) = "0" := by
    cases bytes <;> decide +kernel
  have hminus : Number.plain (-0.0 * if bytes then 255.0 else 1.0) = "-0" := by
    cases bytes <;> decide +kernel
  have hrest : x = y → x = y ∧ s = t := by
    rintro rfl
    exact ⟨rfl, String.append_right_inj _ |>.mp h⟩
  have hdigit : ∀ {s t : String}, "0" ++ s ≠ "-0" ++ t := fun h => by
    simpa using congrArg String.toList h
  cases x with
  | none =>
    cases y with
    | none => exact hrest rfl
    | some y => cases hsame
  | some x =>
    cases y with
    | none => cases hsame
    | some y =>
      rcases beq_cases (hx x rfl) hsame with rfl | ⟨rfl, rfl⟩ | ⟨rfl, rfl⟩
      · exact hrest rfl
      · simp only [text, Option.elim, hzero, hminus] at h
        exact absurd h hdigit
      · simp only [text, Option.elim, hzero, hminus] at h
        exact absurd h.symm hdigit

end Component

namespace Components

variable {a b : Components}

theorem agrees_iff_parts : a.agrees b = true ↔ a.first.agrees b.first = true ∧
    a.second.agrees b.second = true ∧ a.third.agrees b.third = true ∧
    a.opacity.agrees b.opacity = true := by
  simp only [agrees, Bool.and_eq_true, and_assoc]

/-- **Numbers agree when they are the same without the signs of zeros.** -/
theorem agrees_iff (ha : a.AreNumbers) : a.agrees b = true ↔ a.signless = b.signless := by
  rw [agrees_iff_parts, Component.agrees_iff ha.first, Component.agrees_iff ha.second,
    Component.agrees_iff ha.third, Component.agrees_iff ha.opacity]
  simp only [signless, Components.mk.injEq]

/-- Opacities that agree are both full or both not. -/
theorem isFaint_eq (ha : a.AreNumbers) (h : a.opacity.agrees b.opacity = true) :
    a.isFaint = b.isFaint := by
  have hx := ha.opacity
  unfold isFaint
  cases hy : a.opacity with
  | none =>
    cases hz : b.opacity with
    | none => rfl
    | some z => rw [hy, hz] at h; cases h
  | some y =>
    cases hz : b.opacity with
    | none => rw [hy, hz] at h; cases h
    | some z =>
      rw [hy, hz] at h
      rcases beq_cases (hx y hy) h with rfl | ⟨rfl, rfl⟩ | ⟨rfl, rfl⟩
      · rfl
      · decide +kernel
      · decide +kernel

/-- A color that is opaque has an opacity, and it is no zero. -/
theorem opacity_eq_of_not_isFaint (ha : a.AreNumbers) (h : a.opacity.agrees b.opacity = true)
    (hsolid : a.isFaint = false) : a.opacity = b.opacity := by
  have hx := ha.opacity
  unfold isFaint at hsolid
  cases hy : a.opacity with
  | none =>
    rw [hy] at hsolid
    exact absurd hsolid (by decide +kernel)
  | some y =>
    cases hz : b.opacity with
    | none => rw [hy, hz] at h; cases h
    | some z =>
      rw [hy, hz] at h
      rw [hy] at hsolid
      rcases beq_cases (hx y hy) h with rfl | ⟨rfl, rfl⟩ | ⟨rfl, rfl⟩
      · rfl
      · exact absurd hsolid (by decide +kernel)
      · exact absurd hsolid (by decide +kernel)

/-- Components that agree are told apart by any text that shows them. -/
theorem eq_of_text (ha : a.AreNumbers) (h : a.agrees b = true) (opening : Bool → String)
    (between beforeOpacity : String) (bytes : Bool)
    (htext : (Form.parts opening between beforeOpacity bytes).text a
      = (Form.parts opening between beforeOpacity bytes).text b) : a = b := by
  obtain ⟨hfirst, hsecond, hthird, hopacity⟩ := agrees_iff_parts.mp h
  have hfaint := isFaint_eq ha hopacity
  simp only [Form.text] at htext
  rw [hfaint, String.append_right_inj] at htext
  obtain ⟨hfirst, htext⟩ := Component.eq_of_text ha.first hfirst htext
  obtain ⟨hsecond, htext⟩ := Component.eq_of_text ha.second hsecond
    ((String.append_right_inj _).mp htext)
  obtain ⟨hthird, htext⟩ := Component.eq_of_text ha.third hthird
    ((String.append_right_inj _).mp htext)
  have hlast : a.opacity = b.opacity := by
    cases hshown : b.isFaint with
    | false => exact opacity_eq_of_not_isFaint ha hopacity (hfaint.trans hshown)
    | true =>
      rw [Form.ending, Form.ending, hfaint, hshown, if_pos rfl, if_pos rfl, String.append_assoc,
        String.append_assoc, String.append_right_inj] at htext
      exact (@Component.eq_of_text _ _ false ha.opacity hopacity _ _ htext).1
  cases a
  cases b
  simp_all

end Components

/-! ## 4. Equality and texts -/

theorem isNaN_of_isFinite {x : Float32} (h : x.isFinite = true) : x.isNaN = false := by
  have hfinite : x.toModel.unpack.isFinite = true := h
  change x.toModel.unpack.isNaN = false
  generalize x.toModel.unpack = a at hfinite ⊢
  cases a with
  | notANumber => exact nomatch hfinite
  | _ => rfl

namespace Library

variable {L} {a b c : C}

/-- The colors that can come about are made of numbers. -/
theorem Obtained.numbers (h : L.Obtained c) : (L.components c).AreNumbers := by
  induction h with
  | read h => exact L.numbers_of_read h
  | @withAlpha c alpha _ halpha ih =>
    rcases L.components_withAlpha c alpha with hsame | hchanged
    · exact hsame ▸ ih
    · rw [hchanged]
      refine ⟨ih.first, ih.second, ih.third, ?_⟩
      rintro _ ⟨⟩
      exact isNaN_of_isFinite halpha

/-- A color that is written by name was read. -/
theorem Obtained.read_of_named (h : L.Obtained c) {name : String}
    (hname : L.form (L.tag c) = .name name) : ∃ s, L.read s = .ok c := by
  induction h with
  | read h => exact ⟨_, h⟩
  | @withAlpha c alpha _ _ ih =>
    rcases L.unnamed_withAlpha c alpha with hsame | hunnamed
    · rw [hsame] at hname ⊢
      exact ih hname
    · exact absurd hname (hunnamed name)

/-- **Equal colors are those that are the same without the signs of zeros.** -/
theorem Obtained.equal_iff (ha : L.Obtained a) : L.equal a b = true ↔
    L.tag a = L.tag b ∧ (L.components a).signless = (L.components b).signless := by
  rw [L.equal_iff, Components.agrees_iff ha.numbers]

theorem Obtained.equal_self (ha : L.Obtained a) : L.equal a a = true :=
  ha.equal_iff.mpr ⟨rfl, rfl⟩

/-- **Equal colors of one text are the same.** -/
theorem Obtained.eq_of_text (ha : L.Obtained a) (hb : L.Obtained b) (h : L.equal a b = true)
    (htext : L.text a = L.text b) : a = b := by
  obtain ⟨htag, hagree⟩ := L.equal_iff.mp h
  refine L.tag_ext htag ?_
  rw [L.text_eq, L.text_eq, ← htag] at htext
  cases hform : L.form (L.tag a) with
  | name name =>
    obtain ⟨s, hs⟩ := ha.read_of_named hform
    obtain ⟨s', hs'⟩ := hb.read_of_named (htag ▸ hform)
    exact L.named_of_read hs hs' htag hform
  | parts opening between beforeOpacity bytes =>
    rw [hform] at htext
    exact Components.eq_of_text ha.numbers hagree opening between beforeOpacity bytes htext

theorem foundIn_iff {hash : String → UInt64} {entries : List C} : L.foundIn hash entries c = true ↔
    ∃ d ∈ entries, hash (L.text d) = hash (L.text c) ∧ L.equal d c = true := by
  simp [foundIn]

/-- A color is found whatever the hash only if it is there itself. -/
theorem Obtained.found_iff_mem (hc : L.Obtained c) {entries : List C}
    (hentries : ∀ d ∈ entries, L.Obtained d) :
    (∀ hash, L.foundIn hash entries c = true) ↔ c ∈ entries := by
  constructor
  · intro h
    obtain ⟨d, hd, htext, hequal⟩ := foundIn_iff.mp (h fun s => if s = L.text c then 1 else 0)
    have hd' : L.text d = L.text c := by
      by_contra hne
      simp [hne] at htext
    exact (hentries d hd).eq_of_text hc hequal hd' ▸ hd
  · exact fun hmem hash => foundIn_iff.mpr ⟨c, hmem, rfl, hc.equal_self⟩

/-- **Colors and their texts.**  Every color equals itself.  Two colors are equal when they differ
in nothing but the signs of zeros, and if they do differ in one, their texts do too.  So what can be
found whatever the hash is what was put in, with the same signs.

The last point is about tables that look colors up by a hash of their text.  An entry may be missed
there although an equal color was put in, for equal colors may have two texts and then two hashes.
-/
theorem equality (ha : L.Obtained a) (hb : L.Obtained b) {entries : List C}
    (hentries : ∀ c ∈ entries, L.Obtained c) :
    L.equal a a = true ∧
      (L.equal a b = true ↔
        L.tag a = L.tag b ∧ (L.components a).signless = (L.components b).signless) ∧
      (L.equal a b = true → (L.text a = L.text b ↔ a = b)) ∧
      ((∀ hash, L.foundIn hash entries b = true) ↔ b ∈ entries) := by
  refine ⟨ha.equal_self, ha.equal_iff, fun h => ⟨ha.eq_of_text hb h, congrArg L.text⟩, ?_⟩
  exact hb.found_iff_mem hentries

end Library

end Railroad.Color
