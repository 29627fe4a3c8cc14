/-
# The colors of style sheets

The library of colors that the program is run with (`Color.css`): colors are read and written as style
sheets write them.  What `Library` relies on is proved of it.

Two things take work.  No value that is no number comes out of a text: what stands in it is read from
digits and scaled by fixed factors (`Color.Reader.leading_gives`).  And a color that was written by name
shows no numbers in its text; its numbers are those of the name (`Color.Proper.named`).

In this library there are colors that are equal and have two texts (`Color.equal_with_two_texts`): red
may be a zero of either sign.

Reading is a computation that takes characters and may fail.  `Color.Reader.Gives` says that
whatever it gives has some property, and has one rule for each way to put readings together; so the
first point is proved along the definition of the reader.
-/
import Railroad.Color.Reader
import Railroad.Proofs.Color.Library

namespace Railroad.Color

open Binary

/-! ## 1. What a color is made of -/

/-- Absent, or not the value that is no number. -/
def IsNumber (x : Option Float32) : Prop := ∀ y, x = some y → y.isNaN = false

/-- **A color that a text can stand for:** its components are numbers, and if it is written by name they
are those of the name. -/
structure Proper (c : Color) : Prop where
  first : IsNumber c.first
  second : IsNumber c.second
  third : IsNumber c.third
  opacity : IsNumber c.opacity
  named : ∀ name, c.mark = .name name → ∃ red green blue, byName? name = some (red, green, blue) ∧
    c = ofBytes red green blue (if name == "transparent" then 0 else 255) (.name name)

/-- Bytes are numbers. -/
theorem proper_ofBytes (red green blue opacity : Nat) {mark : Mark}
    (hmark : ∀ name, mark = .name name → byName? name = some (red, green, blue) ∧
      opacity = if name == "transparent" then 0 else 255) :
    (ofBytes red green blue opacity mark).Proper := by
  have hpart : ∀ byte : Nat, (Float32.ofNat byte * (1.0 / 255.0)).isNaN = false :=
    fun byte => isNaN_mul32 (isNaN_ofNat32 byte) (by decide +kernel)
  have hsome : ∀ byte : Nat, IsNumber (some (Float32.ofNat byte * (1.0 / 255.0))) := by
    rintro byte _ ⟨⟩
    exact hpart byte
  refine ⟨hsome red, hsome green, hsome blue, hsome opacity, fun name hname => ?_⟩
  obtain rfl : mark = .name name := hname
  obtain ⟨hbytes, rfl⟩ := hmark name rfl
  exact ⟨red, green, blue, hbytes, rfl⟩

/-- Another opacity that is a number leaves a color with numbers. -/
theorem Proper.withAlpha {c : Color} (h : c.Proper) {alpha : Float32} (halpha : alpha.isNaN = false) :
    (c.withAlpha alpha).Proper := by
  unfold Color.withAlpha
  split
  · exact h
  · refine ⟨h.first, h.second, h.third, ?_, nofun⟩
    rintro _ ⟨⟩
    exact halpha

/-! ## 2. What is read from a text -/

namespace Reader

section Gives

variable {α β : Type} {m : Step α} {p : α → Prop} {q : β → Prop}

/-- Whatever the step gives has the property. -/
def Gives (m : Step α) (p : α → Prop) : Prop :=
  ∀ s a rest, m.run s = .ok (a, rest) → p a

theorem gives_true : Gives m fun _ => True := fun _ _ _ _ => trivial

theorem gives_pure {a : α} (h : p a) : Gives (pure a) p := by
  rintro s _ _ ⟨⟩
  exact h

theorem gives_throw {fault : Malformed} : Gives (throw fault) p := by
  rintro s _ _ ⟨⟩

theorem gives_scan {f : List Char → α × List Char} (h : ∀ s, p (f s).1) : Gives (scan f) p := by
  intro s a rest hrun
  have hvalue : (f s).1 = a := congrArg Prod.fst (Except.ok.inj hrun)
  exact hvalue ▸ h s

theorem Gives.bind {f : α → Step β} (h : Gives m p) (hf : ∀ a, p a → Gives (f a) q) :
    Gives (m >>= f) q := by
  intro s b rest hrun
  rw [StateT.run_bind] at hrun
  cases hfirst : m.run s with
  | error fault =>
    rw [hfirst] at hrun
    cases hrun
  | ok result =>
    obtain ⟨a, s'⟩ := result
    rw [hfirst] at hrun
    exact hf a (h s a s' hfirst) s' b rest hrun

theorem Gives.map {f : α → β} (h : Gives m p) (hf : ∀ a, p a → q (f a)) : Gives (f <$> m) q := by
  rw [map_eq_pure_bind]
  exact h.bind fun a ha => gives_pure (hf a ha)

end Gives

/-- Absent, or not the value that is no number, in 64 bits. -/
def IsWideNumber (x : Option Float) : Prop := ∀ y, x = some y → y.isNaN = false

theorem isWideNumber_none : IsWideNumber none := nofun

theorem isWideNumber_some {x : Float} (h : x.isNaN = false) : IsWideNumber (some x) := by
  rintro _ ⟨⟩
  exact h

theorem number?_gives : Gives number? IsWideNumber := by
  refine gives_scan fun s => ?_
  simp only
  split
  · exact isWideNumber_none
  · refine isWideNumber_some ?_
    split
    · exact isNaN_neg64 (isNaN_toFloat _)
    · exact isNaN_toFloat _

/-- The number in what stands for a component is one. -/
def Value.IsNumber : Value → Prop
  | .number x => x.isNaN = false
  | .percent x => x.isNaN = false
  | .measure x _ => x.isNaN = false
  | .word _ => True

theorem value?_gives : Gives value? fun value => ∀ v, value = some v → v.IsNumber := by
  refine number?_gives.bind fun x hx => ?_
  cases x with
  | none =>
    refine gives_true.bind fun w _ => gives_pure ?_
    cases w with
    | none => nofun
    | some w =>
      rintro _ ⟨⟩
      trivial
  | some x =>
    have hx : x.isNaN = false := hx x rfl
    refine gives_true.bind fun percent _ => ?_
    split
    · refine gives_pure ?_
      rintro _ ⟨⟩
      exact hx
    · refine gives_true.bind fun w _ => ?_
      split
      · refine gives_pure ?_
        rintro _ ⟨⟩
        exact hx
      · refine gives_pure ?_
        rintro _ ⟨⟩
        exact hx

/-! Values are scaled by fixed factors, most of them by one or a hundredth. -/

theorem isFactor_one : isFactor (1.0 : Float).toModel.unpack = true := by decide +kernel

theorem isFactor_hundredth : isFactor (0.01 : Float).toModel.unpack = true := by decide +kernel

theorem isNaN_zero : (0.0 : Float).isNaN = false := by decide +kernel

theorem isNaN_one : (1.0 : Float).isNaN = false := by decide +kernel

theorem component_gives {unit percent : Float} (hunit : isFactor unit.toModel.unpack = true)
    (hpercent : isFactor percent.toModel.unpack = true) :
    Gives (component unit percent) IsWideNumber := by
  refine gives_true.bind fun _ _ => value?_gives.bind fun value hvalue => ?_
  split
  · exact gives_pure (isWideNumber_some (isNaN_mul64 (hvalue _ rfl) hunit))
  · exact gives_pure (isWideNumber_some (isNaN_mul64 (hvalue _ rfl) hpercent))
  · split
    · exact gives_pure isWideNumber_none
    · exact gives_throw
  · exact gives_throw

theorem angle_gives : Gives angle IsWideNumber := by
  refine gives_true.bind fun _ _ => value?_gives.bind fun value hvalue => ?_
  split
  · exact gives_pure (isWideNumber_some (hvalue _ rfl))
  · split
    · exact gives_pure isWideNumber_none
    · exact gives_throw
  · rename_i x unit
    have hx : x.isNaN = false := hvalue _ rfl
    split
    · exact gives_pure (isWideNumber_some hx)
    · exact gives_pure (isWideNumber_some (isNaN_mul64 hx (by decide +kernel)))
    · exact gives_pure (isWideNumber_some (isNaN_mul64 hx (by decide +kernel)))
    · exact gives_pure (isWideNumber_some (isNaN_mul64 hx (by decide +kernel)))
    · exact gives_throw
  · exact gives_throw

theorem isWideNumber_clamp {low high : Float} (hlow : low.isNaN = false) (hhigh : high.isNaN = false)
    {x : Option Float} (hx : IsWideNumber x) : IsWideNumber (clamp low high x) := by
  cases x with
  | none => exact isWideNumber_none
  | some x =>
    have hraised : (if x < low then low else x).isNaN = false := by
      split
      · exact hlow
      · exact hx x rfl
    have hlowered : ∀ y : Float, y.isNaN = false → (if high < y then high else y).isNaN = false := by
      intro y hy
      split
      · exact hhigh
      · exact hy
    exact isWideNumber_some (hlowered _ hraised)

theorem isWideNumber_raise {x : Option Float} (hx : IsWideNumber x) : IsWideNumber (raise x) := by
  cases x with
  | none => exact isWideNumber_none
  | some x =>
    have hraised : (if 0.0 < x then x else 0.0).isNaN = false := by
      split
      · exact hx x rfl
      · exact isNaN_zero
    exact isWideNumber_some hraised

theorem transparency_gives (separator : Char) : Gives (transparency separator) IsWideNumber := by
  refine gives_true.bind fun _ _ => gives_true.bind fun taken _ => ?_
  split
  · refine (component_gives isFactor_one isFactor_hundredth).bind fun x hx => gives_pure ?_
    exact isWideNumber_clamp isNaN_zero isNaN_one hx
  · exact gives_pure (isWideNumber_some isNaN_one)

theorem isNumber_narrow {x : Option Float} (hx : IsWideNumber x) :
    IsNumber (x.map Number.narrow) := by
  cases x with
  | none => nofun
  | some x =>
    rintro _ ⟨⟩
    exact isNaN_narrow (hx x rfl)

/-- Components that are numbers make a color. -/
theorem finish_gives {space : Space} {mark : Mark} (hmark : ∀ name, mark ≠ .name name)
    {first second third : Option Float} (hfirst : IsWideNumber first) (hsecond : IsWideNumber second)
    (hthird : IsWideNumber third) (separator : Char) :
    Gives (finish space mark first second third separator) Color.Proper := by
  refine (transparency_gives separator).bind fun alpha halpha => gives_true.bind fun _ _ =>
    gives_true.bind fun _ _ => gives_pure ?_
  exact ⟨isNumber_narrow hfirst, isNumber_narrow hsecond, isNumber_narrow hthird,
    isNumber_narrow halpha, fun name hname => absurd hname (hmark name)⟩

section Parts

variable {space : Space} {first second third : Step (Option Float)}

theorem listed_gives {mark : Mark} (hmark : ∀ name, mark ≠ .name name) (lead : Step Unit)
    (hfirst : Gives first IsWideNumber) (hsecond : Gives second IsWideNumber)
    (hthird : Gives third IsWideNumber) :
    Gives (listed space mark lead first second third) Color.Proper := by
  refine hfirst.bind fun x hx => gives_true.bind fun _ _ => gives_true.bind fun commas _ =>
    hsecond.bind fun y hy => gives_true.bind fun _ _ => ?_
  split
  · exact gives_true.bind fun _ _ => hthird.bind fun z hz => finish_gives hmark hx hy hz _
  · exact hthird.bind fun z hz => finish_gives hmark hx hy hz _

theorem spaced_gives (hfirst : Gives first IsWideNumber) (hsecond : Gives second IsWideNumber)
    (hthird : Gives third IsWideNumber) :
    Gives (spaced space first second third) Color.Proper :=
  hfirst.bind fun _ hx => hsecond.bind fun _ hy => hthird.bind fun _ hz =>
    finish_gives (by rintro _ ⟨⟩) hx hy hz _

end Parts

/-- A component that is brought into a range. -/
theorem clamped_gives {unit percent high : Float} (hunit : isFactor unit.toModel.unpack = true)
    (hpercent : isFactor percent.toModel.unpack = true) (hhigh : high.isNaN = false) :
    Gives (clamp 0.0 high <$> component unit percent) IsWideNumber :=
  (component_gives hunit hpercent).map fun _ => isWideNumber_clamp isNaN_zero hhigh

/-- A component that is brought up to zero. -/
theorem raised_gives {unit percent : Float} (hunit : isFactor unit.toModel.unpack = true)
    (hpercent : isFactor percent.toModel.unpack = true) :
    Gives (raise <$> component unit percent) IsWideNumber :=
  (component_gives hunit hpercent).map fun _ => isWideNumber_raise

/-- **What the axes of a space rely on:** its largest lightness, of which percentages of lightness are
a hundredth each, and the factor for percentages on its axes. -/
structure AxisFactors (top axisPercent : Float) : Prop where
  largest : top.isNaN = false
  lightness : isFactor (0.01 * top).toModel.unpack = true
  axis : isFactor axisPercent.toModel.unpack = true

theorem axisFactors_lab : AxisFactors 100.0 1.25 := by
  constructor <;> decide +kernel

theorem axisFactors_oklab : AxisFactors 1.0 0.004 := by
  constructor <;> decide +kernel

theorem axes_gives {space : Space} {top axisPercent : Float} (h : AxisFactors top axisPercent) :
    Gives (axes space top axisPercent) Color.Proper :=
  have haxis := component_gives isFactor_one h.axis
  spaced_gives (clamped_gives isFactor_one h.lightness h.largest) haxis haxis

theorem polar_gives {space : Space} {top axisPercent : Float} (h : AxisFactors top axisPercent) :
    Gives (polar space top axisPercent) Color.Proper :=
  spaced_gives (clamped_gives isFactor_one h.lightness h.largest) (raised_gives isFactor_one h.axis)
    angle_gives

theorem arguments?_gives {name : String} {arguments : Step Color}
    (h : arguments? name = some arguments) : Gives arguments Color.Proper := by
  have hplain : Gives (component 1.0 1.0) IsWideNumber :=
    component_gives isFactor_one isFactor_one
  unfold arguments? at h
  split at h <;> cases h
  -- In the order of the definition: bytes, axes, polar spaces, hues and `color()`.
  case h_1 | h_2 =>
    have hbyte : Gives (clamp 0.0 1.0 <$> component (1.0 / 255.0) 0.01) IsWideNumber :=
      clamped_gives (by decide +kernel) isFactor_hundredth isNaN_one
    exact listed_gives (by rintro _ ⟨⟩) _ hbyte hbyte hbyte
  case h_3 => exact axes_gives axisFactors_lab
  case h_4 => exact polar_gives axisFactors_lab
  case h_5 => exact axes_gives axisFactors_oklab
  case h_6 => exact polar_gives axisFactors_oklab
  case h_7 | h_8 => exact listed_gives (by rintro _ ⟨⟩) _ angle_gives hplain hplain
  case h_9 => exact spaced_gives angle_gives hplain hplain
  case h_10 =>
    have hpart : Gives (component 1.0 0.01) IsWideNumber :=
      component_gives isFactor_one isFactor_hundredth
    refine gives_true.bind fun _ _ => gives_true.bind fun w _ => ?_
    split
    · split
      · exact spaced_gives hpart hpart hpart
      · exact gives_throw
    · exact gives_throw

theorem hex_gives : Gives hex Color.Proper := by
  have hbytes : ∀ red green blue opacity, (ofBytes red green blue opacity .bytes).Proper :=
    fun _ _ _ _ => proper_ofBytes _ _ _ _ (by rintro _ ⟨⟩)
  refine gives_true.bind fun digits _ => ?_
  split
  · exact gives_pure (hbytes _ _ _ _)
  · exact gives_pure (hbytes _ _ _ _)
  · exact gives_pure (hbytes _ _ _ _)
  · exact gives_pure (hbytes _ _ _ _)
  · exact gives_throw

/-- **What is read is a color of numbers.** -/
theorem leading_gives : Gives leading Color.Proper := by
  have hnever : ∀ fault, Gives (throw fault : Step PUnit) fun _ => False := fun _ => gives_throw
  refine gives_true.bind fun hash _ => ?_
  split
  · exact hex_gives
  · refine gives_true.bind fun w _ => ?_
    split
    · rename_i w
      simp only
      split
      · rename_i red green blue hname
        refine gives_pure (proper_ofBytes _ _ _ _ ?_)
        rintro _ ⟨⟩
        exact ⟨hname, rfl⟩
      · split
        · rename_i arguments harguments
          refine gives_true.bind fun opened _ => ?_
          split
          · exact arguments?_gives harguments
          · exact (hnever _).bind fun _ h => h.elim
        · exact gives_throw
    · exact gives_throw

end Reader

/-- **What a text is read as is a color of numbers.** -/
theorem proper_of_read {s : String} {c : Color} (h : read s = .ok c) : c.Proper := by
  unfold read at h
  cases hrun : Reader.leading.run (Reader.trim s.toList) with
  | error fault =>
    rw [hrun] at h
    cases h
  | ok result =>
    obtain ⟨color, rest⟩ := result
    rw [hrun] at h
    have hread : (if rest.isEmpty then pure color else throw .trailing) = Except.ok (ε := Malformed) c := h
    split at hread
    · cases hread
      exact Reader.leading_gives _ _ _ hrun
    · cases hread

/-! ## 3. The library -/

/-- What there is about a color besides its components. -/
abbrev Tag : Type := Space × Mark

/-- The components of a color. -/
def parts (c : Color) : Components := ⟨c.first, c.second, c.third, c.opacity⟩

section

variable (c : Color)

@[simp] theorem parts_first : c.parts.first = c.first := rfl

@[simp] theorem parts_second : c.parts.second = c.second := rfl

@[simp] theorem parts_third : c.parts.third = c.third := rfl

@[simp] theorem parts_opacity : c.parts.opacity = c.opacity := rfl

@[simp] theorem parts_isFaint : c.parts.isFaint = decide (c.alpha < 1.0) := rfl

end

/-- How the colors with a tag are written. -/
def Tag.form : Tag → Form
  | (_, .name name) => .name name
  | (_, .bytes) => .parts (fun faint => if faint then "rgba(" else "rgb(") ", " ", " true
  | (space, .components) =>
    .parts (fun _ => space.form.1 ++ "(" ++ (space.form.2.elim "" fun name => name ++ " ")) " " " / "
      false

/-- Colors are compared component by component. -/
theorem sameComponent_eq (x y : Component) : sameComponent x y = x.agrees y := by
  cases x <;> cases y <;> rfl

/-- **Equal colors have one tag, and components that agree.** -/
theorem beq_iff {a b : Color} : (a == b) = true ↔
    (a.space, a.mark) = (b.space, b.mark) ∧ a.parts.agrees b.parts = true := by
  change Color.beq a b = true ↔ _
  simp only [Color.beq, parts, Components.agrees, sameComponent_eq, Bool.and_eq_true, beq_iff_eq,
    Prod.mk.injEq, and_assoc]

theorem componentText_eq (scale : Float32) (x : Component) : componentText scale x = x.text scale := by
  cases x <;> rfl

/-- **The text follows the form.** -/
theorem text_eq_form (c : Color) : c.text = (Tag.form (c.space, c.mark)).text c.parts := by
  unfold text
  cases hmark : c.mark with
  | name name => rfl
  | bytes =>
    simp [Tag.form, Form.text, Form.ending, componentText_eq, String.append_assoc]
  | components =>
    cases hform : c.space.form with
    | mk function space? =>
      cases space? <;>
        simp [Tag.form, Form.text, Form.ending, hform, componentText_eq, String.append_assoc]

/-- Colors that were written by one name are the same. -/
theorem Proper.eq_of_named {a b : Color} (ha : a.Proper) (hb : b.Proper) {name : String}
    (hmark : a.mark = .name name) (hmark' : b.mark = .name name) : a = b := by
  obtain ⟨red, green, blue, hbytes, hmade⟩ := ha.named name hmark
  obtain ⟨red', green', blue', hbytes', hmade'⟩ := hb.named name hmark'
  obtain ⟨rfl, rfl, rfl⟩ : red = red' ∧ green = green' ∧ blue = blue' := by
    simpa [hbytes] using hbytes'
  exact hmade.trans hmade'.symm

theorem proper_of_readCss {s : String} {c : Color}
    (h : (read s).mapError Malformed.message = .ok c) : c.Proper := by
  cases hread : read s with
  | error malformed =>
    rw [hread] at h
    cases h
  | ok d =>
    rw [hread] at h
    cases h
    exact proper_of_read hread

theorem Tag.mark_of_form {tag : Tag} {name : String} (h : tag.form = .name name) :
    tag.2 = .name name := by
  obtain ⟨space, mark⟩ := tag
  cases mark <;> cases h
  rfl

/-- **The colors of style sheets,** as a library: how they are read, compared and written, and what
is relied on of that.  The instance of `Color.Notation` that the program is run with reads and
writes by the same two functions. -/
def css : Library Color where
  read s := (read s).mapError Malformed.message
  withAlpha := withAlpha
  equal a b := a == b
  text := text
  Tag := Tag
  tag c := (c.space, c.mark)
  components := parts
  form := Tag.form
  tag_ext := by
    rintro ⟨⟩ ⟨⟩ ⟨⟩ ⟨⟩
    rfl
  equal_iff := beq_iff
  text_eq := text_eq_form
  numbers_of_read h :=
    have hproper := proper_of_readCss h
    ⟨hproper.first, hproper.second, hproper.third, hproper.opacity⟩
  named_of_read {s s' a b name} h h' htag hname := by
    have hmark : a.mark = .name name := Tag.mark_of_form hname
    have hmark' : b.mark = .name name := (Prod.mk.inj htag).2.symm.trans hmark
    exact congrArg parts ((proper_of_readCss h).eq_of_named
      (proper_of_readCss h') hmark hmark')
  components_withAlpha c alpha := by
    unfold withAlpha
    split
    · exact .inl rfl
    · exact .inr rfl
  unnamed_withAlpha c alpha := by
    unfold withAlpha
    split
    · exact .inl rfl
    · exact .inr nofun

/-! ## 4. Black with two zeros -/

/-- Black in the space of red, green and blue, with a zero of this sign for red. -/
def blackWith (zero : Float32) : Color where
  space := .srgb
  mark := .components
  first := some zero
  second := some 0.0
  third := some 0.0
  opacity := some 1.0

/-- Whether two colors are the same can be decided; to be equal is less. -/
instance : DecidableEq Color := fun a b =>
  decidable_of_iff (a.space = b.space ∧ a.mark = b.mark ∧ a.first = b.first ∧ a.second = b.second ∧
    a.third = b.third ∧ a.opacity = b.opacity) (by cases a; cases b; simp)

theorem read_blackWith_zero : css.read "color(srgb 0 0 0)" = .ok (blackWith 0.0) := by
  decide +kernel

theorem read_blackWith_minusZero : css.read "color(srgb -0 0 0)" = .ok (blackWith (-0.0)) := by
  decide +kernel

theorem obtained_blackWith_zero : css.Obtained (blackWith 0.0) := .read read_blackWith_zero

theorem obtained_blackWith_minusZero : css.Obtained (blackWith (-0.0)) :=
  .read read_blackWith_minusZero

theorem equality_blackWith :
    (css.Obtained (blackWith 0.0) ∧ css.Obtained (blackWith (-0.0)) ∧
      ∀ c ∈ [blackWith 0.0], css.Obtained c) ∧
    css.equal (blackWith 0.0) (blackWith 0.0) = true ∧
    (css.equal (blackWith 0.0) (blackWith (-0.0)) = true ↔
      css.tag (blackWith 0.0) = css.tag (blackWith (-0.0)) ∧
        (css.components (blackWith 0.0)).signless = (css.components (blackWith (-0.0))).signless) ∧
    (css.equal (blackWith 0.0) (blackWith (-0.0)) = true →
      (css.text (blackWith 0.0) = css.text (blackWith (-0.0)) ↔
        blackWith 0.0 = blackWith (-0.0))) ∧
    ((∀ hash, css.foundIn hash [blackWith 0.0] (blackWith (-0.0)) = true) ↔
      blackWith (-0.0) ∈ [blackWith 0.0]) := by
  have hentries : ∀ c ∈ [blackWith 0.0], css.Obtained c := by
    rintro c hc
    exact List.mem_singleton.mp hc ▸ obtained_blackWith_zero
  exact ⟨⟨obtained_blackWith_zero, obtained_blackWith_minusZero, hentries⟩,
    Library.equality obtained_blackWith_zero obtained_blackWith_minusZero hentries⟩

/-- Two texts can be read as colors that are equal, are written differently and hence need not be found
in place of each other. -/
theorem equal_with_two_texts :
    css.read "color(srgb 0 0 0)" = .ok (blackWith 0.0) ∧
    css.read "color(srgb -0 0 0)" = .ok (blackWith (-0.0)) ∧
    css.equal (blackWith 0.0) (blackWith (-0.0)) = true ∧
    css.text (blackWith 0.0) = "color(srgb 0 0 0)" ∧
    css.text (blackWith (-0.0)) = "color(srgb -0 0 0)" ∧
    ∃ hash, css.foundIn hash [blackWith 0.0] (blackWith (-0.0)) = false := by
  refine ⟨read_blackWith_zero, read_blackWith_minusZero, by decide +kernel, by decide +kernel,
    by decide +kernel, fun s => if s = "color(srgb 0 0 0)" then 1 else 0, ?_⟩
  decide +kernel

end Railroad.Color
