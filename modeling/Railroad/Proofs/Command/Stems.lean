/-
# Names for files, one after the other

A namer is asked for one name after the other.  What it hands out is never the same twice, can stand
in a file name, and is the name itself if that is free (`FileNamer.stems_handed`).

If it is taken, a number is put behind it.  The search for that number goes on turn by turn
(`Search.turn`): the name becomes shorter while there is no room for the number, and what is taken gives
way to the next number.  Nothing limits the turns, but the search ends, with the first number that is
free (`ends_firstFree`).  A number that is longer than the limit stands alone, and is not reached before
all numbers that are just as long as the limit have been handed out.

Names are told apart by their letters, and small letters are not capital ones.  Where case is ignored
two names can be the same, but only if the names they were made from are written in different case
(`FileNamer.stems_sameLetters_iff`).

`Search.turn` is the loop of `FileNamer` as it is written, with its two ways of going on, while
`firstFree` counts through the numbers with the shortening worked out.  `ends_firstFree` says that
the first comes to the end that the second finds; that there is such an end is in
`Railroad.Proofs.Command.FileName`.  So what is known of `firstFree` is known of the loop, and the
loop is known to end.

The last part asks when two names differ in case only.  Both were then made by cutting their names
at some place and putting a number behind, and a number has no case, so the question comes down to
the beginnings of the names that they were asked for.
-/
import Mathlib.Data.List.Induction
import Railroad.Proofs.Command.FileName

namespace Railroad

namespace FileNamer

variable {limit : Nat} {earlier : List String} {name stem : String}

/-! ## 1. The search for a number, turn by turn -/

/-- **Where a search stands:** what is left of the name, and the number to be put behind it. -/
structure Search where
  base : List Char
  number : Nat

namespace Search

/-- **A turn of a search,** after `earlier` were handed out.  Where there is no room for the number
the name loses a character; when it has none left, the number stands alone.  A name that is taken
gives way to the next number.  This is the body of the loop, with no bound on how often it is gone
through. -/
def turn (limit : Nat) (earlier : List String) (s : Search) : Search ⊕ String :=
  let digits := (Nat.repr s.number).toList
  if limit < s.base.length + digits.length ∧ s.base ≠ [] then .inl ⟨s.base.dropLast, s.number⟩
  else if String.ofList (s.base ++ digits) ∈ earlier then .inl ⟨s.base, s.number + 1⟩
  else .inr (String.ofList (s.base ++ digits))

/-- **A search comes to its end** with a name.  There is no rule for a search that goes on for ever,
so such a search would have no end. -/
inductive Ends (limit : Nat) (earlier : List String) : Search → String → Prop where
  | found {s : Search} {stem : String} (h : s.turn limit earlier = .inr stem) :
    Ends limit earlier s stem
  | next {s s' : Search} {stem : String} (h : s.turn limit earlier = .inl s')
    (rest : Ends limit earlier s' stem) : Ends limit earlier s stem

/-- A search looks at nothing but what is taken. -/
theorem turn_of_perm {earlier' : List String} (h : earlier.Perm earlier') (s : Search) :
    s.turn limit earlier = s.turn limit earlier' := by
  simp only [turn, h.mem_iff]

theorem Ends.of_perm {earlier' : List String} (h : earlier.Perm earlier') {s : Search}
    (hends : Ends limit earlier s stem) : Ends limit earlier' s stem := by
  induction hends with
  | found hturn => exact .found (turn_of_perm h _ ▸ hturn)
  | next hturn _ ih => exact .next (turn_of_perm h _ ▸ hturn) ih

/-- A search has one end. -/
theorem Ends.unique {s : Search} (h : Ends limit earlier s stem) {other : String}
    (h' : Ends limit earlier s other) : other = stem := by
  induction h with
  | found hturn =>
    cases h' with
    | found hturn' => exact Sum.inr.inj (hturn'.symm.trans hturn)
    | next hturn' _ => cases hturn'.symm.trans hturn
  | next hturn _ ih =>
    cases h' with
    | found hturn' => cases hturn'.symm.trans hturn
    | next hturn' rest =>
      obtain rfl := Sum.inl.inj (hturn'.symm.trans hturn)
      exact ih rest

/-- **The name becomes as short as the number needs it.** -/
theorem Ends.shorten {base : List Char} {n : Nat}
    (h : Ends limit earlier ⟨base.take (limit - (Nat.repr n).toList.length), n⟩ stem) :
    Ends limit earlier ⟨base, n⟩ stem := by
  induction base using List.reverseRecOn with
  | nil => rwa [List.take_nil] at h
  | append_singleton base c ih =>
    by_cases hroom : limit < (base ++ [c]).length + (Nat.repr n).toList.length
    · have hturn : (⟨base ++ [c], n⟩ : Search).turn limit earlier = .inl ⟨base, n⟩ := by
        rw [turn, if_pos ⟨hroom, List.concat_ne_nil c base⟩, List.dropLast_concat]
      rw [List.length_append, List.length_singleton] at hroom
      rw [List.take_append_of_le_length (by omega)] at h
      exact .next hturn (ih h)
    · rwa [List.take_of_length_le (by omega)] at h

/-- A turn with a name that leaves room for the number. -/
theorem turn_numbered (base : List Char) (n : Nat) :
    (⟨base.take (limit - (Nat.repr n).toList.length), n⟩ : Search).turn limit earlier
      = if numbered limit base n ∈ earlier then
          .inl ⟨base.take (limit - (Nat.repr n).toList.length), n + 1⟩
        else .inr (numbered limit base n) := by
  rw [turn, if_neg]
  · rfl
  · rintro ⟨hroom, hne⟩
    have hlen := List.length_take_le (limit - (Nat.repr n).toList.length) base
    have hpos : 0 < (base.take (limit - (Nat.repr n).toList.length)).length :=
      List.length_pos_of_ne_nil hne
    simp only at hroom
    omega

end Search

theorem length_repr_mono (n : Nat) :
    (Nat.repr n).toList.length ≤ (Nat.repr (n + 1)).toList.length := by
  have hpos : 0 < (Nat.repr (n + 1)).toList.length := by
    rw [Nat.toList_repr]
    exact Nat.length_toDigits_pos
  have hlt := (length_repr_le_iff hpos).mp (Nat.le_refl _)
  exact (length_repr_le_iff hpos).mpr (by omega)

/-- **The search ends with what is free,** from any number on and with all of the name that the number
leaves room for. -/
theorem ends_firstFree (base : List Char) : ∀ fuel n k, limit - (Nat.repr n).toList.length ≤ k →
    firstFree earlier (numbered limit base) fuel n ∉ earlier →
    Search.Ends limit earlier ⟨base.take k, n⟩ (firstFree earlier (numbered limit base) fuel n) := by
  intro fuel
  induction fuel with
  | zero =>
    intro n k hk hfree
    refine .shorten ?_
    rw [List.take_take, Nat.min_eq_left hk]
    rw [firstFree] at hfree ⊢
    exact .found (by rw [Search.turn_numbered, if_neg hfree])
  | succ fuel ih =>
    intro n k hk hfree
    refine .shorten ?_
    rw [List.take_take, Nat.min_eq_left hk]
    rw [firstFree] at hfree ⊢
    split at hfree
    case isTrue htaken =>
      rw [if_pos htaken]
      have hmem : numbered limit base n ∈ earlier := by simpa using htaken
      have hmono := length_repr_mono n
      refine .next (by rw [Search.turn_numbered, if_pos hmem]) (ih (n + 1) _ (by omega) hfree)
    case isFalse hnew =>
      rw [if_neg hnew]
      exact .found (by rw [Search.turn_numbered, if_neg hfree])

/-! ## 2. What is handed out -/

/-- **A request is answered:** by the name itself if that is free, or else by what the search for a
number ends with.  What is handed out depends on what was handed out before, but not on the order.
-/
inductive Answers (limit : Nat) (earlier : List String) (name : String) : String → Prop where
  | plain (free : plain limit name ∉ earlier) : Answers limit earlier name (plain limit name)
  | numbered {stem : String} (taken : FileNamer.plain limit name ∈ earlier)
    (ends : Search.Ends limit earlier ⟨(sanitize name).take limit, 0⟩ stem) :
    Answers limit earlier name stem

theorem Answers.unique (h : Answers limit earlier name stem) {other : String}
    (h' : Answers limit earlier name other) : other = stem := by
  cases h with
  | plain hfree =>
    cases h' with
    | plain _ => rfl
    | numbered htaken _ => exact absurd htaken hfree
  | numbered htaken hends =>
    cases h' with
    | plain hfree => exact absurd htaken hfree
    | numbered _ hends' => exact hends.unique hends'

theorem answers_choose (namer : FileNamer) (name : String) :
    Answers namer.limit namer.used name (namer.choose name) := by
  by_cases h : plain namer.limit name ∈ namer.used
  · have hfree := namer.choose_not_mem name
    rw [choose_of_taken h] at hfree ⊢
    have hends := ends_firstFree _ _ 0 namer.limit (Nat.sub_le _ _) hfree
    rw [List.take_take, Nat.min_self] at hends
    exact .numbered h hends
  · rw [choose_of_free h]
    exact .plain h

theorem sanitize_ne_nil (name : String) : sanitize name ≠ [] := by
  rw [sanitize]
  split
  · decide
  · rename_i hname
    simpa [String.isEmpty_iff] using hname

/-- Something is handed out, even where there is hardly any room. -/
theorem choose_ne_empty {namer : FileNamer} (hlimit : 0 < namer.limit) (name : String) :
    namer.choose name ≠ "" := by
  intro hempty
  rcases namer.choose_cases name with ⟨-, hchoose⟩ | ⟨-, n, hchoose, -⟩
  · rw [hchoose, plain, String.ofList_eq_empty_iff, List.take_eq_nil_iff] at hempty
    rcases hempty with hzero | hnil
    · omega
    · exact sanitize_ne_nil name hnil
  · rw [hchoose, numbered, String.ofList_eq_empty_iff, Nat.toList_repr] at hempty
    exact List.append_ne_nil_of_right_ne_nil _ Nat.toDigits_ne_nil hempty

/-- **A name is longer than the limit** only if all numbers that are as long as the limit have been handed
out, and then it is a number. -/
theorem choose_long {namer : FileNamer} (hlimit : 0 < namer.limit) {name : String}
    (h : namer.limit < (namer.choose name).length) :
    9 * 10 ^ (namer.limit - 1) ≤ namer.used.length ∧ ∃ n, namer.choose name = Nat.repr n := by
  rcases namer.choose_cases name with ⟨-, hchoose⟩ | ⟨-, n, hchoose, hbefore⟩
  · have hle := List.length_take_le namer.limit (sanitize name)
    rw [hchoose, plain, String.length_ofList] at h
    omega
  · have hlong : namer.limit < (Nat.repr n).toList.length := by
      have hle := List.length_take_le (namer.limit - (Nat.repr n).toList.length)
        ((sanitize name).take namer.limit)
      rw [hchoose, numbered, String.length_ofList, List.length_append] at h
      omega
    have hn : 10 ^ namer.limit ≤ n := by
      by_contra hlt
      have hle := (length_repr_le_iff hlimit).mpr (Nat.not_le.mp hlt)
      omega
    constructor
    · obtain ⟨k, hk⟩ : ∃ k, namer.limit = k + 1 := ⟨namer.limit - 1, by omega⟩
      have hpow : 10 ^ (k + 1) = 10 * 10 ^ k := by rw [Nat.pow_succ, Nat.mul_comm]
      rw [hk, hpow] at hn
      rw [hk, Nat.add_sub_cancel]
      exact le_length_of_taken (Nat.le_refl (10 ^ k)) (by omega)
        fun j hj => hbefore _ (by omega)
    · refine ⟨n, ?_⟩
      rw [hchoose, numbered, Nat.sub_eq_zero_of_le (Nat.le_of_lt hlong), List.take_zero,
        List.nil_append, String.ofList_toList]

/-- **What is handed out** for a name, after `earlier`. -/
structure Handed (limit : Nat) (earlier : List String) (name stem : String) : Prop where
  /-- The request comes to an end, and in one way. -/
  answers : ∀ other, Answers limit earlier name other ↔ other = stem
  ne_empty : stem ≠ ""
  safe : Safe stem.toList
  plain : plain limit name ∉ earlier → stem = plain limit name
  long : limit < stem.length → 9 * 10 ^ (limit - 1) ≤ earlier.length ∧ ∃ n, stem = Nat.repr n

theorem handed_choose {namer : FileNamer} (hlimit : 0 < namer.limit) (name : String) :
    Handed namer.limit namer.used name (namer.choose name) where
  answers other := by
    constructor
    · exact (namer.answers_choose name).unique
    · rintro rfl
      exact namer.answers_choose name
  ne_empty := choose_ne_empty hlimit name
  safe := namer.safe_choose name
  plain := choose_of_free
  long := choose_long hlimit

/-! ## 3. One name after the other -/

/-- **What is handed out for some names,** one after the other. -/
def stems (namer : FileNamer) : List String → List String
  | [] => []
  | name :: names => (namer.next name).1 :: stems (namer.next name).2 names

theorem length_stems (namer : FileNamer) (names : List String) :
    (namer.stems names).length = names.length := by
  induction names generalizing namer with
  | nil => rfl
  | cons name names ih => rw [stems, List.length_cons, ih, List.length_cons]

/-- The namer afterwards. -/
def after (namer : FileNamer) (names : List String) : FileNamer :=
  { namer with used := (namer.stems names).reverse ++ namer.used }

theorem stems_append (namer : FileNamer) (names names' : List String) :
    namer.stems (names ++ names') = namer.stems names ++ (namer.after names).stems names' := by
  induction names generalizing namer with
  | nil => rfl
  | cons name names ih =>
    have hafter : (namer.next name).2.after names = namer.after (name :: names) := by
      simp [after, next, stems]
    rw [List.cons_append, stems, stems, ih, hafter, List.cons_append]

/-- **Nothing is handed out twice.** -/
theorem nodup_stems (namer : FileNamer) (names : List String) :
    (namer.stems names).Nodup ∧ ∀ stem ∈ namer.stems names, stem ∉ namer.used := by
  induction names generalizing namer with
  | nil => exact ⟨List.nodup_nil, List.forall_mem_nil _⟩
  | cons name names ih =>
    obtain ⟨hnodup, hnew⟩ := ih (namer.next name).2
    refine ⟨List.nodup_cons.mpr ⟨fun hmem => hnew _ hmem List.mem_cons_self, hnodup⟩,
      List.forall_mem_cons.mpr ⟨namer.choose_not_mem name, fun stem hstem hused => ?_⟩⟩
    exact hnew stem hstem (List.mem_cons_of_mem _ hused)

theorem Handed.of_perm {earlier' : List String} (hperm : earlier.Perm earlier')
    (h : Handed limit earlier name stem) : Handed limit earlier' name stem where
  answers other := by
    rw [← h.answers other]
    constructor
    · rintro (hfree | ⟨htaken, hends⟩)
      · exact .plain (hperm.mem_iff.not.mpr hfree)
      · exact .numbered (hperm.mem_iff.mpr htaken) (hends.of_perm hperm.symm)
    · rintro (hfree | ⟨htaken, hends⟩)
      · exact .plain (hperm.mem_iff.not.mp hfree)
      · exact .numbered (hperm.mem_iff.mp htaken) (hends.of_perm hperm)
  ne_empty := h.ne_empty
  safe := h.safe
  plain hfree := h.plain (hperm.mem_iff.not.mpr hfree)
  long hlong := hperm.length_eq ▸ h.long hlong

/-- **Names that are handed out one after the other** differ from each other, and each is what a
request for its name comes to, after those before it.

Nothing is assumed about the limit, not even that it leaves room for a letter, nor about the names,
which may be empty, equal, or made of nothing but characters that a file name cannot have. -/
theorem stems_handed (limit : Nat) (names : List String) :
    ((ofLimit limit).stems names).Nodup ∧
    ((ofLimit limit).stems names).length = names.length ∧
    ∀ before name behind, names = before ++ name :: behind → ∃ stem later,
      (ofLimit limit).stems names = (ofLimit limit).stems before ++ stem :: later ∧
      Handed (max limit 1) ((ofLimit limit).stems before) name stem := by
  refine ⟨(nodup_stems _ names).1, length_stems _ names, ?_⟩
  rintro before name behind rfl
  have hlimit : 0 < ((ofLimit limit).after before).limit :=
    Nat.lt_of_lt_of_le Nat.one_pos (Nat.le_max_right limit 1)
  have hhanded : Handed (max limit 1) ((ofLimit limit).after before).used name
      (((ofLimit limit).after before).choose name) := handed_choose hlimit name
  have hperm : ((ofLimit limit).after before).used.Perm ((ofLimit limit).stems before) := by
    rw [after, ofLimit, List.append_nil]
    exact List.reverse_perm _
  exact ⟨_, _, stems_append _ before (name :: behind), hhanded.of_perm hperm⟩

/-- A single character of room is soon used up: ten numbers fit it, and then numbers have to be longer. -/
example : (ofLimit 1).stems (List.replicate 12 "a")
    = ["a", "0", "1", "2", "3", "4", "5", "6", "7", "8", "9", "10"] := by decide

/-! ## 4. Small and capital letters -/

/-- The same but for the case of letters. -/
def SameLetters (s t : List Char) : Prop := s.map Char.toLower = t.map Char.toLower

instance (s t : List Char) : Decidable (SameLetters s t) :=
  inferInstanceAs (Decidable (s.map Char.toLower = t.map Char.toLower))

/-- **Names differ in case.**  Where case is ignored, names that are handed out can be the same. -/
theorem stems_sameLetters : ¬ ∀ (limit : Nat) (names : List String),
    ((ofLimit limit).stems names).Pairwise fun s t => ¬ SameLetters s.toList t.toList := by
  intro h
  have hstems : (ofLimit 64).stems ["Expr", "expr"] = ["Expr", "expr"] := by decide
  have hpair := h 64 ["Expr", "expr"]
  rw [hstems] at hpair
  exact absurd hpair (by decide)

/-- A digit is no letter. -/
theorem eq_of_toLower_eq {c d : Char} (hc : c.isDigit = true) (h : c.toLower = d.toLower) :
    d = c := by
  have h0 : '0'.val.toNat = 48 := rfl
  have h9 : '9'.val.toNat = 57 := rfl
  have hA : 'A'.val.toNat = 65 := rfl
  have hZ : 'Z'.val.toNat = 90 := rfl
  have hshift : ('a'.val - 'A'.val).toNat = 32 := rfl
  simp only [Char.isDigit, Bool.and_eq_true, decide_eq_true_eq, ge_iff_le,
    UInt32.le_iff_toNat_le] at hc
  have hsmall : ¬ (c.val ≥ 'A'.val ∧ c.val ≤ 'Z'.val) := by
    rw [ge_iff_le, UInt32.le_iff_toNat_le]
    omega
  unfold Char.toLower at h
  rw [dif_neg hsmall] at h
  split at h
  case isTrue hcapital =>
    have hval := congrArg (fun e : Char => e.val.toNat) h
    simp only [ge_iff_le, UInt32.le_iff_toNat_le, UInt32.toNat_add] at hcapital hval
    omega
  case isFalse => exact h.symm

namespace SameLetters

variable {s t number : List Char}

theorem symm (h : SameLetters s t) : SameLetters t s := Eq.symm h

/-- **A number is written in one way.** -/
theorem eq_of_digits (hdigits : ∀ c ∈ number, c.isDigit = true) (h : SameLetters number t) :
    t = number := by
  induction number generalizing t with
  | nil => exact List.map_eq_nil_iff.mp h.symm
  | cons c number ih =>
    obtain ⟨hc, hnumber⟩ := List.forall_mem_cons.mp hdigits
    cases t with
    | nil => cases h
    | cons d t =>
      obtain ⟨hfirst, hrest⟩ := List.cons.inj h
      rw [eq_of_toLower_eq hc hfirst, ih hnumber hrest]

end SameLetters

/-- **A stem is a beginning of its name with a number behind it.**  Where the name itself is handed out
the number has no digits. -/
structure BeginsAs (limit : Nat) (name stem : String) (k : Nat) (number : List Char) : Prop where
  le : k ≤ limit
  digits : ∀ c ∈ number, c.isDigit = true
  toList_eq : stem.toList = (sanitize name).take k ++ number

theorem choose_beginsAs (namer : FileNamer) (name : String) :
    ∃ k number, BeginsAs namer.limit name (namer.choose name) k number := by
  rcases namer.choose_cases name with ⟨-, hchoose⟩ | ⟨-, n, hchoose, -⟩
  · refine ⟨namer.limit, [], Nat.le_refl _, List.forall_mem_nil _, ?_⟩
    rw [hchoose, plain, String.toList_ofList, List.append_nil]
  · refine ⟨min (namer.limit - (Nat.repr n).toList.length) namer.limit, (Nat.repr n).toList,
      Nat.min_le_right _ _, fun c hc => ?_, ?_⟩
    · rw [Nat.toList_repr] at hc
      exact Nat.isDigit_of_mem_toDigits (by omega) (by omega) hc
    · rw [hchoose, numbered, String.toList_ofList, List.take_take]

/-- **Two stems that are the same but for case** have the same number behind beginnings that are.  They
are the beginnings of both names that are as long as the shorter one: what the other stem goes on with is
the number, which has no case. -/
theorem BeginsAs.of_sameLetters {name' stem' : String} {k k' : Nat} {number number' : List Char}
    (h : BeginsAs limit name stem k number) (h' : BeginsAs limit name' stem' k' number')
    (hle : ((sanitize name).take k).length ≤ ((sanitize name').take k').length)
    (hsame : SameLetters stem.toList stem'.toList) :
    ∃ i, BeginsAs limit name stem i number ∧ BeginsAs limit name' stem' i number ∧
      SameLetters ((sanitize name).take i) ((sanitize name').take i) := by
  obtain ⟨i, hi⟩ : ∃ i, ((sanitize name).take k).length = i := ⟨_, rfl⟩
  have hshort : (sanitize name).take k = (sanitize name).take i := by
    rw [← hi, List.length_take, ← List.take_take, List.take_length]
  have hlong : (sanitize name').take k'
      = (sanitize name').take i ++ ((sanitize name').take k').drop i := by
    have hk' := List.length_take_le k' (sanitize name')
    conv_lhs => rw [← List.take_append_drop i ((sanitize name').take k')]
    rw [List.take_take, Nat.min_eq_left (by omega)]
  have htake : i ≤ k := hi ▸ List.length_take_le _ _
  have hstem := h.toList_eq
  have hstem' := h'.toList_eq
  rw [hshort] at hstem hi
  rw [hlong, List.append_assoc] at hstem'
  rw [hstem, hstem', SameLetters, List.map_append, List.map_append] at hsame
  obtain ⟨hbegin, hend⟩ := List.append_inj hsame (by
    rw [hlong, List.length_append] at hle
    simp only [List.length_map, List.length_take, List.length_drop] at hi hle ⊢
    omega)
  have hnumber := SameLetters.eq_of_digits h.digits hend
  rw [hnumber] at hstem'
  have hle' := htake.trans h.le
  exact ⟨i, ⟨hle', h.digits, hstem⟩, ⟨hle', h.digits, hstem'⟩, hbegin⟩

theorem beginsAs_of_mem_zip (namer : FileNamer) (names : List String) :
    ∀ x ∈ names.zip (namer.stems names), ∃ k number, BeginsAs namer.limit x.1 x.2 k number := by
  induction names generalizing namer with
  | nil => exact List.forall_mem_nil _
  | cons name names ih =>
    exact List.forall_mem_cons.mpr ⟨namer.choose_beginsAs name, ih (namer.next name).2⟩

/-- **Two stems are the same but for case** exactly if they have the same number behind beginnings
of their names that differ in nothing but case.

This is all that can happen.  On a disk that takes small and capital letters for the same, one of
two such files is written over the other. -/
theorem stems_sameLetters_iff (limit : Nat) (names : List String) :
    (names.zip ((ofLimit limit).stems names)).Pairwise fun x y =>
      SameLetters x.2.toList y.2.toList ↔ ∃ k number,
        BeginsAs (max limit 1) x.1 x.2 k number ∧ BeginsAs (max limit 1) y.1 y.2 k number ∧
        SameLetters ((sanitize x.1).take k) ((sanitize y.1).take k) ∧
        (sanitize x.1).take k ≠ (sanitize y.1).take k := by
  have hdiffer : (names.zip ((ofLimit limit).stems names)).Pairwise fun x y => x.2 ≠ y.2 := by
    rw [← List.pairwise_map, List.map_snd_zip (length_stems _ names).le]
    exact (nodup_stems _ names).1
  refine hdiffer.imp_of_mem fun {x y} hx hy hne => ⟨fun hsame => ?_, ?_⟩
  · obtain ⟨k, number, hbegins⟩ := beginsAs_of_mem_zip _ names x hx
    obtain ⟨k', number', hbegins'⟩ := beginsAs_of_mem_zip _ names y hy
    obtain ⟨i, digits, h, h', hletters⟩ : ∃ i digits, BeginsAs (max limit 1) x.1 x.2 i digits ∧
        BeginsAs (max limit 1) y.1 y.2 i digits ∧
        SameLetters ((sanitize x.1).take i) ((sanitize y.1).take i) := by
      rcases Nat.le_total ((sanitize x.1).take k).length ((sanitize y.1).take k').length with
        hle | hle
      · obtain ⟨i, h, h', hletters⟩ := hbegins.of_sameLetters hbegins' hle hsame
        exact ⟨i, number, h, h', hletters⟩
      · obtain ⟨i, h', h, hletters⟩ := hbegins'.of_sameLetters hbegins hle hsame.symm
        exact ⟨i, number', h, h', hletters.symm⟩
    refine ⟨i, digits, h, h', hletters, fun heq => hne (String.toList_injective ?_)⟩
    rw [h.toList_eq, h'.toList_eq, heq]
  · rintro ⟨k, number, h, h', hletters, -⟩
    rw [h.toList_eq, h'.toList_eq, SameLetters, List.map_append, List.map_append, hletters]

end FileNamer

end Railroad
