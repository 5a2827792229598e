import Stylesheet.Proofs.Mixins

set_option autoImplicit false

namespace Stylesheet

namespace Reference

/-- A reference in a text: a dollar sign, and all characters of a name that follow it. -/
structure At (t before name after : Text) : Prop where
  split : t = before ++ ('$' :: name ++ after)
  nonempty : name ≠ []
  named : ∀ c ∈ name, isNameChar c
  ends : ∀ c ∈ after.head?, isNameChar c = false

/-- A text ends in a dollar sign and characters of a name, and another one goes on with the name. -/
def Straddles (a b : Text) : Prop :=
  (∃ c ∈ b.head?, isNameChar c) ∧
    ∃ before name, a = before ++ '$' :: name ∧ ∀ c ∈ name, isNameChar c

variable {a b t before name after : Text}

theorem ends_of_not_straddles (apart : ¬ Straddles (before ++ '$' :: name) b)
    (named : ∀ c ∈ name, isNameChar c) : ∀ c ∈ b.head?, isNameChar c = false := by
  intro c first
  cases isName : isNameChar c with
  | false => rfl
  | true => exact absurd ⟨⟨c, first, isName⟩, before, name, rfl, named⟩ apart

theorem not_straddles_of_ends (ends : ∀ c ∈ b.head?, isNameChar c = false) : ¬ Straddles a b := by
  rintro ⟨⟨c, first, isName⟩, -⟩
  rw [ends c first] at isName
  cases isName

/-- A character before a text that does not begin a reference. -/
theorem not_straddles_singleton {c : Char}
    (apart : c = '$' → ∀ d ∈ t.head?, isNameChar d = false) : ¬ Straddles [c] t := by
  rintro ⟨⟨d, first, isName⟩, before, name, split, -⟩
  have sign : c = '$' := by
    cases before with
    | nil => exact (List.cons.inj split).1
    | cons e before => simp at split
  rw [apart sign d first] at isName
  cases isName

theorem length_le (t : Text) : length t ≤ t.length := by
  unfold length
  split
  · rename_i t
    have inside : Text.countWhile isNameChar t ≤ t.length :=
      (List.takeWhile_prefix isNameChar).length_le
    rw [List.length_cons]
    split
    · omega
    · omega
  · omega

theorem countWhile_append (apart : ¬ Straddles ('$' :: a) b) :
    Text.countWhile isNameChar (a ++ b) = Text.countWhile isNameChar a := by
  rw [Text.countWhile, Text.countWhile, List.takeWhile_append]
  split
  · rename_i whole
    have all : a.takeWhile isNameChar = a :=
      (List.takeWhile_prefix isNameChar).eq_of_length whole
    have named : ∀ c ∈ a, isNameChar c := List.takeWhile_eq_self_iff.mp all
    have ends := ends_of_not_straddles (show ¬ Straddles ([] ++ '$' :: a) b from apart) named
    have stops : b.takeWhile isNameChar = [] := by
      cases b with
      | nil => rfl
      | cons d b => simp [ends d rfl]
    rw [stops, List.append_nil, all]
  · rfl

/-- No reference gets longer where two texts meet outside of it. -/
theorem length_append (apart : ¬ Straddles a b) {u : Text} (suffix : u <:+ a) (nonempty : u ≠ []) :
    length (u ++ b) = length u := by
  obtain ⟨c, u, rfl⟩ := List.exists_cons_of_ne_nil nonempty
  by_cases sign : c = '$'
  · subst sign
    obtain ⟨more, rfl⟩ := suffix
    have here : ¬ Straddles ('$' :: u) b := by
      rintro ⟨first, before, name, split, named⟩
      exact apart ⟨first, more ++ before, name, by rw [split, List.append_assoc], named⟩
    simp only [List.cons_append, length, countWhile_append here]
  · rw [List.cons_append, length_of_ne_sign sign, length_of_ne_sign sign]

/-- Two texts are resolved apart, the first one first. -/
theorem resolve_append {ε : Type} (lookup : Text → Except ε Text) (apart : ¬ Straddles a b) :
    resolve lookup (a ++ b) = do return (← resolve lookup a) ++ (← resolve lookup b) := by
  have divided := Text.pieces_append_of_length
    (fun u suffix nonempty => length_append apart (u := u) suffix nonempty) length_le
  unfold resolve
  rw [divided, List.mapM_append]
  cases (Text.pieces length a).mapM (resolvePiece lookup) with
  | error problem => rfl
  | ok parts =>
    cases (Text.pieces length b).mapM (resolvePiece lookup) with
    | error problem => rfl
    | ok more => exact congrArg Except.ok List.flatten_append

theorem resolve_singleton {ε : Type} (lookup : Text → Except ε Text) (c : Char) :
    resolve lookup [c] = .ok [c] := by
  rw [resolve, pieces_singleton]
  rfl

theorem resolve_name {ε : Type} (lookup : Text → Except ε Text) (nonempty : name ≠ [])
    (named : ∀ c ∈ name, isNameChar c) : resolve lookup ('$' :: name) = lookup ('$' :: name) := by
  have alone := pieces_of_name (t := []) nonempty named (by simp)
  rw [List.append_nil] at alone
  rw [resolve, alone, List.mapM_cons, resolvePiece]
  cases lookup ('$' :: name) with
  | error problem => rfl
  | ok value => exact congrArg Except.ok (List.append_nil value)

theorem ends_of_length_eq_zero (none : length ('$' :: t) = 0) :
    ∀ c ∈ t.head?, isNameChar c = false := by
  intro c first
  obtain ⟨t, rfl⟩ := List.head?_eq_some_iff.mp first
  cases isName : isNameChar c with
  | false => rfl
  | true => simp [length, Text.countWhile, isName] at none

/-- What is found is a dollar sign and the longest name. -/
theorem exists_longest_name (found : length t ≠ 0) :
    ∃ name rest, t = '$' :: name ++ rest ∧ name ≠ [] ∧ (∀ c ∈ name, isNameChar c) ∧
      ∀ c ∈ rest.head?, isNameChar c = false := by
  unfold length at found
  split at found
  · rename_i t
    refine ⟨t.takeWhile isNameChar, t.dropWhile isNameChar, ?_, ?_, ?_, ?_⟩
    · rw [List.cons_append, List.takeWhile_append_dropWhile]
    · rintro empty
      simp [Text.countWhile, empty] at found
    · exact fun c => List.mem_takeWhile_imp
    · intro c first
      have unnamed := List.head?_dropWhile_not isNameChar t
      rw [first] at unnamed
      exact unnamed
  · exact absurd rfl found

/-- Every text is put together from characters that begin no reference, and whole references. -/
theorem parts_induction {P : Text → Prop} (nil : P [])
    (plain : ∀ {c : Char} {t : Text}, (c = '$' → ∀ d ∈ t.head?, isNameChar d = false) →
      P t → P (c :: t))
    (reference : ∀ {name t : Text}, name ≠ [] → (∀ c ∈ name, isNameChar c) →
      (∀ c ∈ t.head?, isNameChar c = false) → P t → P ('$' :: name ++ t)) (t : Text) : P t := by
  refine Text.parts_induction length nil (fun none => plain ?_) ?_ t
  · rintro rfl
    exact ends_of_length_eq_zero none
  · intro t _ found later
    obtain ⟨name, rest, rfl, nonempty, named, ends⟩ := exists_longest_name found
    rw [length_of_name nonempty named ends, List.drop_left] at later
    exact reference nonempty named ends later

/-- The references of two texts that meet outside of any reference. -/
theorem at_append_iff (apart : ¬ Straddles a b) :
    At (a ++ b) before name after ↔
      (∃ rest, after = rest ++ b ∧ At a before name rest) ∨
        ∃ more, before = a ++ more ∧ At b more name after := by
  constructor
  · rintro ⟨split, nonempty, named, ends⟩
    rcases List.append_eq_append_iff.mp split with ⟨more, inSecond, rest⟩ | ⟨x, inFirst, rest⟩
    · exact .inr ⟨more, inSecond, rest, nonempty, named, ends⟩
    · cases x with
      | nil =>
        rw [List.append_nil] at inFirst
        exact .inr ⟨[], by rw [inFirst, List.append_nil], rest.symm, nonempty, named, ends⟩
      | cons c x =>
        obtain rfl : '$' = c := (List.cons.inj rest).1
        have rest : name ++ after = x ++ b := (List.cons.inj rest).2
        rcases List.append_eq_append_iff.mp rest with ⟨y, inside, tail⟩ | ⟨y, whole, tail⟩
        · refine .inl ⟨y, tail, ?_, nonempty, named, fun c first => ends c ?_⟩
          · rw [inFirst, inside, List.cons_append]
          · rw [tail]
            exact List.mem_head?_append_of_mem_head? first
        · -- The name ends in the second text, so it is all in the first one.
          have inName : ∀ c ∈ x, isNameChar c := fun c member =>
            named c (by rw [whole]; exact List.mem_append_left y member)
          have none : y = [] := by
            cases y with
            | nil => rfl
            | cons d y =>
              have unnamed := ends_of_not_straddles (inFirst ▸ apart) inName d (by rw [tail]; rfl)
              rw [named d (by simp [whole])] at unnamed
              cases unnamed
          subst none
          rw [List.append_nil] at whole
          refine .inl ⟨[], tail.symm, ?_, nonempty, named, by simp⟩
          rw [inFirst, whole, List.append_nil]
  · rintro (⟨rest, rfl, split, nonempty, named, ends⟩ | ⟨more, rfl, split, nonempty, named, ends⟩)
    · refine ⟨by rw [split]; simp, nonempty, named, fun c first => ?_⟩
      cases rest with
      | nil =>
        rw [List.append_nil] at split
        exact ends_of_not_straddles (split ▸ apart) named c first
      | cons d rest => exact ends c first
    · exact ⟨by rw [split, List.append_assoc], nonempty, named, ends⟩

theorem not_at_nil : ¬ At [] before name after := by
  rintro ⟨split, -⟩
  simp at split

theorem not_at_singleton {c : Char} : ¬ At [c] before name after := by
  rintro ⟨split, nonempty, -⟩
  have long := congrArg List.length split
  have positive := List.length_pos_iff.mpr nonempty
  simp only [List.length_append, List.length_cons, List.length_nil] at long
  omega

/-- A dollar sign and a name have no reference in them but the whole. -/
theorem at_name_iff (nonempty : name ≠ []) (named : ∀ c ∈ name, isNameChar c) {other : Text} :
    At ('$' :: name) before other after ↔ before = [] ∧ other = name ∧ after = [] := by
  constructor
  · rintro ⟨split, -, -, ends⟩
    cases before with
    | nil =>
      obtain rfl : name = other ++ after := (List.cons.inj split).2
      cases after with
      | nil => exact ⟨rfl, (List.append_nil other).symm, rfl⟩
      | cons c after =>
        have unnamed := ends c rfl
        rw [named c (by simp)] at unnamed
        cases unnamed
    | cons c before =>
      have sign : '$' ∈ name := by
        rw [(List.cons.inj split).2]
        simp
      exact absurd (named '$' sign) (by decide)
  · rintro ⟨rfl, rfl, rfl⟩
    exact ⟨by simp, nonempty, named, by simp⟩

end Reference

namespace Variables

open Reference (At Straddles isNameChar)

variable {vars : Variables} {line : Nat} {a b t name : Text}

/-- A name has no value, and it is that of the leftmost reference in a text for which this is so. -/
def FirstMissing (vars : Variables) (t name : Text) : Prop :=
  ∃ before after, At t before name after ∧ vars.get? ('$' :: name) = none ∧
    ∀ earlier other rest, At t earlier other rest → earlier.length < before.length →
      vars.get? ('$' :: other) ≠ none

/-- A text and another one with values in the places of its references, from left to right. Values
stand as they are: reading goes on behind the reference. -/
inductive Filled (vars : Variables) : Text → Text → Prop
  | nil : Filled vars [] []
  | plain {c : Char} {t result : Text} (apart : c = '$' → ∀ d ∈ t.head?, isNameChar d = false)
      (later : Filled vars t result) : Filled vars (c :: t) (c :: result)
  | reference {name value t result : Text} (nonempty : name ≠ []) (named : ∀ c ∈ name, isNameChar c)
      (ends : ∀ c ∈ t.head?, isNameChar c = false) (known : vars.get? ('$' :: name) = some value)
      (later : Filled vars t result) : Filled vars ('$' :: name ++ t) (value ++ result)

theorem substitute_append (vars : Variables) (line : Nat) (apart : ¬ Straddles a b) :
    vars.substitute line (a ++ b) =
      do return (← vars.substitute line a) ++ (← vars.substitute line b) :=
  Reference.resolve_append _ apart

theorem substitute_plain {c : Char} (apart : c = '$' → ∀ d ∈ t.head?, isNameChar d = false) :
    vars.substitute line (c :: t) = (vars.substitute line t).map (c :: ·) := by
  have meets := vars.substitute_append line (Reference.not_straddles_singleton apart)
  have alone : vars.substitute line [c] = .ok [c] := Reference.resolve_singleton _ c
  rw [alone] at meets
  exact meets

theorem substitute_reference (nonempty : name ≠ []) (named : ∀ c ∈ name, isNameChar c)
    (ends : ∀ c ∈ t.head?, isNameChar c = false) :
    vars.substitute line ('$' :: name ++ t) =
      do return (← vars.resolve line ('$' :: name)) ++ (← vars.substitute line t) := by
  have alone : vars.substitute line ('$' :: name) = vars.resolve line ('$' :: name) :=
    Reference.resolve_name _ nonempty named
  rw [vars.substitute_append line (Reference.not_straddles_of_ends ends), alone]

theorem substitute_known {value : Text} (nonempty : name ≠ []) (named : ∀ c ∈ name, isNameChar c)
    (ends : ∀ c ∈ t.head?, isNameChar c = false) (known : vars.get? ('$' :: name) = some value) :
    vars.substitute line ('$' :: name ++ t) = (vars.substitute line t).map (value ++ ·) := by
  rw [substitute_reference nonempty named ends, resolve, known]
  rfl

theorem substitute_unknown (nonempty : name ≠ []) (named : ∀ c ∈ name, isNameChar c)
    (ends : ∀ c ∈ t.head?, isNameChar c = false) (unknown : vars.get? ('$' :: name) = none) :
    vars.substitute line ('$' :: name ++ t) = .error (.undeclaredVariable ('$' :: name) line) := by
  rw [substitute_reference nonempty named ends, resolve, unknown]
  rfl

/-- The first name without a value is in the first text, or all names there have values. -/
theorem firstMissing_append_iff (vars : Variables) (name : Text) (apart : ¬ Straddles a b) :
    vars.FirstMissing (a ++ b) name ↔
      vars.FirstMissing a name ∨
        (∀ before other after, At a before other after → vars.get? ('$' :: other) ≠ none) ∧
          vars.FirstMissing b name := by
  have within {before other rest : Text} (found : At a before other rest) :
      At (a ++ b) before other (rest ++ b) ∧ before.length < a.length := by
    refine ⟨(Reference.at_append_iff apart).mpr (.inl ⟨rest, rfl, found⟩), ?_⟩
    rw [found.split, List.length_append, List.cons_append, List.length_cons]
    omega
  have behind {more other after : Text} (found : At b more other after) :
      At (a ++ b) (a ++ more) other after :=
    (Reference.at_append_iff apart).mpr (.inr ⟨more, rfl, found⟩)
  constructor
  · rintro ⟨before, after, found, unknown, first⟩
    rcases (Reference.at_append_iff apart).mp found with ⟨rest, rfl, inside⟩ | ⟨more, rfl, inside⟩
    · exact .inl ⟨before, rest, inside, unknown, fun _ _ _ other => first _ _ _ (within other).1⟩
    · refine .inr ⟨fun before other after found => ?_, more, after, inside, unknown, ?_⟩
      · have early := (within found).2
        exact first _ _ _ (within found).1 (by rw [List.length_append]; omega)
      · intro earlier other rest found early
        exact first _ _ _ (behind found) (by simpa using early)
  · rintro (⟨before, rest, found, unknown, first⟩ | ⟨known, more, after, found, unknown, first⟩)
    · refine ⟨before, rest ++ b, (within found).1, unknown, ?_⟩
      intro earlier other after also early
      rcases (Reference.at_append_iff apart).mp also with ⟨_, -, inside⟩ | ⟨more, rfl, -⟩
      · exact first _ _ _ inside early
      · have := (within found).2
        rw [List.length_append] at early
        omega
    · refine ⟨a ++ more, after, behind found, unknown, ?_⟩
      intro earlier other rest also early
      rcases (Reference.at_append_iff apart).mp also with ⟨_, -, inside⟩ | ⟨_, rfl, inside⟩
      · exact known _ _ _ inside
      · exact first _ _ _ inside (by simpa using early)

/-- A text cannot be filled for the first name in it that has no value. -/
theorem substitute_eq_error_iff {problem : Problem} :
    vars.substitute line t = .error problem ↔
      ∃ name, vars.FirstMissing t name ∧ problem = .undeclaredVariable ('$' :: name) line := by
  induction t using Reference.parts_induction with
  | nil =>
    constructor
    · intro clash
      cases clash
    · rintro ⟨name, ⟨before, after, found, -⟩, -⟩
      exact absurd found Reference.not_at_nil
  | @plain c t apart ih =>
    have none (name : Text) : ¬ vars.FirstMissing [c] name := by
      rintro ⟨before, after, found, -⟩
      exact Reference.not_at_singleton found
    have all (before other after : Text) (found : At [c] before other after) :
        vars.get? ('$' :: other) ≠ Option.none := absurd found Reference.not_at_singleton
    have meets (name : Text) :=
      firstMissing_append_iff vars name (Reference.not_straddles_singleton apart)
    simp only [List.singleton_append, none, false_or] at meets
    rw [substitute_plain apart, map_eq_error_iff, ih]
    simp only [meets, and_iff_right all]
  | @reference name t nonempty named ends ih =>
    have alone {before other after : Text} :
        At ('$' :: name) before other after ↔ before = [] ∧ other = name ∧ after = [] :=
      Reference.at_name_iff nonempty named
    have meets (other : Text) :=
      firstMissing_append_iff vars other (a := '$' :: name)
        (Reference.not_straddles_of_ends ends)
    cases known : vars.get? ('$' :: name) with
    | none =>
      have first (other : Text) : vars.FirstMissing ('$' :: name ++ t) other ↔ other = name := by
        rw [meets]
        constructor
        · rintro (⟨before, after, found, -⟩ | ⟨all, -⟩)
          · exact (alone.mp found).2.1
          · exact absurd known (all [] name [] (alone.mpr ⟨rfl, rfl, rfl⟩))
        · rintro rfl
          exact .inl ⟨[], [], alone.mpr ⟨rfl, rfl, rfl⟩, known, by simp⟩
      rw [substitute_unknown nonempty named ends known]
      simp only [first, exists_eq_left, Except.error.injEq]
      exact eq_comm
    | some value =>
      have all (before other after : Text) (found : At ('$' :: name) before other after) :
          vars.get? ('$' :: other) ≠ none := by
        simp [(alone.mp found).2.1, known]
      have none (other : Text) : ¬ vars.FirstMissing ('$' :: name) other := by
        rintro ⟨before, after, found, unknown, -⟩
        exact all before other after found unknown
      simp only [none, false_or] at meets
      rw [substitute_known nonempty named ends known, map_eq_error_iff, ih]
      simp only [meets, and_iff_right all]

/-- The values of a text stand in it as they are. -/
theorem substitute_eq_ok_iff {result : Text} :
    vars.substitute line t = .ok result ↔ vars.Filled t result := by
  constructor
  · intro done
    induction t using Reference.parts_induction generalizing result with
    | nil =>
      cases done
      exact .nil
    | plain apart ih =>
      rw [substitute_plain apart] at done
      obtain ⟨rest, later, rfl⟩ := exists_of_map_eq_ok done
      exact .plain apart (ih later)
    | @reference name t nonempty named ends ih =>
      cases known : vars.get? ('$' :: name) with
      | none =>
        rw [substitute_unknown nonempty named ends known] at done
        cases done
      | some value =>
        rw [substitute_known nonempty named ends known] at done
        obtain ⟨rest, later, rfl⟩ := exists_of_map_eq_ok done
        exact .reference nonempty named ends known (ih later)
  · intro filled
    induction filled with
    | nil => rfl
    | plain apart later ih =>
      rw [substitute_plain apart, ih]
      rfl
    | reference nonempty named ends known later ih =>
      rw [substitute_known nonempty named ends known, ih]
      rfl

/-- If any name has no value, one is the first. -/
theorem exists_firstMissing_iff :
    (∃ name, vars.FirstMissing t name) ↔
      ∃ before name after, At t before name after ∧ vars.get? ('$' :: name) = none := by
  classical
  constructor
  · rintro ⟨name, before, after, found, unknown, -⟩
    exact ⟨before, name, after, found, unknown⟩
  · rintro ⟨before, name, after, found, unknown⟩
    have some : ∃ place before name after, before.length = place ∧ At t before name after ∧
        vars.get? ('$' :: name) = none := ⟨_, before, name, after, rfl, found, unknown⟩
    obtain ⟨before, name, after, place, found, unknown⟩ := Nat.find_spec some
    refine ⟨name, before, after, found, unknown, fun earlier other rest also early lacking => ?_⟩
    exact Nat.find_min some (place ▸ early) ⟨earlier, other, rest, rfl, also, lacking⟩

/-- Texts that meet outside references are filled apart, and the first one that cannot be filled is
the problem. A text cannot be filled if and only if one of its references has no value; the problem
names the leftmost of these. Values stand in the result as they are, whatever they look like. -/
theorem substitute_apart (vars : Variables) (line : Nat) :
    (∀ a b, ¬ Straddles a b → vars.substitute line (a ++ b) =
      do return (← vars.substitute line a) ++ (← vars.substitute line b)) ∧
    (∀ t, (∃ problem, vars.substitute line t = .error problem) ↔
      ∃ before name after, At t before name after ∧ vars.get? ('$' :: name) = none) ∧
    (∀ t problem, vars.substitute line t = .error problem ↔
      ∃ name, vars.FirstMissing t name ∧ problem = .undeclaredVariable ('$' :: name) line) ∧
    ∀ t result, vars.substitute line t = .ok result ↔ vars.Filled t result := by
  refine ⟨fun a b apart => vars.substitute_append line apart, fun t => ?_,
    fun t problem => substitute_eq_error_iff, fun t result => substitute_eq_ok_iff⟩
  rw [← exists_firstMissing_iff]
  simp only [substitute_eq_error_iff]
  constructor
  · rintro ⟨problem, name, first, -⟩
    exact ⟨name, first⟩
  · rintro ⟨name, first⟩
    exact ⟨_, name, first, rfl⟩

/-- A value that looks like references, directly before another reference. -/
theorem substitute_apart_signs :
    ¬ Straddles ['1', '$', 'a'] ['$', 'b'] ∧
      substitute ⟨[(['$', 'a'], ['$', 'b', '$']), (['$', 'b'], ['x'])]⟩ 1
        (['1', '$', 'a'] ++ ['$', 'b']) = .ok ['1', '$', 'b', '$', 'x'] ∧
      Filled ⟨[(['$', 'a'], ['$', 'b', '$']), (['$', 'b'], ['x'])]⟩
        (['1', '$', 'a'] ++ ['$', 'b']) ['1', '$', 'b', '$', 'x'] := by
  have apart : ¬ Straddles ['1', '$', 'a'] ['$', 'b'] := by
    apply Reference.not_straddles_of_ends
    intro c first
    cases first
    rfl
  obtain ⟨meets, -, -, values⟩ :=
    substitute_apart ⟨[(['$', 'a'], ['$', 'b', '$']), (['$', 'b'], ['x'])]⟩ 1
  have done := meets _ _ apart
  exact ⟨apart, done, (values _ _).mp done⟩

end Variables

end Stylesheet
