import Mathlib.Data.List.Forall2
import Stylesheet.Proofs.Matched
import Stylesheet.Proofs.Splicing

set_option autoImplicit false

namespace Stylesheet

namespace Selector

open Text Nesting

variable {quotable : Char → Prop} {selector outer inner b : Text}

theorem branches_trim (selector : Text) : branches (trim selector) = branches selector := by
  obtain ⟨w, v, split, left, right⟩ := exists_append_trim selector
  obtain ⟨before, last, parts, more⟩ := exists_last_splitCommasFrom .top (trim selector) right
  have whole : branches selector = branches (trim selector ++ v) := by
    conv_lhs => rw [split, List.append_assoc, branches_append_blank left]
  rw [whole, branches, branches, splitCommas, splitCommas, more, parts, List.map_append,
    List.map_append, List.map_singleton, List.map_singleton, trim_append_of_blank_right last right]

/-- Runs of blanks are collapsed in each branch on its own. -/
theorem branches_collapse (unescaped : '\\' ∉ selector) :
    branches (collapse selector) = (branches selector).map collapse := by
  have each : trim ∘ squeeze = collapse := funext fun t => (collapse_eq_trim_squeeze t).symm
  have trimmed : collapse ∘ trim = collapse := funext collapse_trim
  have kept : (fun t : Text => !t.isEmpty) ∘ collapse = (fun t : Text => !t.isEmpty) ∘ trim := by
    funext t
    rw [Function.comp_apply, Function.comp_apply, Bool.eq_iff_iff]
    simp [collapse_eq_nil_iff]
  rw [collapse_eq_trim_squeeze, branches_trim, branches, branches, splitCommas, splitCommas,
    splitCommasFrom_squeeze top_plain unescaped, List.map_map, each, List.filter_map,
    List.filter_map, kept, List.map_map, trimmed]

/-- A branch that stays one branch wherever it is put. -/
structure Sound (quotable : Char → Prop) (b : Text) : Prop where
  visible : b ≠ []
  trimmed : trim b = b
  uncut : Uncut .top b
  matched : Matched quotable b

theorem sound_of_mem_branches (member : b ∈ branches selector) (matched : Matched quotable b) :
    Sound quotable b := by
  obtain ⟨mapped, visible⟩ := List.mem_filter.mp member
  obtain ⟨part, inParts, rfl⟩ := List.mem_map.mp mapped
  have uncut := uncut_of_divided (divided_splitCommasFrom .top selector) part inParts
  exact ⟨by simpa using visible, trim_eq_self (fun c => isBlank_head_trim)
    (fun c => isBlank_last_trim), uncut_trim uncut, matched⟩

theorem separate_of_sound {bs : List Text} (sound : ∀ b ∈ bs, Sound quotable b) : Separate bs :=
  separate_of_forall (fun b member => (sound b member).uncut)
    (fun b member => top_bare.after (sound b member).matched)
    (fun b member => (sound b member).visible) (fun b member => (sound b member).trimmed)

namespace Sound

theorem head (sound : Sound quotable b) : ∀ c ∈ b.head?, isBlank c = false := by
  intro c first
  rw [← sound.trimmed] at first
  exact isBlank_head_trim first

theorem last (sound : Sound quotable b) : ∀ c ∈ b.getLast?, isBlank c = false := by
  intro c final
  rw [← sound.trimmed] at final
  exact isBlank_last_trim final

/-- A branch inside a branch stays one branch. -/
theorem combine (outerSound : Sound (fun _ => True) outer) (innerSound : Sound (· ≠ '&') inner) :
    Sound (fun _ => True) (combine outer inner) := by
  have outerVisible := outerSound.visible
  unfold Selector.combine
  split
  · refine ⟨replaceChar_ne_nil outerVisible innerSound.visible,
      trim_eq_self (fun c first => ?_) (fun c final => ?_),
      innerSound.matched.uncut_replaceChar outerSound.matched innerSound.uncut outerSound.uncut,
      innerSound.matched.replaceChar outerSound.matched⟩
    · rcases mem_head?_replaceChar outerVisible first with inOuter | inInner
      · exact outerSound.head c inOuter
      · exact innerSound.head c inInner
    · rcases mem_getLast?_replaceChar outerVisible final with inOuter | inInner
      · exact outerSound.last c inOuter
      · exact innerSound.last c inInner
  · have innerMatched : Matched (fun _ => True) inner :=
      innerSound.matched.mono fun _ _ => trivial
    refine ⟨by simp, trim_eq_self (fun c first => ?_) (fun c final => ?_),
      outerSound.matched.uncut_append_iff.mpr ⟨outerSound.uncut, by simp, innerSound.uncut⟩,
      outerSound.matched.append (.plain (by decide) innerMatched)⟩
    · rw [List.head?_append_of_ne_nil _ outerVisible] at first
      exact outerSound.head c first
    · rw [List.getLast?_append_of_ne_nil _ (by simp),
        List.getLast?_cons_of_ne_nil innerSound.visible] at final
      exact innerSound.last c final

end Sound

section Nest

variable (outers : ∀ b ∈ branches outer, Matched (fun _ => True) b)
  (inners : ∀ b ∈ branches inner, Matched (· ≠ '&') b)

include outers inners

theorem sound_product :
    ∀ b ∈ product (branches outer) (branches inner), Sound (fun _ => True) b := by
  intro b member
  obtain ⟨o, inOuter, i, inInner, rfl⟩ := mem_product member
  exact (sound_of_mem_branches inOuter (outers o inOuter)).combine
    (sound_of_mem_branches inInner (inners i inInner))

/-- The branches of a rule inside another one are all combinations of their branches. -/
theorem branches_nest (some : branches outer ≠ []) :
    branches (nest outer inner) = product (branches outer) (branches inner) := by
  have nested : nest outer inner = ofBranches (product (branches outer) (branches inner)) := by
    unfold nest
    split
    · contradiction
    · rfl
  rw [nested]
  exact branches_intercalate isBlank_space (separate_of_sound (sound_product outers inners))

end Nest

theorem unescaped_of_branches (matched : ∀ b ∈ branches selector, Matched quotable b) :
    '\\' ∉ selector := by
  intro member
  rw [← intercalate_splitCommasFrom .top selector] at member
  rcases mem_intercalate member with comma | ⟨part, inParts, inPart⟩
  · simp at comma
  · obtain ⟨w, v, split, left, right⟩ := exists_append_trim part
    rw [split, List.append_assoc] at inPart
    have inside : '\\' ∈ trim part := by
      rcases List.mem_append.mp inPart with before | rest
      · cases left _ before
      · rcases List.mem_append.mp rest with inside | after
        · exact inside
        · cases right _ after
    have isBranch : trim part ∈ branches selector :=
      List.mem_filter.mpr ⟨List.mem_map_of_mem inParts, by simpa using List.ne_nil_of_mem inside⟩
    exact (matched _ isBranch).unescaped inside

/-- The branches of a selector, with one space in the place of each run of blanks. -/
def spelled (selector : Text) : List Text := (branches selector).map collapse

theorem branches_collapse_spelled (matched : ∀ b ∈ branches selector, Matched quotable b)
    (space : quotable ' ') :
    branches (collapse selector) = spelled selector ∧
      ∀ b ∈ branches (collapse selector), Matched quotable b := by
  have same := branches_collapse (unescaped_of_branches matched)
  refine ⟨same, ?_⟩
  rw [same, List.forall_mem_map]
  intro b member
  have sound := sound_of_mem_branches member (matched b member)
  rw [collapse_eq_trim_squeeze, trim_squeeze sound.head sound.last]
  exact sound.matched.squeeze space

/-- All ways to choose an element of each list. The element of the last list changes first. -/
def choices {α : Type} : List (List α) → List (List α)
  | [] => [[]]
  | list :: lists => list.flatMap fun a => (choices lists).map (a :: ·)

/-- The branch of a rule for a branch of each rule around it, outermost first. -/
def joined : List Text → Text
  | [] => []
  | b :: bs => bs.foldl combine b

theorem joined_append {bs : List Text} (inside : bs ≠ []) (b : Text) :
    joined (bs ++ [b]) = combine (joined bs) b := by
  obtain ⟨first, bs, rfl⟩ := List.exists_cons_of_ne_nil inside
  simp only [joined, List.cons_append, List.foldl_append, List.foldl_cons, List.foldl_nil]

section Choices

variable {α β : Type}

theorem choices_append (lists : List (List α)) (list : List α) :
    choices (lists ++ [list]) = (choices lists).flatMap fun choice => list.map (choice ++ [·]) := by
  induction lists with
  | nil => simp [choices, List.map_eq_flatMap]
  | cons first lists ih =>
    simp only [List.cons_append, choices, ih, List.map_flatMap, List.flatMap_assoc,
      List.flatMap_map, List.map_map, Function.comp_def]

theorem length_choices (lists : List (List α)) :
    (choices lists).length = (lists.map List.length).prod := by
  induction lists with
  | nil => rfl
  | cons list lists ih =>
    simp [choices, List.length_flatMap, ih]

theorem mem_choices {lists : List (List α)} {choice : List α} :
    choice ∈ choices lists ↔ List.Forall₂ (· ∈ ·) choice lists := by
  induction lists generalizing choice with
  | nil => simp [choices]
  | cons list lists ih =>
    cases choice with
    | nil => simp [choices]
    | cons a choice => simp [choices, ih]

theorem choices_ne_nil {lists : List (List α)} (some : ∀ list ∈ lists, list ≠ []) :
    choices lists ≠ [] := by
  induction lists with
  | nil => simp [choices]
  | cons list lists ih =>
    obtain ⟨first, later⟩ := List.forall_mem_cons.mp some
    obtain ⟨a, list, rfl⟩ := List.exists_cons_of_ne_nil first
    simp [choices, ih later]

/-- Choices of positions come in lexicographic order. -/
theorem pairwise_choices {lists : List (List Nat)}
    (ordered : ∀ list ∈ lists, list.Pairwise (· < ·)) : (choices lists).Pairwise (· < ·) := by
  induction lists with
  | nil => simp [choices]
  | cons list lists ih =>
    obtain ⟨first, later⟩ := List.forall_mem_cons.mp ordered
    rw [choices, List.pairwise_flatMap]
    constructor
    · intro a _
      rw [List.pairwise_map]
      exact (ih later).imp fun less => List.cons_lt_cons_iff.mpr (.inr ⟨rfl, less⟩)
    · refine first.imp fun less => ?_
      simp only [List.forall_mem_map]
      exact fun _ _ _ _ => List.cons_lt_cons_iff.mpr (.inl less)

end Choices

theorem product_choices {lists : List (List Text)} (inside : lists ≠ []) (list : List Text) :
    product ((choices lists).map joined) list =
      ((choices lists).flatMap fun choice => list.map (choice ++ [·])).map joined := by
  rw [product, List.flatMap_map, List.map_flatMap]
  refine List.flatMap_congr fun choice member => ?_
  have chosen : choice ≠ [] := by
    rintro rfl
    have lengths := (mem_choices.mp member).length_eq
    exact inside (List.length_eq_zero_iff.mp lengths.symm)
  simp only [List.map_map, Function.comp_def, joined_append chosen]

/-- The branches of a rule inside others are the combinations of one branch of each. -/
theorem branches_effective {outermost : Text} {inner : List Text}
    (first : ∀ b ∈ branches outermost, Matched (fun _ => True) b)
    (later : ∀ s ∈ inner, ∀ b ∈ branches s, Matched (· ≠ '&') b)
    (some : ∀ s ∈ (outermost :: inner).dropLast, branches s ≠ []) :
    branches (effective (outermost :: inner)) =
        (choices ((outermost :: inner).map spelled)).map joined ∧
      ∀ b ∈ branches (effective (outermost :: inner)), Matched (fun _ => True) b := by
  induction inner using List.reverseRecOn with
  | nil =>
    obtain ⟨same, matched⟩ := branches_collapse_spelled first trivial
    refine ⟨?_, matched⟩
    rw [effective_singleton, same]
    simp [choices, joined, List.map_flatMap]
  | append_singleton inner selector ih =>
    have around : ((outermost :: inner) ++ [selector]).dropLast = outermost :: inner :=
      List.dropLast_concat
    rw [← List.cons_append] at some ⊢
    rw [around] at some
    obtain ⟨same, matched⟩ := ih (fun s member => later s (List.mem_append_left _ member))
      fun s member => some s (List.dropLast_subset _ member)
    obtain ⟨innerSame, innerMatched⟩ :=
      branches_collapse_spelled (later selector (by simp)) (by decide)
    have nonempty : branches (effective (outermost :: inner)) ≠ [] := by
      rw [same, ne_eq, List.map_eq_nil_iff]
      apply choices_ne_nil
      simpa [spelled] using some
    have nested := branches_nest matched innerMatched nonempty
    rw [effective_append (List.cons_ne_nil outermost inner), nested]
    refine ⟨?_, fun b member => (sound_product matched innerMatched b member).matched⟩
    rw [same, innerSame, List.map_append, List.map_singleton, choices_append, product_choices]
    simp

/-- Branches are the combinations of one branch of each list, in the lexicographic order of the
positions of these branches. -/
structure Combines (lists : List (List Text)) (bs : List Text) : Prop where
  count : bs.length = (lists.map List.length).prod
  ordered : ∃ positions : List (List Nat),
    positions.Pairwise (· < ·) ∧
    (∀ position, position ∈ positions ↔
      List.Forall₂ (fun i list => i < list.length) position lists) ∧
    bs = positions.map fun position =>
      joined (List.zipWith (fun i list => list[i]?.getD []) position lists)

/-- The positions of the choices of an element of each list. -/
def positions (lists : List (List Text)) : List (List Nat) :=
  choices (lists.map fun list => List.range list.length)

theorem choices_eq_map_positions (lists : List (List Text)) :
    choices lists = (positions lists).map fun position =>
      List.zipWith (fun i list => list[i]?.getD []) position lists := by
  induction lists with
  | nil => rfl
  | cons list lists ih =>
    have elements : list = (List.range list.length).map fun i => list[i]?.getD [] := by
      refine List.ext_getElem (by simp) fun i inside _ => ?_
      simp [inside]
    rw [positions, List.map_cons, choices, choices, ih]
    conv_lhs => rw [elements]
    simp only [List.flatMap_map, List.map_flatMap, List.map_map, Function.comp_def, positions,
      List.zipWith_cons_cons]

theorem mem_positions {lists : List (List Text)} {position : List Nat} :
    position ∈ positions lists ↔
      List.Forall₂ (fun i list => i < list.length) position lists := by
  simp only [positions, mem_choices, List.forall₂_map_right_iff, List.mem_range]

theorem combines_choices (lists : List (List Text)) :
    Combines lists ((choices lists).map joined) where
  count := by rw [List.length_map, length_choices]
  ordered := by
    refine ⟨positions lists, pairwise_choices ?_, fun _ => mem_positions, ?_⟩
    · simp only [List.forall_mem_map]
      exact fun _ _ => List.pairwise_lt_range
    · rw [choices_eq_map_positions, List.map_map]
      rfl

end Selector

namespace Token

/-- The selectors of the rules among the open blocks, outermost first. -/
def selectors (opened : List Token) : List Text :=
  opened.reverse.filterMap fun
    | rule selector _ => some selector
    | _ => none

/-- The selector in force inside open blocks, innermost first. -/
def inForce (opened : List Token) : Option Text := (Place.inside (selectors opened) 0).selector

theorem inForce_rule (opened : List Token) (selector : Text) (line : Nat) {place : Place}
    (same : place.selector = inForce opened) :
    (place.insideRule selector).selector = inForce (rule selector line :: opened) := by
  have inside : place = .inside (selectors opened) place.depth := by
    obtain ⟨_, depth⟩ := place
    exact congrArg (Place.mk · depth) same
  rw [inside, Place.insideRule_inside]
  simp [inForce, selectors, Place.inside]

theorem inForce_atBlock (opened : List Token) (name params : Text) (line : Nat) :
    inForce (atBlock name params line :: opened) = inForce opened := by
  simp [inForce, selectors]

end Token

namespace Progress

variable {importer : Importer} {setting : Setting} {p q : Progress} {token : Token}

/-- The selectors in force in the open blocks, innermost first, and outside of them. -/
def selectors (p : Progress) : List (Option Text) :=
  (p.draft :: p.blocks.map OpenBlock.outer).map (·.place.selector)

/-- In every open block the selector is in force that the tokens around it make. The last of these
may begin the definition of a trait, which is no block. -/
def Selects (opened : List Token) (p : Progress) : Prop :=
  p.selectors = (if p.definition.isSome then opened.tail else opened).tails.map Token.inForce

theorem start_selects (scope : Scope) (depth : Nat) : Selects [] (start scope depth) := rfl

theorem Selects.inForce {opened : List Token} (selects : p.Selects opened)
    (outside : p.definition = none) : p.draft.place.selector = Token.inForce opened := by
  rw [Selects, outside] at selects
  have first := congrArg List.head? selects
  cases opened <;> exact Option.some.inj first

theorem Selects.step {opened : List Token} (selects : p.Selects opened)
    (done : p.step importer setting token = .ok q) : q.Selects (Token.enclose opened token) := by
  cases Advance.of_step done with
  | collect defining => rwa [Selects, defining] at selects
  | define defining => rwa [Selects, defining] at selects
  | add outside opensNone closesNone added =>
    rw [Selects, outside] at selects
    unfold Selects Token.enclose withImport
    rw [opensNone, closesNone]
    change p.selectors = _
    rwa [write, outside]
  | @openRule selector line outside =>
    have place := selects.inForce outside
    rw [Selects, outside] at selects
    unfold Selects openRule openBlock
    rw [outside]
    exact List.cons_eq_cons.mpr ⟨Token.inForce_rule opened selector line place, selects⟩
  | openTrait outside named => rwa [Selects, outside] at selects
  | @openAtRule name params line outside other =>
    have place := selects.inForce outside
    rw [Selects, outside] at selects
    unfold Selects openAtRule openBlock
    rw [outside]
    refine List.cons_eq_cons.mpr ⟨?_, selects⟩
    exact place.trans (Token.inForce_atBlock opened name params line).symm
  | @closeBlock line block rest outside blocks =>
    rw [Selects, outside, selectors, blocks] at selects
    unfold Selects
    rw [outside, selectors, List.map_cons, Draft.writeBlock_place]
    cases opened with
    | nil => exact absurd (congrArg List.length selects) (by simp)
    | cons token opened => exact (List.cons.inj selects).2

theorem Selects.foldlM {opened tokens : List Token} (selects : p.Selects opened)
    (done : tokens.foldlM (Progress.step importer setting) p = .ok q) :
    q.Selects (tokens.foldl Token.enclose opened) := by
  obtain ⟨enclosing, folded, still⟩ := foldlM_simulates
    (fun opened token => pure (Token.enclose opened token)) (fun p opened => p.Selects opened)
    (fun p opened token next selects stepped => ⟨_, rfl, selects.step stepped⟩) selects done
  rw [List.foldlM_pure] at folded
  cases folded
  exact still

end Progress

open Selector (branches nest combine spelled Combines)

/-- The branches of a rule inside another one are all combinations of an outer and an inner branch,
by outer branch first. After any tokens, the branches of the innermost open rule are all
combinations of one branch of each open rule, in lexicographic order. -/
theorem branches_nested :
    (∀ outer inner : Text, (∀ b ∈ branches outer, b.Matched fun _ => True) →
      (∀ b ∈ branches inner, b.Matched (· ≠ '&')) → branches outer ≠ [] →
      branches (nest outer inner) =
          (branches outer).flatMap (fun o => (branches inner).map (combine o)) ∧
        (branches (nest outer inner)).length =
          (branches outer).length * (branches inner).length) ∧
    ∀ (importer : Importer) (setting : Setting) (scope : Scope) (depth : Nat)
      (tokens : List Token) (p : Progress) (outermost : Text) (inner : List Text),
      tokens.foldlM (Progress.step importer setting) (.start scope depth) = .ok p →
      p.definition = none →
      Token.selectors (Token.openBlocks tokens) = outermost :: inner →
      (∀ b ∈ branches outermost, b.Matched fun _ => True) →
      (∀ selector ∈ inner, ∀ b ∈ branches selector, b.Matched (· ≠ '&')) →
      (∀ selector ∈ (outermost :: inner).dropLast, branches selector ≠ []) →
      ∃ selector, p.draft.place.selector = some selector ∧
        Combines ((outermost :: inner).map spelled) (branches selector) := by
  constructor
  · intro outer inner outers inners some
    have nested := Selector.branches_nest outers inners some
    refine ⟨nested, ?_⟩
    rw [nested, Selector.product]
    simp [List.length_flatMap]
  · intro importer setting scope depth tokens p outermost inner done outside nested first later some
    have place := ((Progress.start_selects scope depth).foldlM done).inForce outside
    rw [← Token.openBlocks, Token.inForce, nested] at place
    refine ⟨_, place, ?_⟩
    rw [(Selector.branches_effective first later some).1]
    exact Selector.combines_choices _

/-- A comma in a string and in brackets, and an outer branch in parentheses. -/
theorem branches_nested_quoted :
    let outer := ['a', '[', 'b', '=', '"', ',', '&', '"', ']', ',', 'c']
    let inner := [':', 'i', 's', '(', '&', ',', 'd', ')']
    let tokens : List Token := [.rule outer 1, .atBlock ['@', 'm'] [] 1, .rule inner 1]
    (∀ b ∈ branches outer, b.Matched fun _ => True) ∧
    (∀ b ∈ branches inner, b.Matched (· ≠ '&')) ∧
    branches (nest outer inner) =
      [[':', 'i', 's', '(', 'a', '[', 'b', '=', '"', ',', '&', '"', ']', ',', 'd', ')'],
        [':', 'i', 's', '(', 'c', ',', 'd', ')']] ∧
    ∃ p selector,
      tokens.foldlM (Progress.step (importing 0) ⟨⟨[], []⟩, ⟨['.']⟩, []⟩) (.start .empty 0) =
        .ok p ∧
      p.draft.place.selector = some selector ∧
      Combines [spelled outer, spelled inner] (branches selector) := by
  intro outer inner tokens
  have kept : ∀ c ∈ [',', '&'], c ≠ '"' ∧ c ≠ '\\' ∧ True := by simp
  have quoted : Text.Matched (fun _ => True) ['b', '=', '"', ',', '&', '"'] :=
    .plain (by decide) (.plain (by decide) (.quoted (.inl rfl) kept .nil))
  have first : Text.Matched (fun _ => True) ['a', '[', 'b', '=', '"', ',', '&', '"', ']'] :=
    .plain (by decide) (.bracketed (.inr ⟨rfl, rfl⟩) quoted .nil)
  have second : Text.Matched (fun _ => True) ['c'] := .plain (by decide) .nil
  have outers : ∀ b ∈ branches outer, b.Matched fun _ => True := by
    have known : branches outer = [['a', '[', 'b', '=', '"', ',', '&', '"', ']'], ['c']] := rfl
    rw [known]
    exact List.forall_mem_cons.mpr ⟨first, List.forall_mem_singleton.mpr second⟩
  have listed : Text.Matched (· ≠ '&') ['&', ',', 'd'] :=
    .plain (by decide) (.plain (by decide) (.plain (by decide) .nil))
  have inners : ∀ b ∈ branches inner, b.Matched (· ≠ '&') := by
    have known : branches inner = [inner] := rfl
    rw [known]
    exact List.forall_mem_singleton.mpr (.plain (by decide) (.plain (by decide)
      (.plain (by decide) (.bracketed (.inl ⟨rfl, rfl⟩) listed .nil))))
  have some : branches outer ≠ [] := by decide
  obtain ⟨selector, place, combines⟩ := branches_nested.2 (importing 0) ⟨⟨[], []⟩, ⟨['.']⟩, []⟩
    .empty 0 tokens _ outer [inner] rfl rfl rfl outers (List.forall_mem_singleton.mpr inners)
    (List.forall_mem_singleton.mpr some)
  exact ⟨outers, inners, (branches_nested.1 outer inner outers inners some).1, _, selector, rfl,
    place, combines⟩

end Stylesheet
