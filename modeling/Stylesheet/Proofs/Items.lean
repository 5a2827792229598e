import Stylesheet.Proofs.Cells

set_option autoImplicit false

namespace Stylesheet.Compact

open Cell (render)

/-- The characters of words: neither blanks nor marks. -/
def isLetter (c : Char) : Bool := !Text.isBlank c && !isMark c

/-- A word or a mark, and whether blanks stand before it. -/
structure Item where
  text : Text
  apart : Bool
  deriving DecidableEq, Repr

/-- The items of a text. Words are as long as possible. -/
def items : Text → List Item
  | [] => []
  | c :: t =>
    if Text.isBlank c then (items t).modifyHead fun i => { i with apart := true }
    else if isLetter c && t.head?.any isLetter then
      (items t).modifyHead fun i => { i with text := c :: i.text }
    else ⟨[c], false⟩ :: items t

def Item.isWord (i : Item) : Bool := i.text.all isLetter

/-- The texts of items less every semicolon that has a closing brace after it. -/
def withoutLast : List Text → List Text
  | u :: v :: rest =>
    if u = [';'] ∧ v = ['}'] then withoutLast (v :: rest) else u :: withoutLast (v :: rest)
  | rest => rest

/-- For each word with a word or a colon directly after it, whether there are blanks between. -/
def gaps : List Item → List Bool
  | i :: j :: rest =>
    if i.isWord && (j.isWord || j.text = [':']) then j.apart :: gaps (j :: rest)
    else gaps (j :: rest)
  | _ => []

/-- Whether the ink of a cell goes on in the next one. -/
def goesOn (x : Cell) (k : List Cell) : Bool :=
  x.is isLetter && k.head?.any fun y => y.is isLetter && y.gap = []

def prepend (c : Char) (apart : Bool) (i : Item) : Item := ⟨[c] ++ i.text, apart⟩

def itemsOf : List Cell → List Item
  | [] => []
  | x :: k =>
    if x.ink = [] then []
    else if goesOn x k then (itemsOf k).modifyHead fun i => ⟨x.ink ++ i.text, x.gap ≠ []⟩
    else ⟨x.ink, x.gap ≠ []⟩ :: itemsOf k

theorem isMark_of_isLetter {c : Char} (letter : isLetter c) : isMark c = false := by
  simp only [isLetter, Bool.and_eq_true, Bool.not_eq_eq_eq_not, Bool.not_true] at letter
  exact letter.2

/-- The ink goes on in a cell without blanks. -/
theorem exists_of_goesOn {gap : Text} {c : Char} {k : List Cell} (on : goesOn ⟨gap, [c]⟩ k) :
    isLetter c ∧ ∃ d l, k = ⟨[], [d]⟩ :: l ∧ isLetter d := by
  cases k with
  | nil => simp [goesOn] at on
  | cons y l =>
    simp only [goesOn, Cell.is_mk_singleton, List.head?_cons, Option.any_some, Bool.and_eq_true,
      decide_eq_true_eq] at on
    obtain ⟨letter, isOne, none⟩ := on
    obtain ⟨d, ink, letter'⟩ := Cell.exists_of_is isOne
    refine ⟨letter, d, l, ?_, letter'⟩
    rw [← ink, ← none]

/-- The first item of cells begins with their first ink. -/
theorem exists_itemsOf_cons (gap : Text) (c : Char) (k : List Cell) :
    ∃ i rest, itemsOf (⟨gap, [c]⟩ :: k) = i :: rest ∧ i.apart = decide (gap ≠ []) ∧
      i.isWord = isLetter c ∧ ∀ mark, isLetter mark = false → (i.text = [mark] ↔ c = mark) := by
  induction k generalizing gap c with
  | nil =>
    exact ⟨⟨[c], gap ≠ []⟩, [], by simp [itemsOf, goesOn], rfl, by simp [Item.isWord], by simp⟩
  | cons y k ih =>
    cases on : goesOn ⟨gap, [c]⟩ (y :: k) with
    | false =>
      exact ⟨⟨[c], gap ≠ []⟩, itemsOf (y :: k), by simp [itemsOf, on], rfl, by simp [Item.isWord],
        by simp⟩
    | true =>
      obtain ⟨letter, d, l, same, letter'⟩ := exists_of_goesOn on
      cases same
      obtain ⟨j, rest, split, -, word, -⟩ := ih [] d
      refine ⟨⟨c :: j.text, gap ≠ []⟩, rest, ?_, rfl, ?_, fun mark other => ?_⟩
      · rw [itemsOf]
        simp [on, split]
      · rw [letter'] at word
        simpa [Item.isWord, letter] using word
      · have apart : c ≠ mark := by
          rintro rfl
          simp [letter] at other
        simp [apart]

theorem itemsOf_cons (gap : Text) (c : Char) (k : List Cell) :
    itemsOf (⟨gap, [c]⟩ :: k) =
      if goesOn ⟨gap, [c]⟩ k then (itemsOf k).modifyHead (prepend c (gap ≠ []))
      else ⟨[c], gap ≠ []⟩ :: itemsOf k := by
  rw [itemsOf, if_neg (List.cons_ne_nil c [])]
  rfl

theorem items_gap {gap : Text} (blank : ∀ c ∈ gap, Text.isBlank c) (t : Text) :
    items (gap ++ t) = (items t).modifyHead fun i => { i with apart := i.apart || gap ≠ [] } := by
  induction gap with
  | nil =>
    rw [List.nil_append]
    cases items t <;> simp
  | cons c gap ih =>
    obtain ⟨first, rest⟩ := List.forall_mem_cons.mp blank
    rw [List.cons_append, items, if_pos first, ih rest]
    cases items t <;> simp

theorem items_render {k : List Cell} (lettered : Lettered k) : items (render k) = itemsOf k := by
  induction lettered with
  | @finish gap blank => simpa [items, itemsOf] using items_gap blank []
  | @letter gap c k blank visible plain rest ih =>
    -- The next character is a letter exactly if it is the ink of a cell without blanks.
    have next : (isLetter c && (render k).head?.any isLetter) = goesOn ⟨gap, [c]⟩ k := by
      obtain ⟨y, k, rfl⟩ := List.exists_cons_of_ne_nil rest.ne_nil
      cases none : y.gap with
      | nil =>
        cases rest with
        | finish => simp_all [goesOn]
        | letter => simp_all [goesOn]
      | cons b gap' =>
        have blank' := rest.head.1 b (by simp [none])
        simp [goesOn, none, isLetter, blank']
    rw [Cell.render_cons, items_gap blank, List.singleton_append, items, next, ih, itemsOf]
    simp only [visible, Bool.false_eq_true, ↓reduceIte, List.cons_ne_nil]
    cases on : goesOn ⟨gap, [c]⟩ k with
    | false => simp
    | true =>
      obtain ⟨-, d, l, rfl, -⟩ := exists_of_goesOn on
      obtain ⟨j, rest, split, apart, -⟩ := exists_itemsOf_cons [] d l
      simp [split, apart]

/-- The characters from which blanks keep a word apart. -/
def isTail (c : Char) : Bool := isLetter c || c = ':'

/-- The gap after an item is that of the next cell, if it counts. -/
theorem gaps_cons {k : List Cell} (lettered : Lettered k) (i : Item) :
    ∃ y l, k = y :: l ∧ gaps (i :: itemsOf k) =
      (if i.isWord && y.is isTail then [decide (y.gap ≠ [])] else []) ++
        gaps (itemsOf k) := by
  cases lettered with
  | finish => exact ⟨_, _, rfl, by simp [itemsOf, gaps]⟩
  | @letter gap c k =>
    obtain ⟨j, rest, split, apart, word, colon⟩ := exists_itemsOf_cons gap c k
    refine ⟨_, _, rfl, ?_⟩
    rw [split, gaps, word, apart]
    simp only [colon ':' rfl, Cell.is_mk_singleton, isTail]
    split <;> rfl

/-- After a word, the blanks before a word or a colon stay. -/
theorem Tightens.gap_eq {opened : Bool} {x y : Cell} {k l : List Cell}
    (tightens : Tightens opened (x :: k) (y :: l)) (closed : opened = false)
    (tail : x.is isTail) : y.gap = x.gap := by
  cases tightens with
  | cons less =>
    obtain ⟨c, ink, shown⟩ := Cell.exists_of_is tail
    have other : isBrace c = false ∧ isCombinator c = false := by
      rw [isTail, Bool.or_eq_true, decide_eq_true_eq] at shown
      rcases shown with letter | rfl
      · have unmarked := isMark_of_isLetter letter
        simp only [isMark, isDelimiter, Bool.or_eq_false_iff] at unmarked
        exact ⟨unmarked.1.2, unmarked.2⟩
      · decide
    rcases less with same | ⟨-, early | late | late⟩
    · exact same
    · simp [closed] at early
    · simp [Cell.is, ink, other.1] at late
    · simp [Cell.is, ink, other.2] at late

theorem Tightens.goesOn_eq {c : Char} {k l : List Cell} (tightens : Tightens (isMark c) k l)
    (gap gap' : Text) : goesOn ⟨gap, [c]⟩ l = goesOn ⟨gap', [c]⟩ k := by
  cases letter : isLetter c with
  | false => simp [goesOn, letter]
  | true =>
    cases tightens with
    | nil => simp [goesOn]
    | @cons _ y k l inner less rest =>
      have ink : Cell.is isLetter ⟨inner, y.ink⟩ = y.is isLetter := rfl
      cases letter' : y.is isLetter with
      | false => simp [goesOn, ink, letter']
      | true =>
        have tail : y.is isTail := is_mono (by simp +contextual [isTail]) letter'
        have same : inner = y.gap :=
          gap_eq (.cons less rest) (isMark_of_isLetter letter) tail
        simp [goesOn, same]

theorem gaps_congr {i j : Item} (same : i.isWord = j.isWord) (rest : List Item) :
    gaps (i :: rest) = gaps (j :: rest) := by
  cases rest <;> simp [gaps, same]

theorem gaps_prepend {c : Char} (letter : isLetter c) (apart : Bool) (rest : List Item) :
    gaps (rest.modifyHead (prepend c apart)) = gaps rest := by
  cases rest with
  | nil => rfl
  | cons i rest => exact gaps_congr (by simp [prepend, Item.isWord, letter]) rest

theorem map_text_prepend (c : Char) (apart : Bool) (rest : List Item) :
    (rest.modifyHead (prepend c apart)).map Item.text =
      (rest.map Item.text).modifyHead ([c] ++ ·) := by
  cases rest <;> rfl

/-- Items are kept when blanks are left out that separate nothing. -/
theorem Tightens.items_eq {opened : Bool} {k l : List Cell} (tightens : Tightens opened k l)
    (lettered : Lettered k) :
    (itemsOf l).map Item.text = (itemsOf k).map Item.text ∧
      gaps (itemsOf l) = gaps (itemsOf k) := by
  induction tightens with
  | nil => exact ⟨rfl, rfl⟩
  | @cons opened x k l gap less rest ih =>
    cases lettered with
    | finish => exact ⟨rfl, rfl⟩
    | @letter gap' c _ blank visible plain inner =>
      obtain ⟨texts, counted⟩ := ih inner
      rw [Cell.is_mk_singleton] at rest
      rw [itemsOf_cons, itemsOf_cons, rest.goesOn_eq gap gap']
      cases on : goesOn ⟨gap', [c]⟩ k with
      | true =>
        obtain ⟨letter, -⟩ := exists_of_goesOn on
        simp only [↓reduceIte, map_text_prepend, gaps_prepend letter, texts, counted, and_self]
      | false =>
        refine ⟨by simp [texts], ?_⟩
        obtain ⟨y, k, rfl, split⟩ := gaps_cons inner ⟨[c], gap' ≠ []⟩
        obtain ⟨y', l, rfl, split'⟩ := gaps_cons (inner.tightens rest) ⟨[c], gap ≠ []⟩
        simp only [Bool.false_eq_true, ↓reduceIte, split, split', counted,
          List.append_cancel_right_eq]
        have ink : y'.ink = y.ink := by cases rest; rfl
        have same : y'.is isTail = y.is isTail := by rw [Cell.is, ink, Cell.is]
        by_cases tail : isLetter c ∧ y.is isTail
        · rw [rest.gap_eq (isMark_of_isLetter tail.1) tail.2, same]
          rfl
        · simp only [same, Item.isWord, List.all_cons, List.all_nil, Bool.and_true,
            Bool.and_eq_true]
          rw [if_neg tail, if_neg tail]

/-- Items less every semicolon that has a closing brace after it. -/
def withoutSemicolons : List Item → List Item
  | i :: j :: rest =>
    if i.text = [';'] ∧ j.text = ['}'] then ⟨['}'], i.apart⟩ :: withoutSemicolons rest
    else i :: withoutSemicolons (j :: rest)
  | rest => rest

theorem map_text_withoutSemicolons (rest : List Item) :
    (withoutSemicolons rest).map Item.text = withoutLast (rest.map Item.text) := by
  induction rest using withoutSemicolons.induct with
  | case1 i j rest last ih =>
    have brace : withoutLast (['}'] :: rest.map Item.text) =
        ['}'] :: withoutLast (rest.map Item.text) := by
      cases rest <;> simp [withoutLast]
    simp [withoutSemicolons, withoutLast, last, ih, brace]
  | case2 i j rest more ih => simpa [withoutSemicolons, withoutLast, more] using ih
  | case3 rest few =>
    cases rest with
    | nil => rfl
    | cons i rest =>
      cases rest with
      | nil => rfl
      | cons j rest => exact absurd rfl (few i j rest)

/-- A semicolon or a brace before an item. -/
theorem gaps_cons_of_mark {i : Item} (mark : i.isWord = false) (rest : List Item) :
    gaps (i :: rest) = gaps rest := by
  cases rest <;> simp [gaps, mark]

theorem gaps_withoutSemicolons (rest : List Item) :
    gaps (withoutSemicolons rest) = gaps rest := by
  induction rest using withoutSemicolons.induct with
  | case1 i j rest last ih =>
    have first : i.isWord = false := by simp [Item.isWord, last.1, isLetter, isMark, isDelimiter]
    have second : j.isWord = false := by
      simp [Item.isWord, last.2, isLetter, isMark, isDelimiter, isBrace]
    have brace : Item.isWord ⟨['}'], i.apart⟩ = false := by
      rw [← second, Item.isWord, Item.isWord, last.2]
    rw [withoutSemicolons, if_pos last, gaps_cons_of_mark brace, ih, gaps_cons_of_mark first,
      gaps_cons_of_mark second]
  | case2 i j rest more ih =>
    rw [withoutSemicolons, if_neg more]
    -- What follows is the next item, or a brace in the place of a semicolon.
    cases rest with
    | nil => rfl
    | cons h rest =>
      rw [withoutSemicolons] at ih ⊢
      by_cases last : j.text = [';'] ∧ h.text = ['}']
      · have first : j.isWord = false := by
          simp [Item.isWord, last.1, isLetter, isMark, isDelimiter]
        have brace : Item.isWord ⟨['}'], j.apart⟩ = false := by
          simp [Item.isWord, isLetter, isMark, isDelimiter, isBrace]
        rw [if_pos last] at ih ⊢
        simp [gaps, first, brace, last.1, ih]
      · rw [if_neg last] at ih ⊢
        simp [gaps, ih]
  | case3 rest few =>
    cases rest with
    | nil => rfl
    | cons i rest =>
      cases rest with
      | nil => rfl
      | cons j rest => exact absurd rfl (few i j rest)

theorem goesOn_lastSemicolons (x : Cell) (k : List Cell) :
    goesOn x (lastSemicolons k) = goesOn x k := by
  match k with
  | [] => rfl
  | [y] => rfl
  | y :: z :: k =>
    rw [lastSemicolons]
    split
    · rename_i last
      have semicolon : y.is isLetter = false := by
        simp [Cell.is, last.1, isLetter, isMark, isDelimiter]
      simp [goesOn, semicolon, isLetter, isMark, isDelimiter, isBrace]
    · simp [goesOn]

theorem withoutSemicolons_prepend {i : Item} {c : Char} (letter : isLetter c) (word : i.isWord)
    (apart : Bool) (rest : List Item) :
    withoutSemicolons (prepend c apart i :: rest) =
      (withoutSemicolons (i :: rest)).modifyHead (prepend c apart) := by
  cases rest with
  | nil => rfl
  | cons j rest =>
    have first : ¬ (i.text = [';'] ∧ j.text = ['}']) := by
      rintro ⟨isLast, -⟩
      simp [Item.isWord, isLast, isLetter, isMark, isDelimiter] at word
    have second : ¬ ((prepend c apart i).text = [';'] ∧ j.text = ['}']) := by
      rintro ⟨isLast, -⟩
      obtain ⟨rfl, -⟩ := List.cons.inj isLast
      cases letter
    rw [withoutSemicolons, if_neg second, withoutSemicolons, if_neg first]
    rfl

/-- Where braces have no blanks before them, exactly the semicolons are dropped that have a brace
after them. -/
theorem itemsOf_lastSemicolons {k : List Cell} (lettered : Lettered k)
    (closed : ∀ x ∈ k, x.ink = ['}'] → x.gap = []) :
    itemsOf (lastSemicolons k) = withoutSemicolons (itemsOf k) := by
  induction k using lastSemicolons.induct with
  | case1 x y k last ih =>
    obtain ⟨gap, ink⟩ := x
    obtain ⟨rfl, rfl⟩ := last
    have inner : Lettered k := by
      cases lettered with
      | letter _ _ _ rest => cases rest with | letter _ _ _ rest => exact rest
    have first : goesOn ⟨gap, [';']⟩ (⟨[], ['}']⟩ :: k) = false := by
      simp [goesOn, isLetter, isMark, isDelimiter]
    have second (gap : Text) (k : List Cell) : goesOn ⟨gap, ['}']⟩ k = false := by
      simp [goesOn, isLetter, isMark, isDelimiter, isBrace]
    rw [lastSemicolons, if_pos ⟨rfl, rfl⟩, itemsOf_cons, itemsOf_cons, itemsOf_cons, second, second,
      first, ih inner fun z member => closed z (by simp [member])]
    simp [withoutSemicolons]
  | case2 x y k more ih =>
    cases lettered with
    | @letter gap c _ blank visible plain rest =>
      have closed' : ∀ z ∈ y :: k, z.ink = ['}'] → z.gap = [] :=
        fun z member => closed z (List.mem_cons_of_mem _ member)
      rw [lastSemicolons, if_neg more, itemsOf_cons, itemsOf_cons, goesOn_lastSemicolons,
        ih rest closed']
      split
      · rename_i on
        obtain ⟨letter, d, l, same, letter'⟩ := exists_of_goesOn on
        rw [same]
        obtain ⟨j, items, split, -, word, -⟩ := exists_itemsOf_cons [] d l
        rw [split]
        exact (withoutSemicolons_prepend letter (word.trans letter') _ _).symm
      · cases rest with
        | finish => rfl
        | @letter gap' d _ =>
          obtain ⟨j, items, split, -, -, marked⟩ := exists_itemsOf_cons gap' d k
          have kept : ¬ ([c] = [';'] ∧ j.text = ['}']) := by
            rintro ⟨isLast, isBrace⟩
            have ink := (marked '}' rfl).mp isBrace
            have none := closed' ⟨gap', [d]⟩ List.mem_cons_self (by rw [ink])
            exact more ⟨isLast, by rw [ink, ← none]⟩
          rw [split, withoutSemicolons, if_neg kept]
  | case3 k few =>
    cases lettered with
    | finish => rfl
    | letter _ _ _ rest =>
      obtain ⟨y, k, rfl⟩ := List.exists_cons_of_ne_nil rest.ne_nil
      exact absurd rfl (few _ _ _)

/-- The words and marks of a compacted text are those of the text, less the semicolons before
closing braces. Words stay apart from words and colons where they were. -/
theorem items_compact {css : Text} (remarkless : ¬ ['/', '*'] <:+: css) (plain : '\\' ∉ css) :
    (items (compact css)).map Item.text = withoutLast ((items css).map Item.text) ∧
      gaps (items (compact css)) = gaps (items css) := by
  have lettered := lettered_cells plain
  have tightens := tightens_squeezed (cells css)
  have tight := lettered.tightens tightens
  obtain ⟨texts, counted⟩ := tightens.items_eq lettered
  have compacted : compact css = render (lastSemicolons (squeezed (cells css))) := by
    have whole := render_cells css
    have kept := lettered.compact_render (by rw [whole, dropComments_of_remarkless remarkless])
    rwa [whole] at kept
  have before : items css = itemsOf (cells css) := by rw [← items_render lettered, render_cells]
  have after : items (compact css) = withoutSemicolons (itemsOf (squeezed (cells css))) := by
    have closed : ∀ x ∈ squeezed (cells css), x.ink = ['}'] → x.gap = [] :=
      fun x member ink => gap_squeezed _ x member (by simp [Cell.is, ink, isBrace])
    rw [compacted, items_render tight.lastSemicolons, itemsOf_lastSemicolons tight closed]
  rw [after, before, map_text_withoutSemicolons, gaps_withoutSemicolons, texts, counted]
  exact ⟨rfl, rfl⟩

/-- Combinators that share blanks, a colon that is apart and one that is not, two semicolons at the
end of a block. -/
theorem items_compact_combinators :
    let css := "a :b > > c:d \x7b\n k : v ;\t; \x7d\n+ e".toList
    (¬ ['/', '*'] <:+: css ∧ '\\' ∉ css) ∧
      ((items (compact css)).map Item.text = withoutLast ((items css).map Item.text) ∧
        gaps (items (compact css)) = gaps (items css)) ∧
      gaps (items css) = [true, false, true] ∧
      compact css = "a :b>> c:d\x7bk :v ;\x7d+ e".toList := by
  intro css
  have remarkless : ¬ ['/', '*'] <:+: css := by decide +kernel
  have plain : '\\' ∉ css := by decide +kernel
  exact ⟨⟨remarkless, plain⟩, items_compact remarkless plain, by decide +kernel, by decide +kernel⟩

end Stylesheet.Compact
