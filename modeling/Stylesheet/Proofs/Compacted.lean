import Stylesheet.Proofs.Cells

set_option autoImplicit false

namespace Stylesheet.Compact

open Cell (render)

variable {opened : Bool} {k l : List Cell}

/-- Cells in which all blanks separate something. -/
inductive Tight : Bool → List Cell → Prop
  | nil {opened : Bool} : Tight opened []
  | cons {opened : Bool} {x : Cell} {k : List Cell} (early : opened → x.gap = [])
      (brace : x.is isBrace → x.gap = []) (alone : isApart x k = false)
      (rest : Tight (x.is isDelimiter) k) : Tight opened (x :: k)

theorem closeIf_eq_self {x : Cell} (early : opened → x.gap = []) : closeIf opened x = x := by
  cases opened with
  | false => rfl
  | true => rw [closeIf, if_pos rfl, Cell.close, ← early rfl]

namespace Tight

theorem beforeBraces_eq (tight : Tight opened k) : beforeBraces k = k := by
  induction tight with
  | nil => rfl
  | @cons opened x k early brace alone rest ih =>
    rw [beforeBraces, List.map_cons, ← beforeBraces, ih]
    split
    · rename_i braced
      rw [Cell.close, ← brace braced]
    · rfl

theorem afterDelimiters_eq (tight : Tight opened k) : afterDelimiters opened k = k := by
  induction tight with
  | nil => rfl
  | cons early _ _ _ ih => rw [afterDelimiters, ih, closeIf_eq_self early]

theorem aroundCombinators_eq (tight : Tight opened k) : aroundCombinators false k = k := by
  induction tight with
  | nil => rfl
  | cons _ _ alone _ ih =>
    rw [aroundCombinators, closeIf_eq_self (by simp), alone, ih]
    rfl

theorem squeezed_eq (tight : Tight true k) : squeezed k = k := by
  rw [squeezed, tight.beforeBraces_eq, tight.afterDelimiters_eq, tight.aroundCombinators_eq]

end Tight

/-- After a delimiter and at the start there are no blanks. -/
inductive Joined : Bool → List Cell → Prop
  | nil {opened : Bool} : Joined opened []
  | cons {opened : Bool} {x : Cell} {k : List Cell} (early : opened → x.gap = [])
      (rest : Joined (x.is isDelimiter) k) : Joined opened (x :: k)

theorem joined_afterDelimiters (opened : Bool) (k : List Cell) :
    Joined opened (afterDelimiters opened k) := by
  induction k generalizing opened with
  | nil => exact .nil
  | cons x k ih =>
    refine .cons (fun isOpened => ?_) ?_
    · simp [closeIf, isOpened, Cell.close]
    · rw [closeIf_is]
      exact ih _

theorem Joined.tightens {opened' : Bool} (joined : Joined opened k)
    (tightens : Tightens opened' k l) : Joined opened l := by
  induction tightens generalizing opened with
  | nil => exact .nil
  | @cons opened' x k l gap less rest ih =>
    cases joined with
    | cons early inner =>
      refine .cons (fun isOpened => ?_) (ih inner)
      rcases less with same | ⟨none, -⟩
      · exact same.trans (early isOpened)
      · exact none

theorem gap_of_aroundCombinators {x : Cell}
    (first : x ∈ (aroundCombinators opened k).head?) (apart : x.gap ≠ []) :
    ∃ y ∈ k.head?, y.gap ≠ [] := by
  cases k with
  | nil => simp [aroundCombinators] at first
  | cons y k =>
    refine ⟨y, rfl, fun none => apart ?_⟩
    rw [aroundCombinators] at first
    split at first
    · cases first
      rfl
    · cases first
      rcases closeIf_gap_cases opened y with same | ⟨none', -⟩
      · exact same.trans none
      · exact none'

/-- No combinator is left between blanks. -/
theorem Joined.tight_aroundCombinators {outer : Bool} (joined : Joined outer k)
    (closed : ∀ x ∈ k, x.is isBrace → x.gap = []) (opened : Bool) :
    Tight outer (aroundCombinators opened k) := by
  induction joined generalizing opened with
  | nil => exact .nil
  | @cons outer x k early rest ih =>
    rw [List.forall_mem_cons] at closed
    rw [aroundCombinators]
    split
    · exact .cons (fun _ => rfl) (fun _ => rfl) (by simp [isApart, Cell.close]) (ih closed.2 true)
    · rename_i alone
      have less : ∀ {p : Prop}, (p → x.gap = []) → p → (closeIf opened x).gap = [] := by
        intro p none holds
        rcases closeIf_gap_cases opened x with same | ⟨none', -⟩
        · exact same.trans (none holds)
        · exact none'
      refine .cons (less early) (less (by rw [closeIf_is]; exact closed.1)) ?_ ?_
      · refine Bool.eq_false_iff.mpr fun apart => alone ?_
        simp only [isApart, closeIf_is, Bool.and_eq_true, Option.any_eq_true,
          decide_eq_true_eq] at apart ⊢
        obtain ⟨before, y, first, after⟩ := apart
        exact ⟨before, gap_of_aroundCombinators first after⟩
      · rw [closeIf_is]
        exact ih closed.2 false

theorem tight_squeezed (k : List Cell) : Tight true (squeezed k) :=
  (joined_afterDelimiters true _).tight_aroundCombinators (gap_afterDelimiters k) false

/-- Every semicolon directly follows something else than a semicolon. -/
inductive Parted : Bool → List Cell → Prop
  | nil {after : Bool} : Parted after []
  | cons {after : Bool} {x : Cell} {k : List Cell}
      (own : x.ink = [';'] → x.gap = [] ∧ after = false) (rest : Parted (x.ink = [';']) k) :
      Parted after (x :: k)

theorem Parted.tightens {after : Bool} (parted : Parted after k) (tightens : Tightens opened k l) :
    Parted after l := by
  induction tightens generalizing after with
  | nil => exact .nil
  | @cons opened x k l gap less rest ih =>
    cases parted with
    | cons own inner =>
      refine .cons (fun semicolon => ⟨?_, (own semicolon).2⟩) (ih inner)
      rcases less with same | ⟨none, -⟩
      · exact same.trans (own semicolon).1
      · exact none

theorem lastSemicolons_cons {x : Cell} (other : x.ink ≠ [';']) (k : List Cell) :
    lastSemicolons (x :: k) = x :: lastSemicolons k := by
  cases k with
  | nil => rfl
  | cons y k => rw [lastSemicolons, if_neg fun last => other last.1]

/-- The blanks at the start stay. -/
theorem gap_lastSemicolons (k : List Cell) :
    (lastSemicolons k).head?.map Cell.gap = k.head?.map Cell.gap := by
  fun_cases lastSemicolons k <;> rfl

theorem isApart_lastSemicolons (x : Cell) (k : List Cell) :
    isApart x (lastSemicolons k) = isApart x k := by
  have any (k : List Cell) : k.head?.any (fun y => decide (y.gap ≠ [])) =
      (k.head?.map Cell.gap).any fun gap => decide (gap ≠ []) := by
    cases k <;> rfl
  rw [isApart, isApart, any, any, gap_lastSemicolons]

theorem Tight.lastSemicolons {after : Bool} (tight : Tight opened k) (parted : Parted after k) :
    Tight opened (lastSemicolons k) := by
  induction k using lastSemicolons.induct generalizing opened after with
  | case1 x y k last ih =>
    rw [Compact.lastSemicolons, if_pos last]
    obtain ⟨isLast, rfl⟩ := last
    cases tight with
    | cons early _ _ rest =>
      cases rest with
      | cons _ _ _ rest =>
        cases parted with
        | cons own inner =>
          cases inner with
          | cons _ inner =>
            exact .cons early (fun _ => (own isLast).1) (by simp [isApart, isCombinator])
              (ih rest inner)
  | case2 x y k more ih =>
    rw [Compact.lastSemicolons, if_neg more]
    cases tight with
    | cons early brace alone rest =>
      cases parted with
      | cons own inner =>
        exact .cons early brace ((isApart_lastSemicolons x (y :: k)).trans alone) (ih rest inner)
  | case3 k few => rwa [Compact.lastSemicolons.eq_2 k few]

theorem Parted.lastSemicolons_eq {after : Bool} (parted : Parted after k) :
    lastSemicolons (lastSemicolons k) = lastSemicolons k := by
  induction k using lastSemicolons.induct generalizing after with
  | case1 x y k last ih =>
    cases parted with
    | cons _ inner =>
      cases inner with
      | cons _ inner =>
        rw [lastSemicolons, if_pos last, lastSemicolons_cons (by simp), ih inner]
  | case2 x y k more ih =>
    cases parted with
    | cons own inner =>
      have again := ih inner
      rw [lastSemicolons, if_neg more]
      by_cases isLast : x.ink = [';']
      · cases inner with
        | @cons _ _ _ own' inner =>
          have other : y.ink ≠ [';'] := by
            intro semicolon
            have before := (own' semicolon).2
            simp [isLast] at before
          rw [lastSemicolons_cons other, lastSemicolons_cons other] at again
          rw [lastSemicolons_cons other, lastSemicolons, if_neg more, lastSemicolons_cons other,
            again]
      · rw [lastSemicolons_cons isLast, again]
  | case3 k few => rw [lastSemicolons.eq_2 k few, lastSemicolons.eq_2 k few]

theorem Tightens.sublist (tightens : Tightens opened k l) : (render l).Sublist (render k) := by
  induction tightens with
  | nil => exact .slnil
  | cons less rest ih =>
    rw [Cell.render_cons, Cell.render_cons]
    refine .append ?_ (.append (.refl _) ih)
    rcases less with rfl | ⟨rfl, -⟩
    · exact .refl _
    · exact List.nil_sublist _

theorem sublist_lastSemicolons (k : List Cell) :
    (render (lastSemicolons k)).Sublist (render k) := by
  induction k using lastSemicolons.induct with
  | case1 x y k last ih =>
    rw [lastSemicolons, if_pos last]
    obtain ⟨isLast, rfl⟩ := last
    simp only [Cell.render_cons, isLast, List.singleton_append, List.nil_append]
    exact .append (.refl _) ((ih.cons_cons '}').cons ';')
  | case2 x y k more ih =>
    rw [lastSemicolons, if_neg more, Cell.render_cons, Cell.render_cons x]
    exact .append (.refl _) (.append (.refl _) ih)
  | case3 k few => rw [lastSemicolons.eq_2 k few]

/-- In a text every semicolon but one at the start directly follows a character that is neither
blank nor a semicolon. -/
def SemicolonsFollow (t : Text) : Prop :=
  ∀ before c after, t = before ++ c :: ';' :: after → Text.isBlank c = false ∧ c ≠ ';'

theorem semicolonsFollow_of_isChain {t : Text}
    (chain : t.IsChain fun c d => d = ';' → Text.isBlank c = false ∧ c ≠ ';') :
    SemicolonsFollow t := by
  rintro before c after rfl
  exact (List.isChain_cons_cons.mp chain.right_of_append).1 rfl

theorem SemicolonsFollow.tail {c : Char} {t : Text} (follow : SemicolonsFollow (c :: t)) :
    SemicolonsFollow t :=
  fun before d after split => follow (c :: before) d after (by rw [split, List.cons_append])

theorem parted_cells {t : Text} (follow : SemicolonsFollow t) : Parted false (cells t) := by
  induction t with
  | nil => exact .cons (by simp) .nil
  | cons c t ih =>
    have inner := ih follow.tail
    -- A semicolon that starts the rest follows the first character directly.
    have next : ∀ x ∈ (cells t).head?, x.ink = [';'] → Text.isBlank c = false ∧ c ≠ ';' := by
      intro x first semicolon
      have whole := render_cells t
      generalize cells t = k at inner first whole
      obtain ⟨k, rfl⟩ := List.head?_eq_some_iff.mp first
      cases inner with
      | cons own =>
        rw [Cell.render_cons, (own semicolon).1, semicolon] at whole
        exact follow [] c _ (by rw [← whole]; rfl)
    generalize same : cells t = k at inner next
    cases visible : Text.isBlank c with
    | false =>
      rw [cells_visible visible, same]
      refine .cons (by simp) ?_
      cases inner with
      | nil => exact .nil
      | cons own rest =>
        refine .cons (fun semicolon => ⟨(own semicolon).1, ?_⟩) rest
        simpa using (next _ rfl semicolon).2
    | true =>
      rw [cells_blank visible, same]
      cases inner with
      | nil => exact .nil
      | cons own rest =>
        refine .cons (fun semicolon => ?_) rest
        have visible' := (next _ rfl semicolon).1
        simp [visible] at visible'

/-- A compacted text is not changed by compacting it again. -/
theorem compact_compact {css : Text} (plain : '\\' ∉ css) (remarkless : '/' ∉ css)
    (follow : SemicolonsFollow css) : compact (compact css) = compact css := by
  have lettered := lettered_cells plain
  have tightens := tightens_squeezed (cells css)
  have parted := (parted_cells follow).tightens tightens
  have settled := (lettered.tightens tightens).lastSemicolons
  have sublist := (sublist_lastSemicolons _).trans tightens.sublist
  have whole := render_cells css
  have compacted : compact css = render (lastSemicolons (squeezed (cells css))) := by
    have kept := lettered.compact_render (by rw [whole, dropComments_eq_self remarkless])
    rwa [whole] at kept
  rw [whole] at sublist
  have remarkless' := dropComments_eq_self fun member => remarkless (sublist.subset member)
  rw [compacted, settled.compact_render remarkless',
    ((tight_squeezed (cells css)).lastSemicolons parted).squeezed_eq, parted.lastSemicolons_eq]

/-- A semicolon at the start, combinators that share blanks, blanks before a colon. -/
theorem compact_compact_combinators :
    let css := ";a > > b \x7b\n  k :v;\n  l: w;\n\x7d\n+ c \x7b;\x7d".toList
    ('\\' ∉ css ∧ '/' ∉ css ∧ SemicolonsFollow css) ∧ compact (compact css) = compact css ∧
      compact css = ";a>> b\x7bk :v;l:w\x7d+ c\x7b\x7d".toList := by
  intro css
  have plain : '\\' ∉ css := by decide +kernel
  have remarkless : '/' ∉ css := by decide +kernel
  have follow : SemicolonsFollow css := semicolonsFollow_of_isChain (by decide +kernel)
  exact ⟨⟨plain, remarkless, follow⟩, compact_compact plain remarkless follow, by decide +kernel⟩

end Stylesheet.Compact
