import Stylesheet.Proofs.Rendering
import Stylesheet.Proofs.Seams

set_option autoImplicit false

namespace Stylesheet

namespace Text

/-- How many characters it takes to reach the end of a string or a comment whose text starts here
and that a mark ends, `none` when it does not end. A backslash goes with the character after it. -/
def closing? (mark : Text) : Text → Option Nat
  | [] => none
  | '\\' :: _ :: t => (closing? mark t).map (· + 2)
  | c :: t => if mark.isPrefixOf (c :: t) then some mark.length else (closing? mark t).map (· + 1)

def isQuote (c : Char) : Bool := c = '"' || c = '\''

theorem isQuote_iff {c : Char} : isQuote c ↔ c = '"' ∨ c = '\'' := by
  simp only [isQuote, Bool.or_eq_true, decide_eq_true_eq]

/-- The length of a string or an escape at the start of a text. -/
def sealLength : Text → Nat
  | '\\' :: _ :: _ => 2
  | c :: t => if isQuote c then ((closing? [c] t).map (· + 1)).getD 0 else 0
  | [] => 0

/-- The length of a string, an escape or a comment at the start of a text. -/
def verbatimLength : Text → Nat
  | '/' :: '*' :: t => ((closing? ['*', '/'] t).map (· + 2)).getD 0
  | t => sealLength t

def literals (t : Text) : List Text :=
  (pieces sealLength t).filterMap fun
    | .plain _ => none
    | .found m => if m.head? = some '\\' then none else some m

/-- A text that a mark ends, and no earlier one. -/
inductive Closes (mark : Text) : Text → Prop
  | mark : Closes mark mark
  | escape (c : Char) {t : Text} (rest : Closes mark t) : Closes mark ('\\' :: c :: t)
  | letter {c : Char} {t : Text} (plain : c ≠ '\\') (goesOn : ¬ mark <+: c :: t)
      (rest : Closes mark t) : Closes mark (c :: t)

variable {mark t : Text}

theorem closing?_cons {c : Char} (plain : c ≠ '\\') (t : Text) :
    closing? mark (c :: t) =
      if mark <+: c :: t then some mark.length else (closing? mark t).map (· + 1) := by
  rw [closing?]
  · simp
  · rintro d u rfl
    exact absurd rfl plain

/-- What `closing?` counts is a closed text. -/
theorem closes_of_closing? {n : Nat} (ends : closing? mark t = some n) :
    ∃ w u, t = w ++ u ∧ w.length = n ∧ Closes mark w := by
  fun_induction closing? mark t generalizing n with
  | case1 => cases ends
  | case2 c t ih =>
    obtain ⟨m, later, rfl⟩ := Option.map_eq_some_iff.mp ends
    obtain ⟨w, u, rfl, rfl, closes⟩ := ih later
    exact ⟨'\\' :: c :: w, u, rfl, rfl, .escape c closes⟩
  | case3 c t paired here =>
    cases ends
    obtain ⟨u, split⟩ := List.isPrefixOf_iff_prefix.mp here
    exact ⟨mark, u, split.symm, rfl, .mark⟩
  | case4 c t paired here ih =>
    obtain ⟨m, later, rfl⟩ := Option.map_eq_some_iff.mp ends
    obtain ⟨w, u, rfl, rfl, closes⟩ := ih later
    refine ⟨c :: w, u, rfl, rfl, .letter ?_ ?_ closes⟩
    · rintro rfl
      cases both : w ++ u with
      | nil => rw [both] at later; cases later
      | cons d rest => exact paired d rest rfl both
    · intro here'
      exact here (List.isPrefixOf_iff_prefix.mpr (here'.trans ⟨u, rfl⟩))

def endMarks : List Text := [['"'], ['\''], ['*', '/']]

theorem endMark_cases (isEnd : mark ∈ endMarks) : ∃ c v, mark = c :: v ∧ c ≠ '\\' ∧
    ∀ d ∈ c :: v, d ≠ '\r' ∧ d ≠ '\n' ∧ isBlank d = false := by
  simp only [endMarks, List.mem_cons, List.not_mem_nil, or_false] at isEnd
  rcases isEnd with rfl | rfl | rfl
  · exact ⟨'"', [], rfl, by decide, List.forall_mem_singleton.mpr (by decide)⟩
  · exact ⟨'\'', [], rfl, by decide, List.forall_mem_singleton.mpr (by decide)⟩
  · exact ⟨'*', ['/'], rfl, by decide,
      List.forall_mem_cons.mpr ⟨by decide, List.forall_mem_singleton.mpr (by decide)⟩⟩

namespace Closes

theorem suffix (closes : Closes mark t) : mark <:+ t := by
  induction closes with
  | mark => exact List.suffix_rfl
  | escape c _ ih => exact ih.trans ⟨['\\', c], rfl⟩
  | letter _ _ _ ih => exact ih.trans (List.suffix_cons _ _)

theorem ne_nil (closes : Closes mark t) (isEnd : mark ∈ endMarks) : t ≠ [] := by
  rintro rfl
  obtain ⟨c, v, rfl, -⟩ := endMark_cases isEnd
  simpa using closes.suffix

/-- A closed text is counted whatever comes after it. -/
theorem closing?_append (closes : Closes mark t) (isEnd : mark ∈ endMarks) (rest : Text) :
    closing? mark (t ++ rest) = some t.length := by
  induction closes with
  | mark =>
    obtain ⟨c, v, rfl, plain, -⟩ := endMark_cases isEnd
    rw [List.cons_append, closing?_cons plain, if_pos ⟨rest, rfl⟩]
  | escape c _ ih => simp [closing?, ih]
  | @letter c t plain goesOn later ih =>
    have short : mark.length ≤ (c :: t).length :=
      (later.suffix.length_le).trans (Nat.le_succ _)
    have goesOn' : ¬ mark <+: c :: (t ++ rest) := fun here =>
      goesOn (List.prefix_of_prefix_length_le here ⟨rest, rfl⟩ short)
    simp [closing?_cons plain, goesOn', ih]

end Closes

theorem exists_unifyLineEnds_return (t : Text) : ∃ u, unifyLineEnds ('\r' :: t) = '\n' :: u := by
  by_cases joined : t.head? = some '\n'
  · obtain ⟨u, rfl⟩ := List.head?_eq_some_iff.mp joined
    exact ⟨unifyLineEnds u, rfl⟩
  · exact ⟨unifyLineEnds t, unifyLineEnds_return joined⟩

/-- Line ends are not part of a mark. -/
theorem prefix_of_prefix_unifyLineEnds (visible : ∀ d ∈ mark, d ≠ '\r' ∧ d ≠ '\n')
    (here : mark <+: unifyLineEnds t) : mark <+: t := by
  induction mark generalizing t with
  | nil => exact List.nil_prefix
  | cons d mark ih =>
    obtain ⟨own, later⟩ := List.forall_mem_cons.mp visible
    cases t with
    | nil => exact here
    | cons c t =>
      by_cases isReturn : c = '\r'
      · obtain ⟨u, unified⟩ := exists_unifyLineEnds_return t
        rw [isReturn, unified, List.cons_prefix_cons] at here
        exact absurd here.1 own.2
      · rw [unifyLineEnds_cons isReturn, List.cons_prefix_cons] at here
        exact List.cons_prefix_cons.mpr ⟨here.1, ih later here.2⟩

theorem Closes.unifyLineEnds (closes : Closes mark t) (isEnd : mark ∈ endMarks) :
    Closes mark (unifyLineEnds t) := by
  obtain ⟨e, v, rfl, plain, visible⟩ := endMark_cases isEnd
  have own : Text.unifyLineEnds (e :: v) = e :: v :=
    unifyLineEnds_eq_self fun member => (visible _ member).1 rfl
  have goesOnBreak (u : Text) : ¬ e :: v <+: '\n' :: u := fun here =>
    (visible e List.mem_cons_self).2.1 (List.cons_prefix_cons.mp here).1
  induction closes with
  | mark => rw [own]; exact .mark
  | @escape c t rest ih =>
    rw [unifyLineEnds_cons (by decide)]
    by_cases isReturn : c = '\r'
    · subst isReturn
      by_cases joined : t.head? = some '\n'
      · obtain ⟨u, rfl⟩ := List.head?_eq_some_iff.mp joined
        -- The two line ends become one, which now goes with the backslash.
        rw [unifyLineEnds_cons (by decide)] at ih
        rw [Text.unifyLineEnds]
        generalize Text.unifyLineEnds u = w at ih ⊢
        cases ih with
        | mark => simp at visible
        | letter _ _ rest => exact .escape _ rest
      · rw [unifyLineEnds_return joined]
        exact .escape _ ih
    · rw [unifyLineEnds_cons isReturn]
      exact .escape _ ih
  | @letter c t notEscape goesOn rest ih =>
    by_cases isReturn : c = '\r'
    · subst isReturn
      by_cases joined : t.head? = some '\n'
      · obtain ⟨u, rfl⟩ := List.head?_eq_some_iff.mp joined
        rw [unifyLineEnds_cons (by decide)] at ih
        rwa [Text.unifyLineEnds]
      · rw [unifyLineEnds_return joined]
        exact .letter (by decide) (goesOnBreak _) ih
    · rw [unifyLineEnds_cons isReturn]
      refine .letter notEscape (fun here => goesOn ?_) ih
      rw [← unifyLineEnds_cons isReturn] at here
      exact prefix_of_prefix_unifyLineEnds
        (fun d member => ⟨(visible d member).1, (visible d member).2.1⟩) here

theorem mem_endMarks {q : Char} (quotes : isQuote q) : [q] ∈ endMarks := by
  rcases isQuote_iff.mp quotes with rfl | rfl <;> decide

theorem isBlank_of_isQuote {q : Char} (quotes : isQuote q) : isBlank q = false := by
  rcases isQuote_iff.mp quotes with rfl | rfl <;> rfl

theorem bare_of_isBlank {c : Char} (blank : isBlank c) : c ≠ '\\' ∧ isQuote c = false := by
  constructor
  · rintro rfl
    cases blank
  · by_contra quotes
    simp [isBlank_of_isQuote (Bool.not_eq_false _ ▸ quotes)] at blank

theorem pieces_plain {length : Text → Nat} {c : Char} {t : Text} (unmatched : length (c :: t) = 0) :
    pieces length (c :: t) = .plain c :: pieces length t := by
  rw [pieces, piecesFrom, unmatched]
  rfl

theorem pieces_found {length : Text → Nat} {m t : Text} (nonempty : m ≠ [])
    (found : length (m ++ t) = m.length) :
    pieces length (m ++ t) = .found m :: pieces length t := by
  have matched : length (m ++ t) ≠ 0 := by
    rw [found]
    exact (List.length_pos_iff.mpr nonempty).ne'
  rw [pieces_of_match matched (by simp [nonempty]), found, List.take_left, List.drop_left]

inductive IsVerbatim : Text → Prop
  | remark {w : Text} (closes : Closes ['*', '/'] w) : IsVerbatim ('/' :: '*' :: w)
  | string {q : Char} {w : Text} (quotes : isQuote q) (closes : Closes [q] w) : IsVerbatim (q :: w)
  | escape (d : Char) : IsVerbatim ['\\', d]

theorem sealLength_eq_zero_or (t : Text) :
    sealLength t = 0 ∨ ∃ m u, t = m ++ u ∧ IsVerbatim m ∧ sealLength t = m.length := by
  fun_cases sealLength t with
  | case1 d u => exact .inr ⟨['\\', d], u, rfl, .escape d, rfl⟩
  | case2 c u paired quotes =>
    cases ends : closing? [c] u with
    | none => exact .inl rfl
    | some n =>
      obtain ⟨w, v, rfl, rfl, closes⟩ := closes_of_closing? ends
      exact .inr ⟨c :: w, v, rfl, .string quotes closes, rfl⟩
  | case3 | case4 => exact .inl rfl

theorem verbatimLength_eq_zero_or (t : Text) :
    verbatimLength t = 0 ∨ ∃ m u, t = m ++ u ∧ IsVerbatim m ∧ verbatimLength t = m.length := by
  fun_cases verbatimLength t with
  | case1 u =>
    cases ends : closing? ['*', '/'] u with
    | none => exact .inl rfl
    | some n =>
      obtain ⟨w, v, rfl, rfl, closes⟩ := closes_of_closing? ends
      exact .inr ⟨'/' :: '*' :: w, v, rfl, .remark closes, rfl⟩
  | case2 t other => exact sealLength_eq_zero_or t

/-- A text is made up of the matches of a pattern that finds verbatim parts, and of other
characters. -/
theorem induction_by {length : Text → Nat}
    (cuts : ∀ t, length t = 0 ∨ ∃ m u, t = m ++ u ∧ IsVerbatim m ∧ length t = m.length)
    {P : Text → Prop} (nil : P []) (plain : ∀ c t, length (c :: t) = 0 → P t → P (c :: t))
    (verbatim : ∀ m t, IsVerbatim m → length (m ++ t) = m.length → P t → P (m ++ t))
    (t : Text) : P t := by
  induction size : t.length using Nat.strong_induction_on generalizing t with
  | _ n ih =>
    subst size
    rcases cuts t with none | ⟨m, u, rfl, isVerbatim, found⟩
    · cases t with
      | nil => exact nil
      | cons c t => exact plain c t none (ih _ (by simp) t rfl)
    · refine verbatim m u isVerbatim found (ih _ ?_ u rfl)
      rw [List.length_append]
      cases isVerbatim <;> simp only [List.length_cons] <;> omega

theorem IsVerbatim.exists_first {m : Text} (isVerbatim : IsVerbatim m) :
    ∃ c d w, m = c :: d :: w ∧ isBlank c = false := by
  cases isVerbatim with
  | remark => exact ⟨_, _, _, rfl, rfl⟩
  | string quotes closes =>
    obtain ⟨d, w, rfl⟩ := List.exists_cons_of_ne_nil (closes.ne_nil (mem_endMarks quotes))
    exact ⟨_, _, _, rfl, isBlank_of_isQuote quotes⟩
  | escape d => exact ⟨_, _, _, rfl, rfl⟩

theorem Closes.unescaped_append {mark w : Text} (closes : Closes mark w) (isEnd : mark ∈ endMarks)
    (t : Text) : (w ++ t).unescaped = w.unescaped ++ t.unescaped := by
  induction closes with
  | mark =>
    simp only [endMarks, List.mem_cons, List.not_mem_nil, or_false] at isEnd
    rcases isEnd with rfl | rfl | rfl <;> simp [unescaped, unescaped_cons]
  | escape c _ ih => simpa [unescaped] using ih
  | letter plain _ _ ih =>
    rw [List.cons_append, unescaped_cons plain, unescaped_cons plain, ih, List.cons_append]

theorem IsVerbatim.unescaped_append {m : Text} (isVerbatim : IsVerbatim m) (t : Text) :
    (m ++ t).unescaped = m.unescaped ++ t.unescaped := by
  cases isVerbatim with
  | remark closes => simp [unescaped_cons, closes.unescaped_append (by decide)]
  | @string q w quotes closes =>
    have plain : q ≠ '\\' := by
      rintro rfl
      cases quotes
    simp [unescaped_cons plain, closes.unescaped_append (mem_endMarks quotes)]
  | escape d => simp [unescaped]

end Text

namespace Scan

open Text (Closes)

theorem mark_of_isQuote {q : Char} (quotes : Text.isQuote q) :
    ∃ string, Mark.of q = .quote string := by
  rcases Text.isQuote_iff.mp quotes with rfl | rfl <;> exact ⟨_, rfl⟩

theorem ne_of_quote {q : Char} {string : Construct} (marks : Mark.of q = .quote string) :
    q ≠ '\\' ∧ q ≠ '/' ∧ q ≠ '*' := by
  refine ⟨?_, ?_, ?_⟩ <;> rintro rfl <;> cases marks

/-- Each kind of string has one quotation mark. -/
theorem eq_of_quote {q c : Char} {string : Construct} (marks : Mark.of q = .quote string)
    (marks' : Mark.of c = .quote string) : q = c := by
  rw [mark_of_eq_quote_iff] at marks marks'
  unfold string? at marks marks'
  grind

/-- A string is read to its end and becomes pending as it is. -/
theorem run_inside {q : Char} {string : Construct} (marks : Mark.of q = .quote string) {w : Text}
    (closes : Closes [q] w) (legal : ∀ c ∈ w.unescaped, Mark.of c ≠ .control) (x : Spot)
    (p : Position) (pending : Text) (tokens : List Token) (line : Nat) (rest : Text) :
    ∃ p', run ⟨p, pending, x.key, none, ⟨string, line⟩ :: x.frames, tokens⟩ (w ++ rest) =
      (x.reader p' (w.reverse ++ pending) tokens).run rest := by
  have isString := Mark.of_eq_quote marks
  have isVerbatim : string.isVerbatim := by rcases isString with rfl | rfl <;> rfl
  induction closes generalizing p pending with
  | mark =>
    have ended : single ⟨p, pending, x.key, none, ⟨string, line⟩ :: x.frames, tokens⟩ q rest =
        .ok (x.reader (p.advance q) (q :: pending) tokens) := by
      simp only [single, marks]
      rcases isString with rfl | rfl <;> rfl
    refine ⟨p.advance q, ?_⟩
    rw [List.cons_append, List.nil_append, run_cons _ q rest (ne_of_quote marks), ended]
    rfl
  | escape c later ih =>
    obtain ⟨p', read⟩ := ih legal ((p.advance '\\').advance c) (c :: '\\' :: pending)
    refine ⟨p', ?_⟩
    rw [List.reverse_cons, List.reverse_cons, List.append_assoc, List.append_assoc]
    exact read
  | @letter c w plain goesOn later ih =>
    rw [Text.unescaped_cons plain] at legal
    obtain ⟨p', read⟩ := ih (fun d member => legal d (List.mem_cons_of_mem c member))
      (p.advance c) (c :: pending)
    refine ⟨p', ?_⟩
    have goesOn' : Mark.of c ≠ .quote string := by
      intro marks'
      apply goesOn
      simp [eq_of_quote marks marks']
    rw [List.reverse_cons, List.append_assoc, List.cons_append, run_cons_of_unpaired,
      single_verbatim _ c _ rfl isVerbatim (legal c List.mem_cons_self) goesOn']
    · exact read
    · intro d
      rcases isString with rfl | rfl <;> simp [pair?, plain, inVerbatim, top, Construct.isVerbatim]

end Scan

namespace Spot

open Text (Closes)

variable {x : Spot} {p : Position} {pending : Text} {tokens : List Token}

theorem run_string {q : Char} {string : Construct} (marks : Mark.of q = .quote string) {w : Text}
    (closes : Closes [q] w) (legal : ∀ c ∈ w.unescaped, Mark.of c ≠ .control) (rest : Text) :
    ∃ p', (x.reader p pending tokens).run (q :: (w ++ rest)) =
      (x.reader p' ((q :: w).reverse ++ pending) tokens).run rest := by
  obtain ⟨p', read⟩ := Scan.run_inside marks closes legal x (p.advance q) (q :: pending) tokens
    (p.advance q).line rest
  refine ⟨p', ?_⟩
  rw [Scan.run_cons _ q _ (Scan.ne_of_quote marks), single_quote marks]
  simpa [Except.bind] using read

theorem run_escape (d : Char) (rest : Text) :
    (x.reader p pending tokens).run ('\\' :: d :: rest) =
      (x.reader ((p.advance '\\').advance d) (d :: '\\' :: pending) tokens).run rest := rfl

end Spot

/-- The text of a comment, from what follows the mark that opens it. -/
def Text.inRemark (w : Text) : Text := w.dropLast.dropLast

theorem Text.Closes.inRemark_append {w : Text} (closes : Closes ['*', '/'] w) (t : Text) :
    (t ++ w).inRemark = t ++ w.inRemark := by
  obtain ⟨u, rfl⟩ := closes.suffix
  have whole (v : Text) : (v ++ ['*', '/']).inRemark = v := by simp [inRemark]
  rw [← List.append_assoc, whole, whole]

/-- A comment is read to its end. -/
theorem Scan.run_inRemark {w : Text} (closes : Text.Closes ['*', '/'] w)
    (legal : ∀ c ∈ w.unescaped, Mark.of c ≠ .control) (x : Spot) (p : Position)
    (pending aside : Text) (tokens : List Token) (line : Nat) (rest : Text) :
    ∃ p', run ⟨p, pending, x.key, some aside, ⟨.comment, line⟩ :: x.frames, tokens⟩ (w ++ rest) =
      (x.reader p' aside
        (.comment (Text.trim (pending.reverse ++ w.inRemark)) p'.line :: tokens)).run rest := by
  induction closes generalizing p pending with
  | mark =>
    have nothing : Text.inRemark ['*', '/'] = [] := rfl
    rw [nothing, List.append_nil]
    exact ⟨_, rfl⟩
  | @escape c w later ih =>
    obtain ⟨p', read⟩ := ih legal ((p.advance '\\').advance c) (c :: '\\' :: pending)
    have whole : (c :: '\\' :: pending).reverse ++ w.inRemark =
        pending.reverse ++ Text.inRemark ('\\' :: c :: w) := by
      simpa using (later.inRemark_append ['\\', c]).symm
    rw [whole] at read
    exact ⟨p', read⟩
  | @letter c w plain goesOn later ih =>
    rw [Text.unescaped_cons plain] at legal
    obtain ⟨p', read⟩ := ih (fun d member => legal d (List.mem_cons_of_mem c member))
      (p.advance c) (c :: pending)
    have whole : (c :: pending).reverse ++ w.inRemark =
        pending.reverse ++ Text.inRemark (c :: w) := by
      simpa using (later.inRemark_append [c]).symm
    rw [whole] at read
    refine ⟨p', ?_⟩
    obtain ⟨d, u, rfl⟩ := List.exists_cons_of_ne_nil (later.ne_nil (by decide))
    have apart : ¬ (c = '*' ∧ d = '/') := by
      rintro ⟨rfl, rfl⟩
      exact goesOn ⟨u, rfl⟩
    have unpaired : pair? ⟨p, pending, x.key, some aside, ⟨.comment, line⟩ :: x.frames, tokens⟩
        c d = none := by
      simp [pair?, plain, inVerbatim, top, Construct.isVerbatim, apart, ← Bool.decide_and]
    rw [List.cons_append, List.cons_append, run, unpaired,
      single_remark _ c _ rfl (legal c List.mem_cons_self)]
    exact read

theorem Spot.run_remark {x : Spot} {p : Position} {pending : Text} {tokens : List Token}
    {w : Text} (closes : Text.Closes ['*', '/'] w)
    (legal : ∀ c ∈ w.unescaped, Mark.of c ≠ .control) (rest : Text) :
    ∃ p', (x.reader p pending tokens).run ('/' :: '*' :: (w ++ rest)) =
      (x.reader p' pending (.comment (Text.trim w.inRemark) p'.line :: tokens)).run rest := by
  obtain ⟨p', read⟩ := Scan.run_inRemark closes legal x ((p.advance '/').advance '*') []
    pending tokens ((p.advance '/').advance '*').line rest
  refine ⟨p', Eq.trans ?_ read⟩
  rw [Scan.run, Scan.pair?]
  simp only [inVerbatim_reader]
  rfl

/-- Where reading goes on to the end, no control character stands outside escapes. -/
theorem Scan.legal_of_run {s last : Scan} {t : Text} (read : s.run t = .ok last) :
    ∀ c ∈ t.unescaped, Mark.of c ≠ .control := by
  have legal {s next : Scan} {c : Char} {rest : Text} (read : s.single c rest = .ok next) :
      Mark.of c ≠ .control := by
    intro forbidden
    rw [single, forbidden] at read
    cases read
  induction s, t using run.induct with
  | case1 s => simp [Text.unescaped]
  | case2 s c => simpa [Text.unescaped] using legal read
  | case3 s c d rest next paired ih =>
    rw [run, paired] at read
    have later := ih read
    by_cases escape : c = '\\'
    · simpa [Text.unescaped, escape] using later
    · -- The other pairs are marks of comments.
      have marks : (c = '/' ∧ d = '*') ∨ (c = '*' ∧ d = '/') := by
        simp only [pair?, escape, ↓reduceIte] at paired
        split at paired
        · simp_all
        · split at paired
          · simp_all
          · cases paired
      have unpaired : d ≠ '\\' := by rcases marks with ⟨-, rfl⟩ | ⟨-, rfl⟩ <;> decide
      rw [Text.unescaped_cons escape, Text.unescaped_cons unpaired]
      simp only [List.mem_cons, forall_eq_or_imp]
      rcases marks with ⟨rfl, rfl⟩ | ⟨rfl, rfl⟩ <;> exact ⟨by decide, by decide, later⟩
  | case4 s c d rest unpaired error failed =>
    simp only [run, unpaired, failed] at read
    cases read
  | case5 s c d rest unpaired next taken ih =>
    simp only [run, unpaired, taken] at read
    rw [Text.unescaped_cons (ne_of_pair_eq_none unpaired)]
    exact List.forall_mem_cons.mpr ⟨legal taken, ih read⟩

end Stylesheet
