import Stylesheet.Proofs.Seams

set_option autoImplicit false

namespace Stylesheet

open Scan (opensBlock)

namespace Text

/-- Whether the first delimiter or at-sign of a text is an opening brace. -/
def opensRule (t : Text) : Bool :=
  t.find? (fun c => c = ';' || c = '}' || c = '{' || c = '@') = some '{'

/-- Whether no at-sign stands between a colon and the brace that is the next delimiter after it. -/
def hasPlainSelectors : Text → Bool
  | [] => true
  | c :: t => (c ≠ ':' || !opensBlock t || opensRule t) && hasPlainSelectors t

theorem opensRule_cons {c : Char} {t : Text} (opens : opensRule (c :: t)) (other : c ≠ '{') :
    (c ≠ ';' ∧ c ≠ '}' ∧ c ≠ '@') ∧ opensRule t := by
  unfold opensRule at opens ⊢
  rw [List.find?_cons] at opens
  split at opens
  · simp [other] at opens
  · rename_i passed
    simp only [Bool.or_eq_false_iff, decide_eq_false_iff_not] at passed
    exact ⟨⟨passed.1.1.1, passed.1.1.2, passed.2⟩, opens⟩

/-- A brace that closes a block delimits nothing new. -/
theorem opensBlock_append_close (t : Text) : opensBlock (t ++ ['}']) = opensBlock t := by
  unfold opensBlock
  rw [List.find?_append]
  cases t.find? (fun c => c = ';' || c = '}' || c = '{') <;> rfl

theorem opensRule_append_close (t : Text) : opensRule (t ++ ['}']) = opensRule t := by
  unfold opensRule
  rw [List.find?_append]
  cases t.find? (fun c => c = ';' || c = '}' || c = '{' || c = '@') <;> rfl

theorem hasPlainSelectors_append_close (t : Text) :
    hasPlainSelectors (t ++ ['}']) = hasPlainSelectors t := by
  induction t with
  | nil => rfl
  | cons c t ih =>
    rw [List.cons_append, hasPlainSelectors, hasPlainSelectors, ih, opensBlock_append_close,
      opensRule_append_close]

theorem opensBlock_of_opensRule {t : Text} (opens : opensRule t) : opensBlock t := by
  induction t with
  | nil => cases opens
  | cons c t ih =>
    by_cases isBrace : c = '{'
    · rw [isBrace]
      rfl
    · obtain ⟨other, later⟩ := opensRule_cons opens isBrace
      have passed : opensBlock (c :: t) = opensBlock t := by
        simp [opensBlock, isBrace, other]
      rw [passed]
      exact ih later

end Text

namespace Outline

variable {o o' : Outline}

/-- Whether every opening brace of a text is outside strings, comments and escapes. -/
def exposesBraces (o : Outline) : Text → Bool
  | [] => true
  | [c] => c ≠ '{' || o.verbatim.isNone
  | c :: d :: rest =>
    match o.pair? c d with
    | some o => d ≠ '{' && o.exposesBraces rest
    | none => (c ≠ '{' || o.verbatim.isNone) && (o.single c).exposesBraces (d :: rest)

theorem exposesBraces_cons {c : Char} {t : Text}
    (unpaired : ∀ d ∈ t.head?, o.pair? c d = none) :
    o.exposesBraces (c :: t) ↔
      (c ≠ '{' || o.verbatim.isNone) ∧ (o.single c).exposesBraces t := by
  cases t with
  | nil => simp [exposesBraces]
  | cons d t => simp only [exposesBraces, unpaired d rfl, Bool.and_eq_true]

theorem verbatim_single (same : o.verbatim = o'.verbatim) (c : Char) :
    (o.single c).verbatim = (o'.single c).verbatim := by
  cases inside : o.verbatim with
  | some v =>
    rw [single_inside inside, single_inside (same ▸ inside)]
    split
    · rfl
    · exact same
  | none =>
    have advanced : (o.advance c).verbatim = none := inside
    have advanced' : (o'.advance c).verbatim = none := same ▸ inside
    simp only [single, advanced, advanced']
    cases Mark.of c with
    | quote string => rfl
    | _ => exact same

theorem verbatim_pair (same : o.verbatim = o'.verbatim) (c d : Char) :
    Option.Rel (fun next next' => next.verbatim = next'.verbatim) (o.pair? c d) (o'.pair? c d) := by
  unfold pair?
  dsimp only
  rw [same]
  split
  · exact .some same
  · split
    · exact .some rfl
    · split
      · exact .some rfl
      · exact .none

/-- What is exposed does not depend on what was read before outside strings and comments. -/
theorem exposesBraces_congr (same : o.verbatim = o'.verbatim) (t : Text) :
    o.exposesBraces t = o'.exposesBraces t := by
  induction o, t using exposesBraces.induct generalizing o' with
  | case1 o => rfl
  | case2 o c => rw [exposesBraces, exposesBraces, same]
  | case3 o c d rest next paired ih =>
    have both := verbatim_pair same c d
    rw [exposesBraces, exposesBraces, paired]
    rw [paired] at both
    generalize o'.pair? c d = paired' at both ⊢
    cases both with
    | some same =>
      dsimp only
      rw [ih same]
  | case4 o c d rest unpaired ih =>
    have both := verbatim_pair same c d
    rw [exposesBraces, exposesBraces, unpaired, same]
    rw [unpaired] at both
    generalize o'.pair? c d = unpaired' at both ⊢
    cases both with
    | none =>
      dsimp only
      rw [ih (verbatim_single same c)]

theorem exposesBraces_append_close (t : Text) (exposed : o.exposesBraces t) :
    o.exposesBraces (t ++ ['}']) := by
  induction o, t using exposesBraces.induct with
  | case1 o => rfl
  | case2 o c =>
    rw [exposesBraces] at exposed
    rw [List.singleton_append, exposesBraces, exposed]
    cases o.pair? c '}' <;> rfl
  | case3 o c d rest next paired ih =>
    simp only [exposesBraces, paired, Bool.and_eq_true] at exposed
    simp only [List.cons_append, exposesBraces, paired, Bool.and_eq_true]
    exact ⟨exposed.1, ih exposed.2⟩
  | case4 o c d rest unpaired ih =>
    simp only [exposesBraces, unpaired, Bool.and_eq_true] at exposed
    simp only [List.cons_append, exposesBraces, unpaired, Bool.and_eq_true]
    exact ⟨exposed.1, ih exposed.2⟩

end Outline

/-- A reader in a rule and one in an at-rule, on the same line. -/
def Gauge.across : Gauge where
  positions p q := p.line = q.line
  crossed := True
  advance := by
    intro p q same c
    unfold Position.advance
    split <;> simp [same]

namespace Spot

variable {x : Spot} {p : Position} {w rest : Text} {tokens : List Token}

/-- A colon in the body of a rule. -/
theorem single_colon_started (top : x.top = some .rule) :
    (x.reader p w tokens).single ':' rest =
      .ok ((x.enter (some w.reverse) ⟨.value, (p.advance ':').line⟩ rfl).reader (p.advance ':') []
        tokens) := by
  have taken : (x.reader p w tokens).single ':' rest =
      .ok ((x.reader (p.advance ':') w tokens).colon rest) := rfl
  rw [taken, Scan.colon]
  simp only [top_reader, top]
  rfl

/-- A colon that is a part of a value, or of a selector in the body of an at-rule. -/
theorem single_colon_written
    (top : x.top = some .value ∨ x.top = some .atBlock ∧ opensBlock rest) :
    (x.reader p w tokens).single ':' rest = .ok (x.reader (p.advance ':') (':' :: w) tokens) := by
  have taken : (x.reader p w tokens).single ':' rest =
      .ok ((x.reader (p.advance ':') w tokens).colon rest) := rfl
  rw [taken, Scan.colon]
  rcases top with top | ⟨top, ahead⟩
  · simp only [top_reader, top]
    rfl
  · simp only [top_reader, top, ahead, ↓reduceIte]
    rfl

end Spot

/-- The reader in the rule has a key and a value where the one in the at-rule has a text. -/
def Deferred (before before' : List Token) (s s' : Scan) : Prop :=
  ∃ (x x' : Spot) (key : Text) (line : Nat), Spot.Fits .across x x' ∧ x.key = none ∧
    x'.top = some .atBlock ∧
    Abreast .across (x.enter (some key) ⟨.value, line⟩ rfl) x' (':' :: key.reverse) before before'
      s s'

/-- A colon that starts a value in the rule, but not in the at-rule. -/
theorem Alike.defer {before before' : List Token} {s s' : Scan} (formed : s.WellFormed)
    (alike : Alike .across before before' s s') (top : s.top = some .rule)
    (top' : s'.top = some .atBlock) {rest : Text} (ahead : opensBlock rest) :
    ∃ next next', s.single ':' rest = .ok next ∧ s'.single ':' rest = .ok next' ∧
      Deferred before before' next next' := by
  obtain ⟨x, x', fits, abreast⟩ := alike
  cases abreast with
  | @outside p q w tokens tokens' positions since =>
    have key : x.key = none := formed.stored.1 (by rw [top]; rfl)
    rw [Spot.top_reader] at top top'
    refine ⟨_, _, Spot.single_colon_started top, Spot.single_colon_written (.inr ⟨top', ahead⟩),
      x, x', w.reverse, (p.advance ':').line, fits, key, top', ?_⟩
    rw [List.reverse_reverse, List.append_nil]
    exact .outside (w := []) (Gauge.across.advance positions ':') since
  | string _ _ _ isString => rcases isString with rfl | rfl <;> cases top
  | comment => cases top

namespace Deferred

variable {before before' : List Token} {s s' : Scan}

theorem pair (deferred : Deferred before before' s s') (c d : Char) :
    Option.Rel (Deferred before before') (s.pair? c d) (s'.pair? c d) := by
  obtain ⟨x, x', key, line, fits, noKey, top', abreast⟩ := deferred
  exact optionRel_imp (abreast.pair c d) fun _ _ _ abreast =>
    ⟨x, x', key, line, fits, noKey, top', abreast⟩

/-- The brace ends the selector in both bodies. -/
theorem openBrace (deferred : Deferred before before' s s') (outside : s.inVerbatim = false)
    (rest : Text) :
    Concur Gauge.across.Failure (Alike .across before before') (s.single '{' rest)
      (s'.single '{' rest) := by
  obtain ⟨x, x', key, line, fits, noKey, top', abreast⟩ := deferred
  cases abreast with
  | @outside p q w tokens tokens' positions since =>
    have advanced := Gauge.across.advance positions '{'
    have lines := Gauge.lines_of_positions advanced
    have between : x'.isBetween := Spot.isBetween_iff.mpr (.inr (.inr top'))
    refine .ok ?_
    rw [Spot.advance_reader, Spot.advance_reader, Spot.openBrace_value rfl,
      Spot.openBrace_between between, ← fits.key, noKey]
    apply Spot.Fits.alike _ advanced
    · exact since.emit rfl lines
    · exact ⟨rfl, .cons ⟨lines, .inl rfl⟩ fits.frames⟩
  | string _ _ _ isString => rcases isString with rfl | rfl <;> cases outside
  | comment => cases outside

/-- Up to the brace, all characters are taken for a part of the selector. -/
theorem single (deferred : Deferred before before' s s') {c : Char} {rest : Text}
    (opens : Text.opensRule (c :: rest)) (other : c ≠ '{') :
    Concur Gauge.across.Failure (Deferred before before') (s.single c rest)
      (s'.single c rest) := by
  obtain ⟨notEnd, later⟩ := Text.opensRule_cons opens other
  obtain ⟨x, x', key, line, fits, noKey, top', abreast⟩ := deferred
  cases abreast.single c rest with
  | control positions read read' =>
    rw [read, read']
    exact .error (.control positions)
  | quiet read read' abreast =>
    rw [read, read']
    exact .ok ⟨x, x', key, line, fits, noKey, top', abreast⟩
  | @delimiter p q w tokens tokens' positions since reader reader' acts =>
    subst reader reader'
    -- The brace is ahead, so no delimiter that ends a clause comes before it, and no at-sign.
    have isColon : c = ':' := by
      rcases acts with delimits | ⟨-, unnamed | unnamed⟩
      · simp only [Mark.delimiters, List.mem_cons, List.not_mem_nil, or_false] at delimits
        tauto
      · cases unnamed
      · simp [Spot.isUnnamed, top'] at unnamed
    subst isColon
    rw [Spot.single_colon_written (.inl rfl),
      Spot.single_colon_written (.inr ⟨top', Text.opensBlock_of_opensRule later⟩)]
    exact .ok ⟨x, x', key, line, fits, noKey, top',
      .outside (w := ':' :: w) (Gauge.across.advance positions ':') since⟩

end Deferred

/-- How two readers of the same body go together, and what they need of the text that is left. -/
structure Across (before before' : List Token) (t : Text) (s s' : Scan) : Prop where
  formed : s.WellFormed
  exposed : s.outline.exposesBraces t
  plain : t.hasPlainSelectors
  readers : Alike .across before before' s s' ∨ Deferred before before' s s' ∧ t.opensRule

namespace Across

variable {before before' : List Token} {s s' : Scan}

theorem pair {c d : Char} {rest : Text} (across : Across before before' (c :: d :: rest) s s') :
    Option.Rel (Across before before' rest) (s.pair? c d) (s'.pair? c d) := by
  obtain ⟨formed, exposed, plain, readers⟩ := across
  have outline := Scan.outline_pair formed c d
  have kept {next : Scan} (paired : s.pair? c d = some next) :
      d ≠ '{' ∧ next.outline.exposesBraces rest := by
    rw [paired, Option.map_some] at outline
    simpa only [Outline.exposesBraces, ← outline, Bool.and_eq_true, decide_eq_true_eq]
      using exposed
  have plain : rest.hasPlainSelectors := by
    simp only [Text.hasPlainSelectors, Bool.and_eq_true] at plain
    exact plain.2.2
  rcases readers with alike | ⟨deferred, opens⟩
  · exact optionRel_imp (alike.pair c d) fun _ _ paired alike =>
      ⟨formed.pair paired, (kept paired).2, plain, .inl alike⟩
  · refine optionRel_imp (deferred.pair c d) fun next _ paired deferred =>
      ⟨formed.pair paired, (kept paired).2, plain, .inr ⟨deferred, ?_⟩⟩
    have other : c ≠ '{' := by
      rintro rfl
      simp [Scan.pair?] at paired
    exact (Text.opensRule_cons (Text.opensRule_cons opens other).2 (kept paired).1).2

theorem single {c : Char} {rest : Text} (across : Across before before' (c :: rest) s s')
    (unpaired : ∀ d ∈ rest.head?, s.pair? c d = none) :
    Concur Gauge.across.Failure (Across before before' rest) (s.single c rest)
      (s'.single c rest) := by
  obtain ⟨formed, exposed, plain, readers⟩ := across
  simp only [Text.hasPlainSelectors, Bool.and_eq_true] at plain
  have apart : ∀ d ∈ rest.head?, s.outline.pair? c d = none := by
    intro d first
    rw [← Scan.outline_pair formed, unpaired d first, Option.map_none]
  rw [Outline.exposesBraces_cons apart] at exposed
  have kept {next : Scan} (read : s.single c rest = .ok next) :
      next.outline.exposesBraces rest := by
    rw [Scan.outline_single formed read]
    exact exposed.2
  rcases readers with alike | ⟨deferred, opens⟩
  · -- The one character that means different things to the two readers.
    by_cases diverges : c = ':' ∧ s.top = some .rule ∧ s'.top = some .atBlock ∧ opensBlock rest
    · obtain ⟨rfl, top, top', ahead⟩ := diverges
      obtain ⟨next, next', read, read', deferred⟩ := alike.defer formed top top' ahead
      have opens : rest.opensRule := by simpa [ahead] using plain.1
      rw [read, read']
      exact .ok ⟨formed.single read, kept read, plain.2, .inr ⟨deferred, opens⟩⟩
    · refine (alike.single fun isColon => ?_).imp fun _ _ read alike =>
        ⟨formed.single read, kept read, plain.2, .inl alike⟩
      rcases Gauge.tops_of_fits alike.frames with same | ⟨-, top, top'⟩
      · exact .inl same
      · exact .inr (by simpa using fun ahead => diverges ⟨isColon, top, top', ahead⟩)
  · by_cases isBrace : c = '{'
    · subst isBrace
      have outside : s.inVerbatim = false := by
        rw [Scan.inVerbatim_eq_isSome]
        simpa using exposed.1
      exact (deferred.openBrace outside rest).imp fun _ _ read alike =>
        ⟨formed.single read, kept read, plain.2, .inl alike⟩
    · exact (deferred.single opens isBrace).imp fun _ _ read deferred =>
        ⟨formed.single read, kept read, plain.2,
          .inr ⟨deferred, (Text.opensRule_cons opens isBrace).2⟩⟩

/-- Both readers are alike at the end of a text. -/
theorem run {t : Text} (across : Across before before' t s s') :
    Concur Gauge.across.Failure (Alike .across before before') (s.run t) (s'.run t) := by
  refine (Scan.concur_run pair single across).imp fun last last' _ across => ?_
  rcases across.readers with alike | ⟨-, opens⟩
  · exact alike
  · cases opens

end Across

namespace Gauge

theorem tokens_across {new new' : List Token} (same : List.Forall₂ across.Same new new') :
    new = new' := by
  induction same with
  | nil => rfl
  | cons first rest ih =>
    obtain ⟨p, q, line, first', second'⟩ := first.lines
    rw [ih, Token.eq_of_unlined first.unlined (first'.symm.trans (line.trans second'))]

end Gauge

namespace Text

def inRule (body : Text) : Text := 's' :: ' ' :: '{' :: (body ++ ['}'])

def inAtRule (body : Text) : Text := '@' :: 'm' :: ' ' :: '{' :: (body ++ ['}'])

end Text

def Spot.ruleBody : Spot := ⟨none, [⟨.rule, 1⟩], List.forall_mem_singleton.mpr rfl⟩

def Spot.atRuleBody : Spot := ⟨none, [⟨.atBlock, 1⟩], List.forall_mem_singleton.mpr rfl⟩

def Scan.inRule : Scan := Spot.ruleBody.reader ⟨1, 3⟩ [] [.rule ['s'] 1]

def Scan.inAtRule : Scan := Spot.atRuleBody.reader ⟨1, 4⟩ [] [.atBlock ['@', 'm'] [] 1]

theorem Scan.inRule_formed : Scan.inRule.WellFormed :=
  WellFormed.run (t := ['s', ' ', '{']) ⟨_, _, _, start_layered⟩ rfl

theorem unifyLineEnds_body (body : Text) :
    Text.unifyLineEnds (body ++ ['}']) = Text.unifyLineEnds body ++ ['}'] :=
  Text.unifyLineEnds_append (by simp)

theorem scan_inRule (body : Text) :
    scan body.inRule =
      (Scan.inRule.run (Text.unifyLineEnds body ++ ['}'])).bind Scan.finish := by
  rw [scan, Text.inRule, Text.unifyLineEnds_cons (by decide), Text.unifyLineEnds_cons (by decide),
    Text.unifyLineEnds_cons (by decide), unifyLineEnds_body, Scan.run_plain _ _ _ (by decide),
    Scan.run_gap _ _ _ rfl rfl, Scan.run_openBrace]
  rfl

theorem scan_inAtRule (body : Text) :
    scan body.inAtRule =
      (Scan.inAtRule.run (Text.unifyLineEnds body ++ ['}'])).bind Scan.finish := by
  rw [scan, Text.inAtRule, Text.unifyLineEnds_cons (by decide), Text.unifyLineEnds_cons (by decide),
    Text.unifyLineEnds_cons (by decide), Text.unifyLineEnds_cons (by decide), unifyLineEnds_body,
    Scan.run_atSign, Scan.run_plain _ _ _ (by decide), Scan.run_gap _ _ _ rfl rfl,
    Scan.run_openBrace]
  rfl

theorem Scan.inRule_alike :
    Alike .across Scan.inRule.tokens Scan.inAtRule.tokens Scan.inRule Scan.inAtRule := by
  have fits : Spot.Fits .across Spot.ruleBody Spot.atRuleBody :=
    ⟨rfl, .cons ⟨⟨.start, .start, rfl, rfl, rfl⟩, .inr ⟨trivial, rfl, rfl⟩⟩ .nil⟩
  exact fits.alike (p := ⟨1, 3⟩) (q := ⟨1, 4⟩) rfl (.refl _ _) []

/-- Readers that are alike at the end of a body have read the same tokens there, or fail alike. -/
theorem concur_bodies {body : Text}
    (alike : Concur Gauge.across.Failure (Alike .across Scan.inRule.tokens Scan.inAtRule.tokens)
      (Scan.inRule.run (Text.unifyLineEnds body ++ ['}']))
      (Scan.inAtRule.run (Text.unifyLineEnds body ++ ['}']))) :
    Concur Gauge.across.Failure
      (fun tokens tokens' => ∃ rest, tokens = .rule ['s'] 1 :: rest ∧
        tokens' = .atBlock ['@', 'm'] [] 1 :: rest)
      (scan body.inRule) (scan body.inAtRule) := by
  rw [scan_inRule, scan_inAtRule]
  refine (alike.bind fun _ _ alike => alike.finish).imp ?_
  rintro tokens tokens' - ⟨rest, rest', rfl, rfl, same⟩
  cases Gauge.tokens_across same
  exact ⟨rest, rfl, rfl⟩

/-- The body of a rule and that of an at-rule are read alike, if every opening brace is outside
strings, comments and escapes and no at-sign is in a selector with a colon. -/
theorem scan_bodies {body : Text}
    (exposed : Outline.start.exposesBraces (Text.unifyLineEnds body))
    (plain : (Text.unifyLineEnds body).hasPlainSelectors) :
    (∃ rest, scan body.inAtRule = .ok (.atBlock ['@', 'm'] [] 1 :: rest) ∧
      scan body.inRule = .ok (.rule ['s'] 1 :: rest)) ∨
    (∃ c p q, p.line = q.line ∧ scan body.inAtRule = .error (.controlCharacter c p) ∧
      scan body.inRule = .error (.controlCharacter c q)) ∨
    ∃ construct construct' line, scan body.inAtRule = .error (.unterminated construct line) ∧
      scan body.inRule = .error (.unterminated construct' line) := by
  have across : Across Scan.inRule.tokens Scan.inAtRule.tokens (Text.unifyLineEnds body ++ ['}'])
      Scan.inRule Scan.inAtRule := by
    refine ⟨Scan.inRule_formed, ?_, ?_, .inl Scan.inRule_alike⟩
    · have outside : Scan.inRule.outline.verbatim = Outline.start.verbatim := rfl
      rw [Outline.exposesBraces_congr outside]
      exact Outline.exposesBraces_append_close _ exposed
    · rwa [Text.hasPlainSelectors_append_close]
  rcases (concur_bodies across.run).ok_or_error with
    ⟨_, _, read, read', rest, rfl, rfl⟩ | ⟨e, e', read, read', failed⟩
  · exact .inl ⟨rest, read', read⟩
  · cases failed with
    | @control c p q line => exact .inr (.inl ⟨c, q, p, line.symm, read', read⟩)
    | @unterminated f f' fits =>
      obtain ⟨p, q, line, first, second⟩ := fits.lines
      rw [← first, line, second] at read
      exact .inr (.inr ⟨_, _, _, read', read⟩)

/-- A selector with a colon, and declarations whose values hold delimiters. -/
theorem scan_bodies_selector :
    scan (Text.inAtRule ['a', ':', 'b', '{', 'c', ':', 'd', '}', 'x', ':', '\'', ';', '\'']) =
      .ok [.atBlock ['@', 'm'] [] 1, .rule ['a', ':', 'b'] 1, .property ['c'] ['d'] 1, .close 1,
        .property ['x'] ['\'', ';', '\''] 1, .close 1] := by
  have known :
      scan (Text.inRule ['a', ':', 'b', '{', 'c', ':', 'd', '}', 'x', ':', '\'', ';', '\'']) =
        .ok [.rule ['s'] 1, .rule ['a', ':', 'b'] 1, .property ['c'] ['d'] 1, .close 1,
          .property ['x'] ['\'', ';', '\''] 1, .close 1] := rfl
  have exposed : Outline.start.exposesBraces (Text.unifyLineEnds
      ['a', ':', 'b', '{', 'c', ':', 'd', '}', 'x', ':', '\'', ';', '\'']) := rfl
  rcases scan_bodies exposed rfl with
    ⟨rest, read, read'⟩ | ⟨c, p, q, -, -, read'⟩ | ⟨construct, construct', line, -, read'⟩
  · rw [known] at read'
    cases read'
    exact read
  · rw [known] at read'
    cases read'
  · rw [known] at read'
    cases read'

end Stylesheet
