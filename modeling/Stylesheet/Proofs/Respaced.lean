import Stylesheet.Proofs.Remarks

set_option autoImplicit false

namespace Stylesheet

/-- The characters that are read as a space outside strings, comments and escapes. -/
def Text.layout : List Char := ['\n', '\t', '\x0b', '\x0c']

/-- Some characters of layout in a text, outside its strings, comments and escapes, are replaced by
spaces or by one another. -/
structure Text.Respaced (t t' : Text) : Prop where
  length : t'.length = t.length
  each : ∀ i < t.length, t'[i]? = t[i]? ∨
    t[i]?.any (· ∈ layout) ∧ t'[i]?.any (· ∈ ' ' :: layout) ∧
      Text.isDivision (t.take i) (t.drop i)

instance (t t' : Text) : Decidable (t.Respaced t') :=
  decidable_of_iff (t'.length = t.length ∧ ∀ i < t.length, t'[i]? = t[i]? ∨
      t[i]?.any (· ∈ Text.layout) ∧ t'[i]?.any (· ∈ ' ' :: Text.layout) ∧
        Text.isDivision (t.take i) (t.drop i))
    ⟨fun same => ⟨same.1, same.2⟩, fun same => ⟨same.length, same.each⟩⟩

theorem Scan.isGap_of_mem {c : Char} (member : c ∈ ' ' :: Text.layout) : isGap c := by
  simp only [Text.layout, List.mem_cons, List.not_mem_nil, or_false] at member
  rcases member with rfl | rfl | rfl | rfl | rfl <;> rfl

namespace Outline

open Scan (isGap)

/-- A gap outside strings and comments may be another one; all else stays as it is. -/
inductive Respaced : Outline → Text → Text → Prop
  | nil {o : Outline} : Respaced o [] []
  | pair {o next : Outline} {c d : Char} {t t' : Text} (paired : o.pair? c d = some next)
      (later : Respaced next t t') : Respaced o (c :: d :: t) (c :: d :: t')
  | single {o : Outline} {c : Char} {t t' : Text} (unpaired : ∀ d ∈ t.head?, o.pair? c d = none)
      (later : Respaced (o.single c) t t') : Respaced o (c :: t) (c :: t')
  | gap {o : Outline} {c c' : Char} {t t' : Text} (outside : o.verbatim = none) (blank : isGap c)
      (blank' : isGap c') (later : Respaced (o.single c) t t') : Respaced o (c :: t) (c' :: t')

variable {o : Outline} {c d : Char} {t t' : Text}

theorem pair?_gap (blank : isGap c) : o.pair? c d = none := by
  rcases (Scan.isGap_iff c).mp blank with rfl | rfl | rfl | rfl | rfl <;> rfl

/-- A gap is the second character of an escape only. -/
theorem pair?_of_gap (blank : isGap d) (plain : c ≠ '\\') : o.pair? c d = none := by
  rcases (Scan.isGap_iff d).mp blank with rfl | rfl | rfl | rfl | rfl <;> simp [pair?, plain]

theorem Respaced.head? (respaced : Respaced o t t') :
    t'.head? = t.head? ∨ ∃ c c', t.head? = some c ∧ t'.head? = some c' ∧ isGap c' := by
  cases respaced with
  | nil | pair | single => exact .inl rfl
  | gap outside blank blank' later => exact .inr ⟨_, _, rfl, rfl, blank'⟩

/-- A character is read apart from what follows it with the other layout, too. -/
theorem Respaced.unpaired {before : Outline} (respaced : Respaced o t t')
    (unpaired : ∀ d ∈ t.head?, before.pair? c d = none) :
    ∀ d ∈ t'.head?, before.pair? c d = none := by
  rcases respaced.head? with same | ⟨e, e', first, first', blank⟩
  · rwa [same]
  · intro d isFirst
    rw [first', Option.mem_some_iff] at isFirst
    subst isFirst
    have plain : c ≠ '\\' := by
      rintro rfl
      cases unpaired e first
    exact pair?_of_gap blank plain

/-- No gap is a delimiter that a colon looks for. -/
theorem Respaced.opensBlock (respaced : Respaced o t t') :
    Scan.opensBlock t' = Scan.opensBlock t := by
  have skip {e : Char} (blank : isGap e) (u : Text) :
      Scan.opensBlock (e :: u) = Scan.opensBlock u := by
    rcases (Scan.isGap_iff e).mp blank with rfl | rfl | rfl | rfl | rfl <;> rfl
  have keep (e : Char) {u u' : Text} (same : Scan.opensBlock u' = Scan.opensBlock u) :
      Scan.opensBlock (e :: u') = Scan.opensBlock (e :: u) := by
    unfold Scan.opensBlock at same ⊢
    rw [List.find?_cons, List.find?_cons]
    cases e = ';' || e = '}' || e = '{' with
    | true => rfl
    | false => exact same
  induction respaced with
  | nil => rfl
  | pair paired later ih => exact keep _ (keep _ ih)
  | single unpaired later ih => exact keep _ ih
  | gap outside blank blank' later ih => rw [skip blank', skip blank, ih]

/-- Whether the end of a text is outside strings and comments and inside no escape and no comment
mark, before another text. -/
def exposes (o : Outline) (u v : Text) : Bool := o.splits v u && (o.run u).verbatim.isNone

theorem exposes_paired {next : Outline} (paired : o.pair? c d = some next) (u v : Text) :
    o.exposes (c :: d :: u) v = next.exposes u v := by
  simp only [exposes, splits, run, paired]

theorem exposes_inside {next : Outline} (paired : o.pair? c d = some next) (v : Text) :
    o.exposes [c] (d :: v) = false := by
  simp [exposes, splits, paired]

theorem exposes_unpaired (unpaired : ∀ d ∈ t.head?, o.pair? c d = none) (i : Nat) :
    o.exposes (c :: t.take i) (t.drop i) = (o.single c).exposes (t.take i) (t.drop i) := by
  cases t with
  | nil => simp [exposes, splits, run]
  | cons d t =>
    have unpaired := unpaired d rfl
    cases i with
    | zero => simp [exposes, splits, run, unpaired]
    | succ i => simp only [exposes, List.take_succ_cons, splits, run, unpaired]

/-- Read from left to right, characters of layout are replaced where nothing else is being read. -/
theorem respaced_of_each (length : t'.length = t.length)
    (each : ∀ i c c', t[i]? = some c → t'[i]? = some c' →
      c' = c ∨ isGap c ∧ isGap c' ∧ o.exposes (t.take i) (t.drop i)) : Respaced o t t' := by
  induction size : t.length using Nat.strongRecOn generalizing o t t' with
  | ind bound ih =>
    match t, t' with
    | [], [] => exact .nil
    | [], _ :: _ | _ :: _, [] => cases length
    | c :: t, c' :: t' =>
      have later (unpaired : ∀ d ∈ t.head?, o.pair? c d = none) : Respaced (o.single c) t t' := by
        refine ih t.length (by simp [← size]) (Nat.succ.inj length) ?_ rfl
        intro i e e' here here'
        have known := each (i + 1) e e' here here'
        rwa [List.take_succ_cons, List.drop_succ_cons, exposes_unpaired unpaired] at known
      have first := each 0 c c' rfl rfl
      by_cases blank : isGap c
      · have unpaired : ∀ d ∈ t.head?, o.pair? c d = none := fun d _ => pair?_gap blank
        rcases first with rfl | ⟨-, blank', outside⟩
        · exact .single unpaired (later unpaired)
        · exact .gap (Option.isNone_iff_eq_none.mp outside) blank blank' (later unpaired)
      · obtain rfl : c' = c := first.resolve_right fun clash => blank clash.1
        cases t with
        | nil => exact .single (by simp) (later (by simp))
        | cons d t =>
          cases paired : o.pair? c' d with
          | none =>
            have unpaired : ∀ e ∈ (d :: t).head?, o.pair? c' e = none := by simpa using paired
            exact .single unpaired (later unpaired)
          | some next =>
            cases t' with
            | nil => cases length
            | cons d' t' =>
              have same : d' = d := (each 1 d d' rfl rfl).resolve_right fun clash => by
                have inside := clash.2.2
                rw [List.take_succ_cons, List.take_zero, List.drop_succ_cons, List.drop_zero,
                  exposes_inside paired] at inside
                cases inside
              rw [same]
              have shorter : t.length < bound := by
                simp only [← size, List.length_cons]
                omega
              refine .pair paired (ih t.length shorter (Nat.succ.inj (Nat.succ.inj length))
                (fun i e e' here here' => ?_) rfl)
              have known := each (i + 2) e e' here here'
              rwa [List.take_succ_cons, List.take_succ_cons, List.drop_succ_cons,
                List.drop_succ_cons, exposes_paired paired] at known

end Outline

namespace Scan

variable {s s' : Scan} {before before' : List Token} {c : Char} {t t' : Text}

theorem run_of_unpaired (unpaired : ∀ d ∈ t.head?, s.pair? c d = none) :
    s.run (c :: t) = (s.single c t).bind fun next => next.run t := by
  cases t with
  | nil =>
    rw [run]
    cases s.single c [] <;> rfl
  | cons d t =>
    simp only [run, unpaired d rfl]
    cases s.single c (d :: t) <;> rfl

theorem pair?_eq_none_iff (formed : s.WellFormed) (c d : Char) :
    s.pair? c d = none ↔ s.outline.pair? c d = none := by
  rw [← outline_pair formed, Option.map_eq_none_iff]

theorem pair?_alike (alike : Alike .anywhere before before' s s') {d : Char}
    (unpaired : s.pair? c d = none) : s'.pair? c d = none := by
  have both := alike.pair c d
  rw [unpaired] at both
  generalize s'.pair? c d = read at both ⊢
  cases both
  rfl

/-- Two readers outside strings and comments take any two gaps alike. -/
theorem concur_gap (alike : Alike .anywhere before before' s s') (outside : s.inVerbatim = false)
    {c' : Char} (blank : isGap c) (blank' : isGap c') (t t' : Text) :
    Concur Gauge.anywhere.Failure (Alike .anywhere before before') (s.single c t)
      (s'.single c' t') := by
  obtain ⟨x, x', fits, abreast⟩ := alike
  cases abreast with
  | @outside p q w tokens tokens' positions since =>
    rw [Spot.single_gap blank, Spot.single_gap blank', List.append_nil]
    exact .ok (fits.blank trivial since)
  | string _ _ _ isString => rcases isString with rfl | rfl <;> cases outside
  | comment => cases outside

/-- Two readers that take a character alike go on alike if they do so behind it. -/
theorem concur_cons {c' : Char} (formed : s.WellFormed)
    (unpaired : ∀ d ∈ t.head?, s.pair? c d = none)
    (unpaired' : ∀ d ∈ t'.head?, s'.pair? c' d = none)
    (taken : Concur Gauge.anywhere.Failure (Alike .anywhere before before') (s.single c t)
      (s'.single c' t'))
    (later : ∀ {next next' : Scan}, Alike .anywhere before before' next next' →
      next.WellFormed → next.outline = s.outline.single c →
      Concur Gauge.anywhere.Failure (Alike .anywhere before before') (next.run t)
        (next'.run t')) :
    Concur Gauge.anywhere.Failure (Alike .anywhere before before') (s.run (c :: t))
      (s'.run (c' :: t')) := by
  rw [run_of_unpaired unpaired, run_of_unpaired unpaired']
  have read := taken.imp (S := fun next next' =>
    s.single c t = .ok next ∧ Alike .anywhere before before' next next')
    fun _ _ read alike => ⟨read, alike⟩
  exact read.bind fun next next' related =>
    later related.2 (formed.single related.1) (outline_single formed related.1)

/-- Two readers that are alike stay so while they read texts that differ in their layout. -/
theorem concur_respaced (alike : Alike .anywhere before before' s s') (formed : s.WellFormed)
    (respaced : s.outline.Respaced t t') :
    Concur Gauge.anywhere.Failure (Alike .anywhere before before') (s.run t) (s'.run t') := by
  generalize isOutline : s.outline = o at respaced
  induction respaced generalizing s s' with
  | nil => exact .ok alike
  | @pair o next c d t t' paired later ih =>
    have both := alike.pair c d
    have outline := outline_pair formed c d
    rw [isOutline, paired, Option.map_eq_some_iff] at outline
    obtain ⟨taken, read, same⟩ := outline
    rw [read] at both
    simp only [run, read]
    generalize s'.pair? c d = read' at both ⊢
    cases both with
    | some alike => exact ih alike (formed.pair read) same
  | @single o c t t' unpaired later ih =>
    subst isOutline
    have here : ∀ d ∈ t.head?, s.pair? c d = none := fun d first =>
      (pair?_eq_none_iff formed c d).mpr (unpaired d first)
    have here' : ∀ d ∈ t'.head?, s'.pair? c d = none := fun d first =>
      pair?_alike alike ((pair?_eq_none_iff formed c d).mpr (later.unpaired unpaired d first))
    have ahead : s'.single c t' = s'.single c t := single_congr s' fun _ _ => later.opensBlock
    refine concur_cons formed here here' ?_ ih
    rw [ahead]
    exact alike.single_of_uncrossed id c t
  | @gap o c c' t t' outside blank blank' later ih =>
    subst isOutline
    have bare : s.inVerbatim = false := by
      rw [inVerbatim_eq_isSome, outside]
      rfl
    have here : ∀ d ∈ t.head?, s.pair? c d = none := fun d _ =>
      (pair?_eq_none_iff formed c d).mpr (Outline.pair?_gap blank)
    have here' : ∀ d ∈ t'.head?, s'.pair? c' d = none := fun d _ =>
      pair?_alike alike ((pair?_eq_none_iff formed c' d).mpr (Outline.pair?_gap blank'))
    exact concur_cons formed here here' (concur_gap alike bare blank blank' t t') ih

end Scan

namespace Text.Respaced

variable {t t' : Text}

theorem outline (respaced : t.Respaced t') : Outline.start.Respaced t t' := by
  refine Outline.respaced_of_each respaced.length fun i c c' here here' => ?_
  have known := respaced.each i (List.getElem?_eq_some_iff.mp here).1
  rw [here, here', Option.some.injEq, Option.any_some, Option.any_some, decide_eq_true_eq,
    decide_eq_true_eq] at known
  rcases known with same | ⟨blank, blank', outside⟩
  · exact .inl same
  · exact .inr ⟨Scan.isGap_of_mem (List.mem_cons_of_mem ' ' blank), Scan.isGap_of_mem blank',
      outside⟩

theorem noReturn (respaced : t.Respaced t') (noReturn : '\r' ∉ t) : '\r' ∉ t' := by
  intro member
  obtain ⟨i, inside⟩ := List.mem_iff_getElem?.mp member
  have bound : i < t.length := by
    rw [← respaced.length]
    exact (List.getElem?_eq_some_iff.mp inside).1
  rcases respaced.each i bound with same | ⟨-, listed, -⟩
  · exact noReturn (List.mem_iff_getElem?.mpr ⟨i, same ▸ inside⟩)
  · rw [inside] at listed
    exact absurd listed (by decide)

end Text.Respaced

/-- Other layout outside strings, comments and escapes makes the same tokens, or the same error, in
other places. -/
theorem scan_respaced {t t' : Text} (noReturn : '\r' ∉ t) (respaced : t.Respaced t') :
    (∃ tokens tokens', scan t = .ok tokens ∧ scan t' = .ok tokens' ∧
      tokens'.map Token.unlined = tokens.map Token.unlined) ∨
    ∃ e e', scan t = .error e ∧ scan t' = .error e' ∧ e'.unplaced = e.unplaced := by
  have alike : Alike .anywhere [] [] Scan.start Scan.start := by
    exact ⟨⟨none, [], by simp⟩, ⟨none, [], by simp⟩, ⟨rfl, .nil⟩,
      .outside (w := []) trivial (.refl [] [])⟩
  have read := (Scan.concur_respaced alike ⟨_, _, _, Scan.start_layered⟩ respaced.outline).bind
    fun _ _ alike => alike.finish
  rw [scan, scan, Text.unifyLineEnds_eq_self noReturn,
    Text.unifyLineEnds_eq_self (respaced.noReturn noReturn)]
  rcases read.ok_or_error with ⟨tokens, tokens', done, done', new, new', rfl, rfl, same⟩ |
    ⟨e, e', failed, failed', related⟩
  · exact .inl ⟨_, _, done, done', Gauge.tokens_anywhere same⟩
  · exact .inr ⟨e, e', failed, failed', Gauge.error_anywhere related⟩

/-- Layout after the name of an at-rule, in a selector and before a string with a line break. -/
theorem scan_respaced_string :
    Text.Respaced
        ['@', 'm', '\n', 'p', '{', 'a', '\t', 'b', ':', 'c', '{', 'k', ':', '\x0b', '"', '\n', '"',
          '}', '}']
        ['@', 'm', '\x0c', 'p', '{', 'a', '\n', 'b', ':', 'c', '{', 'k', ':', ' ', '"', '\n', '"',
          '}', '}'] ∧
      ∃ tokens', scan ['@', 'm', '\x0c', 'p', '{', 'a', '\n', 'b', ':', 'c', '{', 'k', ':', ' ',
          '"', '\n', '"', '}', '}'] = .ok tokens' ∧
        tokens'.map Token.unlined = [.atBlock ['@', 'm'] ['p'] 0, .rule ['a', ' ', 'b', ':', 'c'] 0,
          .property ['k'] ['"', '\n', '"'] 0, .close 0, .close 0] := by
  have respaced : Text.Respaced
      ['@', 'm', '\n', 'p', '{', 'a', '\t', 'b', ':', 'c', '{', 'k', ':', '\x0b', '"', '\n', '"',
        '}', '}']
      ['@', 'm', '\x0c', 'p', '{', 'a', '\n', 'b', ':', 'c', '{', 'k', ':', ' ', '"', '\n', '"',
        '}', '}'] := by
    decide
  have known : scan ['@', 'm', '\n', 'p', '{', 'a', '\t', 'b', ':', 'c', '{', 'k', ':', '\x0b',
      '"', '\n', '"', '}', '}'] = .ok [.atBlock ['@', 'm'] ['p'] 2,
        .rule ['a', ' ', 'b', ':', 'c'] 2, .property ['k'] ['"', '\n', '"'] 3, .close 3,
        .close 3] := rfl
  rcases scan_respaced (by decide) respaced with
    ⟨tokens, tokens', read, read', same⟩ | ⟨e, e', read, -⟩
  · rw [known, Except.ok.injEq] at read
    rw [← read] at same
    exact ⟨respaced, tokens', read', same⟩
  · rw [known] at read
    cases read

end Stylesheet
