import Stylesheet.Proofs.Seams
import Stylesheet.Proofs.Spelling

set_option autoImplicit false

namespace Stylesheet

/-- Whether a text is read apart from the one that follows: no escape and no comment mark begins
in the first and ends in the second. -/
def Outline.splits (after : Text) (o : Outline) : Text → Bool
  | [] => true
  | [c] => after.head?.all fun d => (o.pair? c d).isNone
  | c :: d :: rest =>
    match o.pair? c d with
    | some o => o.splits after rest
    | none => (o.single c).splits after (d :: rest)

/-- Whether a text can be divided between two parts, outside strings and comments and inside no
escape and no comment mark. -/
def Text.isDivision (u v : Text) : Bool :=
  Outline.start.splits v u && (Outline.start.run u).verbatim.isNone

namespace Outline

/-- Where a text ends in no lone backslash, it is read apart from a comment. -/
theorem splits_slash {o : Outline} {u : Text} (outside : (o.run u).verbatim = none)
    (whole : '\\' ∉ u.unescaped) (w : Text) : o.splits ('/' :: w) u := by
  induction o, u using run.induct with
  | case1 o => rfl
  | case2 o c =>
    -- The last character goes with the slash in an escape or at the end of a comment only.
    have escape : c ≠ '\\' := fun same => whole (by rw [same]; exact List.mem_cons_self)
    have comment : ¬ (c = '*' ∧ o.verbatim = some .comment) := by
      rintro ⟨rfl, inComment⟩
      have single := single_inside inComment '*'
      have stays : (o.single '*').verbatim = o.verbatim := by
        rw [single]
        rfl
      rw [run, stays, inComment] at outside
      cases outside
    simpa [splits, pair?, escape] using comment
  | case3 o c d rest next paired ih =>
    rw [splits, paired]
    rw [run, paired] at outside
    refine ih outside ?_
    by_cases escape : c = '\\'
    · rwa [Text.unescaped, if_pos escape] at whole
    · have mark : d ≠ '\\' := by
        rintro rfl
        simp [pair?, escape] at paired
      rw [Text.unescaped_cons escape, Text.unescaped_cons mark] at whole
      exact fun member => whole (by simp [member])
  | case4 o c d rest unpaired ih =>
    rw [splits, unpaired]
    rw [run, unpaired] at outside
    refine ih outside ?_
    have escape : c ≠ '\\' := by
      rintro rfl
      simp [pair?] at unpaired
    rw [Text.unescaped_cons escape] at whole
    exact fun member => whole (List.mem_cons_of_mem c member)

end Outline

namespace Scan

variable {s : Scan}

theorem steps_of_paired {c d : Char} {next : Scan} (paired : s.pair? c d = some next) (n : Nat)
    (t : Text) : steps (n + 1) s (c :: d :: t) = steps n next t := by
  simp only [steps, step, paired]
  rfl

theorem steps_of_unpaired {c : Char} {t : Text} (unpaired : ∀ d ∈ t.head?, s.pair? c d = none)
    (n : Nat) : steps (n + 1) s (c :: t) = (s.single c t).bind fun next => steps n next t := by
  have step : s.step (c :: t) = (s.single c t).map (·, t) := by
    cases t with
    | nil => rfl
    | cons d t => simp only [Scan.step, unpaired d rfl]
  rw [steps, step]
  cases s.single c t <;> rfl

theorem run_eq_bind_step (s : Scan) (t : Text) :
    s.run t = (s.step t).bind fun next => next.1.run next.2 := by
  match t with
  | [] => rfl
  | [c] =>
    simp only [run, step]
    cases s.single c [] <;> rfl
  | c :: d :: rest =>
    simp only [run, step]
    cases s.pair? c d with
    | some next => rfl
    | none => cases s.single c (d :: rest) <;> rfl

/-- A text can be read to its end after any number of steps. -/
theorem run_eq_bind_steps (n : Nat) (s : Scan) (t : Text) :
    s.run t = (steps n s t).bind fun next => next.1.run next.2 := by
  induction n generalizing s t with
  | zero => rfl
  | succ n ih =>
    rw [run_eq_bind_step, steps]
    cases s.step t with
    | error => rfl
    | ok next => exact ih next.1 next.2

/-- A text is read in the same steps before two others that it is read apart from, if no colon can
tell these from each other. -/
theorem steps_of_splits {s : Scan} (formed : s.WellFormed) {u v w : Text}
    (splits : s.outline.splits v u) (splits' : s.outline.splits w u)
    (ahead : ∀ t, opensBlock (t ++ v) = opensBlock (t ++ w)) :
    ∃ (n : Nat) (last : Except ScanError Scan), steps n s (u ++ v) = last.map (·, v) ∧
      steps n s (u ++ w) = last.map (·, w) ∧
      ∀ next, last = .ok next → next.WellFormed ∧ next.outline = s.outline.run u := by
  match u with
  | [] => exact ⟨0, .ok s, rfl, rfl, fun _ same => by cases same; exact ⟨formed, rfl⟩⟩
  | [c] =>
    have apart {t : Text} (splits : s.outline.splits t [c]) :
        ∀ d ∈ t.head?, s.pair? c d = none := by
      intro d first
      simp only [Outline.splits, Option.mem_def.mp first, Option.all_some, ← outline_pair formed,
        Option.isNone_map, Option.isNone_iff_eq_none] at splits
      exact splits
    have same : s.single c w = s.single c v := single_congr s fun _ _ => (ahead []).symm
    refine ⟨1, s.single c v, ?_, ?_, fun next read =>
      ⟨formed.single read, outline_single formed read⟩⟩
    · rw [List.singleton_append, steps_of_unpaired (apart splits)]
      cases s.single c v <;> rfl
    · rw [List.singleton_append, steps_of_unpaired (apart splits'), same]
      cases s.single c v <;> rfl
  | c :: d :: u =>
    have outline := outline_pair formed c d
    cases paired : s.pair? c d with
    | some next =>
      simp only [paired, Option.map_some] at outline
      simp only [Outline.splits, ← outline] at splits splits'
      obtain ⟨n, last, read, read', reached⟩ :=
        steps_of_splits (formed.pair paired) splits splits' ahead
      refine ⟨n + 1, last, ?_, ?_, ?_⟩
      · exact (steps_of_paired paired n _).trans read
      · exact (steps_of_paired paired n _).trans read'
      · simpa only [Outline.run, ← outline] using reached
    | none =>
      simp only [paired, Option.map_none] at outline
      simp only [Outline.splits, ← outline] at splits splits'
      have taken (t : Text) (n : Nat) : steps (n + 1) s (c :: d :: (u ++ t)) =
          (s.single c (d :: (u ++ t))).bind fun next => steps n next (d :: (u ++ t)) :=
        steps_of_unpaired (by simpa using paired) n
      have same : s.single c (d :: (u ++ w)) = s.single c (d :: (u ++ v)) :=
        single_congr s fun _ _ => (ahead (d :: u)).symm
      cases single : s.single c (d :: (u ++ v)) with
      | error e =>
        refine ⟨1, .error e, ?_, ?_, by simp⟩
        · exact (taken v 0).trans (by rw [single]; rfl)
        · exact (taken w 0).trans (by rw [same, single]; rfl)
      | ok next =>
        have followed := outline_single formed single
        rw [← followed] at splits splits'
        obtain ⟨n, last, read, read', reached⟩ :=
          steps_of_splits (formed.single single) splits splits' ahead
        refine ⟨n + 1, last, ?_, ?_, ?_⟩
        · exact (taken v n).trans (by rw [single]; exact read)
        · exact (taken w n).trans (by rw [same, single]; exact read')
        · simpa only [Outline.run, ← outline, ← followed] using reached

/-- A colon looks past a comment that has no delimiter. -/
theorem opensBlock_comment {c : Text} (undelimited : '{' ∉ c ∧ '}' ∉ c ∧ ';' ∉ c) (t v : Text) :
    opensBlock (t ++ v) = opensBlock (t ++ '/' :: '*' :: (c ++ '*' :: '/' :: v)) := by
  have passed : c.find? (fun x => x = ';' || x = '}' || x = '{') = none := by
    rw [List.find?_eq_none]
    intro x member delimits
    simp only [Bool.or_eq_true, decide_eq_true_eq] at delimits
    rcases delimits with (rfl | rfl) | rfl
    · exact undelimited.2.2 member
    · exact undelimited.2.1 member
    · exact undelimited.1 member
  simp [opensBlock, List.find?_append, passed]

end Scan

def ScanError.unplaced : ScanError → ScanError
  | controlCharacter c _ => controlCharacter c .start
  | unterminated construct _ => unterminated construct 0

def Gauge.anywhere : Gauge := ⟨fun _ _ => True, False, fun _ _ => trivial⟩

namespace Gauge

theorem lines_anywhere (m n : Nat) : anywhere.lines m n := ⟨⟨m, 0⟩, ⟨n, 0⟩, trivial, rfl, rfl⟩

theorem tokens_anywhere {new new' : List Token} (same : List.Forall₂ anywhere.Same new new') :
    new'.map Token.unlined = new.map Token.unlined := by
  induction same with
  | nil => rfl
  | cons first rest ih => rw [List.map_cons, List.map_cons, first.unlined, ih]

theorem error_anywhere {e e' : ScanError} (failed : anywhere.Failure e e') :
    e'.unplaced = e.unplaced := by
  cases failed with
  | control => rfl
  | unterminated fits =>
    rcases fits.construct with same | ⟨⟨⟩, -⟩
    rw [same]
    rfl

end Gauge

/-- A token more among those before, and another place, change nothing for what is read. -/
theorem Scan.concur_anywhere {s : Scan} (formed : s.WellFormed) (outside : s.inVerbatim = false)
    (position : Position) (token : Token) (t : Text) :
    Concur (fun e e' => e'.unplaced = e.unplaced)
      (fun tokens tokens' => ∃ new, tokens = s.tokens.reverse ++ new ∧
        tokens'.map Token.unlined = (s.tokens.reverse ++ token :: new).map Token.unlined)
      ((s.run t).bind finish)
      ((Scan.run { s with position, tokens := token :: s.tokens } t).bind finish) := by
  obtain ⟨x, -, -, reader⟩ := formed.exists_spot outside
  have moved : { s with position, tokens := token :: s.tokens } =
      x.reader position s.pending (token :: s.tokens) := by
    rw [reader]
    rfl
  have fits : Spot.Fits .anywhere x x :=
    ⟨rfl, List.forall₂_same.mpr fun f _ => ⟨Gauge.lines_anywhere _ _, .inl rfl⟩⟩
  have alike : Alike .anywhere s.tokens (token :: s.tokens) s
      { s with position, tokens := token :: s.tokens } := by
    have alike := fits.alike (p := s.position) (q := position) trivial
      (.refl s.tokens (token :: s.tokens)) s.pending
    rwa [← reader, ← moved] at alike
  have concur := (alike.run id t).bind fun _ _ alike => alike.finish
  generalize (s.run t).bind finish = read at concur ⊢
  generalize (Scan.run { s with position, tokens := token :: s.tokens } t).bind finish = read'
    at concur ⊢
  cases concur with
  | error related => exact .error (Gauge.error_anywhere related)
  | ok related =>
    obtain ⟨new, new', rfl, rfl, same⟩ := related
    refine .ok ⟨new, rfl, ?_⟩
    rw [List.map_append, List.map_append, Gauge.tokens_anywhere same]
    simp

/-- After a comment, the same is read as without it. -/
theorem Scan.concur_comment {s : Scan} (formed : s.WellFormed) (outside : s.inVerbatim = false)
    {c : Text} (taken : ∀ x ∈ c, Mark.of x ≠ .control ∧ x ≠ '\\') (unclosed : ¬ ['*', '/'] <:+: c)
    (v : Text) :
    Concur (fun e e' => e'.unplaced = e.unplaced)
      (fun tokens tokens' => ∃ after, tokens = s.tokens.reverse ++ after ∧
        tokens'.map Token.unlined =
          (s.tokens.reverse ++ .comment (Text.trim c) 0 :: after).map Token.unlined)
      ((s.run v).bind finish)
      ((s.run ('/' :: '*' :: (c ++ '*' :: '/' :: v))).bind finish) := by
  obtain ⟨position, inserted⟩ := run_comment s outside taken unclosed v
  rw [inserted, ← formed.stored.2 outside]
  refine (concur_anywhere formed outside position _ v).imp ?_
  rintro tokens tokens' - ⟨after, same, unlined⟩
  refine ⟨after, same, unlined.trans ?_⟩
  simp [Token.unlined]

/-- A comment between two parts of a text, outside strings and comments, makes one token and
changes nothing else. -/
theorem scan_comment_between {u v c : Text} (noReturn : '\r' ∉ u ++ v) (division : u.isDivision v)
    (whole : '\\' ∉ u.unescaped) (unclosed : ¬ ['*', '/'] <:+: c)
    (plain : ∀ x ∈ c, x ∉ ['{', '}', ';', '\\', '\r'] ∧ Mark.of x ≠ .control) :
    (∃ n s after tokens, Scan.steps n .start (u ++ v) = .ok (s, v) ∧
      scan (u ++ v) = .ok (s.tokens.reverse ++ after) ∧
      scan (u ++ '/' :: '*' :: (c ++ '*' :: '/' :: v)) = .ok tokens ∧
      tokens.map Token.unlined =
        (s.tokens.reverse ++ .comment (Text.trim c) 0 :: after).map Token.unlined) ∨
    ∃ e e', scan (u ++ v) = .error e ∧
      scan (u ++ '/' :: '*' :: (c ++ '*' :: '/' :: v)) = .error e' ∧ e'.unplaced = e.unplaced := by
  have absent {x : Char} (listed : x ∈ ['{', '}', ';', '\\', '\r']) : x ∉ c :=
    fun member => (plain x member).1 listed
  have unified' : Text.unifyLineEnds (u ++ '/' :: '*' :: (c ++ '*' :: '/' :: v)) =
      u ++ '/' :: '*' :: (c ++ '*' :: '/' :: v) := by
    have inside : '\r' ∉ c := absent (by decide)
    simp only [List.mem_append, not_or] at noReturn
    exact Text.unifyLineEnds_eq_self (by simp [noReturn, inside])
  simp only [Text.isDivision, Bool.and_eq_true, Option.isNone_iff_eq_none] at division
  obtain ⟨splits, outside⟩ := division
  have splits' := Outline.splits_slash outside whole ('*' :: (c ++ '*' :: '/' :: v))
  have ahead (t : Text) := Scan.opensBlock_comment (c := c)
    ⟨absent (by decide), absent (by decide), absent (by decide)⟩ t v
  obtain ⟨n, last, read, read', reached⟩ :=
    Scan.steps_of_splits ⟨_, _, _, Scan.start_layered⟩ splits splits' ahead
  rw [scan, scan, Text.unifyLineEnds_eq_self noReturn, unified', Scan.run_eq_bind_steps n,
    Scan.run_eq_bind_steps n _ (u ++ _ :: _), read, read']
  cases last with
  | error e => exact .inr ⟨e, e, rfl, rfl, rfl⟩
  | ok s =>
    obtain ⟨formed, outline⟩ := reached s rfl
    have bare : s.inVerbatim = false := by
      rw [Scan.inVerbatim_eq_isSome, outline, show Scan.start.outline = .start from rfl, outside]
      rfl
    have taken : ∀ x ∈ c, Mark.of x ≠ .control ∧ x ≠ '\\' := fun x member =>
      ⟨(plain x member).2, fun same => absent (by decide) (same ▸ member)⟩
    rcases (Scan.concur_comment formed bare taken unclosed v).ok_or_error with
      ⟨_, tokens, without, within, after, rfl, same⟩ | ⟨e, e', without, within, same⟩
    · exact .inl ⟨n, s, after, tokens, read, without, within, same⟩
    · exact .inr ⟨e, e', without, within, same⟩

/-- A comment with a quote and a colon, in a selector that looks like a declaration. -/
theorem scan_comment_between_selector :
    ∃ n s after tokens, Scan.steps n .start (['@', 'm', '{', 'a', ':'] ++ ['b', '{', '}', '}']) =
        .ok (s, ['b', '{', '}', '}']) ∧
      s.tokens.reverse ++ after =
        [.atBlock ['@', 'm'] [] 1, .rule ['a', ':', 'b'] 1, .close 1, .close 1] ∧
      scan (['@', 'm', '{', 'a', ':'] ++
        '/' :: '*' :: (['\n', '"', ':', '*'] ++ '*' :: '/' :: ['b', '{', '}', '}'])) = .ok tokens ∧
      tokens.map Token.unlined =
        (s.tokens.reverse ++ .comment ['"', ':', '*'] 0 :: after).map Token.unlined := by
  have plain : ∀ x ∈ ['\n', '"', ':', '*'],
      x ∉ ['{', '}', ';', '\\', '\r'] ∧ Mark.of x ≠ .control := by
    simp [Mark.of]
  have known : scan (['@', 'm', '{', 'a', ':'] ++ ['b', '{', '}', '}']) =
      .ok [.atBlock ['@', 'm'] [] 1, .rule ['a', ':', 'b'] 1, .close 1, .close 1] := rfl
  rcases scan_comment_between (u := ['@', 'm', '{', 'a', ':']) (v := ['b', '{', '}', '}'])
      (by decide) rfl (by decide) (by decide) plain with
    ⟨n, s, after, tokens, reached, without, within, same⟩ | ⟨e, e', without, -⟩
  · rw [known, Except.ok.injEq] at without
    exact ⟨n, s, after, tokens, reached, without.symm, within, same⟩
  · rw [known] at without
    cases without

/-- After a backslash at the end of a text, the mark that opens a comment is an escape. -/
theorem scan_comment_after_backslash :
    Text.isDivision ['\\'] [] ∧ scan (['\\'] ++ []) = .ok [] ∧
      scan (['\\'] ++ '/' :: '*' :: (['c'] ++ '*' :: '/' :: [])) = .ok [] :=
  ⟨rfl, rfl, rfl⟩

end Stylesheet
