import Stylesheet.Proofs.Bodies

set_option autoImplicit false

namespace Stylesheet

namespace Token

def isComment : Token → Bool
  | comment _ _ => true
  | _ => false

def isProperty : Token → Bool
  | property _ _ _ => true
  | _ => false

end Token

namespace Text

/-- Characters that are no line breaks are the same in a text and with its line ends unified. -/
theorem filter_unifyLineEnds {p : Char → Bool} (visible : p '\n' = false ∧ p '\r' = false)
    (t : Text) : (unifyLineEnds t).filter p = t.filter p := by
  induction t using unifyLineEnds.induct with
  | case1 => rfl
  | case2 t ih => simp [unifyLineEnds, visible, ih]
  | case3 c t apart ih =>
    rw [unifyLineEnds, List.filter_cons, List.filter_cons, ih]
    · by_cases isReturn : c = '\r'
      · simp [isReturn, visible]
      · rw [if_neg isReturn]
    · exact apart

theorem mem_unifyLineEnds {c : Char} (visible : c ≠ '\n' ∧ c ≠ '\r') {t : Text} :
    c ∈ unifyLineEnds t ↔ c ∈ t := by
  have same := filter_unifyLineEnds (p := (· = c)) (by simp [visible.1.symm, visible.2.symm]) t
  have member (u : Text) : c ∈ u ↔ c ∈ u.filter (· = c) := by simp
  rw [member, same, ← member]

theorem opensBlock_unifyLineEnds (t : Text) :
    Scan.opensBlock (unifyLineEnds t) = Scan.opensBlock t := by
  unfold Scan.opensBlock
  rw [← List.head?_filter, filter_unifyLineEnds (by decide), List.head?_filter]

end Text

namespace Scan

/-- Whether the next delimiter after a colon that starts a value is no opening brace, not even one
in a string, a comment or an escape. -/
def startsPlainly (s : Scan) : Text → Bool
  | [] | [_] => true
  | c :: d :: rest =>
    match s.pair? c d with
    | some s => s.startsPlainly rest
    | none =>
      !(c = ':' && s.top = some .rule && opensBlock (d :: rest)) &&
        match s.single c (d :: rest) with
        | .error _ => true
        | .ok s => s.startsPlainly (d :: rest)

variable {s next : Scan}

theorem startsPlainly_single {c : Char} {t : Text} (plain : s.startsPlainly (c :: t))
    (unpaired : ∀ d ∈ t.head?, s.pair? c d = none) :
    (c = ':' → s.top = some .rule → opensBlock t = false) ∧
      ∀ next, s.single c t = .ok next → next.startsPlainly t := by
  cases t with
  | nil => exact ⟨fun _ _ => rfl, fun _ _ => rfl⟩
  | cons d t =>
    simp only [startsPlainly, unpaired d rfl, Bool.and_eq_true] at plain
    refine ⟨fun isColon top => by simpa [isColon, top] using plain.1, fun next read => ?_⟩
    simpa only [read] using plain.2

/-- Where the look-ahead sees no brace, a body is read alike in a rule and in an at-rule. -/
theorem concur_of_startsPlainly {t : Text} (plain : inRule.startsPlainly t) :
    Concur Gauge.across.Failure (Alike .across inRule.tokens inAtRule.tokens) (inRule.run t)
      (inAtRule.run t) := by
  let related (t : Text) (s s' : Scan) : Prop :=
    s.startsPlainly t ∧ Alike .across inRule.tokens inAtRule.tokens s s'
  have ran : Concur Gauge.across.Failure (related []) (inRule.run t) (inAtRule.run t) := by
    refine concur_run (R := related) ?_ ?_ ⟨plain, inRule_alike⟩
    · rintro c d rest s s' ⟨plain, alike⟩
      refine optionRel_imp (alike.pair c d) fun next _ paired alike => ⟨?_, alike⟩
      simpa only [startsPlainly, paired] using plain
    · rintro c rest s s' ⟨plain, alike⟩ unpaired
      obtain ⟨ahead, later⟩ := startsPlainly_single plain unpaired
      refine (alike.single fun isColon => ?_).imp fun next _ read alike => ⟨later next read, alike⟩
      rcases Gauge.tops_of_fits alike.frames with same | ⟨-, top, -⟩
      · exact .inl same
      · exact .inr (ahead isColon top)
  exact ran.imp fun _ _ _ related => related.2

/-- What holds before each step holds at the end. -/
theorem run_invariant {P : Text → Scan → Prop}
    (pair : ∀ {c d : Char} {rest : Text} {s next : Scan}, P (c :: d :: rest) s →
      s.pair? c d = some next → P rest next)
    (single : ∀ {c : Char} {rest : Text} {s next : Scan}, P (c :: rest) s →
      s.single c rest = .ok next → P rest next)
    {t : Text} {s last : Scan} (begins : P t s) (read : s.run t = .ok last) : P [] last := by
  induction s, t using run.induct with
  | case1 s =>
    cases read
    exact begins
  | case2 s c => exact single begins read
  | case3 s c d rest next paired ih =>
    rw [run, paired] at read
    exact ih (pair begins paired) read
  | case4 s c d rest unpaired error failed =>
    simp only [run, unpaired, failed] at read
    cases read
  | case5 s c d rest unpaired next taken ih =>
    simp only [run, unpaired, taken] at read
    exact ih (single begins taken) read

/-- Some constructs are not open, and no declaration has been read. -/
structure Avoids (banned : List Construct) (s : Scan) : Prop where
  frames : ∀ f ∈ s.frames, f.construct ∉ banned
  tokens : ∀ t ∈ s.tokens, t.isProperty = false

namespace Avoids

variable {banned : List Construct}

theorem top_ne (h : s.Avoids banned) {c : Construct} (isBanned : c ∈ banned) : s.top ≠ some c := by
  intro top
  obtain ⟨f, first, rfl⟩ := Option.map_eq_some_iff.mp top
  exact h.frames f (List.mem_of_mem_head? first) isBanned

theorem emit (h : s.Avoids banned) {t : Token} (other : t.isProperty = false) :
    (s.emit t).Avoids banned :=
  ⟨h.frames, List.forall_mem_cons.mpr ⟨other, h.tokens⟩⟩

theorem enter (h : s.Avoids banned) {c : Construct} (allowed : c ∉ banned) :
    (s.enter c).Avoids banned :=
  ⟨List.forall_mem_cons.mpr ⟨allowed, h.frames⟩, h.tokens⟩

theorem leave (h : s.Avoids banned) : s.leave.Avoids banned :=
  ⟨fun f member => h.frames f (List.mem_of_mem_tail member), h.tokens⟩

theorem write (h : s.Avoids banned) (c : Char) : (s.write c).Avoids banned := ⟨h.frames, h.tokens⟩

theorem advance (h : s.Avoids banned) (c : Char) : (s.advance c).Avoids banned :=
  ⟨h.frames, h.tokens⟩

theorem clear (h : s.Avoids banned) : s.clear.Avoids banned := ⟨h.frames, h.tokens⟩

theorem restart (h : s.Avoids banned) (key : Option Text) (pending : Text) :
    ({ s with key, pending } : Scan).Avoids banned := ⟨h.frames, h.tokens⟩

theorem blank (h : s.Avoids banned) : s.blank.Avoids banned := by
  unfold Scan.blank
  split
  · exact h.restart _ _
  · exact h.write ' '

theorem openBrace (h : s.Avoids banned) (values : .value ∈ banned) (blocks : .atBlock ∉ banned)
    (rules : .rule ∉ banned) : s.openBrace.Avoids banned := by
  unfold Scan.openBrace
  split
  · exact ((h.restart none []).emit rfl).leave.enter blocks
  · rename_i top
    exact absurd top (h.top_ne values)
  · exact h.write '{'
  · exact h.write '{'
  · exact h.write '{'
  · exact (h.clear.emit rfl).enter rules

theorem endClause (h : s.Avoids banned) (values : .value ∈ banned) : s.endClause.Avoids banned := by
  unfold Scan.endClause
  split
  · rename_i top
    exact absurd top (h.top_ne values)
  · exact ((h.restart none []).emit rfl).leave
  · exact h

theorem closeBrace (h : s.Avoids banned) (values : .value ∈ banned) :
    s.closeBrace.Avoids banned := by
  unfold Scan.closeBrace
  split
  · exact h.write '}'
  · have closed : (s.endClause.clear.emit (.close s.endClause.position.line)).Avoids banned :=
      (h.endClause values).clear.emit rfl
    unfold Scan.closeBlock
    dsimp only
    split
    · exact closed.leave
    · exact closed

theorem colon (h : s.Avoids banned) {rest : Text} (notRule : s.top ≠ some .rule)
    (ahead : s.top = some .atBlock → opensBlock rest) : (s.colon rest).Avoids banned := by
  have written : s.colon rest = s.write ':' := by
    unfold Scan.colon
    split
    · rename_i top
      exact absurd top notRule
    · rename_i top
      rw [if_pos (ahead top)]
    · rfl
  rw [written]
  exact h.write ':'

theorem semicolon (h : s.Avoids banned) (values : .value ∈ banned) :
    s.semicolon.Avoids banned := by
  unfold Scan.semicolon
  split
  · exact h.write ';'
  · exact (h.endClause values).clear

theorem atSign (h : s.Avoids banned) (headers : .header ∉ banned) : s.atSign.Avoids banned := by
  have entered := (h.restart none ['@']).enter headers
  unfold Scan.atSign
  split
  · exact entered
  · exact entered
  · exact entered
  · exact h.write '@'

theorem quote (h : s.Avoids banned) (c : Char) {string : Construct} (strings : string ∉ banned) :
    (s.quote c string).Avoids banned := by
  have inString : (if s.top = some string then s.leave.write c else s.write c).Avoids banned := by
    split
    · exact h.leave.write c
    · exact h.write c
  unfold Scan.quote
  split
  · exact h.write c
  · exact inString
  · exact inString
  · exact (h.enter strings).write c

/-- A reader outside values, and perhaps outside rules, stays there unless a brace or a colon leads
into them. -/
theorem single (h : s.Avoids banned) (few : ∀ c ∈ banned, c = .value ∨ c = .rule)
    (values : .value ∈ banned) {c : Char} {rest : Text} (brace : c = '{' → .rule ∉ banned)
    (colon : c = ':' → s.top ≠ some .rule ∧ (s.top = some .atBlock → opensBlock rest))
    (read : s.single c rest = .ok next) : next.Avoids banned := by
  have advanced := h.advance c
  cases lone_of_eq_ok read with
  | layout marks =>
    split
    · exact advanced.write c
    · exact advanced.blank
  | space => exact advanced.blank
  | openBrace =>
    exact advanced.openBrace values (fun member => by simpa using few _ member) (brace rfl)
  | closeBrace => exact advanced.closeBrace values
  | colon =>
    obtain ⟨notRule, ahead⟩ := colon rfl
    exact advanced.colon notRule ahead
  | semicolon => exact advanced.semicolon values
  | atSign => exact advanced.atSign fun member => by simpa using few _ member
  | quote marks =>
    refine advanced.quote c fun member => ?_
    rcases Mark.of_eq_quote marks with rfl | rfl <;> simpa using few _ member
  | plain marks => exact advanced.write c

theorem pair (h : s.Avoids banned) (few : ∀ c ∈ banned, c = .value ∨ c = .rule) {c d : Char}
    (paired : s.pair? c d = some next) : next.Avoids banned := by
  have comments : .comment ∉ banned := fun member => by simpa using few _ member
  have advanced := (h.advance c).advance d
  cases paired_of_eq_some paired with
  | escape d => exact (advanced.write '\\').write d
  | openComment outside =>
    exact ⟨List.forall_mem_cons.mpr ⟨comments, advanced.frames⟩, advanced.tokens⟩
  | closeComment inside =>
    exact ⟨advanced.leave.frames, List.forall_mem_cons.mpr ⟨rfl, advanced.tokens⟩⟩

end Avoids

/-- Before the only colon of a text, which takes the text after it for a selector, or after it. -/
def Misled (t : Text) (s : Scan) : Prop :=
  (∃ u v, t = u ++ ':' :: v ∧ (':' ∉ u ∧ '{' ∉ u) ∧ ':' ∉ v ∧ opensBlock v ∧
    s.Avoids [.value, .rule]) ∨ ':' ∉ t ∧ s.Avoids [.value]

namespace Misled

theorem passed (avoids : s.Avoids [.value, .rule]) : s.Avoids [.value] :=
  ⟨fun f member listed => avoids.frames f member (by simp_all), avoids.tokens⟩

theorem pair {c d : Char} {rest : Text} (misled : Misled (c :: d :: rest) s)
    (paired : s.pair? c d = some next) : Misled rest next := by
  rcases misled with ⟨u, v, same, plain, later, ahead, avoids⟩ | ⟨later, avoids⟩
  · have avoids := avoids.pair (by simp) paired
    match u with
    | [] =>
      cases same
      simp [pair?] at paired
    | [e] =>
      cases same
      exact .inr ⟨later, passed avoids⟩
    | e :: f :: u =>
      cases same
      simp only [List.mem_cons, not_or] at plain
      exact .inl ⟨u, v, rfl, ⟨plain.1.2.2, plain.2.2.2⟩, later, ahead, avoids⟩
  · simp only [List.mem_cons, not_or] at later
    exact .inr ⟨later.2.2, avoids.pair (by simp) paired⟩

theorem single {c : Char} {rest : Text} (misled : Misled (c :: rest) s)
    (read : s.single c rest = .ok next) : Misled rest next := by
  rcases misled with ⟨u, v, same, plain, later, ahead, avoids⟩ | ⟨later, avoids⟩
  · match u with
    | [] =>
      -- The colon itself: no rule is open, and an at-rule takes the brace ahead for a block.
      cases same
      refine .inr ⟨later, passed (avoids.single (by simp) (by simp) (by simp) (fun _ => ?_) read)⟩
      exact ⟨avoids.top_ne (by simp), fun _ => ahead⟩
    | e :: u =>
      cases same
      simp only [List.mem_cons, not_or] at plain
      refine .inl ⟨u, v, rfl, ⟨plain.1.2, plain.2.2⟩, later, ahead, ?_⟩
      exact avoids.single (by simp) (by simp) (fun isBrace => absurd isBrace.symm plain.2.1)
        (fun isColon => absurd isColon.symm plain.1.1) read
  · simp only [List.mem_cons, not_or] at later
    exact .inr ⟨later.2, avoids.single (by simp) (by simp) (by simp)
      (fun isColon => absurd isColon.symm later.1) read⟩

/-- No declaration is read where the only colon is taken for a part of a selector. -/
theorem run {t : Text} {last : Scan} (misled : Misled t s) (read : s.run t = .ok last) :
    ∀ token ∈ last.tokens, token.isProperty = false := by
  have final : Misled [] last := run_invariant (P := Misled) pair single misled read
  rcases final with ⟨u, v, same, -⟩ | ⟨-, avoids⟩
  · simp at same
  · exact avoids.tokens

end Misled

/-- Where no colon has an opening brace as the next delimiter, no value starts before one. -/
theorem startsPlainly_of_suffix {t : Text} (plain : ∀ v, ':' :: v <:+ t → opensBlock v = false) :
    s.startsPlainly t := by
  induction s, t using startsPlainly.induct with
  | case1 s => rfl
  | case2 s c => rfl
  | case3 s c d rest next paired ih =>
    simp only [startsPlainly, paired]
    exact ih fun v suffix =>
      plain v (suffix.trans ((List.suffix_cons d rest).trans (List.suffix_cons c _)))
  | case4 s c d rest unpaired ih =>
    simp only [startsPlainly, unpaired, Bool.and_eq_true]
    constructor
    · by_cases isColon : c = ':'
      · subst isColon
        simp [plain _ (List.suffix_refl _)]
      · simp [isColon]
    · cases read : s.single c (d :: rest) with
      | error => rfl
      | ok next => exact ih next fun v suffix => plain v (suffix.trans (List.suffix_cons c _))

end Scan

namespace Text

def declaration (key value : Text) : Text := ' ' :: (key ++ ':' :: ' ' :: (value ++ [';', ' ']))

/-- What is left of a body after the colon of its declaration. -/
def afterColon (value : Text) : Text := ' ' :: (unifyLineEnds value ++ [';', ' ', '}'])

theorem declaration_eq (key value : Text) :
    unifyLineEnds (declaration key value) ++ ['}'] =
      ' ' :: unifyLineEnds key ++ ':' :: afterColon value := by
  have ends : unifyLineEnds (value ++ [';', ' ']) = unifyLineEnds value ++ [';', ' '] :=
    unifyLineEnds_append (by simp)
  rw [declaration, unifyLineEnds_cons (by decide), unifyLineEnds_append (by simp),
    unifyLineEnds_cons (by decide), unifyLineEnds_cons (by decide), ends]
  simp [afterColon]

theorem opensBlock_afterColon (value : Text) :
    Scan.opensBlock (afterColon value) = Scan.opensBlock (value ++ [';']) := by
  have ends : unifyLineEnds value ++ [';'] = unifyLineEnds (value ++ [';']) := by
    rw [unifyLineEnds_append (by simp)]
    rfl
  have whole : afterColon value = (' ' :: (unifyLineEnds value ++ [';'])) ++ [' ', '}'] := by
    simp [afterColon]
  have blank (t : Text) : Scan.opensBlock (' ' :: t) = Scan.opensBlock t := rfl
  rw [whole, Scan.opensBlock_append (by simp), blank, ends, opensBlock_unifyLineEnds]

theorem colon_not_mem_afterColon {value : Text} (absent : ':' ∉ value) :
    ':' ∉ afterColon value := by
  have unified := mt (mem_unifyLineEnds (by decide)).mp absent
  simp [afterColon, unified]

/-- The only colon of a text. -/
theorem eq_of_colon_suffix {u v w : Text} (before : ':' ∉ u) (after : ':' ∉ v)
    (suffix : ':' :: w <:+ u ++ ':' :: v) : w = v := by
  induction u with
  | nil =>
    rcases List.suffix_cons_iff.mp suffix with same | later
    · exact (List.cons.inj same).2
    · exact absurd (later.subset List.mem_cons_self) after
  | cons c u ih =>
    simp only [List.mem_cons, not_or] at before
    rcases List.suffix_cons_iff.mp suffix with same | later
    · exact absurd (List.cons.inj same).1 before.1
    · exact ih before.2 later

variable {key value : Text}

/-- Whether the colon after its key is the only one of a declaration, and no block opens before. -/
def HasOneColon (key value : Text) : Prop := ':' ∉ key ∧ '{' ∉ key ∧ ':' ∉ value

namespace HasOneColon

theorem key_unified (one : HasOneColon key value) :
    ':' ∉ ' ' :: unifyLineEnds key ∧ '{' ∉ ' ' :: unifyLineEnds key := by
  have colon := mt (mem_unifyLineEnds (by decide)).mp one.1
  have brace := mt (mem_unifyLineEnds (by decide)).mp one.2.1
  simp [colon, brace]

/-- The value starts plainly if the next delimiter after the colon is no opening brace. -/
theorem startsPlainly (one : HasOneColon key value)
    (ahead : Scan.opensBlock (value ++ [';']) = false) :
    Scan.inRule.startsPlainly (unifyLineEnds (declaration key value) ++ ['}']) := by
  rw [declaration_eq]
  refine Scan.startsPlainly_of_suffix fun v suffix => ?_
  rw [eq_of_colon_suffix one.key_unified.1 (colon_not_mem_afterColon one.2.2) suffix,
    opensBlock_afterColon, ahead]

/-- No declaration is read in an at-rule if the next delimiter after the colon is an opening
brace. -/
theorem isProperty_eq_false (one : HasOneColon key value)
    (ahead : Scan.opensBlock (value ++ [';'])) {tokens : List Token}
    (read : scan (declaration key value).inAtRule = .ok tokens) :
    ∀ token ∈ tokens, token.isProperty = false := by
  have begins : Scan.Misled (unifyLineEnds (declaration key value) ++ ['}']) Scan.inAtRule := by
    rw [declaration_eq]
    refine .inl ⟨_, _, rfl, one.key_unified, colon_not_mem_afterColon one.2.2, ?_, ?_, ?_⟩
    · rw [opensBlock_afterColon, ahead]
    · exact List.forall_mem_singleton.mpr (by decide)
    · exact List.forall_mem_singleton.mpr rfl
  rw [scan_inAtRule] at read
  cases ran : Scan.inAtRule.run (unifyLineEnds (declaration key value) ++ ['}']) with
  | error e =>
    rw [ran] at read
    cases read
  | ok last =>
    rw [ran] at read
    obtain ⟨-, rfl⟩ := Scan.finish_eq_ok read
    simpa using begins.run ran

end HasOneColon

end Text

/-- The declarations of a rule are those of an at-rule with the same body, if the next delimiter
after a colon that starts a value is no opening brace. -/
theorem scan_inAtRule_of_startsPlainly {body : Text} {tokens : List Token}
    (read : scan body.inRule = .ok tokens)
    (plain : Scan.inRule.startsPlainly (Text.unifyLineEnds body ++ ['}'])) :
    ∃ rest, tokens = .rule ['s'] 1 :: rest ∧
      scan body.inAtRule = .ok (.atBlock ['@', 'm'] [] 1 :: rest) := by
  rcases (concur_bodies (Scan.concur_of_startsPlainly plain)).ok_or_error with
    ⟨_, _, known, read', rest, rfl, rfl⟩ | ⟨e, e', known, -⟩
  · rw [read] at known
    cases known
    exact ⟨rest, rfl, read'⟩
  · rw [read] at known
    cases known

/-- A declaration that a rule has is in an at-rule as well, if the next delimiter after a colon that
starts a value is no opening brace. Where there is one colon only, it is kept in no other case: a
brace in a string, a comment or an escape of the value makes the colon a part of a selector. -/
theorem scan_declaration_kept {key value k v : Text} {tokens : List Token} {m n : Nat}
    (read : scan (Text.declaration key value).inRule = .ok tokens)
    (only : tokens.filter (!·.isComment) = [.rule ['s'] 1, .property k v m, .close n]) :
    (Scan.inRule.startsPlainly (Text.unifyLineEnds (Text.declaration key value) ++ ['}']) →
      ∃ tokens', scan (Text.declaration key value).inAtRule = .ok tokens' ∧
        tokens'.filter (!·.isComment) = [.atBlock ['@', 'm'] [] 1, .property k v m, .close n]) ∧
    (Text.HasOneColon key value →
      ((∃ tokens', scan (Text.declaration key value).inAtRule = .ok tokens' ∧
        .property k v m ∈ tokens') ↔ Scan.opensBlock (value ++ [';']) = false)) := by
  have kept (plain : Scan.inRule.startsPlainly
      (Text.unifyLineEnds (Text.declaration key value) ++ ['}'])) :
      ∃ tokens', scan (Text.declaration key value).inAtRule = .ok tokens' ∧
        tokens'.filter (!·.isComment) = [.atBlock ['@', 'm'] [] 1, .property k v m, .close n] := by
    obtain ⟨rest, rfl, read'⟩ := scan_inAtRule_of_startsPlainly read plain
    refine ⟨_, read', ?_⟩
    have later : rest.filter (!·.isComment) = [.property k v m, .close n] :=
      (List.cons.inj only).2
    rw [← later]
    rfl
  refine ⟨kept, fun one => ⟨?_, fun ahead => ?_⟩⟩
  · rintro ⟨tokens', read', member⟩
    by_contra ahead
    have lost := one.isProperty_eq_false (by simpa using ahead) read' _ member
    cases lost
  · obtain ⟨tokens', read', same⟩ := kept (one.startsPlainly ahead)
    refine ⟨tokens', read', List.mem_of_mem_filter (p := (!·.isComment)) ?_⟩
    rw [same]
    simp

/-- A semicolon in a string is the next delimiter after the colon, and the brace after it is not. -/
theorem scan_declaration_kept_quoted :
    ∃ tokens, scan (Text.declaration ['k'] ['"', ';', '{', '"', '/', '*', ':', '*', '/']).inAtRule =
        .ok tokens ∧
      tokens.filter (!·.isComment) =
        [.atBlock ['@', 'm'] [] 1, .property ['k'] ['"', ';', '{', '"'] 1, .close 1] := by
  have read :
      scan (Text.declaration ['k'] ['"', ';', '{', '"', '/', '*', ':', '*', '/']).inRule =
        .ok [.rule ['s'] 1, .comment [':'] 1, .property ['k'] ['"', ';', '{', '"'] 1, .close 1] :=
    rfl
  exact (scan_declaration_kept read rfl).1 rfl

/-- A brace in a string is the next delimiter after the colon. -/
theorem scan_declaration_lost :
    scan (Text.declaration ['c', 'o', 'n', 't', 'e', 'n', 't'] ['"', '{', '"']).inRule =
      .ok [.rule ['s'] 1, .property ['c', 'o', 'n', 't', 'e', 'n', 't'] ['"', '{', '"'] 1,
        .close 1] ∧
    scan (Text.declaration ['c', 'o', 'n', 't', 'e', 'n', 't'] ['"', '{', '"']).inAtRule =
      .ok [.atBlock ['@', 'm'] [] 1, .close 1] :=
  ⟨rfl, rfl⟩

end Stylesheet
