import Stylesheet.Proofs.Advances
import Stylesheet.Proofs.Braces

set_option autoImplicit false

namespace Stylesheet

/-- With the closing brace after some others, more blocks are closed than were opened. -/
structure Text.StrayAfter (t : Text) (before : List Brace) (line : Nat) : Prop where
  stands : before ++ [.closing line] <+: t.braces
  outweighs : (before ++ [Brace.closing line]).countP Brace.isOpening <
    (before ++ [Brace.closing line]).countP Brace.isClosing

/-- The problem with a token other than a brace is about no brace and no open block. -/
theorem Survey.Offends.of_not_isClose {s : Survey} {token : Token} {problem : Problem}
    (offends : s.Offends token problem) (other : token.isClose = false) (line : Nat) :
    problem ≠ .unclosedBlock line ∧ problem ≠ .unexpectedToken (.close line) := by
  cases offends with
  | stray => cases other
  | misplaced =>
    refine ⟨by simp, ?_⟩
    rintro ⟨⟩
    cases other
  | _ => simp

namespace Progress

variable {p q : Progress} {token : Token} {importer : Importer} {setting : Setting}

/-- The number of blocks and definitions that are open. -/
def depth (p : Progress) : Nat := p.blocks.length + p.definition.toList.length

theorem not_isLocalImport (outside : p.definition = none) (other : p.importTarget? token = none) :
    ¬ token.IsLocalImport := by
  simp only [importTarget?, outside] at other
  cases token with
  | statement name params line =>
    rintro ⟨isLoad, path, source⟩
    simp [Token.importTarget?, isLoad, source] at other
  | rule | atBlock | property | comment | close => exact id

@[simp] theorem depth_write (p : Progress) (text : Text) : (p.write text).depth = p.depth := rfl

/-- An import opens and closes no block. -/
theorem nest_of_importTarget {target : Path} (imports : p.importTarget? token = some target) :
    (∀ depth, Token.nest depth token = depth) ∧ token.isClose = false := by
  cases token with
  | statement => exact ⟨fun _ => rfl, rfl⟩
  | rule | atBlock | property | comment | close =>
    unfold importTarget? at imports
    split at imports <;> cases imports

/-- Blocks are opened and closed as the tokens say, and none is closed that is not open. -/
theorem depth_step (done : p.step importer setting token = .ok q) :
    q.depth = Token.nest p.depth token ∧ (token.isClose = true → p.depth ≠ 0) := by
  cases Advance.of_step done with
  | collect defining => simp [depth, defining, Token.nest, Token.isClose]
  | define defining => simp [depth, defining, Token.nest]
  | add outside opensNone closesNone added =>
    refine ⟨?_, by simp [closesNone]⟩
    cases token with
    | rule | atBlock => cases opensNone
    | close => cases closesNone
    | statement | property | comment => rfl
  | openRule outside => simp [depth, openRule, openBlock, outside, Token.nest, Token.isClose]
  | openTrait outside named => simp [depth, outside, Token.nest, Token.isClose]
  | openAtRule outside other =>
    simp [depth, openAtRule, openBlock, outside, Token.nest, Token.isClose]
  | closeBlock outside blocks => simp [depth, blocks, outside, Token.nest]

/-- A token that cannot be compiled is not said to leave a block open; and if it is a brace, no
block is open. -/
theorem step_eq_error (other : p.importTarget? token = none) {problem : Problem}
    (failed : p.step importer setting token = .error problem) (line : Nat) :
    problem ≠ .unclosedBlock line ∧
      (problem = .unexpectedToken (.close line) → token = .close line ∧ p.depth = 0) := by
  -- The offences of a token other than a brace do not depend on the blocks around it.
  let around : Survey := ⟨[], p.scope, []⟩
  have notBrace (offends : around.Offends token problem) (isOther : token.isClose = false) :
      problem ≠ .unclosedBlock line ∧
        (problem = .unexpectedToken (.close line) → token = .close line ∧ p.depth = 0) :=
    ⟨(offends.of_not_isClose isOther line).1,
      fun same => absurd same (offends.of_not_isClose isOther line).2⟩
  unfold step at failed
  cases definition : p.definition with
  | some t =>
    rw [definition] at failed
    obtain ⟨misplaced, rfl⟩ := (stepTrait_eq_error_iff setting t token).mp failed
    refine ⟨by simp, ?_⟩
    rintro ⟨⟩
    cases misplaced
  | none =>
    have remote := not_isLocalImport definition other
    rw [definition] at failed
    cases token with
    | rule | comment => cases failed
    | atBlock name params line' =>
      dsimp only at failed
      split at failed
      · rename_i keyword
        subst keyword
        exact notBrace ((openTrait_eq_error_iff rfl params line').mp failed) rfl
      · cases failed
    | statement name params line' =>
      exact notBrace ((statement_eq_error_iff rfl rfl importer setting remote).mp failed) rfl
    | property key value line' =>
      exact notBrace ((writeProperty_eq_error_iff rfl rfl setting key value line').mp failed) rfl
    | close line' =>
      dsimp only [closeBlock] at failed
      cases blocks : p.blocks with
      | cons block rest => rw [blocks] at failed; cases failed
      | nil =>
        rw [blocks] at failed
        cases failed
        refine ⟨by simp, ?_⟩
        rintro ⟨⟩
        exact ⟨rfl, by simp [depth, blocks, definition]⟩

theorem finish_of_depth (closed : p.depth = 0) : p.finish = .ok (p.draft.body, p.scope) := by
  obtain ⟨scope, draft, blocks, definition⟩ := p
  cases definition with
  | some t => simp [depth] at closed
  | none =>
    cases blocks with
    | nil => rfl
    | cons block rest => simp [depth] at closed

end Progress

/-- Some tokens open and close blocks in pairs, but for some that stay open. -/
structure Token.Matched (tokens : List Token) (depth : Nat) : Prop where
  nesting : Token.nesting tokens = depth
  count : (tokens.filterMap Token.brace?).countP Brace.isClosing + depth =
    (tokens.filterMap Token.brace?).countP Brace.isOpening

namespace Token.Matched

variable {tokens : List Token} {depth : Nat} {token : Token}

theorem nil : Matched [] 0 := ⟨rfl, rfl⟩

theorem append (matched : Matched tokens depth) (opened : token.isClose = true → depth ≠ 0) :
    Matched (tokens ++ [token]) (Token.nest depth token) := by
  obtain ⟨nesting, count⟩ := matched
  refine ⟨by simp [Token.nesting, ← nesting], ?_⟩
  rw [List.filterMap_append, List.countP_append, List.countP_append]
  generalize (tokens.filterMap Token.brace?).countP Brace.isClosing = closings at count ⊢
  generalize (tokens.filterMap Token.brace?).countP Brace.isOpening = openings at count ⊢
  cases token with
  | rule | atBlock =>
    change closings + 0 + (depth + 1) = openings + 1
    omega
  | close =>
    have inside := opened rfl
    change closings + 1 + (depth - 1) = openings + 0
    omega
  | statement | property | comment => exact count

/-- Where no block is open, one more brace is stray. -/
theorem strayAfter (matched : Matched tokens 0) {source : Text} {line : Nat} {rest : List Token}
    (divided : scan source = .ok (tokens ++ .close line :: rest)) :
    source.StrayAfter (tokens.filterMap Token.brace?) line := by
  refine ⟨⟨rest.filterMap Token.brace?, ?_⟩, ?_⟩
  · rw [← (brace_of_scan divided).1, List.filterMap_append, List.append_assoc]
    rfl
  · have count := matched.count
    rw [List.countP_append, List.countP_append]
    change _ + 0 < _ + 1
    omega

end Token.Matched

theorem Sheet.read_eq_error {volume : Volume} {path : Path} {problem : Problem}
    (failed : read volume path = .error problem) : ∃ fault, problem = .unreadable path fault := by
  unfold read at failed
  split at failed
  · cases failed
    exact ⟨_, rfl⟩
  · split at failed
    · cases failed
      exact ⟨_, rfl⟩
    · cases failed

theorem Sheet.readImport_eq_error {volume : Volume} {chain : List Path} {directory target : Path}
    {line : Nat} {problem : Problem}
    (failed : readImport volume chain directory target line = .error problem) :
    (∃ path fault, problem = .unreadableImport path line fault) ∨
      ∃ path, problem = .recursiveImport path line := by
  unfold readImport at failed
  dsimp only at failed
  split at failed
  · cases failed
    exact .inl ⟨_, _, rfl⟩
  · split at failed
    · cases failed
      exact .inr ⟨_, rfl⟩
    · split at failed
      · cases failed
        exact .inl ⟨_, _, rfl⟩
      · cases failed

/-- The text that is being divided into tokens. -/
def Phase.text? : Phase → Option Text
  | .reading _ task => some task.source
  | .working _ | .failing _ | .finished _ => none

/-- The texts that are read in a compilation: the one that it begins with, and those of the files
that are imported, however deep. -/
def Session.Reads (volume : Volume) (start : Session) (text : Text) : Prop :=
  ∃ s, Reaches volume start s ∧ s.phase.text? = some text

/-- The text that is being compiled is at a brace after some of its tokens, and the next step is to
refuse the brace. -/
structure Session.Refuses (volume : Volume) (s : Session) (task : Task) (before : List Token)
    (line : Nat) : Prop where
  compiles : s.phase = .working task
  divided : scan task.source = .ok (before ++ task.rest)
  atBrace : task.rest.head? = some (.close line)
  refuses : s.step volume = some (s.fail (.unexpectedToken (.close line)))

/-- A brace is refused in a compilation, and it closes more blocks than were opened in the text that
is being compiled then. -/
def Session.Strays (volume : Volume) (start : Session) (line : Nat) : Prop :=
  ∃ s task before, Reaches volume start s ∧ s.Refuses volume task before line ∧
    start.Reads volume task.source ∧
    task.source.StrayAfter (before.filterMap Token.brace?) line

/-- A problem is no open block, and it is a stray brace only if one is refused. -/
structure Problem.Explained (volume : Volume) (start : Session) (problem : Problem) : Prop where
  closed : ∀ line, problem ≠ .unclosedBlock line
  stray : ∀ line, problem = .unexpectedToken (.close line) → start.Strays volume line

/-- The text was read, and the tokens that are compiled already opened the blocks that are open. -/
structure Task.Nested (volume : Volume) (start : Session) (task : Task) : Prop where
  read : start.Reads volume task.source
  matched : ∃ done, scan task.source = .ok (done ++ task.rest) ∧
    Token.Matched done task.progress.depth

def Phase.Nested (volume : Volume) (start : Session) : Phase → Prop
  | .reading _ task => task.progress.depth = 0
  | .working task => task.Nested volume start
  | .failing problem => problem.Explained volume start
  | .finished result => ∀ problem, result = .error problem → problem.Explained volume start

/-- What holds of blocks in every step of a compilation. -/
structure Session.Nested (volume : Volume) (start s : Session) : Prop where
  waiting : ∀ task ∈ s.waiting, task.Nested volume start
  phase : s.phase.Nested volume start

variable {volume : Volume} {start : Session}

namespace Task.Nested

variable {task : Task}

theorem advance (nested : task.Nested volume start) {token : Token} {rest : List Token}
    {p : Progress} (left : task.rest = token :: rest)
    (depth : p.depth = Token.nest task.progress.depth token)
    (opened : token.isClose = true → task.progress.depth ≠ 0) :
    Task.Nested volume start { task with progress := p, rest } := by
  obtain ⟨done, divided, matched⟩ := nested.matched
  refine ⟨nested.read, done ++ [token], ?_, ?_⟩
  · rw [left] at divided
    rw [divided, List.append_assoc]
    rfl
  · rw [depth]
    exact matched.append opened

/-- At the end of a text no block is open. -/
theorem finish (nested : task.Nested volume start) (left : task.rest = []) :
    ∃ output, task.progress.finish = .ok output := by
  obtain ⟨done, divided, matched⟩ := nested.matched
  rw [left, List.append_nil] at divided
  obtain ⟨braces, closed⟩ := brace_of_scan divided
  have depth : task.progress.depth = 0 := by
    rw [← matched.nesting, Token.nesting_eq_foldl, braces]
    exact closed
  exact ⟨_, Progress.finish_of_depth depth⟩

end Task.Nested

namespace Problem.Explained

variable {problem : Problem}

theorem of_ne (closed : ∀ line, problem ≠ .unclosedBlock line)
    (other : ∀ line, problem ≠ .unexpectedToken (.close line)) : problem.Explained volume start :=
  ⟨closed, fun line same => absurd same (other line)⟩

theorem of_step {chain : List Path} {waiting : List Task} {task : Task} {token : Token}
    {rest : List Token} {importer : Importer} {setting : Setting}
    (reached : Session.Reaches volume start ⟨chain, waiting, .working task⟩)
    (stepped : Session.step volume ⟨chain, waiting, .working task⟩ =
      some ⟨chain, waiting, .failing problem⟩)
    (nested : task.Nested volume start) (left : task.rest = token :: rest)
    (other : task.progress.importTarget? token = none)
    (failed : task.progress.step importer setting token = .error problem) :
    problem.Explained volume start := by
  have reason := Progress.step_eq_error other failed
  refine ⟨fun line => (reason line).1, fun line isStray => ?_⟩
  obtain ⟨rfl, closed⟩ := (reason line).2 isStray
  obtain ⟨done, divided, matched⟩ := nested.matched
  rw [closed] at matched
  subst isStray
  refine ⟨_, task, done, reached, ⟨rfl, divided, by simp [left], stepped⟩, nested.read, ?_⟩
  rw [left] at divided
  exact matched.strayAfter divided

theorem of_readImport {chain : List Path} {directory target : Path} {line : Nat}
    (failed : Sheet.readImport volume chain directory target line = .error problem) :
    problem.Explained volume start := by
  obtain ⟨path, fault, rfl⟩ | ⟨path, rfl⟩ := Sheet.readImport_eq_error failed
  · exact .of_ne (by simp) (by simp)
  · exact .of_ne (by simp) (by simp)

end Problem.Explained

namespace Session

variable {s t : Session}

theorem Nested.step (nested : Nested volume start s) (reached : Reaches volume start s)
    (stepped : s.step volume = some t) : Nested volume start t := by
  obtain ⟨waiting, phase⟩ := nested
  cases move_of_step stepped with
  | unreadable read =>
    exact ⟨fun task member => waiting task (List.mem_of_mem_tail member),
      .of_ne (by simp) (by simp)⟩
  | divided read =>
    refine ⟨waiting, ⟨_, reached, rfl⟩, [], read, ?_⟩
    rw [show _ = 0 from phase]
    exact .nil
  | stepped left other done =>
    obtain ⟨depth, opened⟩ := Progress.depth_step done
    exact ⟨waiting, phase.advance left depth opened⟩
  | refused left other failed => exact ⟨waiting, .of_step reached stepped phase left other failed⟩
  | missed left imports found => exact ⟨waiting, .of_readImport found⟩
  | entered left imports found =>
    obtain ⟨flat, noBrace⟩ := Progress.nest_of_importTarget imports
    have outer := phase.advance left (flat _).symm (by simp [noBrace])
    exact ⟨List.forall_mem_cons.mpr ⟨outer, waiting⟩, rfl⟩
  | unfinished left done =>
    obtain ⟨output, finished⟩ := phase.finish left
    rw [finished] at done
    cases done
  | ended left done =>
    refine ⟨waiting, ?_⟩
    rintro problem ⟨⟩
  | returned left done =>
    rw [List.forall_mem_cons] at waiting
    exact ⟨waiting.2, waiting.1.read, waiting.1.matched⟩
  | stopped =>
    refine ⟨waiting, ?_⟩
    rintro problem ⟨⟩
    exact phase
  | passed => exact ⟨(List.forall_mem_cons.mp waiting).2, phase⟩

theorem Nested.reaches (nested : Nested volume start start) (reached : Reaches volume start s) :
    Nested volume start s := by
  induction reached with
  | refl => exact nested
  | tail earlier stepped ih => exact ih.step earlier stepped

theorem outermost_nested (chain : List Path) (source : Text) (directory : Path) :
    Nested volume start (outermost chain source directory) :=
  ⟨by simp [outermost], rfl⟩

theorem ofFile_nested (path : Path) : Nested volume start (ofFile volume path) := by
  unfold ofFile
  cases found : Sheet.read volume path with
  | ok sheet => exact outermost_nested _ _ _
  | error problem =>
    obtain ⟨fault, rfl⟩ := Sheet.read_eq_error found
    refine ⟨by simp, ?_⟩
    rintro problem ⟨⟩
    exact .of_ne (by simp) (by simp)

/-- A text that cannot be divided into tokens is the problem of the whole compilation. -/
theorem Reads.finished {text : Text} {error : ScanError} (reads : start.Reads volume text)
    (failed : scan text = .error error) :
    ∃ last, Reaches volume start ⟨last, [], .finished (.error (.scan error))⟩ := by
  obtain ⟨⟨chain, waiting, phase⟩, reached, isText⟩ := reads
  cases phase with
  | working | failing | finished => cases isText
  | reading joining task =>
    cases isText
    obtain ⟨last, onward⟩ := failing_reaches chain waiting.tail (.scan error)
    refine ⟨last, reached.trans (.head ?_ onward)⟩
    simp only [step, read, failed]

def after (volume : Volume) : Nat → Session → Option Session
  | 0, s => some s
  | n + 1, s => (s.step volume).bind (after volume n)

theorem reaches_after {n : Nat} (stepped : s.after volume n = some t) : Reaches volume s t := by
  induction n generalizing s with
  | zero =>
    cases stepped
    exact .refl
  | succ n ih =>
    obtain ⟨next, first, later⟩ := Option.bind_eq_some_iff.mp stepped
    exact .head first (ih later)

theorem reads_of_after {n : Nat} {text : Text}
    (read : (s.after volume n).bind (·.phase.text?) = some text) : s.Reads volume text := by
  obtain ⟨t, stepped, isText⟩ := Option.bind_eq_some_iff.mp read
  exact ⟨t, reaches_after stepped, isText⟩

end Session

/-- The result of a compilation agrees with the blocks in the texts that are read. -/
structure BlocksAgree (volume : Volume) (start : Session) (result : Except Problem Text) :
    Prop where
  /-- Compiling finds no open block at the end of a text. -/
  closed : ∀ line, result ≠ .error (.unclosedBlock line)
  /-- A brace is refused only where the text that is being compiled has closed more blocks than it
  has opened. -/
  stray : ∀ line, result = .error (.unexpectedToken (.close line)) → start.Strays volume line
  /-- A text that leaves a block open is refused when it is divided into tokens. -/
  unclosed : volume.Sound → ∀ text, start.Reads volume text → text.unclosed ≠ 0 →
    ∃ error, scan text = .error error ∧ result = .error (.scan error) ∧
      (text.Legal → ∃ construct line, error = .unterminated construct line)

theorem Session.Nested.blocksAgree {chain : List Path} {result : Except Problem (Text × Scope)}
    (nested : start.Nested volume start)
    (ends : Suffices volume volume.nodes.length chain result →
      Reaches volume start ⟨chain, [], .finished result⟩)
    (chained : volume.Sound → volume.ImportChain chain) (print : Text × Scope → Text) :
    BlocksAgree volume start (result.map print) := by
  have explained (problem : Problem) (failed : result = .error problem)
      (other : ∀ path line, problem ≠ .recursiveImport path line) :
      problem.Explained volume start := by
    have enough : Suffices volume volume.nodes.length chain result := by
      rintro ⟨path, line, recursive⟩
      exact absurd (Except.error.inj (failed.symm.trans recursive)) (other path line)
    exact (nested.reaches (ends enough)).phase problem failed
  have failed (problem : Problem) (printed : result.map print = .error problem) :
      result = .error problem := by
    cases result with
    | error other => cases printed; rfl
    | ok output => cases printed
  refine ⟨?_, ?_, ?_⟩
  · intro line same
    exact (explained _ (failed _ same) (by simp)).closed line rfl
  · intro line same
    exact (explained _ (failed _ same) (by simp)).stray line rfl
  · intro sound text reads isOpen
    cases divided : scan text with
    | ok tokens => exact absurd (brace_of_scan divided).2 isOpen
    | error error =>
      have few := volume.ncard_canonicalFiles_le
      have ended := ends fun _ => ⟨sound, chained sound, by omega⟩
      obtain ⟨last, reached⟩ := reads.finished divided
      cases eq_of_reaches ended reached rfl rfl
      exact ⟨error, rfl, rfl, scan_eq_unterminated divided⟩

/-- Reading and compiling agree on blocks. -/
theorem compile_blocksAgree (volume : Volume) (options : Options) :
    (∀ source, BlocksAgree volume (.ofText options source) (compile volume options source)) ∧
    ∀ path, BlocksAgree volume (.ofFile volume path) (compileFile volume options path) := by
  constructor
  · intro source
    obtain ⟨result, compiled, ends⟩ := Session.ofText_reaches volume options source
    rw [compiled]
    exact (Session.outermost_nested _ _ _).blocksAgree ends (fun _ => .nil) _
  · intro path
    obtain ⟨result, compiled, ends⟩ := Session.ofFile_reaches volume options path
    rw [compiled]
    exact (Session.ofFile_nested path).blocksAgree ends (Session.ofFile_chained · path) _

/-- A control character is refused before the block that stays open is. -/
theorem compile_control_unclosed :
    Text.unclosed ['a', ' ', '{', '\x01'] = 1 ∧
      compile ⟨[], []⟩ .default ['a', ' ', '{', '\x01'] =
        .error (.scan (.controlCharacter '\x01' ⟨1, 4⟩)) := by
  decide +kernel

/-- A stylesheet that leaves a block open, in an import of an import. -/
def dangling : Volume :=
  let file (name : Char) (text : String) := ([[name]], Node.file (Text.encode text.toList) ⟨0, 0⟩)
  ⟨[file 'a' "@import 'b';", file 'b' "@import 'c';", file 'c' "p \x7b\x7d\nq \x7b"], []⟩

theorem dangling_blocksAgree :
    dangling.Sound ∧ Text.unclosed "p \x7b\x7d\nq \x7b".toList = 1 ∧
      (Session.ofFile dangling ⟨['a']⟩).Reads dangling "p \x7b\x7d\nq \x7b".toList ∧
      compileFile dangling .default ⟨['a']⟩ = .error (.scan (.unterminated .rule 2)) ∧
      (∃ error, scan "p \x7b\x7d\nq \x7b".toList = .error error ∧
        compileFile dangling .default ⟨['a']⟩ = .error (.scan error)) ∧
      compile dangling .default "p \x7b\x7d\n\x7d".toList = .error (.unexpectedToken (.close 2)) ∧
      (Session.ofText .default "p \x7b\x7d\n\x7d".toList).Strays dangling 2 := by
  have sound : dangling.Sound := ⟨by simp [dangling], by
    intro outer before
    rw [List.prefix_nil.mp before]
    rfl⟩
  have unclosed : Text.unclosed "p \x7b\x7d\nq \x7b".toList = 1 := by decide +kernel
  have reads : (Session.ofFile dangling ⟨['a']⟩).Reads dangling "p \x7b\x7d\nq \x7b".toList :=
    Session.reads_of_after (n := 4) (by decide +kernel)
  obtain ⟨error, divided, compiled, -⟩ :=
    ((compile_blocksAgree dangling .default).2 ⟨['a']⟩).unclosed sound _ reads
      (by rw [unclosed]; decide)
  have refused : compile dangling .default "p \x7b\x7d\n\x7d".toList =
      .error (.unexpectedToken (.close 2)) := by
    decide +kernel
  exact ⟨sound, unclosed, reads, by decide +kernel, ⟨error, divided, compiled⟩, refused,
    ((compile_blocksAgree dangling .default).1 _).stray 2 refused⟩

end Stylesheet
