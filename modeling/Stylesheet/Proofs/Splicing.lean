import Stylesheet.Proofs.BlockStructure
import Stylesheet.Proofs.ImportChains
import Stylesheet.Proofs.ImportCycles

set_option autoImplicit false

namespace Stylesheet

theorem map_eq_error_iff {ε α β : Type} {result : Except ε α} {f : α → β} {problem : ε} :
    result.map f = .error problem ↔ result = .error problem := by
  cases result <;> simp [Except.map]

/-- A run that succeeds is followed step by step by another one. -/
theorem foldlM_simulates {ε α σ τ : Type} {step : σ → α → Except ε σ} (follow : τ → α → Except ε τ)
    (related : σ → τ → Prop)
    (simulates : ∀ s t a next, related s t → step s a = .ok next →
      ∃ followed, follow t a = .ok followed ∧ related next followed)
    {steps : List α} {s last : σ} {t : τ} (begun : related s t)
    (done : steps.foldlM step s = .ok last) :
    ∃ followed, steps.foldlM follow t = .ok followed ∧ related last followed := by
  induction steps generalizing s t with
  | nil =>
    cases done
    exact ⟨t, rfl, begun⟩
  | cons a steps ih =>
    rw [List.foldlM_cons] at done
    obtain ⟨next, stepped, later⟩ := exists_of_bind_eq_ok done
    obtain ⟨followed, first, still⟩ := simulates s t a next begun stepped
    rw [List.foldlM_cons, first]
    exact ih still later

namespace Token

/-- The open blocks after one more token, innermost first. -/
def enclose (opened : List Token) (token : Token) : List Token :=
  if token.isBlock then token :: opened
  else if token.isClose then opened.tail
  else opened

/-- The tokens whose blocks are open after some tokens, innermost first. -/
def openBlocks (tokens : List Token) : List Token := tokens.foldl enclose []

end Token

namespace Progress

variable {importer : Importer} {setting : Setting} {p q : Progress} {token : Token}

/-- No file is imported inside the definition of a trait. -/
theorem definition_eq_none_of_import {target : Path} (imports : token.importTarget? = some target)
    (done : p.step importer setting token = .ok q) : p.definition = none := by
  cases Advance.of_step done with
  | collect | define => cases imports
  | add outside | openRule outside | openTrait outside | openAtRule outside
  | closeBlock outside => exact outside

end Progress

/-- Blocks with the tokens that opened them, and the place inside the innermost one. -/
inductive Around : List Token → Place → List OpenBlock → Prop where
  | top (depth : Nat) : Around [] ⟨none, depth⟩ []
  | rule {selector : Text} {line : Nat} {opened : List Token} {place : Place} {block : OpenBlock}
      {blocks : List OpenBlock} (outer : Around opened block.outer.place blocks) :
      Around (.rule selector line :: opened) place (block :: blocks)
  | atRule {name params : Text} {line : Nat} {opened : List Token} {place : Place}
      {block : OpenBlock} {blocks : List OpenBlock}
      (outer : Around opened block.outer.place blocks)
      (same : place.selector = block.outer.place.selector) :
      Around (.atBlock name params line :: opened) place (block :: blocks)

namespace Around

variable {opened : List Token} {place : Place} {blocks : List OpenBlock}

theorem tail {block : OpenBlock} (around : Around opened place (block :: blocks)) :
    Around opened.tail block.outer.place blocks := by
  cases around with
  | rule outer => exact outer
  | atRule outer same => exact outer

/-- Inside at-rules alone no selector is in force. -/
theorem selector_eq_none (around : Around opened place blocks)
    (outside : ∀ block ∈ opened, block.isAtBlock = true) : place.selector = none := by
  induction around with
  | top depth => rfl
  | rule outer ih => cases (List.forall_mem_cons.mp outside).1
  | atRule outer same ih =>
    rw [same]
    exact ih (List.forall_mem_cons.mp outside).2

end Around

namespace Progress

variable {importer : Importer} {setting : Setting} {p q : Progress} {token : Token}

/-- The open blocks were opened by some tokens. The last of these may begin the definition of a
trait, which is no block. -/
def Within (opened : List Token) (p : Progress) : Prop :=
  Around (if p.definition.isSome then opened.tail else opened) p.draft.place p.blocks

theorem start_within (scope : Scope) (depth : Nat) : Within [] (start scope depth) := .top depth

theorem Within.around {opened : List Token} (within : p.Within opened)
    (outside : p.definition = none) : Around opened p.draft.place p.blocks := by
  rwa [Within, outside] at within

theorem Within.step {opened : List Token} (within : p.Within opened)
    (done : p.step importer setting token = .ok q) : q.Within (Token.enclose opened token) := by
  cases Advance.of_step done with
  | collect defining => rwa [Within, defining] at within
  | define defining => rwa [Within, defining] at within
  | add outside opensNone closesNone added =>
    have around := within.around outside
    unfold Within Token.enclose withImport write Draft.write
    rwa [outside, opensNone, closesNone]
  | openRule outside =>
    have around := within.around outside
    unfold Within openRule openBlock
    rw [outside]
    exact .rule around
  | openTrait outside named => exact within.around outside
  | openAtRule outside other =>
    have around := within.around outside
    unfold Within openAtRule openBlock
    rw [outside]
    exact .atRule around rfl
  | closeBlock outside blocks =>
    have around := within.around outside
    rw [blocks] at around
    unfold Within
    rw [outside, Draft.writeBlock_place]
    exact around.tail

theorem Within.foldlM {opened tokens : List Token} (within : p.Within opened)
    (done : tokens.foldlM (Progress.step importer setting) p = .ok q) :
    q.Within (tokens.foldl Token.enclose opened) := by
  obtain ⟨enclosing, folded, still⟩ := foldlM_simulates
    (fun opened token => pure (Token.enclose opened token)) (fun p opened => p.Within opened)
    (fun p opened token next within stepped => ⟨_, rfl, within.step stepped⟩) within done
  rw [List.foldlM_pure] at folded
  cases folded
  exact still

end Progress

/-- What is known of an import that succeeds. -/
theorem importing_eq_ok {levels : Nat} {setting : Setting} {target : Path} {line depth : Nat}
    {scope : Scope} {output : Text × Scope}
    (done : importing levels setting target line depth scope = .ok output) :
    ∃ fewer sheet tokens, levels = fewer + 1 ∧
      Sheet.readImport setting.volume setting.chain setting.directory target line = .ok sheet ∧
      scan sheet.source = .ok tokens ∧
      compileRaw (importing fewer)
        { setting with directory := sheet.directory, chain := sheet.path :: setting.chain }
        depth scope tokens = .ok output := by
  unfold importing at done
  split at done
  · cases done
  · rename_i sheet found
    cases levels with
    | zero => cases done
    | succ fewer =>
      dsimp only at done
      split at done
      · cases done
      · rename_i tokens divided
        exact ⟨fewer, sheet, tokens, rfl, found, divided, done⟩

/-- What succeeds with one importer in one setting does so with another in another. -/
structure Refines (importer : Importer) (setting : Setting) (importer' : Importer)
    (setting' : Setting) : Prop where
  volume : setting'.volume = setting.volume
  directory : setting'.directory = setting.directory
  imports : ∀ target line depth scope output,
    importer setting target line depth scope = .ok output →
      importer' setting' target line depth scope = .ok output

namespace Refines

variable {importer importer' : Importer} {setting setting' : Setting}

theorem step (refines : Refines importer setting importer' setting') {p q : Progress}
    {token : Token} (done : p.step importer setting token = .ok q) :
    p.step importer' setting' token = .ok q := by
  cases imports : p.importTarget? token with
  | some target =>
    rw [Progress.step_import imports] at done ⊢
    obtain ⟨output, imported, rfl⟩ := exists_of_map_eq_ok done
    rw [refines.imports _ _ _ _ _ imported]
    rfl
  | none =>
    -- With an importer that looks at nothing the chain does not count.
    let blind : Importer := fun _ target line _ _ => .error (.recursiveImport target line)
    obtain ⟨volume, directory, chain⟩ := setting
    obtain ⟨volume', directory', chain'⟩ := setting'
    obtain rfl : volume' = volume := refines.volume
    obtain rfl : directory' = directory := refines.directory
    rw [Progress.step_other imports _ blind] at done ⊢
    exact done

theorem foldlM (refines : Refines importer setting importer' setting') {tokens : List Token}
    {p q : Progress} (done : tokens.foldlM (Progress.step importer setting) p = .ok q) :
    tokens.foldlM (Progress.step importer' setting') p = .ok q := by
  obtain ⟨_, folded, rfl⟩ := foldlM_simulates (Progress.step importer' setting') Eq
    (fun p _ token next same stepped => ⟨next, refines.step (same ▸ stepped), rfl⟩) rfl done
  exact folded

theorem compileRaw (refines : Refines importer setting importer' setting') {depth : Nat}
    {scope : Scope} {tokens : List Token} {output : Text × Scope}
    (done : compileRaw importer setting depth scope tokens = .ok output) :
    Stylesheet.compileRaw importer' setting' depth scope tokens = .ok output := by
  unfold Stylesheet.compileRaw at done ⊢
  obtain ⟨p, folded, finished⟩ := exists_of_bind_eq_ok done
  rw [refines.foldlM folded]
  exact finished

/-- Imports that succeed do so with more levels, and while fewer files are being compiled. -/
theorem importing {levels more : Nat} (enough : levels ≤ more) (volume : Volume)
    (directory : Path) {chain fewer : List Path} (among : fewer ⊆ chain) :
    Refines (Stylesheet.importing levels) ⟨volume, directory, chain⟩
      (Stylesheet.importing more) ⟨volume, directory, fewer⟩ := by
  refine ⟨rfl, rfl, fun target line depth scope output done => ?_⟩
  induction levels generalizing more directory chain fewer target line depth scope output with
  | zero =>
    obtain ⟨_, _, _, isZero, -⟩ := importing_eq_ok done
    cases isZero
  | succ levels ih =>
    obtain ⟨_, sheet, tokens, ⟨⟩, found, divided, compiled⟩ := importing_eq_ok done
    obtain ⟨canonical, text, fresh⟩ := Sheet.readImport_eq_ok found
    obtain ⟨more, rfl⟩ := Nat.exists_eq_add_of_le' enough
    have deeper : Refines (Stylesheet.importing levels)
        ⟨volume, sheet.directory, sheet.path :: chain⟩ (Stylesheet.importing (more + levels))
        ⟨volume, sheet.directory, sheet.path :: fewer⟩ :=
      ⟨rfl, rfl, ih (Nat.le_add_left _ _) _ (List.cons_subset_cons _ among)⟩
    unfold Stylesheet.importing
    simp only [Sheet.readImport_fresh line canonical (fun back => fresh (among back)) text, divided]
    exact deeper.compileRaw compiled

end Refines

/-- The drafts of a stylesheet, and the same drafts when another stylesheet goes on with them. -/
inductive Stacked (outer : Draft) (around : List OpenBlock) :
    Draft → List OpenBlock → Draft → List OpenBlock → Prop where
  | top {draft : Draft} (place : draft.place = outer.place) :
      Stacked outer around draft [] (outer.write draft.body) around
  | block {draft : Draft} {block : OpenBlock} {blocks : List OpenBlock} {written : Draft}
      {writtenBlocks : List OpenBlock}
      (below : Stacked outer around block.outer blocks written writtenBlocks) :
      Stacked outer around draft (block :: blocks) draft
        ({ block with outer := written } :: writtenBlocks)

namespace Stacked

variable {outer draft written : Draft} {around blocks writtenBlocks : List OpenBlock}

theorem place (stacked : Stacked outer around draft blocks written writtenBlocks) :
    written.place = draft.place := by
  cases stacked with
  | top place => exact place.symm
  | block below => rfl

theorem pop {block : OpenBlock}
    (stacked : Stacked outer around draft (block :: blocks) written writtenBlocks) :
    written = draft ∧ ∃ under rest, writtenBlocks = { block with outer := under } :: rest ∧
      Stacked outer around block.outer blocks under rest := by
  cases stacked with
  | block below => exact ⟨rfl, _, _, rfl, below⟩

theorem write (stacked : Stacked outer around draft blocks written writtenBlocks) (text : Text) :
    Stacked outer around (draft.write text) blocks (written.write text) writtenBlocks := by
  cases stacked with
  | top place =>
    have appended : (outer.write draft.body).write text = outer.write (draft.write text).body := by
      simp only [Draft.write, List.append_assoc]
    rw [appended]
    exact .top place
  | block below => exact .block below

/-- Outside rules a finished block is written where it stands. -/
theorem writeBlock (stacked : Stacked outer around draft blocks written writtenBlocks)
    (outside : outer.place.selector = none) (text : Text) :
    Stacked outer around (draft.writeBlock text) blocks (written.writeBlock text)
      writtenBlocks := by
  cases stacked with
  | top place =>
    have inPlace (d : Draft) (same : d.place = outer.place) : d.writeBlock text = d.write text := by
      simp only [Draft.writeBlock, same, outside, Option.isSome_none, Bool.false_eq_true,
        ↓reduceIte]
    rw [inPlace draft place, inPlace (outer.write draft.body) rfl]
    exact (Stacked.top place).write text
  | block below => exact .block below

end Stacked

namespace Progress

/-- The state of a stylesheet, and the state when another stylesheet goes on with its tokens. The
file is then not among those that are being imported, so nothing is refused that the import was
allowed. -/
structure Inside (outer q r : Progress) : Prop where
  scope : r.scope = q.scope
  definition : r.definition = q.definition
  drafts : Stacked outer.draft outer.blocks q.draft q.blocks r.draft r.blocks

namespace Inside

variable {importer : Importer} {setting : Setting} {outer p q r : Progress} {token : Token}

/-- A stylesheet begins where the other one has come to. -/
theorem start (outside : outer.draft.place.selector = none) (closed : outer.definition = none) :
    Inside outer (.start outer.scope outer.lineDepth) outer where
  scope := rfl
  definition := closed
  drafts := by
    have place : (Draft.start ⟨none, outer.lineDepth⟩).place = outer.draft.place := by
      simp only [Draft.start, Progress.lineDepth, Place.lineDepth, outside, Option.isSome_none,
        Bool.false_eq_true, ↓reduceIte]
      rw [← outside]
    have nothing : outer.draft.write (Draft.start ⟨none, outer.lineDepth⟩).body = outer.draft := by
      simp only [Draft.write, Draft.start, List.append_nil]
    have top : Stacked outer.draft outer.blocks _ [] _ outer.blocks := .top place
    rwa [nothing] at top

theorem lineDepth (inside : Inside outer q r) : r.lineDepth = q.lineDepth := by
  unfold Progress.lineDepth
  rw [inside.drafts.place]

theorem withImport (inside : Inside outer q r) (imported : Text × Scope) :
    Inside outer (q.withImport imported) (r.withImport imported) where
  scope := rfl
  definition := inside.definition
  drafts := inside.drafts.write imported.1

theorem openBlock (inside : Inside outer q r) (heading : Heading) (place : Place) (line : Nat) :
    Inside outer (q.openBlock heading place line) (r.openBlock heading place line) where
  scope := inside.scope
  definition := inside.definition
  drafts := .block inside.drafts

theorem step (inside : Inside outer q r) (nowhere : outer.draft.place.selector = none)
    (done : q.step importer setting token = .ok p) :
    ∃ next, r.step importer setting token = .ok next ∧ Inside outer p next := by
  have sameDefinition := inside.definition
  cases Advance.of_step done with
  | collect defining =>
    exact ⟨_, (Advance.collect (sameDefinition.trans defining)).step, inside.scope, rfl,
      inside.drafts⟩
  | define defining =>
    refine ⟨_, (Advance.define (sameDefinition.trans defining)).step, ?_, rfl, inside.drafts⟩
    rw [inside.scope]
  | add outside opensNone closesNone added =>
    rw [← inside.scope, ← inside.lineDepth] at added
    exact ⟨_, (Advance.add (sameDefinition.trans outside) opensNone closesNone added).step,
      inside.withImport _⟩
  | openRule outside =>
    refine ⟨_, (Advance.openRule (sameDefinition.trans outside)).step, ?_⟩
    unfold openRule
    rw [inside.drafts.place]
    exact inside.openBlock _ _ _
  | openTrait outside named =>
    exact ⟨_, (Advance.openTrait (sameDefinition.trans outside) named).step, inside.scope, rfl,
      inside.drafts⟩
  | openAtRule outside other =>
    refine ⟨_, (Advance.openAtRule (sameDefinition.trans outside) other).step, ?_⟩
    unfold openAtRule
    rw [inside.drafts.place]
    exact inside.openBlock _ _ _
  | closeBlock outside blocks =>
    have drafts := inside.drafts
    rw [blocks] at drafts
    obtain ⟨sameDraft, under, rest, writtenBlocks, below⟩ := drafts.pop
    refine ⟨_, (Advance.closeBlock (sameDefinition.trans outside) writtenBlocks).step,
      inside.scope, inside.definition, ?_⟩
    rw [sameDraft]
    exact below.writeBlock nowhere _

theorem foldlM (inside : Inside outer q r) (nowhere : outer.draft.place.selector = none)
    {tokens : List Token} (done : tokens.foldlM (Progress.step importer setting) q = .ok p) :
    ∃ next, tokens.foldlM (Progress.step importer setting) r = .ok next ∧
      Inside outer p next :=
  foldlM_simulates (Progress.step importer setting) (Inside outer)
    (fun _ _ _ _ inside stepped => inside.step nowhere stepped) inside done

/-- A stylesheet that has come to its end has added its output. -/
theorem finish (inside : Inside outer q r) (closed : outer.definition = none)
    {output : Text × Scope} (done : q.finish = .ok output) : r = outer.withImport output := by
  obtain ⟨scope, definition, drafts⟩ := inside
  obtain ⟨_, draft, blocks, opened⟩ := q
  obtain ⟨_, written, writtenBlocks, openedToo⟩ := r
  dsimp only at scope definition drafts
  subst scope definition
  cases drafts with
  | block below => cases openedToo <;> cases done
  | top place =>
    cases openedToo with
    | some t => cases done
    | none =>
      cases done
      simp only [Progress.withImport, Progress.write, closed]

end Inside

end Progress

section

variable {volume : Volume} {directory target file : Path} {chain : List Path} {levels : Nat}

/-- The tokens of a file in the same directory do what its import does. -/
theorem Progress.foldlM_of_importing {p : Progress} {line : Nat} {output : Text × Scope}
    (outside : p.draft.place.selector = none) (closed : p.definition = none)
    (found : volume.canonical (directory.join target) = .ok file)
    (sibling : file.directory = directory)
    (imported : importing levels ⟨volume, directory, chain⟩ target line p.lineDepth p.scope =
      .ok output) :
    ∃ text inner, volume.readText file = .ok text ∧ scan text = .ok inner ∧
      inner.foldlM (Progress.step (importing levels) ⟨volume, directory, chain⟩) p =
        .ok (p.withImport output) := by
  obtain ⟨fewer, sheet, inner, rfl, read, divided, compiled⟩ := importing_eq_ok imported
  obtain ⟨canonical, text, -⟩ := Sheet.readImport_eq_ok read
  obtain rfl : sheet.path = file := Except.ok.inj (canonical.symm.trans found)
  refine ⟨sheet.source, inner, text, divided, ?_⟩
  dsimp only at compiled
  rw [Sheet.directory, sibling] at compiled
  -- The file need not be in the chain while its tokens are compiled.
  have refines : Refines (importing fewer) ⟨volume, directory, sheet.path :: chain⟩
      (importing (fewer + 1)) ⟨volume, directory, chain⟩ :=
    .importing (Nat.le_succ fewer) volume directory (List.subset_cons_self _ _)
  have alone := refines.compileRaw compiled
  unfold compileRaw at alone
  obtain ⟨q, folded, finished⟩ := exists_of_bind_eq_ok alone
  obtain ⟨r, written, inside⟩ := (Inside.start outside closed).foldlM outside folded
  rw [written, inside.finish closed finished]

/-- An import outside rules, of a file in the same directory, is compiled to the same output as the
tokens of that file in its place. -/
theorem compileRaw_splice {before after : List Token} {token : Token} {depth : Nat} {scope : Scope}
    {output : Text × Scope} (imports : token.importTarget? = some target)
    (outside : ∀ block ∈ Token.openBlocks before, block.isAtBlock = true)
    (found : volume.canonical (directory.join target) = .ok file)
    (sibling : file.directory = directory)
    (compiled : compileRaw (importing levels) ⟨volume, directory, chain⟩ depth scope
      (before ++ token :: after) = .ok output) :
    ∃ text inner, volume.readText file = .ok text ∧ scan text = .ok inner ∧
      compileRaw (importing levels) ⟨volume, directory, chain⟩ depth scope
        (before ++ inner ++ after) = .ok output := by
  unfold compileRaw at compiled ⊢
  rw [List.foldlM_append] at compiled
  obtain ⟨last, folded, finished⟩ := exists_of_bind_eq_ok compiled
  obtain ⟨p, first, onward⟩ := exists_of_bind_eq_ok folded
  rw [List.foldlM_cons] at onward
  obtain ⟨q, stepped, later⟩ := exists_of_bind_eq_ok onward
  have closed := Progress.definition_eq_none_of_import imports stepped
  have nowhere : p.draft.place.selector = none :=
    (((Progress.start_within scope depth).foldlM first).around closed).selector_eq_none outside
  have named : p.importTarget? token = some target := by
    simp only [Progress.importTarget?, closed, imports]
  rw [Progress.step_import named] at stepped
  obtain ⟨imported, done, rfl⟩ := exists_of_map_eq_ok stepped
  obtain ⟨text, inner, read, divided, spliced⟩ :=
    Progress.foldlM_of_importing nowhere closed found sibling done
  refine ⟨text, inner, read, divided, ?_⟩
  rw [List.foldlM_append, List.foldlM_append, first]
  simp only [bind, Except.bind, spliced, later]
  exact finished

end

def Phase.task? : Phase → Option Task
  | working task => some task
  | reading _ _ | failing _ | finished _ => none

namespace Session

variable {volume : Volume} {scope : Scope} {depth : Nat}

theorem work_eq_self {s : Session} {task : Task} (working : s.phase = .working task) :
    s.work task = s := by
  simp only [work, ← working]

/-- A stylesheet at its beginning comes to the result of its tokens. -/
theorem reaches_result (s : Session) (task : Task) (begun : task.progress = .start scope depth)
    {result : Except Problem (Text × Scope)}
    (compiled : compileRaw (importing volume.nodes.length) ⟨volume, task.directory, s.chain⟩ depth
      scope task.rest = result)
    (enough : Suffices volume volume.nodes.length s.chain result) :
    Reaches volume (s.work task) (s.orFail result s.deliver) := by
  have onward := (Follows.all volume volume.nodes.length).compileRaw s task.source task.directory
    depth scope task.rest compiled enough
  rwa [← begun] at onward

theorem working_of_after {s : Session} {n : Nat} {task : Task}
    (found : (s.after volume n).bind (·.phase.task?) = some task) :
    ∃ t, Reaches volume s t ∧ t.phase = .working task := by
  obtain ⟨⟨chain, waiting, phase⟩, stepped, isTask⟩ := Option.bind_eq_some_iff.mp found
  cases phase with
  | working other =>
    cases isTask
    exact ⟨_, reaches_after stepped, rfl⟩
  | reading | failing | finished => cases isTask

/-- Where a compilation succeeds, each stylesheet in its course does. -/
theorem exists_output (sound : volume.Sound) {options : Options} {path : Path} {css : Text}
    {s : Session} {task : Task}
    (compiled : compileFile volume options path = .ok css)
    (reached : Reaches volume (ofFile volume path) s) (working : s.phase = .working task)
    (begun : task.progress = .start scope depth) :
    ∃ output, compileRaw (importing volume.nodes.length) ⟨volume, task.directory, s.chain⟩ depth
      scope task.rest = .ok output := by
  have few := volume.ncard_canonicalFiles_le
  have chained := ((ofFile_wellKept sound path).reaches sound reached).chain
  have ended := reaches_result s task begun rfl fun _ => ⟨sound, chained, by omega⟩
  rw [work_eq_self working] at ended
  cases result : compileRaw (importing volume.nodes.length) ⟨volume, task.directory, s.chain⟩ depth
      scope task.rest with
  | ok output => exact ⟨output, rfl⟩
  | error problem =>
    -- The problem would be the result of the whole compilation.
    rw [result] at ended
    obtain ⟨last, failed⟩ := failing_reaches s.chain s.waiting problem
    obtain ⟨whole, printed, finished⟩ := ofFile_reaches volume options path
    obtain ⟨output, rfl, -⟩ := exists_of_map_eq_ok (printed.symm.trans compiled)
    cases eq_of_reaches (finished (.ok output)) (reached.trans (ended.trans failed)) rfl rfl

end Session

open Session (Reaches ofFile)

/-- In the compilation of a file that succeeds, an import outside rules of a file in the directory
of the stylesheet can be replaced by the tokens of that file. The stylesheet is compiled to the same
output, variables and traits, and the compilation goes on in the same way. -/
theorem compileFile_splice (volume : Volume) (sound : volume.Sound) (options : Options)
    (path : Path) (css : Text) (compiled : compileFile volume options path = .ok css) (s : Session)
    (reached : Reaches volume (ofFile volume path) s) (task : Task)
    (working : s.phase = .working task) (scope : Scope) (depth : Nat)
    (begun : task.progress = .start scope depth) (before after : List Token) (token : Token)
    (left : task.rest = before ++ token :: after) (target file : Path)
    (imports : token.importTarget? = some target)
    (outside : ∀ block ∈ Token.openBlocks before, block.isAtBlock = true)
    (found : volume.canonical (task.directory.join target) = .ok file)
    (sibling : file.directory = task.directory) :
    let setting : Setting := ⟨volume, task.directory, s.chain⟩
    ∃ text inner output, volume.readText file = .ok text ∧ scan text = .ok inner ∧
      compileRaw setting.importer setting depth scope (before ++ token :: after) = .ok output ∧
      compileRaw setting.importer setting depth scope (before ++ inner ++ after) = .ok output ∧
      Reaches volume s (s.deliver output) ∧
      Reaches volume (s.work { task with rest := before ++ inner ++ after })
        (s.deliver output) := by
  obtain ⟨output, done⟩ := Session.exists_output sound compiled reached working begun
  have ends := Session.reaches_result s task begun done (.ok output)
  rw [Session.work_eq_self working] at ends
  rw [left] at done
  obtain ⟨text, inner, read, divided, spliced⟩ :=
    compileRaw_splice imports outside found sibling done
  have splicedEnds := Session.reaches_result s { task with rest := before ++ inner ++ after } begun
    spliced (.ok output)
  exact ⟨text, inner, output, read, divided, done, spliced, ends, splicedEnds⟩

/-- An import inside an at-rule, of a file that is itself imported inside an at-rule. -/
def nestedImport : Volume :=
  let file (name : Char) (text : String) := ([[name]], Node.file (Text.encode text.toList) ⟨0, 0⟩)
  ⟨[file 'a' "@var $c red;\n@media m \x7b @import 'b'; \x7d",
    file 'b' "@supports s \x7b @import 'c'; \x7d",
    file 'c' "@trait t \x7b k: $c \x7d\np \x7b @mixin t; \x7d"], []⟩

/-- The file between the other two when its tokens have been divided. -/
def nestedImportTask : Task :=
  ⟨"@supports s \x7b @import 'c'; \x7d".toList, ⟨['/']⟩,
    .start ⟨⟨[("$c".toList, "red".toList)]⟩, .empty⟩ 1,
    [.atBlock "@supports".toList ['s'] 1, .statement "@import".toList "'c'".toList 1, .close 1]⟩

theorem nestedImport_splice :
    nestedImport.Sound ∧ ∃ s, Reaches nestedImport (ofFile nestedImport ⟨['a']⟩) s ∧
      s.phase = .working nestedImportTask ∧
      ∃ text inner output, nestedImport.readText ⟨['/', 'c']⟩ = .ok text ∧ scan text = .ok inner ∧
        Reaches nestedImport s (s.deliver output) ∧
        Reaches nestedImport
          (s.work { nestedImportTask with
            rest := [.atBlock "@supports".toList ['s'] 1] ++ inner ++ [.close 1] })
          (s.deliver output) := by
  have sound : nestedImport.Sound := ⟨by simp [nestedImport], by
    intro outer before
    rw [List.prefix_nil.mp before]
    rfl⟩
  obtain ⟨s, reached, working⟩ :
      ∃ s, Reaches nestedImport (ofFile nestedImport ⟨['a']⟩) s ∧
        s.phase = .working nestedImportTask :=
    Session.working_of_after (n := 5) (by decide +kernel)
  obtain ⟨text, inner, output, read, divided, -, -, ends, splicedEnds⟩ :=
    compileFile_splice nestedImport sound .default ⟨['a']⟩
      "@media m \x7b\n  @supports s \x7b\n    p \x7b\n      k: red;\n    \x7d\n  \x7d\n\x7d".toList
      (by decide +kernel) s reached nestedImportTask working _ 1 rfl
      [.atBlock "@supports".toList ['s'] 1] [.close 1] (.statement "@import".toList "'c'".toList 1)
      rfl ⟨['c']⟩ ⟨['/', 'c']⟩ (by decide +kernel) (List.forall_mem_singleton.mpr rfl)
      (by decide +kernel) (by decide +kernel)
  exact ⟨sound, s, reached, working, text, inner, output, read, divided, ends, splicedEnds⟩

end Stylesheet
