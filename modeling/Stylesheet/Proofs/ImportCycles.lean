import Stylesheet.Proofs.Sessions

set_option autoImplicit false

namespace Stylesheet

open Relation (ReflTransGen TransGen)

namespace Volume

/-- The file that an import in a directory leads to, and the line of the import. -/
def importOf? (volume : Volume) (directory : Path) (token : Token) : Option (Path × Nat) :=
  match token.importTarget? with
  | none => none
  | some target =>
    match volume.canonical (directory.join target) with
    | .error _ => none
    | .ok file => some (file, token.line)

/-- The imports of the stylesheet at a path, in their order. -/
def importsOf (volume : Volume) (page : Path) : List (Path × Nat) :=
  match volume.readText page with
  | .error _ => []
  | .ok source =>
    match scan source with
    | .error _ => []
    | .ok tokens => tokens.filterMap (volume.importOf? page.directory)

def Imports (volume : Volume) (page file : Path) : Prop :=
  ∃ line, (file, line) ∈ volume.importsOf page

def IsGoodImport (volume : Volume) (directory : Path) (token : Token) : Prop :=
  ∃ target file text, token.importTarget? = some target ∧
    volume.canonical (directory.join target) = .ok file ∧ volume.readText file = .ok text

/-- A stylesheet that consists of nothing but imports of files that can be read. -/
def OnlyImports (volume : Volume) (page : Path) : Prop :=
  ∃ source tokens, volume.readText page = .ok source ∧ scan source = .ok tokens ∧
    ∀ token ∈ tokens, volume.IsGoodImport page.directory token

theorem isGoodImport_iff {volume : Volume} {directory : Path} {token : Token} :
    volume.IsGoodImport directory token ↔
      ∃ entry ∈ volume.importOf? directory token, ∃ text, volume.readText entry.1 = .ok text := by
  constructor
  · rintro ⟨target, file, text, imports, found, read⟩
    exact ⟨(file, token.line), by simp only [importOf?, imports, found, Option.mem_some],
      text, read⟩
  · rintro ⟨entry, isImport, text, read⟩
    unfold importOf? at isImport
    split at isImport
    · cases isImport
    · split at isImport
      · cases isImport
      · cases isImport
        exact ⟨_, _, text, ‹_›, ‹_›, read⟩

instance (volume : Volume) (path : Path) : Decidable (∃ text, volume.readText path = .ok text) :=
  decidable_of_iff (volume.readText path).isOk (by cases volume.readText path <;>
    simp [Except.isOk, Except.toBool])

instance (volume : Volume) (directory : Path) (token : Token) :
    Decidable (volume.IsGoodImport directory token) :=
  decidable_of_iff' _ isGoodImport_iff

theorem onlyImports_iff {volume : Volume} {page : Path} :
    volume.OnlyImports page ↔
      ∃ source ∈ (volume.readText page).toOption, ∃ tokens ∈ (scan source).toOption,
        ∀ token ∈ tokens, volume.IsGoodImport page.directory token := by
  have ok_iff {ε α : Type} (result : Except ε α) (value : α) :
      value ∈ result.toOption ↔ result = .ok value := by
    cases result <;> simp [Except.toOption, eq_comm]
  simp only [OnlyImports, ok_iff, exists_and_left]

instance (volume : Volume) (page : Path) : Decidable (volume.OnlyImports page) :=
  decidable_of_iff' _ onlyImports_iff

/-- A walk along imports that visits no file twice, until it comes back to a file that it has
visited. The choices say which import is taken at each file. -/
inductive ComesBack (volume : Volume) :
    List Path → List (Path × Nat) → List Nat → Path → Nat → Prop where
  | here {visited : List Path} {imports : List (Path × Nat)} {choice : Nat} {file : Path}
      {line : Nat} (taken : imports[choice]? = some (file, line)) (back : file ∈ visited) :
      ComesBack volume visited imports [choice] file line
  | there {visited : List Path} {imports : List (Path × Nat)} {choice : Nat} {next : Path}
      {through : Nat} {choices : List Nat} {file : Path} {line : Nat}
      (taken : imports[choice]? = some (next, through)) (fresh : next ∉ visited)
      (walk : ComesBack volume (next :: visited) (volume.importsOf next) choices file line) :
      ComesBack volume visited imports (choice :: choices) file line

/-- The first of the walks that come back: the others take a later import where they part. -/
def FirstBack (volume : Volume) (visited : List Path) (imports : List (Path × Nat))
    (choices : List Nat) (file : Path) (line : Nat) : Prop :=
  ComesBack volume visited imports choices file line ∧
    ∀ others file' line', ComesBack volume visited imports others file' line' →
      choices = others ∨ List.Lex (· < ·) choices others

variable {volume : Volume} {visited : List Path} {imports : List (Path × Nat)}

/-- A walk takes the first import or a later one. -/
theorem ComesBack.cons_cases {first : Path × Nat} {choices : List Nat} {file : Path} {line : Nat}
    (walk : ComesBack volume visited (first :: imports) choices file line) :
    (choices = [0] ∧ (file, line) = first ∧ first.1 ∈ visited) ∨
    (∃ more, choices = 0 :: more ∧ first.1 ∉ visited ∧
      ComesBack volume (first.1 :: visited) (volume.importsOf first.1) more file line) ∨
    ∃ choice more, choices = (choice + 1) :: more ∧
      ComesBack volume visited imports (choice :: more) file line := by
  cases walk with
  | @here _ _ choice _ _ taken back =>
    cases choice with
    | zero =>
      obtain rfl := Option.some.inj taken
      exact .inl ⟨rfl, rfl, back⟩
    | succ choice => exact .inr (.inr ⟨choice, [], rfl, .here taken back⟩)
  | @there _ _ choice _ _ more _ _ taken fresh walk =>
    cases choice with
    | zero =>
      obtain rfl := Option.some.inj taken
      exact .inr (.inl ⟨more, rfl, fresh, walk⟩)
    | succ choice => exact .inr (.inr ⟨choice, more, rfl, .there taken fresh walk⟩)

theorem ComesBack.later {first : Path × Nat} {choice : Nat} {more : List Nat} {file : Path}
    {line : Nat} (walk : ComesBack volume visited imports (choice :: more) file line) :
    ComesBack volume visited (first :: imports) ((choice + 1) :: more) file line := by
  cases walk with
  | here taken back => exact .here taken back
  | there taken fresh walk => exact .there taken fresh walk

theorem not_comesBack_nil {choices : List Nat} {file : Path} {line : Nat} :
    ¬ ComesBack volume visited [] choices file line := by
  intro walk
  cases walk with
  | here taken back => cases taken
  | there taken fresh walk => cases taken

namespace FirstBack

variable {choices : List Nat} {file : Path} {line : Nat}

theorem here (back : file ∈ visited) :
    FirstBack volume visited ((file, line) :: imports) [0] file line := by
  refine ⟨.here rfl back, ?_⟩
  intro others file' line' walk
  obtain ⟨rfl, -⟩ | ⟨more, -, fresh, -⟩ | ⟨choice, more, rfl, -⟩ := walk.cons_cases
  · exact .inl rfl
  · exact absurd back fresh
  · exact .inr (.rel (Nat.zero_lt_succ choice))

theorem there {next : Path} {through : Nat} (fresh : next ∉ visited)
    (first : FirstBack volume (next :: visited) (volume.importsOf next) choices file line) :
    FirstBack volume visited ((next, through) :: imports) (0 :: choices) file line := by
  refine ⟨.there rfl fresh first.1, ?_⟩
  intro others file' line' walk
  obtain ⟨-, -, back⟩ | ⟨more, rfl, -, inner⟩ | ⟨choice, more, rfl, -⟩ := walk.cons_cases
  · exact absurd back fresh
  · rcases first.2 more file' line' inner with same | less
    · exact .inl (by rw [same])
    · exact .inr (.cons less)
  · exact .inr (.rel (Nat.zero_lt_succ choice))

theorem later {next : Path} {through : Nat} {choice : Nat} (fresh : next ∉ visited)
    (none : ∀ others file' line',
      ¬ ComesBack volume (next :: visited) (volume.importsOf next) others file' line')
    (first : FirstBack volume visited imports (choice :: choices) file line) :
    FirstBack volume visited ((next, through) :: imports) ((choice + 1) :: choices) file line := by
  refine ⟨first.1.later, ?_⟩
  intro others file' line' walk
  obtain ⟨-, -, back⟩ | ⟨more, -, -, inner⟩ | ⟨other, more, rfl, rest⟩ := walk.cons_cases
  · exact absurd back fresh
  · exact absurd inner (none more file' line')
  · rcases first.2 _ file' line' rest with same | less
    · cases same
      exact .inl rfl
    · cases less with
      | rel less => exact .inr (.rel (Nat.succ_lt_succ less))
      | cons less => exact .inr (.cons less)

end FirstBack

/-- What compiling imports comes to: its value, if no walk comes back, and otherwise the file that
the first such walk comes back to. -/
def Verdict {α : Type} (volume : Volume) (visited : List Path) (imports : List (Path × Nat))
    (value : α) (result : Except Problem α) : Prop :=
  (result = .ok value ∧
    ∀ choices file line, ¬ ComesBack volume visited imports choices file line) ∨
  ∃ choices file line, result = .error (.recursiveImport file line) ∧
    FirstBack volume visited imports choices file line

/-- The first import has its verdict; if that is good, the verdict on the others counts. -/
theorem Verdict.cons {α β : Type} {next : Path} {value : α} {last : β}
    {first : Except Problem α} (through : Nat) (go : α → Except Problem β) (fresh : next ∉ visited)
    (inner : Verdict volume (next :: visited) (volume.importsOf next) value first)
    (rest : Verdict volume visited imports last (go value)) :
    Verdict volume visited ((next, through) :: imports) last (first.bind go) := by
  obtain ⟨rfl, none⟩ | ⟨choices, file, line, rfl, firstBack⟩ := inner
  · obtain ⟨done, noneLater⟩ | ⟨choices, file, line, failed, firstBack⟩ := rest
    · refine .inl ⟨done, ?_⟩
      intro choices file line walk
      obtain ⟨-, -, back⟩ | ⟨more, -, -, inner⟩ | ⟨choice, more, -, later⟩ := walk.cons_cases
      · exact fresh back
      · exact none more file line inner
      · exact noneLater _ file line later
    · cases choices with
      | nil => cases firstBack.1
      | cons choice choices =>
        exact .inr ⟨_, file, line, failed, firstBack.later fresh none⟩
  · exact .inr ⟨_, file, line, rfl, firstBack.there fresh⟩

/-- Imports with a number of levels have their verdict, as far as the files satisfy a predicate. -/
def Judges (volume : Volume) (known : Path → Prop) (levels : Nat) : Prop :=
  ∀ (chain : List Path) (directory target file : Path) (text : Text) (line depth : Nat)
    (scope : Scope), volume.ImportChain chain →
    volume.canonicalFiles.ncard ≤ levels + chain.length →
    volume.canonical (directory.join target) = .ok file → volume.readText file = .ok text →
    known file → file ∉ chain →
    Verdict volume (file :: chain) (volume.importsOf file) ([], scope)
      (importing levels ⟨volume, directory, chain⟩ target line depth scope)

end Volume

theorem Progress.withImport_empty (p : Progress) : p.withImport ([], p.scope) = p := by
  simp [withImport, write, Draft.write]

theorem Sheet.readImport_back {volume : Volume} {chain : List Path} {directory target file : Path}
    (line : Nat) (found : volume.canonical (directory.join target) = .ok file)
    (back : file ∈ chain) :
    readImport volume chain directory target line = .error (.recursiveImport file line) := by
  simp only [readImport, found, back, ↓reduceIte]

theorem Sheet.readImport_fresh {volume : Volume} {chain : List Path} {directory target file : Path}
    {text : Text} (line : Nat) (found : volume.canonical (directory.join target) = .ok file)
    (fresh : file ∉ chain) (read : volume.readText file = .ok text) :
    readImport volume chain directory target line = .ok ⟨file, text⟩ := by
  simp only [readImport, found, fresh, ↓reduceIte, read]

theorem importing_back {volume : Volume} {chain : List Path} {directory target file : Path}
    (levels line depth : Nat) (scope : Scope)
    (found : volume.canonical (directory.join target) = .ok file) (back : file ∈ chain) :
    importing levels ⟨volume, directory, chain⟩ target line depth scope =
      .error (.recursiveImport file line) := by
  unfold importing
  simp only [Sheet.readImport_back line found back]

namespace Volume.Judges

variable {volume : Volume} {known : Path → Prop} {levels : Nat}

/-- The tokens of a stylesheet that consists of imports have their verdict. -/
theorem tokens (judges : volume.Judges known levels) {chain : List Path} (directory : Path)
    (chained : volume.ImportChain chain)
    (enough : volume.canonicalFiles.ncard ≤ levels + chain.length) {tokens : List Token}
    (good : ∀ token ∈ tokens, volume.IsGoodImport directory token)
    (reached : ∀ entry ∈ tokens.filterMap (volume.importOf? directory), known entry.1)
    {p : Progress} (outside : p.definition = none) :
    Verdict volume chain (tokens.filterMap (volume.importOf? directory)) p
      (tokens.foldlM (Progress.step (importing levels) ⟨volume, directory, chain⟩) p) := by
  induction tokens with
  | nil => exact .inl ⟨rfl, fun _ _ _ => not_comesBack_nil⟩
  | cons token tokens ih =>
    rw [List.forall_mem_cons] at good
    obtain ⟨target, file, text, imports, found, read⟩ := good.1
    have entry : volume.importOf? directory token = some (file, token.line) := by
      simp only [importOf?, imports, found]
    rw [List.filterMap_cons_some entry] at reached ⊢
    rw [List.forall_mem_cons] at reached
    have later := ih good.2 reached.2
    have imports : p.importTarget? token = some target := by
      simp only [Progress.importTarget?, outside, imports]
    rw [List.foldlM_cons, Progress.step_import imports]
    by_cases back : file ∈ chain
    · rw [importing_back levels _ _ _ found back]
      exact .inr ⟨[0], file, token.line, rfl, .here back⟩
    · have inner := judges chain directory target file text token.line p.lineDepth p.scope chained
        enough found read reached.1 back
      rw [← p.withImport_empty] at later
      have verdict := Verdict.cons token.line (fun output => tokens.foldlM
        (Progress.step (importing levels) ⟨volume, directory, chain⟩) (p.withImport output))
        back inner later
      rw [p.withImport_empty] at verdict
      cases imported : importing levels ⟨volume, directory, chain⟩ target token.line p.lineDepth
          p.scope with
      | error problem => rwa [imported] at verdict
      | ok output => rwa [imported] at verdict

/-- So has the whole stylesheet. -/
theorem compileRaw (judges : volume.Judges known levels) {chain : List Path} {page : Path}
    {source : Text} {tokens : List Token} (chained : volume.ImportChain chain)
    (enough : volume.canonicalFiles.ncard ≤ levels + chain.length)
    (text : volume.readText page = .ok source) (read : scan source = .ok tokens)
    (good : ∀ token ∈ tokens, volume.IsGoodImport page.directory token)
    (reached : ∀ file, volume.Imports page file → known file) (depth : Nat) (scope : Scope) :
    Verdict volume chain (volume.importsOf page) ([], scope)
      (Stylesheet.compileRaw (importing levels) ⟨volume, page.directory, chain⟩ depth scope
        tokens) := by
  have entries : volume.importsOf page = tokens.filterMap (volume.importOf? page.directory) := by
    simp only [importsOf, text, read]
  have verdict := judges.tokens (p := .start scope depth) page.directory chained enough good
    (by
      intro entry member
      rw [← entries] at member
      exact reached entry.1 ⟨entry.2, member⟩) rfl
  rw [← entries] at verdict
  unfold Stylesheet.compileRaw
  obtain ⟨done, none⟩ | ⟨choices, file, line, failed, first⟩ := verdict
  · rw [done]
    exact .inl ⟨rfl, none⟩
  · rw [failed]
    exact .inr ⟨choices, file, line, rfl, first⟩

variable (sound : volume.Sound) (only : ∀ page, known page → volume.OnlyImports page)
  (closed : ∀ page file, known page → volume.Imports page file → known file)

include sound in
theorem zero : volume.Judges known 0 := by
  intro chain directory target file text line depth scope chained enough found read _ fresh
  -- All files are in the chain.
  have longer := (chained.cons fresh (canonicalFile_of_readText sound found read)).length_le
  simp only [List.length_cons] at longer
  omega

include sound only closed in
theorem succ (judges : volume.Judges known levels) : volume.Judges known (levels + 1) := by
  intro chain directory target file text line depth scope chained enough found read isKnown fresh
  obtain ⟨source, tokens, source_eq, divided, good⟩ := only file isKnown
  obtain rfl := Except.ok.inj (read.symm.trans source_eq)
  have inner := judges.compileRaw
    (chained.cons fresh (canonicalFile_of_readText sound found read))
    (by simp only [List.length_cons]; omega) read divided good
    (fun other imports => closed file other isKnown imports) depth scope
  unfold importing
  simp only [Sheet.readImport_fresh line found fresh read, divided]
  exact inner

include sound only closed in
theorem all (levels : Nat) : volume.Judges known levels := by
  induction levels with
  | zero => exact zero sound
  | succ levels ih => exact ih.succ sound only closed

end Volume.Judges

namespace Volume

variable {volume : Volume}

/-- A walk that comes back comes to a file on a cycle. -/
theorem ComesBack.cycle {root page : Path} {visited : List Path} {imports : List (Path × Nat)}
    {choices : List Nat} {file : Path} {line : Nat}
    (walk : ComesBack volume visited imports choices file line)
    (taken : ∀ entry ∈ imports, volume.Imports page entry.1)
    (between : ∀ other ∈ visited,
      ReflTransGen volume.Imports root other ∧ ReflTransGen volume.Imports other page)
    (reached : ReflTransGen volume.Imports root page) :
    ReflTransGen volume.Imports root file ∧ TransGen volume.Imports file file := by
  induction walk generalizing page with
  | here found back =>
    have edge := taken _ (List.mem_of_getElem? found)
    exact ⟨(between _ back).1, .tail' (between _ back).2 edge⟩
  | there found fresh walk ih =>
    have edge := taken _ (List.mem_of_getElem? found)
    refine ih (fun entry member => ⟨entry.2, member⟩) ?_ (reached.tail edge)
    rw [List.forall_mem_cons]
    exact ⟨⟨reached.tail edge, .refl⟩, fun other member =>
      ⟨(between other member).1, (between other member).2.tail edge⟩⟩

theorem OnlyImports.canonicalFile (sound : volume.Sound) {page file : Path}
    (only : volume.OnlyImports page) (imports : volume.Imports page file) :
    volume.CanonicalFile file := by
  obtain ⟨source, tokens, text, read, good⟩ := only
  obtain ⟨line, member⟩ := imports
  simp only [importsOf, text, read, List.mem_filterMap] at member
  obtain ⟨token, inTokens, entry⟩ := member
  obtain ⟨target, other, content, target_eq, found, readable⟩ := good token inTokens
  simp only [importOf?, target_eq, found, Option.some.injEq, Prod.mk.injEq] at entry
  rw [← entry.1]
  exact canonicalFile_of_readText sound found readable

/-- If no walk comes back, none does after one more import. -/
theorem not_comesBack_import (sound : volume.Sound) {chain : List Path} {page file : Path}
    (only : volume.OnlyImports page) (chained : volume.ImportChain chain)
    (none : ∀ choices file line,
      ¬ ComesBack volume chain (volume.importsOf page) choices file line)
    (imports : volume.Imports page file) :
    volume.ImportChain (file :: chain) ∧ ∀ choices other line,
      ¬ ComesBack volume (file :: chain) (volume.importsOf file) choices other line := by
  have isFile := only.canonicalFile sound imports
  obtain ⟨line, member⟩ := imports
  obtain ⟨choice, taken⟩ := List.getElem?_of_mem member
  have fresh : file ∉ chain := fun back => none [choice] file line (.here taken back)
  exact ⟨chained.cons fresh isFile, fun choices other line walk =>
    none (choice :: choices) other line (.there taken fresh walk)⟩

/-- If no walk comes back, there is no endless walk: each one would visit all files. -/
theorem acc_of_not_comesBack (sound : volume.Sound) {known : Path → Prop}
    (only : ∀ page, known page → volume.OnlyImports page)
    (closed : ∀ page file, known page → volume.Imports page file → known file)
    (left : Nat) {chain : List Path} {page : Path} (chained : volume.ImportChain chain)
    (enough : volume.canonicalFiles.ncard ≤ left + chain.length) (isKnown : known page)
    (none : ∀ choices file line,
      ¬ ComesBack volume chain (volume.importsOf page) choices file line) :
    Acc (fun file page => volume.Imports page file) page := by
  induction left generalizing chain page with
  | zero =>
    refine ⟨_, fun file imports => ?_⟩
    have longer := (not_comesBack_import sound (only page isKnown) chained none imports).1.length_le
    simp only [List.length_cons] at longer
    omega
  | succ left ih =>
    refine ⟨_, fun file imports => ?_⟩
    obtain ⟨longer, noneLater⟩ :=
      not_comesBack_import sound (only page isKnown) chained none imports
    exact ih longer (by simp only [List.length_cons]; omega) (closed page file isKnown imports)
      noneLater

/-- Where there is no endless walk, no cycle can be reached. -/
theorem not_cycle_of_acc {root page : Path}
    (acc : Acc (fun file page => volume.Imports page file) root)
    (reached : ReflTransGen volume.Imports root page) :
    ¬ TransGen volume.Imports page page := by
  have onward : Acc (TransGen fun file page => volume.Imports page file) page := by
    induction reached with
    | refl => exact acc.transGen
    | tail _ edge ih => exact ih.inv (.single edge)
  intro cycle
  have around : TransGen (fun file page => volume.Imports page file) page page :=
    Relation.transGen_swap.mpr cycle
  clear reached cycle
  induction onward with
  | intro page _ ih => exact ih page around around

end Volume

theorem Options.print_empty (options : Options) : options.print [] = [] := by
  unfold print
  cases options.minify <;> rfl

open Volume (Verdict Judges FirstBack)

/-- Compiling a file from which nothing but imports can be reached has its verdict. -/
theorem compileFile_verdict {volume : Volume} (sound : volume.Sound) (options : Options)
    {path : Path} {sheet : Sheet} (found : Sheet.read volume path = .ok sheet)
    (only : ∀ page, ReflTransGen volume.Imports sheet.path page → volume.OnlyImports page) :
    Verdict volume [sheet.path] (volume.importsOf sheet.path) []
      (compileFile volume options path) := by
  have closed : ∀ page file, ReflTransGen volume.Imports sheet.path page →
      volume.Imports page file → ReflTransGen volume.Imports sheet.path file :=
    fun page file reached imports => reached.tail imports
  have chained := Sheet.read_chain sound found
  have few := volume.ncard_canonicalFiles_le
  obtain ⟨source, tokens, text, divided, good⟩ := only sheet.path .refl
  obtain rfl := Except.ok.inj ((Sheet.read_eq_ok found).2.symm.trans text)
  have verdict := (Judges.all sound only closed volume.nodes.length).compileRaw chained
    (by omega) text divided good (fun file imports => .single imports) 0 .empty
  unfold compileFile
  simp only [found, divided, compileIn, Setting.importer, Sheet.directory]
  obtain ⟨done, none⟩ | ⟨choices, file, line, failed, first⟩ := verdict
  · rw [done]
    exact .inl ⟨congrArg Except.ok (Options.print_empty _), none⟩
  · rw [failed]
    exact .inr ⟨choices, file, line, rfl, first⟩

/-- A stylesheet from which nothing but imports can be reached compiles exactly if no cycle can be
reached. Otherwise the problem names the file that the first walk comes back to, which is on a
cycle. -/
theorem compileFile_ok_iff_acyclic (volume : Volume) (sound : volume.Sound) (options : Options)
    (path : Path) (sheet : Sheet) (found : Sheet.read volume path = .ok sheet)
    (only : ∀ page, ReflTransGen volume.Imports sheet.path page → volume.OnlyImports page) :
    ((∃ css, compileFile volume options path = .ok css) ↔
      ¬ ∃ page, ReflTransGen volume.Imports sheet.path page ∧ TransGen volume.Imports page page) ∧
    ((∃ page, ReflTransGen volume.Imports sheet.path page ∧ TransGen volume.Imports page page) →
      ∃ choices file line,
        compileFile volume options path = .error (.recursiveImport file line) ∧
        FirstBack volume [sheet.path] (volume.importsOf sheet.path) choices file line ∧
        ReflTransGen volume.Imports sheet.path file ∧ TransGen volume.Imports file file) := by
  obtain ⟨done, none⟩ | ⟨choices, file, line, failed, first⟩ :=
    compileFile_verdict sound options found only
  · have acc : Acc (fun file page => volume.Imports page file) sheet.path :=
      Volume.acc_of_not_comesBack sound only (fun page file reached imports => reached.tail imports)
        volume.canonicalFiles.ncard (Sheet.read_chain sound found) (Nat.le_add_right _ _) .refl none
    have acyclic : ¬ ∃ page,
        ReflTransGen volume.Imports sheet.path page ∧ TransGen volume.Imports page page := by
      rintro ⟨page, reached, cycle⟩
      exact Volume.not_cycle_of_acc acc reached cycle
    exact ⟨⟨fun _ => acyclic, fun _ => ⟨[], done⟩⟩, fun cyclic => absurd cyclic acyclic⟩
  · have onCycle := first.1.cycle (fun entry member => ⟨entry.2, member⟩)
      (List.forall_mem_singleton.mpr ⟨.refl, .refl⟩) .refl
    refine ⟨⟨?_, fun acyclic => absurd ⟨file, onCycle⟩ acyclic⟩,
      fun _ => ⟨choices, file, line, failed, first, onCycle⟩⟩
    rintro ⟨css, done⟩
    rw [failed] at done
    cases done

/-- Two files that import a third one, and one of the two imports itself as well. -/
def diamond : Volume :=
  let file (name : Char) (text : String) := ([[name]], Node.file (Text.encode text.toList) ⟨0, 0⟩)
  ⟨[file 'a' "@import 'b';\n@import 'c';", file 'b' "@import 'd';",
    file 'c' "@import 'd';\n@import 'c';", file 'd' ""], []⟩

theorem diamond_cyclic :
    compileFile diamond .default ⟨['a']⟩ = .error (.recursiveImport ⟨['/', 'c']⟩ 2) ∧
      ∃ choices file line,
        compileFile diamond .default ⟨['a']⟩ = .error (.recursiveImport file line) ∧
        FirstBack diamond [⟨['/', 'a']⟩] (diamond.importsOf ⟨['/', 'a']⟩) choices file line ∧
        ReflTransGen diamond.Imports ⟨['/', 'a']⟩ file ∧ TransGen diamond.Imports file file := by
  let pages : List Path := [⟨['/', 'a']⟩, ⟨['/', 'b']⟩, ⟨['/', 'c']⟩, ⟨['/', 'd']⟩]
  have sound : diamond.Sound := ⟨by simp [diamond], by
    intro outer before
    rw [List.prefix_nil.mp before]
    rfl⟩
  have known : ∀ page ∈ pages, diamond.OnlyImports page ∧
      ∀ entry ∈ diamond.importsOf page, entry.1 ∈ pages := by
    decide +kernel
  have reached : ∀ page, ReflTransGen diamond.Imports ⟨['/', 'a']⟩ page → page ∈ pages := by
    intro page walk
    induction walk with
    | refl => exact List.mem_cons_self
    | tail _ imports ih => exact imports.elim fun line member => (known _ ih).2 _ member
  have cycle : diamond.Imports ⟨['/', 'c']⟩ ⟨['/', 'c']⟩ := ⟨2, by decide +kernel⟩
  exact ⟨by decide +kernel, (compileFile_ok_iff_acyclic diamond sound .default ⟨['a']⟩
    ⟨⟨['/', 'a']⟩, "@import 'b';\n@import 'c';".toList⟩ (by decide +kernel)
    fun page walk => (known page (reached page walk)).1).2
    ⟨⟨['/', 'c']⟩, .single ⟨2, by decide +kernel⟩, .single cycle⟩⟩

end Stylesheet
