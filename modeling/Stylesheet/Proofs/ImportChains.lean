import Stylesheet.Proofs.Sessions

set_option autoImplicit false

namespace Stylesheet

def Phase.joining : Phase → List Path
  | reading joining _ => joining.toList
  | working _ | failing _ | finished _ => []

namespace Session

variable {volume : Volume}

/-- The files that are being compiled, with the one whose text is being divided. -/
def files (s : Session) : List Path := s.phase.joining ++ s.chain

/-- The chain has grown by one file for each stylesheet that waits. -/
structure WellKept (volume : Volume) (base : Nat) (s : Session) : Prop where
  chained : volume.ImportChain s.files
  depth : s.files.length = s.waiting.length + base
  outermost : ∀ joining task, s.phase = .reading joining task → (joining = none ↔ s.waiting = [])

namespace WellKept

variable {base : Nat} {s t : Session}

theorem of_outermost {chain : List Path} (chained : volume.ImportChain chain) (source : Text)
    (directory : Path) : WellKept volume chain.length (.outermost chain source directory) where
  chained := chained
  depth := (Nat.zero_add _).symm
  outermost := by
    rintro joining task ⟨⟩
    simp [Session.outermost]

theorem chain (kept : WellKept volume base s) : volume.ImportChain s.chain := by
  have whole := kept.chained
  unfold files at whole
  exact ⟨whole.distinct.of_append_right,
    fun path member => whole.files path (List.mem_append_right _ member)⟩

theorem move (sound : volume.Sound) (kept : WellKept volume base s) (moved : Move volume s t) :
    WellKept volume base t := by
  have depth := kept.depth
  cases moved with
  | @unreadable chain waiting joining task error read =>
    have outermost := kept.outermost joining task rfl
    refine ⟨kept.chain, ?_, by simp⟩
    -- Either a waiting stylesheet fails in the place of the text, or nothing waits for it.
    cases joining with
    | none =>
      obtain rfl : waiting = [] := outermost.mp rfl
      exact depth
    | some path =>
      cases waiting with
      | nil => cases outermost.mpr rfl
      | cons outer waiting =>
        simp only [files, Phase.joining, Option.toList_some, List.singleton_append,
          List.length_cons] at depth
        simp only [files, Phase.joining, List.nil_append, List.tail_cons]
        omega
  | divided read => exact ⟨kept.chained, depth, by simp⟩
  | stepped left other done => exact ⟨kept.chained, depth, by simp⟩
  | refused left other done => exact ⟨kept.chained, depth, by simp⟩
  | missed left imports found => exact ⟨kept.chained, depth, by simp⟩
  | entered left imports found =>
    refine ⟨Sheet.readImport_chain sound kept.chain found, ?_, ?_⟩
    · simp only [files, Phase.joining, List.nil_append] at depth
      simp only [files, Phase.joining, Option.toList_some, List.singleton_append,
        List.length_cons, depth]
      omega
    · rintro joining task ⟨⟩
      simp
  | unfinished left done => exact ⟨kept.chained, depth, by simp⟩
  | ended left done => exact ⟨kept.chained, depth, by simp⟩
  | returned left done =>
    refine ⟨kept.chain.tail, ?_, by simp⟩
    simp only [files, Phase.joining, List.nil_append, List.length_cons] at depth
    simp only [files, Phase.joining, List.nil_append, List.length_tail]
    omega
  | stopped => exact ⟨kept.chained, depth, by simp⟩
  | passed =>
    refine ⟨kept.chain.tail, ?_, by simp⟩
    simp only [files, Phase.joining, List.nil_append, List.length_cons] at depth
    simp only [files, Phase.joining, List.nil_append, List.length_tail]
    omega

theorem reaches (sound : volume.Sound) (kept : WellKept volume base s)
    (reached : Reaches volume s t) : WellKept volume base t := by
  induction reached with
  | refl => exact kept
  | tail _ stepped ih => exact ih.move sound (move_of_step stepped)

theorem nesting_le (kept : WellKept volume base s) :
    s.waiting.length ≤ volume.canonicalFiles.ncard := by
  have bound := kept.chained.length_le
  have depth := kept.depth
  omega

/-- Compiling some of the tokens that are left, be it one import or all of them, ends with the same
chain. -/
theorem tokens (sound : volume.Sound) (kept : WellKept volume base s) {task : Task}
    (working : s.phase = .working task) {before after : List Token}
    (left : task.rest = before ++ after) :
    ∃ t, Reaches volume s t ∧ t.chain = s.chain ∧ t.waiting = s.waiting ∧
      ((∃ p, t.phase = .working { task with progress := p, rest := after }) ∨
        ∃ problem, t.phase = .failing problem) := by
  let levels := volume.canonicalFiles.ncard
  have same : s = s.work { task with rest := before ++ after } := by
    rw [← left]
    simp only [work, ← working]
  have folded := (Follows.all volume levels).tokens s before after task rfl fun _ =>
    ⟨sound, kept.chain, Nat.le_add_right _ _⟩
  rw [← same] at folded
  cases result : before.foldlM (Progress.step (importing levels) ⟨volume, task.directory, s.chain⟩)
      task.progress with
  | error problem =>
    rw [result] at folded
    exact ⟨_, folded, rfl, rfl, .inr ⟨problem, rfl⟩⟩
  | ok p =>
    rw [result] at folded
    exact ⟨_, folded, rfl, rfl, .inl ⟨p, rfl⟩⟩

end WellKept

/-- What holds of a compilation from its beginning to its end. -/
structure Orderly (volume : Volume) (start : Session) : Prop where
  distinct : ∀ s, Reaches volume start s → s.chain.Nodup
  canonical : ∀ s, Reaches volume start s → ∀ path ∈ s.chain, volume.CanonicalFile path
  nesting : ∀ s, Reaches volume start s → s.waiting.length ≤ volume.canonicalFiles.ncard
  /-- Some of the tokens that are left, one import or all of them, are compiled or fail, and the
  chain is then what it was. -/
  restored : ∀ s task before after, Reaches volume start s → s.phase = .working task →
    task.rest = before ++ after →
    ∃ t, Reaches volume s t ∧ t.chain = s.chain ∧ t.waiting = s.waiting ∧
      ((∃ p, t.phase = .working { task with progress := p, rest := after }) ∨
        ∃ problem, t.phase = .failing problem)
  /-- There is no endless sequence of steps. -/
  terminates : Acc (fun t s => s.step volume = some t) start

/-- A session that comes to an end has no endless sequence of steps, since steps are unique. -/
theorem acc_of_reaches {s t : Session} (reached : Reaches volume s t)
    (final : t.step volume = none) : Acc (fun t s => s.step volume = some t) s := by
  induction reached using Relation.ReflTransGen.head_induction_on with
  | refl =>
    refine ⟨_, fun next stepped => ?_⟩
    rw [final] at stepped
    cases stepped
  | head first _ ih =>
    refine ⟨_, fun next stepped => ?_⟩
    rw [first] at stepped
    cases stepped
    exact ih

theorem WellKept.orderly (sound : volume.Sound) {base : Nat} {s t : Session}
    (kept : WellKept volume base s) (reached : Reaches volume s t)
    (final : t.step volume = none) : Orderly volume s where
  distinct := fun _ reached => (kept.reaches sound reached).chain.distinct
  canonical := fun _ reached => (kept.reaches sound reached).chain.files
  nesting := fun _ reached => (kept.reaches sound reached).nesting_le
  restored := fun _ _ _ _ reached working left =>
    (kept.reaches sound reached).tokens sound working left
  terminates := acc_of_reaches reached final

theorem ofFile_wellKept (sound : volume.Sound) (path : Path) :
    WellKept volume (ofFile volume path).chain.length (ofFile volume path) := by
  unfold ofFile
  cases found : Sheet.read volume path with
  | error problem => exact ⟨.nil, rfl, by simp⟩
  | ok sheet =>
    exact .of_outermost (Sheet.read_chain sound found) _ _

end Session

open Session (Orderly WellKept Reaches ofText ofFile)

/-- In every compilation the chain of imports is well kept, and the compilation comes to its
result. -/
theorem compile_orderly (volume : Volume) (sound : volume.Sound) (options : Options) :
    (∀ source : Text, Orderly volume (ofText options source) ∧
      ∃ result, Reaches volume (ofText options source) ⟨[], [], .finished result⟩ ∧
        compile volume options source = result.map fun output => options.print output.1) ∧
    ∀ path : Path, Orderly volume (ofFile volume path) ∧
      ∃ result, Reaches volume (ofFile volume path)
          ⟨(ofFile volume path).chain, [], .finished result⟩ ∧
        compileFile volume options path = result.map fun output => options.print output.1 := by
  have few := volume.ncard_canonicalFiles_le
  constructor
  · intro source
    have kept : WellKept volume 0 (ofText options source) := .of_outermost .nil source _
    obtain ⟨result, compiled, reached⟩ := Session.ofText_reaches volume options source
    have ended := reached fun _ => ⟨sound, .nil, by omega⟩
    exact ⟨kept.orderly sound ended rfl, result, ended, compiled⟩
  · intro path
    have kept := Session.ofFile_wellKept sound path
    obtain ⟨result, compiled, reached⟩ := Session.ofFile_reaches volume options path
    have ended := reached fun _ => ⟨sound, kept.chain, by omega⟩
    exact ⟨kept.orderly sound ended rfl, result, ended, compiled⟩

/-- A stylesheet that imports itself through a link. -/
def looped : Volume :=
  ⟨[([['a']], .file (Text.encode "@import 'b';".toList) ⟨0, 0⟩), ([['b']], .link ⟨['a']⟩)], []⟩

theorem looped_orderly :
    looped.Sound ∧
      compileFile looped .default ⟨['b']⟩ = .error (.recursiveImport ⟨['/', 'a']⟩ 1) ∧
      (Session.ofFile looped ⟨['b']⟩).Orderly looped := by
  have sound : looped.Sound := ⟨by simp [looped], by
    intro outer before
    rw [List.prefix_nil.mp before]
    rfl⟩
  exact ⟨sound, by decide +kernel, ((compile_orderly looped sound .default).2 ⟨['b']⟩).1⟩

end Stylesheet
