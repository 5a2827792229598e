import Mathlib.Data.Set.Card
import Stylesheet.Sheet

set_option autoImplicit false

namespace Stylesheet

theorem Path.slash_not_mem_segments (p : Path) : ∀ segment ∈ p.segments, '/' ∉ segment := by
  unfold segments
  induction p.text with
  | nil => simp
  | cons c t ih =>
    rw [List.splitOn_cons_eq_if_modifyHead]
    by_cases slash : c = '/'
    · subst slash
      simpa using ih
    · cases divided : t.splitOn '/' with
      | nil => exact absurd divided (List.splitOn_ne_nil _ _)
      | cons first rest =>
        rw [divided, List.forall_mem_cons] at ih
        simp only [beq_iff_eq, slash, ↓reduceIte, List.modifyHead_cons]
        rw [List.forall_mem_cons, List.mem_cons, not_or]
        exact ⟨⟨Ne.symm slash, ih.1⟩, ih.2⟩

namespace Volume

/-- A segment that is looked up as a name. -/
def IsName (segment : Text) : Prop :=
  segment ≠ [] ∧ segment ≠ ['.'] ∧ segment ≠ ['.', '.'] ∧ '/' ∉ segment

/-- A location that is reached by names alone. -/
structure Settled (v : Volume) (location : Location) : Prop where
  names : ∀ name ∈ location, IsName name
  directories : ∀ outer, outer <+: location → outer ≠ location → v.isDirectory outer = true
  noLink : ∃ node, v.node? location = some node ∧ ∀ target, node ≠ .link target

/-- A volume whose working directory is there. -/
structure Sound (v : Volume) : Prop where
  names : ∀ name ∈ v.workingDirectory, IsName name
  directories : ∀ outer, outer <+: v.workingDirectory → v.isDirectory outer = true

variable {v : Volume}

theorem noLink_of_isDirectory {location : Location} (directory : v.isDirectory location = true) :
    ∃ node, v.node? location = some node ∧ ∀ target, node ≠ .link target := by
  unfold isDirectory at directory
  split at directory
  · rename_i found
    exact ⟨_, found, by simp⟩
  · cases directory

namespace Settled

theorem root : v.Settled [] where
  names := by simp
  directories := by simp
  noLink := ⟨_, rfl, by simp⟩

theorem workingDirectory (sound : v.Sound) : v.Settled v.workingDirectory where
  names := sound.names
  directories := fun outer before _ => sound.directories outer before
  noLink := noLink_of_isDirectory (sound.directories _ List.prefix_rfl)

/-- Nothing on the way to a settled location is a link. -/
theorem node {location outer : Location} (settled : v.Settled location)
    (before : outer <+: location) :
    ∃ node, v.node? outer = some node ∧ ∀ target, node ≠ .link target := by
  by_cases whole : outer = location
  · rw [whole]
    exact settled.noLink
  · exact noLink_of_isDirectory (settled.directories outer before whole)

theorem parent {location : Location} (settled : v.Settled location) :
    v.Settled location.dropLast where
  names := fun name member => settled.names name (List.mem_of_mem_dropLast member)
  directories := by
    intro outer before inner
    have shorter : outer.length < location.dropLast.length := by
      have := before.length_le
      have := mt before.eq_of_length inner
      omega
    refine settled.directories outer (before.trans (List.dropLast_prefix _)) ?_
    rintro rfl
    rw [List.length_dropLast] at shorter
    omega
  noLink := settled.node (List.dropLast_prefix _)

theorem child {location : Location} {name : Text} {node : Node} (settled : v.Settled location)
    (directory : v.isDirectory location = true) (isName : IsName name)
    (found : v.node? (location ++ [name]) = some node) (noLink : ∀ target, node ≠ .link target) :
    v.Settled (location ++ [name]) where
  names := by
    simp only [List.mem_append, List.mem_singleton]
    rintro other (member | rfl)
    · exact settled.names other member
    · exact isName
  directories := by
    intro outer before inner
    rcases List.prefix_concat_iff.mp before with whole | before
    · exact absurd whole inner
    · by_cases last : outer = location
      · rw [last]
        exact directory
      · exact settled.directories outer before last
  noLink := ⟨node, found, noLink⟩

end Settled

/-- Looking up segments from a settled location leads to one, if that holds after a link. -/
theorem walkWith_settled {follow : Location → List Text → Except Fault Location}
    (followed : ∀ location segments result, v.Settled location → (∀ s ∈ segments, '/' ∉ s) →
      follow location segments = .ok result → v.Settled result)
    {segments : List Text} {location result : Location} (settled : v.Settled location)
    (divided : ∀ s ∈ segments, '/' ∉ s)
    (walked : v.walkWith .read follow location segments = .ok result) : v.Settled result := by
  induction segments generalizing location with
  | nil =>
    cases walked
    exact settled
  | cons segment rest ih =>
    rw [List.forall_mem_cons] at divided
    simp only [walkWith, reduceCtorEq, decide_false, Bool.false_and, Bool.false_eq_true,
      ↓reduceIte] at walked
    by_cases directory : v.isDirectory location = true
    · simp only [directory, Bool.not_true, Bool.false_eq_true, ↓reduceIte] at walked
      split at walked
      · exact ih settled divided.2 walked
      · split at walked
        · exact ih settled.parent divided.2 walked
        · split at walked
          · cases walked
          · rename_i notIdle notUp _
            have isName : IsName segment := by
              simp only [Bool.or_eq_true, decide_eq_true_eq, not_or] at notIdle
              exact ⟨notIdle.1, notIdle.2, notUp, divided.1⟩
            split at walked
            · rename_i target _
              refine followed _ _ _ ?_ ?_ walked
              · split
                · exact .root
                · exact settled
              · intro s member
                rcases List.mem_append.mp member with inTarget | inRest
                · exact target.slash_not_mem_segments s inTarget
                · exact divided.2 s inRest
            · rename_i node found noLink
              exact ih (settled.child directory isName noLink
                fun target isLink => found target isLink) divided.2 walked
            · cases walked
    · simp [directory] at walked

theorem walk_settled (links : Nat) {segments : List Text} {location result : Location}
    (settled : v.Settled location) (divided : ∀ s ∈ segments, '/' ∉ s)
    (walked : v.walk .read links location segments = .ok result) : v.Settled result := by
  induction links generalizing segments location result with
  | zero => exact walkWith_settled (by simp) settled divided walked
  | succ links ih =>
    exact walkWith_settled (fun _ _ _ settled divided walked => ih settled divided walked)
      settled divided walked

theorem reach_settled (sound : v.Sound) {path : Path} {location : Location}
    (reached : v.reach .read path = .ok location) : v.Settled location := by
  unfold reach at reached
  split at reached
  · cases reached
  · split at reached
    · cases reached
    · refine walk_settled _ ?_ path.slash_not_mem_segments reached
      split
      · exact .root
      · exact .workingDirectory sound

/-- The names of a settled location lead to it. -/
theorem walkWith_names {follow : Location → List Text → Except Fault Location}
    {outer inner result : Location} (settled : v.Settled (outer ++ inner))
    (walked : v.walkWith .read follow outer inner = .ok result) : result = outer ++ inner := by
  induction inner generalizing outer with
  | nil => rw [← Except.ok.inj walked, List.append_nil]
  | cons name rest ih =>
    obtain ⟨notEmpty, notDot, notUp, -⟩ := settled.names name (by simp)
    have before : outer ++ [name] <+: outer ++ name :: rest := ⟨rest, by simp⟩
    obtain ⟨node, found, noLink⟩ := settled.node before
    simp only [walkWith, reduceCtorEq, decide_false, Bool.false_and, Bool.false_eq_true,
      ↓reduceIte, notEmpty, notDot, notUp, Bool.or_self, found] at walked
    split at walked
    · cases walked
    · split at walked
      · cases walked
      · rw [ih (by simpa using settled) walked, List.append_assoc]
        rfl

theorem segments_pathOf {location : Location} (names : ∀ name ∈ location, IsName name)
    (inside : location ≠ []) : (pathOf location).segments = [] :: location := by
  have joined : (pathOf location).text = ['/'].intercalate ([] :: location) := by
    cases location with
    | nil => exact absurd rfl inside
    | cons first rest => rfl
  rw [Path.segments, joined]
  refine List.splitOn_intercalate '/' ?_ (by simp)
  simp only [List.mem_cons, forall_eq_or_imp, List.not_mem_nil, not_false_eq_true, true_and]
  exact fun name member => (names name member).2.2.2

/-- The path of a settled location leads to it. -/
theorem reach_pathOf {location result : Location} (settled : v.Settled location)
    (reached : v.reach .read (pathOf location) = .ok result) : result = location := by
  unfold reach at reached
  split at reached
  · cases reached
  · split at reached
    · cases reached
    · rw [show (pathOf location).isAbsolute = true from rfl, if_pos rfl] at reached
      by_cases isRoot : location = []
      · subst isRoot
        exact (Except.ok.inj reached).symm
      · rw [segments_pathOf settled.names isRoot] at reached
        -- The first segment stands before the leading slash.
        change v.walkWith .read _ [] location = .ok result at reached
        exact walkWith_names settled reached

/-- A path without links that leads to a file. -/
def CanonicalFile (v : Volume) (path : Path) : Prop :=
  v.canonical path = .ok path ∧ ∃ bytes, v.read path = .ok bytes

theorem canonical_eq_ok {path canonical : Path} (found : v.canonical path = .ok canonical) :
    ∃ location, v.reach .read path = .ok location ∧ canonical = pathOf location := by
  unfold Volume.canonical at found
  cases reached : v.reach .read path with
  | error => rw [reached] at found; cases found
  | ok location =>
    rw [reached] at found
    cases found
    exact ⟨location, rfl, rfl⟩

theorem read_eq_ok {path : Path} {bytes : List UInt8} (found : v.read path = .ok bytes) :
    ∃ location time, v.reach .read path = .ok location ∧
      v.node? location = some (.file bytes time) := by
  unfold read locate at found
  split at found
  · cases found
  · split at found
    · cases found
    · cases reached : v.reach .read path with
      | error => rw [reached] at found; cases found
      | ok location =>
        simp only [reached, bind, Except.bind] at found
        split at found
        · rename_i file
          cases found
          exact ⟨location, _, rfl, file⟩
        · cases found
        · cases found

theorem readText_eq_ok {path : Path} {text : Text} (found : v.readText path = .ok text) :
    ∃ bytes, v.read path = .ok bytes := by
  unfold readText at found
  cases read : v.read path with
  | error => rw [read] at found; cases found
  | ok bytes => exact ⟨bytes, rfl⟩

/-- What a path leads to has a path without links. -/
theorem canonicalFile_of_readText (sound : v.Sound) {path canonical : Path} {text : Text}
    (found : v.canonical path = .ok canonical) (read : v.readText canonical = .ok text) :
    v.CanonicalFile canonical := by
  obtain ⟨location, reached, rfl⟩ := canonical_eq_ok found
  obtain ⟨bytes, read⟩ := readText_eq_ok read
  obtain ⟨other, -, again, -⟩ := read_eq_ok read
  have same := reach_pathOf (reach_settled sound reached) again
  subst same
  refine ⟨?_, bytes, read⟩
  unfold Volume.canonical
  rw [again]
  rfl

theorem CanonicalFile.mem_nodes {path : Path} (file : v.CanonicalFile path) :
    path ∈ v.nodes.map fun entry => pathOf entry.1 := by
  obtain ⟨found, bytes, read⟩ := file
  obtain ⟨location, reached, same⟩ := canonical_eq_ok found
  obtain ⟨other, time, again, isFile⟩ := read_eq_ok read
  rw [reached] at again
  cases again
  unfold node? at isFile
  split at isFile
  · cases isFile
  · obtain ⟨before, after, found, -⟩ := List.lookup_eq_some_iff.mp isFile
    rw [same, found]
    simp

def canonicalFiles (v : Volume) : Set Path := {path | v.CanonicalFile path}

theorem canonicalFiles_finite (v : Volume) : v.canonicalFiles.Finite :=
  (List.finite_toSet _).subset fun _ file => CanonicalFile.mem_nodes file

theorem ncard_canonicalFiles_le (v : Volume) : v.canonicalFiles.ncard ≤ v.nodes.length := by
  let paths := v.nodes.map fun entry => pathOf entry.1
  have listed : v.canonicalFiles ⊆ ↑paths.toFinset := fun path file =>
    List.mem_toFinset.mpr (CanonicalFile.mem_nodes file)
  calc
    v.canonicalFiles.ncard ≤ (↑paths.toFinset : Set Path).ncard :=
      Set.ncard_le_ncard listed paths.toFinset.finite_toSet
    _ = paths.toFinset.card := Set.ncard_coe_finset _
    _ ≤ paths.length := List.toFinset_card_le paths
    _ = v.nodes.length := List.length_map _

/-- Files that may be in the course of being imported one by another. -/
structure ImportChain (v : Volume) (chain : List Path) : Prop where
  distinct : chain.Nodup
  files : ∀ path ∈ chain, v.CanonicalFile path

namespace ImportChain

theorem nil : v.ImportChain [] := ⟨List.nodup_nil, by simp⟩

theorem cons {chain : List Path} {path : Path} (chained : v.ImportChain chain)
    (fresh : path ∉ chain) (file : v.CanonicalFile path) : v.ImportChain (path :: chain) :=
  ⟨List.nodup_cons.mpr ⟨fresh, chained.distinct⟩, List.forall_mem_cons.mpr ⟨file, chained.files⟩⟩

theorem tail {chain : List Path} (chained : v.ImportChain chain) : v.ImportChain chain.tail :=
  ⟨chained.distinct.tail, fun path member => chained.files path (List.mem_of_mem_tail member)⟩

theorem length_le {chain : List Path} (chained : v.ImportChain chain) :
    chain.length ≤ v.canonicalFiles.ncard := by
  have among : (↑chain.toFinset : Set Path) ⊆ v.canonicalFiles := fun path member =>
    chained.files path (List.mem_toFinset.mp member)
  calc
    chain.length = chain.toFinset.card := (List.toFinset_card_of_nodup chained.distinct).symm
    _ = (↑chain.toFinset : Set Path).ncard := (Set.ncard_coe_finset _).symm
    _ ≤ v.canonicalFiles.ncard := Set.ncard_le_ncard among v.canonicalFiles_finite

end ImportChain

end Volume

namespace Sheet

variable {volume : Volume}

theorem read_eq_ok {path : Path} {sheet : Sheet} (found : read volume path = .ok sheet) :
    volume.canonical path = .ok sheet.path ∧ volume.readText sheet.path = .ok sheet.source := by
  unfold read at found
  split at found
  · cases found
  · rename_i canonical
    split at found
    · cases found
    · rename_i text
      cases found
      exact ⟨canonical, text⟩

theorem read_canonicalFile (sound : volume.Sound) {path : Path} {sheet : Sheet}
    (found : read volume path = .ok sheet) : volume.CanonicalFile sheet.path :=
  Volume.canonicalFile_of_readText sound (read_eq_ok found).1 (read_eq_ok found).2

/-- A stylesheet that is named from outside begins a chain. -/
theorem read_chain (sound : volume.Sound) {path : Path} {sheet : Sheet}
    (found : read volume path = .ok sheet) : volume.ImportChain [sheet.path] :=
  .cons .nil List.not_mem_nil (read_canonicalFile sound found)

/-- An imported file is not in the chain yet. -/
theorem readImport_eq_ok {chain : List Path} {directory target : Path} {line : Nat} {sheet : Sheet}
    (found : readImport volume chain directory target line = .ok sheet) :
    volume.canonical (directory.join target) = .ok sheet.path ∧
      volume.readText sheet.path = .ok sheet.source ∧ sheet.path ∉ chain := by
  unfold readImport at found
  dsimp only at found
  split at found
  · cases found
  · rename_i canonical
    split at found
    · cases found
    · rename_i fresh
      split at found
      · cases found
      · rename_i text
        cases found
        exact ⟨canonical, text, fresh⟩

theorem readImport_chain (sound : volume.Sound) {chain : List Path} {directory target : Path}
    {line : Nat} {sheet : Sheet} (chained : volume.ImportChain chain)
    (found : readImport volume chain directory target line = .ok sheet) :
    volume.ImportChain (sheet.path :: chain) := by
  obtain ⟨canonical, text, fresh⟩ := readImport_eq_ok found
  exact chained.cons fresh (Volume.canonicalFile_of_readText sound canonical text)

end Sheet

end Stylesheet
