import Stylesheet.Proofs.CanonicalPaths

set_option autoImplicit false

namespace Stylesheet

namespace Path

/-- A segment that leads nowhere. -/
def isIdle (segment : Text) : Bool := segment = [] || segment = ['.']

def leading (segments : List Text) : List Text := segments.filter fun segment => !isIdle segment

/-- The segment that a component stands for, if it leads somewhere. -/
def Component.step? : Component → Option Text
  | root | current => none
  | parent => some ['.', '.']
  | name text => some text

theorem component?_step? (leads : Bool) (segment : Text) :
    (component? leads segment).bind Component.step? =
      if !isIdle segment then some segment else none := by
  unfold component? isIdle
  split
  · simp_all
  · split
    · cases leads <;> simp_all [Component.step?]
    · split <;> simp_all [Component.step?]

theorem segments_of_isAbsolute {p : Path} (absolute : p.isAbsolute = true) :
    ∃ rest, p.segments = [] :: rest := by
  obtain ⟨text⟩ := p
  cases text with
  | nil => simp [isAbsolute] at absolute
  | cons c rest =>
    obtain rfl : c = '/' := by simpa [isAbsolute] using absolute
    exact ⟨rest.splitOn '/', by simp [segments, List.splitOn_cons_eq_if_modifyHead]⟩

theorem filterMap_components (p : Path) :
    p.components.filterMap Component.step? = leading p.segments := by
  have idle : ∀ segments : List Text,
      (segments.map fun s => (s, component? false s)).filterMap
        (fun s => s.2.bind Component.step?) = segments.filter fun s => !isIdle s := by
    intro segments
    simp only [List.filterMap_map, Function.comp_def, component?_step?,
      ← List.filterMap_eq_filter, Option.guard]
  unfold components leading body
  rw [List.filterMap_append, List.filterMap_filterMap]
  by_cases absolute : p.isAbsolute = true
  · obtain ⟨rest, divided⟩ := segments_of_isAbsolute absolute
    simp only [absolute, ↓reduceIte, divided, List.tail_cons, idle]
    simp [Component.step?, isIdle]
  · simp only [absolute, Bool.false_eq_true, ↓reduceIte]
    cases divided : p.segments with
    | nil => rfl
    | cons first rest =>
      simp only [List.filterMap_nil, List.nil_append, List.filterMap_cons, component?_step?, idle,
        List.filter_cons]
      cases isIdle first <;> rfl

theorem component?_ne_root (leads : Bool) (segment : Text) :
    component? leads segment ≠ some .root := by
  unfold component?
  split
  · simp
  · split
    · cases leads <;> simp
    · split <;> simp

theorem root_mem_components_iff (p : Path) : .root ∈ p.components ↔ p.isAbsolute = true := by
  have body : ∀ entry ∈ p.body, entry.2 ≠ some .root := by
    unfold Path.body
    split
    · simp only [List.forall_mem_map]
      exact fun segment _ => component?_ne_root false segment
    · cases p.segments with
      | nil => simp
      | cons first rest => simp [component?_ne_root]
  have absent : Component.root ∉ p.body.filterMap Prod.snd := by
    rw [List.mem_filterMap]
    rintro ⟨entry, member, isRoot⟩
    exact body entry member isRoot
  unfold components
  by_cases absolute : p.isAbsolute = true
  · simp [absolute]
  · simp [absolute, absent]

/-- A path with so many `./` before it. -/
def dotted (path : Path) : Nat → Path
  | 0 => path
  | dots + 1 => ⟨'.' :: '/' :: (path.dotted dots).text⟩

theorem byteLength_dotted (path : Path) (dots : Nat) :
    Text.byteLength (path.dotted dots).text = 2 * dots + Text.byteLength path.text := by
  induction dots with
  | zero => simp [dotted]
  | succ dots ih =>
    have two : Text.byteLength ('.' :: '/' :: (path.dotted dots).text) =
        2 + Text.byteLength (path.dotted dots).text := by
      unfold Text.byteLength Text.encode
      simp only [List.flatMap_cons, List.length_append]
      rw [← Nat.add_assoc]
      rfl
    rw [dotted, two, ih]
    omega

theorem contains_null_dotted (path : Path) (dots : Nat) :
    (path.dotted dots).text.contains '\x00' = path.text.contains '\x00' := by
  induction dots with
  | zero => rfl
  | succ dots ih =>
    rw [← ih, dotted, List.contains_cons, List.contains_cons]
    rfl

theorem isAbsolute_dotted {path : Path} (relative : path.isAbsolute = false) (dots : Nat) :
    (path.dotted dots).isAbsolute = false := by
  cases dots with
  | zero => exact relative
  | succ dots => rfl

theorem dotted_ne_nil {path : Path} (notEmpty : path.text ≠ []) (dots : Nat) :
    (path.dotted dots).text ≠ [] := by
  cases dots with
  | zero => exact notEmpty
  | succ dots => exact List.cons_ne_nil _ _

end Path

/-- Taking away a key leaves what other keys stand for. -/
theorem lookup_filter_ne {κ α : Type} [BEq κ] [LawfulBEq κ] [DecidableEq κ]
    (entries : List (κ × α)) (key removed : κ) :
    (entries.filter (·.1 ≠ removed)).lookup key =
      if key = removed then none else entries.lookup key := by
  induction entries with
  | nil => simp
  | cons entry entries ih =>
    obtain ⟨first, value⟩ := entry
    by_cases gone : first = removed
    · rw [List.filter_cons_of_neg (by simpa using gone), ih]
      by_cases same : key = removed
      · rw [if_pos same, if_pos same]
      · have other : (key == first) = false := beq_eq_false_iff_ne.mpr (by rwa [gone])
        rw [if_neg same, if_neg same, List.lookup_cons, other]
    · rw [List.filter_cons_of_pos (by simpa using gone), List.lookup_cons, List.lookup_cons, ih]
      by_cases same : key = first
      · simp [same, gone]
      · rw [beq_eq_false_iff_ne.mpr same]

/-- When a node was written. That of a link is that of what it leads to. -/
def Node.modified? : Node → Option Time
  | file _ modified | directory modified => some modified
  | link _ => none

namespace Volume

variable {v : Volume}

theorem node?_put {location : Location} (inside : location ≠ []) (node : Node) (other : Location) :
    (v.put location node).node? other = if other = location then some node else v.node? other := by
  by_cases same : other = location
  · subst same
    simp [node?, put, inside]
  · by_cases root : other = []
    · simp [node?, root, Ne.symm inside]
    · have first : (other == location) = false := beq_eq_false_iff_ne.mpr same
      simp only [node?, put, root, same, ↓reduceIte, List.lookup_cons, first]
      rw [lookup_filter_ne, if_neg same]

/-- A segment that is looked up in a directory. -/
structure Named (segment : Text) : Prop where
  notEmpty : segment ≠ []
  notDot : segment ≠ ['.']
  notUp : segment ≠ ['.', '.']
  short : Text.byteLength segment ≤ maxNameLength

theorem Named.leads {segment : Text} (named : Named segment) : Path.isIdle segment = false := by
  simp [Path.isIdle, named.notEmpty, named.notDot]

/-- The ways in which the lookup of a segment and of those after it succeeds. -/
inductive Stride (v : Volume) (purpose : Purpose)
    (follow : Location → List Text → Except Fault Location) (result location : Location)
    (segment : Text) (rest : List Text) : Prop where
  | idle (nowhere : Path.isIdle segment = true)
      (walked : v.walkWith purpose follow location rest = .ok result)
  | up (parent : segment = ['.', '.'])
      (walked : v.walkWith purpose follow location.dropLast rest = .ok result)
  | link {target : Path} (named : Named segment)
      (found : v.node? (location ++ [segment]) = some (.link target))
      (followed : follow (if target.isAbsolute then [] else location) (target.segments ++ rest) =
        .ok result)
  | enter {node : Node} (named : Named segment)
      (found : v.node? (location ++ [segment]) = some node)
      (noLink : ∀ target, node ≠ .link target)
      (walked : v.walkWith purpose follow (location ++ [segment]) rest = .ok result)
  | create (named : Named segment) (absent : v.node? (location ++ [segment]) = none)
      (writes : purpose = .write) (last : rest = []) (here : result = location ++ [segment])

section Walks

variable {purpose : Purpose} {follow : Location → List Text → Except Fault Location}
  {result location : Location} {segment : Text} {rest : List Text}

theorem walkWith_cons_eq_ok
    (walked : v.walkWith purpose follow location (segment :: rest) = .ok result) :
    v.isDirectory location = true ∧ v.Stride purpose follow result location segment rest := by
  unfold walkWith at walked
  by_cases directory : v.isDirectory location = true
  · refine ⟨directory, ?_⟩
    simp only [directory, Bool.not_true, Bool.false_eq_true, ↓reduceIte] at walked
    split at walked
    · rename_i nowhere
      exact .idle nowhere walked
    · split at walked
      · rename_i parent
        exact .up parent walked
      · split at walked
        · cases walked
        · split at walked
          · cases walked
          · rename_i leads notUp _ short
            simp only [Bool.or_eq_true, decide_eq_true_eq, not_or] at leads
            have named : Named segment := ⟨leads.1, leads.2, notUp, Nat.le_of_not_lt short⟩
            split at walked
            · rename_i found
              exact .link named found walked
            · rename_i noLink found
              exact .enter named found noLink walked
            · split at walked
              · rename_i absent last
                simp only [Bool.and_eq_true, decide_eq_true_eq] at last
                exact .create named absent last.1 last.2 (Except.ok.inj walked).symm
              · cases walked
  · simp [directory] at walked

/-- Every such way leads a reader there. -/
theorem Stride.walkWith_eq_ok (directory : v.isDirectory location = true)
    (stride : v.Stride .read follow result location segment rest) :
    v.walkWith .read follow location (segment :: rest) = .ok result := by
  cases stride with
  | idle nowhere walked =>
    unfold walkWith
    rw [directory]
    exact (if_pos nowhere).trans walked
  | up parent walked =>
    unfold walkWith
    rw [directory, parent]
    exact walked
  | link named found followed =>
    unfold walkWith
    simp only [directory, named.notEmpty, named.notDot, named.notUp, Nat.not_lt.mpr named.short,
      found]
    exact followed
  | @enter node named found noLink walked =>
    unfold walkWith
    simp only [directory, named.notEmpty, named.notDot, named.notUp, Nat.not_lt.mpr named.short,
      found]
    cases node with
    | link target => exact absurd rfl (noLink target)
    | file _ _ => exact walked
    | directory _ => exact walked
  | create _ _ writes => cases writes

/-- A link is the place that a path leads to only where the lookup began at or below it. -/
theorem walkWith_link {target : Path} (isLink : v.node? result = some (.link target))
    (followed : ∀ location segments, follow location segments = .ok result → result <+: location)
    {segments : List Text} (walked : v.walkWith purpose follow location segments = .ok result) :
    result <+: location := by
  induction segments generalizing location with
  | nil =>
    cases walked
    exact List.prefix_rfl
  | cons segment rest ih =>
    cases (walkWith_cons_eq_ok walked).2 with
    | idle _ walked => exact ih walked
    | up _ walked => exact (ih walked).trans (List.dropLast_prefix _)
    | link _ _ onward =>
      have before := followed _ _ onward
      split at before
      · rw [List.prefix_nil.mp before]
        exact List.nil_prefix
      · exact before
    | enter _ found noLink walked =>
      rcases List.prefix_concat_iff.mp (ih walked) with whole | before
      · rw [← whole, isLink] at found
        exact absurd (Option.some.inj found).symm (noLink target)
      · exact before
    | create _ absent _ _ here =>
      rw [← here, isLink] at absent
      cases absent

theorem walk_link {target : Path} (isLink : v.node? result = some (.link target)) (links : Nat)
    {segments : List Text} (walked : v.walk purpose links location segments = .ok result) :
    result <+: location := by
  induction links generalizing location segments with
  | zero => exact walkWith_link isLink (by simp) walked
  | succ links ih => exact walkWith_link isLink (fun _ _ walked => ih walked) walked

end Walks

section Paths

variable {purpose : Purpose} {path : Path} {location : Location}

def origin (v : Volume) (path : Path) : Location :=
  if path.isAbsolute then [] else v.workingDirectory

theorem reach_eq_ok_iff : v.reach purpose path = .ok location ↔
    (path.text.contains '\x00' = false ∧ path.text ≠ []) ∧
      v.walk purpose maxLinks (v.origin path) path.segments = .ok location := by
  unfold reach origin
  split
  · simp_all
  · split
    · simp_all
    · simp_all

/-- The length of a path matters only where it is looked up at once. -/
theorem locate_eq_reach (short : Text.byteLength path.text < pathLimit) :
    v.locate purpose path = v.reach purpose path := by
  unfold locate reach
  split
  · rfl
  · rw [if_neg (Nat.not_le.mpr short)]

theorem locate_eq_ok_iff : v.locate purpose path = .ok location ↔
    Text.byteLength path.text < pathLimit ∧ v.reach purpose path = .ok location := by
  by_cases short : Text.byteLength path.text < pathLimit
  · simp [locate_eq_reach short, short]
  · have failed : ∀ location, v.locate purpose path ≠ .ok location := by
      intro location
      unfold locate
      rw [if_pos (Nat.le_of_not_lt short)]
      split <;> simp
    simp [failed, short]

end Paths

section Writing

variable {purpose : Purpose} {place : Location} {bytes : List UInt8} {now : Time}

theorem ne_root_of_isDirectory (notDirectory : v.isDirectory place = false) : place ≠ [] := by
  rintro rfl
  cases notDirectory

/-- Where a path leads, a reader finds the file that is put there. -/
theorem walkWith_put {follow follow' : Location → List Text → Except Fault Location}
    (notDirectory : v.isDirectory place = false)
    (linked : ∀ target, v.node? place = some (.link target) → ∀ location segments,
      follow location segments = .ok place → place <+: location)
    (followed : ∀ location segments, follow location segments = .ok place →
      follow' location segments = .ok place)
    {segments : List Text} {location : Location}
    (walked : v.walkWith purpose follow location segments = .ok place) :
    (v.put place (.file bytes now)).walkWith .read follow' location segments = .ok place := by
  have inside := ne_root_of_isDirectory notDirectory
  induction segments generalizing location with
  | nil => exact walked
  | cons segment rest ih =>
    obtain ⟨directory, stride⟩ := walkWith_cons_eq_ok walked
    have elsewhere : location ≠ place := by
      rintro rfl
      rw [notDirectory] at directory
      cases directory
    refine Stride.walkWith_eq_ok ?_ ?_
    · rw [isDirectory, node?_put inside, if_neg elsewhere]
      exact directory
    · cases stride with
      | idle nowhere walked => exact .idle nowhere (ih walked)
      | up parent walked => exact .up parent (ih walked)
      | @link target named found onward =>
        refine .link named ?_ (followed _ _ onward)
        rw [node?_put inside, if_neg, found]
        -- The lookup went on from above the link and cannot have ended at it.
        rintro rfl
        have before := linked target found _ _ onward
        split at before <;> simpa using before.length_le
      | @enter node named found noLink walked =>
        by_cases there : location ++ [segment] = place
        · exact .enter named (by rw [node?_put inside, if_pos there]) (by simp) (ih walked)
        · exact .enter named (by rw [node?_put inside, if_neg there, found]) noLink (ih walked)
      | create named absent writes last here =>
        refine .enter named (by rw [node?_put inside, if_pos here.symm]) (by simp) ?_
        subst last here
        rfl

theorem walk_put (notDirectory : v.isDirectory place = false) (links : Nat)
    {segments : List Text} {location : Location}
    (walked : v.walk purpose links location segments = .ok place) :
    (v.put place (.file bytes now)).walk .read links location segments = .ok place := by
  induction links generalizing location segments with
  | zero => exact walkWith_put notDirectory (by simp) (by simp) walked
  | succ links ih =>
    exact walkWith_put notDirectory (fun _ isLink _ _ walked => walk_link isLink links walked)
      (fun _ _ walked => ih walked) walked

theorem locate_put (notDirectory : v.isDirectory place = false) {path : Path}
    (found : v.locate purpose path = .ok place) :
    (v.put place (.file bytes now)).locate .read path = .ok place := by
  obtain ⟨short, reached⟩ := locate_eq_ok_iff.mp found
  obtain ⟨plain, walked⟩ := reach_eq_ok_iff.mp reached
  exact locate_eq_ok_iff.mpr
    ⟨short, reach_eq_ok_iff.mpr ⟨plain, walk_put notDirectory maxLinks walked⟩⟩

/-- What is written is read. -/
theorem read_write {path : Path} {written : Volume} (done : v.write path bytes now = .ok written) :
    written.read path = .ok bytes := by
  unfold write at done
  cases found : v.locate .write path with
  | error fault => rw [found] at done; cases done
  | ok place =>
    rw [found] at done
    cases directory : v.isDirectory place with
    | true => simp [bind, Except.bind, directory] at done
    | false =>
      obtain rfl : v.put place (.file bytes now) = written := by
        simpa [bind, Except.bind, directory, pure, Except.pure] using done
      unfold read
      rw [locate_put directory found]
      simp only [bind, Except.bind, node?_put (ne_root_of_isDirectory directory), ↓reduceIte]
      rfl

end Writing

section Spellings

variable {follow : Location → List Text → Except Fault Location} {location result : Location}
  {segments : List Text}

/-- The lookup of segments is that of the first one that leads somewhere, and of those after it. -/
theorem walkWith_leading {purpose : Purpose}
    (walked : v.walkWith purpose follow location segments = .ok result) :
    (Path.leading segments = [] ∧ result = location) ∨
      ∃ segment rest, Path.leading segments = segment :: Path.leading rest ∧
        Path.isIdle segment = false ∧
        v.walkWith purpose follow location (segment :: rest) = .ok result := by
  induction segments with
  | nil => exact .inl ⟨rfl, (Except.ok.inj walked).symm⟩
  | cons segment rest ih =>
    cases nowhere : Path.isIdle segment with
    | false =>
      exact .inr ⟨segment, rest, List.filter_cons_of_pos (by simp [nowhere]), nowhere, walked⟩
    | true =>
      have onward : v.walkWith purpose follow location rest = .ok result := by
        cases (walkWith_cons_eq_ok walked).2 with
        | idle _ walked => exact walked
        | up parent => rw [parent] at nowhere; cases nowhere
        | link named => rw [named.leads] at nowhere; cases nowhere
        | enter named => rw [named.leads] at nowhere; cases nowhere
        | create named => rw [named.leads] at nowhere; cases nowhere
      rw [show Path.leading (segment :: rest) = Path.leading rest from
        List.filter_cons_of_neg (by simp [nowhere])]
      exact ih onward

/-- Segments that differ in those that lead nowhere do not lead to different places. -/
theorem walkWith_spelling
    (followed : ∀ location segments segments' result result',
      Path.leading segments = Path.leading segments' → follow location segments = .ok result →
      follow location segments' = .ok result' → result = result')
    {segments' : List Text} {result' : Location}
    (same : Path.leading segments = Path.leading segments')
    (walked : v.walkWith .read follow location segments = .ok result)
    (walked' : v.walkWith .read follow location segments' = .ok result') : result = result' := by
  -- The induction is on the segments that lead somewhere, which are the same on both sides.
  generalize left : Path.leading segments = names at same
  induction names generalizing location segments segments' with
  | nil =>
    rcases walkWith_leading walked with ⟨-, rfl⟩ | ⟨_, _, more, -⟩
    · rcases walkWith_leading walked' with ⟨-, rfl⟩ | ⟨_, _, more, -⟩
      · rfl
      · rw [← same] at more; cases more
    · rw [left] at more; cases more
  | cons name names ih =>
    rcases walkWith_leading walked with ⟨none, -⟩ | ⟨_, rest, more, leads, onward⟩
    · rw [left] at none; cases none
    rcases walkWith_leading walked' with ⟨none, -⟩ | ⟨_, rest', more', -, onward'⟩
    · rw [← same] at none; cases none
    obtain ⟨rfl, ended⟩ := List.cons.inj (left.symm.trans more)
    obtain ⟨rfl, ended'⟩ := List.cons.inj (same.trans more')
    cases (walkWith_cons_eq_ok onward).2 with
    | idle nowhere => rw [leads] at nowhere; cases nowhere
    | up parent walked =>
      cases (walkWith_cons_eq_ok onward').2 with
      | up _ walked' => exact ih walked walked' ended.symm ended'
      | idle nowhere => rw [leads] at nowhere; cases nowhere
      | link named => exact absurd parent named.notUp
      | enter named => exact absurd parent named.notUp
      | create named => exact absurd parent named.notUp
    | link named found walked =>
      cases (walkWith_cons_eq_ok onward').2 with
      | idle nowhere => rw [leads] at nowhere; cases nowhere
      | up parent => exact absurd parent named.notUp
      | link _ found' walked' =>
        rw [found] at found'
        cases found'
        refine followed _ _ _ _ _ ?_ walked walked'
        rw [Path.leading, List.filter_append, Path.leading, List.filter_append]
        exact congrArg _ (ended.symm.trans ended')
      | enter _ found' noLink =>
        rw [found] at found'
        exact absurd (Option.some.inj found').symm (noLink _)
      | create _ _ writes => cases writes
    | enter named found noLink walked =>
      cases (walkWith_cons_eq_ok onward').2 with
      | idle nowhere => rw [leads] at nowhere; cases nowhere
      | up parent => exact absurd parent named.notUp
      | link _ found' =>
        rw [found] at found'
        exact absurd (Option.some.inj found') (noLink _)
      | enter _ _ _ walked' => exact ih walked walked' ended.symm ended'
      | create _ _ writes => cases writes
    | create _ _ writes => cases writes

theorem walk_spelling (links : Nat) {segments' : List Text} {result' : Location}
    (same : Path.leading segments = Path.leading segments')
    (walked : v.walk .read links location segments = .ok result)
    (walked' : v.walk .read links location segments' = .ok result') : result = result' := by
  induction links generalizing location segments segments' result result' with
  | zero => exact walkWith_spelling (by simp) same walked walked'
  | succ links ih =>
    refine walkWith_spelling ?_ same walked walked'
    exact fun _ _ _ _ _ same walked walked' => ih same walked walked'

/-- Paths with the same components do not lead to different places. -/
theorem reach_spelling {path path' : Path} {result' : Location}
    (same : path.components = path'.components) (reached : v.reach .read path = .ok result)
    (reached' : v.reach .read path' = .ok result') : result = result' := by
  have leading : Path.leading path.segments = Path.leading path'.segments := by
    rw [← Path.filterMap_components, ← Path.filterMap_components, same]
  have origin : v.origin path = v.origin path' := by
    have absolute : path.isAbsolute = path'.isAbsolute := by
      rw [Bool.eq_iff_iff, ← Path.root_mem_components_iff, ← Path.root_mem_components_iff, same]
    unfold Volume.origin
    rw [absolute]
  have walked := (reach_eq_ok_iff.mp reached).2
  rw [origin] at walked
  exact walk_spelling maxLinks leading walked (reach_eq_ok_iff.mp reached').2

theorem walk_dot {purpose : Purpose} {location : Location} (links : Nat) (rest : List Text)
    (directory : v.isDirectory location = true) :
    v.walk purpose links location (['.'] :: rest) = v.walk purpose links location rest := by
  cases links with
  | zero => simp [walk, walkWith, directory]
  | succ links => simp [walk, walkWith, directory]

/-- A relative path can be as long as one likes. -/
theorem reach_dotted (directory : v.isDirectory v.workingDirectory = true) {path : Path}
    (relative : path.isAbsolute = false) (notEmpty : path.text ≠ []) (dots : Nat) :
    v.reach .read (path.dotted dots) = v.reach .read path := by
  induction dots with
  | zero => rfl
  | succ dots ih =>
    have divided : (path.dotted (dots + 1)).segments = ['.'] :: (path.dotted dots).segments := by
      simp [Path.dotted, Path.segments, List.splitOn_cons_eq_if_modifyHead]
    rw [← ih]
    unfold reach
    rw [divided, Path.contains_null_dotted, Path.contains_null_dotted,
      Path.isAbsolute_dotted relative, Path.isAbsolute_dotted relative,
      if_neg (Path.dotted_ne_nil notEmpty _), if_neg (Path.dotted_ne_nil notEmpty _)]
    simp only [Bool.false_eq_true, ↓reduceIte, walk_dot _ _ directory]

end Spellings

section Times

variable {path : Path} {location : Location} {time : Time}

theorem modified_eq_ok_iff : v.modified path = .ok time ↔
    ∃ location, v.locate .read path = .ok location ∧
      (v.node? location).bind Node.modified? = some time := by
  unfold modified
  cases v.locate .read path with
  | error fault => simp [bind, Except.bind]
  | ok location =>
    simp only [bind, Except.bind, Except.ok.injEq, exists_eq_left']
    cases found : v.node? location with
    | none => simp
    | some node => cases node <;> simp [Node.modified?, pure, Except.pure]

theorem modified_of_file {bytes : List UInt8} (located : v.locate .read path = .ok location)
    (file : v.node? location = some (.file bytes time)) : v.modified path = .ok time :=
  modified_eq_ok_iff.mpr ⟨location, located, by rw [file]; rfl⟩

/-- A file that is replaced stays where it is. -/
theorem put_file {bytes : List UInt8} (located : v.locate .read path = .ok location)
    (file : v.node? location = some (.file bytes time)) (bytes' : List UInt8) (now : Time) :
    (v.put location (.file bytes' now)).locate .read path = .ok location ∧
      (v.put location (.file bytes' now)).node? location = some (.file bytes' now) := by
  have notDirectory : v.isDirectory location = false := by rw [isDirectory, file]
  refine ⟨locate_put notDirectory located, ?_⟩
  rw [node?_put (ne_root_of_isDirectory notDirectory), if_pos rfl]

/-- Paths with the same components lead to the same place, if both can be looked up. -/
theorem modified_spelling {path' : Path} {time' : Time} (same : path.components = path'.components)
    (known : v.modified path = .ok time) (known' : v.modified path' = .ok time') :
    time = time' ∧ v.canonical path = v.canonical path' := by
  obtain ⟨location, located, isTime⟩ := modified_eq_ok_iff.mp known
  obtain ⟨location', located', isTime'⟩ := modified_eq_ok_iff.mp known'
  have reached := (locate_eq_ok_iff.mp located).2
  have reached' := (locate_eq_ok_iff.mp located').2
  obtain rfl := reach_spelling same reached reached'
  refine ⟨Option.some.inj (isTime.symm.trans isTime'), ?_⟩
  unfold canonical
  rw [reached, reached']

/-- A path that is not too long and leads somewhere leads to something that was written at a
time. -/
theorem canonical_of_modified_error (sound : v.Sound)
    (short : Text.byteLength path.text < pathLimit) {fault : Fault}
    (unknown : v.modified path = .error fault) : v.canonical path = .error fault := by
  cases reached : v.reach .read path with
  | error other =>
    rw [modified, locate_eq_reach short, reached] at unknown
    rw [canonical, reached]
    cases unknown
    rfl
  | ok location =>
    obtain ⟨node, found, noLink⟩ := (reach_settled sound reached).noLink
    obtain ⟨time, isTime⟩ : ∃ time, node.modified? = some time := by
      cases node with
      | file _ time => exact ⟨time, rfl⟩
      | directory time => exact ⟨time, rfl⟩
      | link target => exact absurd rfl (noLink target)
    have known : v.modified path = .ok time := modified_eq_ok_iff.mpr
      ⟨location, locate_eq_ok_iff.mpr ⟨short, reached⟩, by rw [found]; exact isTime⟩
    rw [known] at unknown
    cases unknown

end Times

end Volume

end Stylesheet
