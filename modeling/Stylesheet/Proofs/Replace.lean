import Stylesheet.Text.Basic

set_option autoImplicit false

namespace Stylesheet.Text

variable {length : Text → Nat} {f : Text → Text}

theorem piecesFrom_eq_drop (length : Text → Nat) (skip : Nat) (t : Text) :
    piecesFrom length skip t = piecesFrom length 0 (t.drop skip) := by
  induction t generalizing skip with
  | nil => simp [piecesFrom]
  | cons c t ih =>
    cases skip with
    | zero => rfl
    | succ skip => exact ih skip

@[simp] theorem replace_nil : replace length f [] = [] := rfl

/-- Where no match starts, a character is kept. -/
theorem replace_cons {c : Char} {t : Text} (unmatched : length (c :: t) = 0) :
    replace length f (c :: t) = c :: replace length f t := by
  simp only [replace, pieces, piecesFrom, unmatched, List.flatMap_cons, Piece.render,
    List.singleton_append]

/-- Where a match starts, something else is put in its place. -/
theorem replace_append {m t : Text} (nonempty : m ≠ []) (found : length (m ++ t) = m.length) :
    replace length f (m ++ t) = f m ++ replace length f t := by
  obtain ⟨c, m, rfl⟩ := List.exists_cons_of_ne_nil nonempty
  rw [List.cons_append, List.length_cons] at found
  simp only [replace, pieces, List.cons_append, piecesFrom, found, List.flatMap_cons, Piece.render,
    piecesFrom_eq_drop length m.length, List.take_left, List.drop_left]

/-- A text in which no match starts is kept, whatever follows. -/
theorem replace_append_of_unmatched {t rest : Text}
    (unmatched : ∀ u, u <:+ t → u ≠ [] → length (u ++ rest) = 0) :
    replace length f (t ++ rest) = t ++ replace length f rest := by
  induction t with
  | nil => rfl
  | cons c t ih =>
    have later := ih fun u suffix => unmatched u (suffix.trans (List.suffix_cons c t))
    have here : length (c :: (t ++ rest)) = 0 := unmatched (c :: t) (List.suffix_refl _) (by simp)
    rw [List.cons_append, replace_cons here, later, List.cons_append]

theorem piecesFrom_eq_map {t : Text} (unmatched : ∀ u, u <:+ t → length u = 0) :
    piecesFrom length 0 t = t.map .plain := by
  induction t with
  | nil => rfl
  | cons c t ih =>
    have later := ih fun u suffix => unmatched u (suffix.trans (List.suffix_cons c t))
    simp only [piecesFrom, unmatched (c :: t) (List.suffix_refl _), later, List.map_cons]

/-- Without matches a text stays as it is. -/
theorem replace_eq_self {t : Text} (unmatched : ∀ u, u <:+ t → length u = 0) (f : Text → Text) :
    replace length f t = t := by
  rw [replace, pieces, piecesFrom_eq_map unmatched, List.flatMap_map]
  exact List.flatMap_singleton' t

theorem pieces_of_match {t : Text} (found : length t ≠ 0) (nonempty : t ≠ []) :
    pieces length t = .found (t.take (length t)) :: pieces length (t.drop (length t)) := by
  obtain ⟨c, t, rfl⟩ := List.exists_cons_of_ne_nil nonempty
  obtain ⟨more, isLength⟩ := Nat.exists_eq_succ_of_ne_zero found
  rw [isLength, pieces, piecesFrom, isLength]
  simp only [Nat.succ_eq_add_one, List.take_succ_cons, List.drop_succ_cons, pieces,
    piecesFrom_eq_drop length more]

theorem replace_of_match {t : Text} (found : length t ≠ 0) (nonempty : t ≠ []) :
    replace length f t = f (t.take (length t)) ++ replace length f (t.drop (length t)) := by
  rw [replace, pieces_of_match found nonempty, List.flatMap_cons]
  rfl

/-- Every text is put together from characters at which no match starts, and matches. -/
theorem parts_induction (length : Text → Nat) {P : Text → Prop} (nil : P [])
    (plain : ∀ {c : Char} {t : Text}, length (c :: t) = 0 → P t → P (c :: t))
    (found : ∀ {t : Text}, t ≠ [] → length t ≠ 0 → P (t.drop (length t)) → P t) (t : Text) :
    P t := by
  induction size : t.length using Nat.strongRecOn generalizing t with
  | ind bound ih =>
    cases t with
    | nil => exact nil
    | cons c t =>
      by_cases unmatched : length (c :: t) = 0
      · exact plain unmatched (ih _ (by simp [← size]) t rfl)
      · have shorter : ((c :: t).drop (length (c :: t))).length < bound := by
          rw [← size, List.length_drop, List.length_cons]
          omega
        exact found (List.cons_ne_nil c t) unmatched (ih _ shorter _ rfl)

/-- Two texts are divided apart if no match in the first one changes with the second one. -/
theorem pieces_append_of_length {a b : Text}
    (same : ∀ u, u <:+ a → u ≠ [] → length (u ++ b) = length u)
    (bounded : ∀ u, length u ≤ u.length) :
    pieces length (a ++ b) = pieces length a ++ pieces length b := by
  induction a using parts_induction length with
  | nil => rfl
  | @plain c t unmatched ih =>
    have divided {u : Text} (unmatched : length (c :: u) = 0) :
        pieces length (c :: u) = .plain c :: pieces length u := by
      rw [pieces, piecesFrom, unmatched]
      rfl
    have still : length (c :: (t ++ b)) = 0 :=
      (same (c :: t) (List.suffix_refl _) (List.cons_ne_nil c t)).trans unmatched
    have later := ih fun u suffix => same u (suffix.trans (List.suffix_cons c t))
    rw [divided unmatched, List.cons_append, divided still, later, List.cons_append]
  | @found t nonempty matched ih =>
    have here := same t (List.suffix_refl t) nonempty
    have later := ih fun u suffix => same u (suffix.trans (List.drop_suffix _ t))
    rw [pieces_of_match matched nonempty, pieces_of_match (by rwa [here]) (by simp [nonempty]),
      here, List.take_append_of_le_length (bounded t), List.drop_append_of_le_length (bounded t),
      later, List.cons_append]

/-- Where a character of the result comes from, and what follows it: it was kept, or it stands in
what replaces a match. -/
inductive Origin (length : Text → Nat) (f : Text → Text) (t : Text) (c : Char) (behind : Text) :
    Prop
  | kept {left right : Text} (split : t = left ++ c :: right) (unmatched : length (c :: right) = 0)
      (rest : behind = replace length f right)
  | found {left right first second : Text} (split : t = left ++ right) (matched : length right ≠ 0)
      (member : .found (right.take (length right)) ∈ pieces length t)
      (inside : f (right.take (length right)) = first ++ c :: second)
      (rest : behind = second ++ replace length f (right.drop (length right)))

theorem Origin.append {t behind : Text} {c : Char} (origin : Origin length f t c behind)
    {m whole : Text} (isWhole : whole = m ++ t) {piece : Piece}
    (divided : pieces length whole = piece :: pieces length t) :
    Origin length f whole c behind := by
  cases origin with
  | @kept left right split unmatched rest =>
    have place : whole = (m ++ left) ++ c :: right := by rw [isWhole, split, List.append_assoc]
    exact .kept place unmatched rest
  | @found left right first second split matched member inside rest =>
    have place : whole = (m ++ left) ++ right := by rw [isWhole, split, List.append_assoc]
    refine .found place matched ?_ inside rest
    rw [divided]
    exact List.mem_cons_of_mem piece member

/-- Every character of the result has an origin. -/
theorem exists_origin {c : Char} {t before behind : Text}
    (split : replace length f t = before ++ c :: behind) : Origin length f t c behind := by
  induction size : t.length using Nat.strongRecOn generalizing t before with
  | ind bound ih =>
    cases t with
    | nil => simp at split
    | cons d t =>
      by_cases unmatched : length (d :: t) = 0
      · have divided : pieces length (d :: t) = .plain d :: pieces length t := by
          rw [pieces, piecesFrom, unmatched]
          rfl
        rw [replace_cons unmatched] at split
        cases before with
        | nil =>
          obtain ⟨rfl, rfl⟩ := List.cons.inj split
          exact @Origin.kept length f _ _ _ [] t rfl unmatched rfl
        | cons e before =>
          have later := ih t.length (by simp [← size]) (List.cons.inj split).2 rfl
          exact later.append (m := [d]) rfl divided
      · have divided := pieces_of_match unmatched (List.cons_ne_nil d t)
        have isWhole := (List.take_append_drop (length (d :: t)) (d :: t)).symm
        have fewer : ((d :: t).drop (length (d :: t))).length < bound := by
          rw [← size, List.length_drop, List.length_cons]
          omega
        rw [replace_of_match unmatched (List.cons_ne_nil d t)] at split
        rcases List.append_eq_append_iff.mp split with ⟨rest, -, later⟩ | ⟨rest, inside, later⟩
        · exact (ih _ fewer later rfl).append isWhole divided
        · cases rest with
          | nil => exact (@ih _ fewer _ [] later.symm rfl).append isWhole divided
          | cons e rest =>
            obtain ⟨rfl, same⟩ := List.cons.inj later
            refine @Origin.found length f _ _ _ [] (d :: t) _ _ rfl unmatched ?_ inside same
            rw [divided]
            exact List.mem_cons_self

/-- A character of the result was in the text, or stands for a part of it. -/
theorem mem_replace {c : Char} {t : Text} (member : c ∈ replace length f t) :
    c ∈ t ∨ ∃ m, m <:+: t ∧ c ∈ f m := by
  obtain ⟨before, behind, split⟩ := List.append_of_mem member
  cases exists_origin split with
  | kept place => exact .inl (by simp [place])
  | @found left right first second place _ _ inside =>
    refine .inr ⟨right.take (length right), ?_, by simp [inside]⟩
    rw [place]
    exact (List.take_prefix _ _).isInfix.trans (List.suffix_append left right).isInfix

end Stylesheet.Text
