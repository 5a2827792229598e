import Stylesheet.Layout
import Stylesheet.Proofs.Literals

set_option autoImplicit false

namespace Stylesheet.Text

/-- Some texts stand in a text, one after the other. -/
inductive Holds : List Text → Text → Prop
  | nil (t : Text) : Holds [] t
  | cons {s : Text} {texts : List Text} {t : Text} (before : Text) (rest : Holds texts t) :
      Holds (s :: texts) (before ++ (s ++ t))

/-- A text with a character of some kind at both ends. -/
def Framed (p : Char → Bool) (s : Text) : Prop := (∃ c ∈ s.head?, p c) ∧ ∃ c ∈ s.getLast?, p c

namespace Framed

variable {p : Char → Bool} {s : Text}

theorem mono {q : Char → Bool} (framed : Framed p s) (more : ∀ c, p c → q c) : Framed q s :=
  ⟨framed.1.imp fun c fits => ⟨fits.1, more c fits.2⟩,
    framed.2.imp fun c fits => ⟨fits.1, more c fits.2⟩⟩

/-- What a framed text begins with has a character of that kind. -/
theorem exists_of_isPrefix {x y : Text} (framed : Framed p s) (split : s = x ++ y)
    (nonempty : x ≠ []) : ∃ c ∈ x, p c := by
  obtain ⟨⟨c, first, holds⟩, -⟩ := framed
  rw [split, List.head?_append_of_ne_nil x nonempty] at first
  exact ⟨c, List.mem_of_head? first, holds⟩

theorem exists_of_isSuffix {x y : Text} (framed : Framed p s) (split : s = x ++ y)
    (nonempty : y ≠ []) : ∃ c ∈ y, p c := by
  obtain ⟨-, c, last, holds⟩ := framed
  rw [split, List.getLast?_append_of_ne_nil x nonempty] at last
  exact ⟨c, List.mem_of_getLast? last, holds⟩

theorem exists_mem (framed : Framed p s) : ∃ c ∈ s, p c := by
  obtain ⟨⟨c, first, holds⟩, -⟩ := framed
  exact ⟨c, List.mem_of_head? first, holds⟩

end Framed

theorem framed_of_closes {q : Char} {w : Text} (quotes : isQuote q) (closes : Closes [q] w) :
    Framed isQuote (q :: w) := by
  obtain ⟨u, rfl⟩ := closes.suffix
  exact ⟨⟨q, rfl, quotes⟩, q, by simp [List.getLast?_cons], quotes⟩

namespace Holds

variable {texts others : List Text} {t u : Text}

theorem append_left (holds : Holds texts t) (u : Text) : Holds texts (u ++ t) := by
  cases holds with
  | nil => exact .nil _
  | @cons s texts t before rest =>
    rw [← List.append_assoc]
    exact .cons (u ++ before) rest

theorem append_right (holds : Holds texts t) (u : Text) : Holds texts (t ++ u) := by
  induction holds with
  | nil => exact .nil _
  | @cons s texts t before rest ih =>
    rw [List.append_assoc, List.append_assoc]
    exact .cons before ih

theorem append (holds : Holds texts t) (later : Holds others u) :
    Holds (texts ++ others) (t ++ u) := by
  induction holds with
  | nil t => exact later.append_left t
  | @cons s texts t before rest ih =>
    rw [List.cons_append, List.append_assoc, List.append_assoc]
    exact .cons before ih

theorem sublist (fewer : others.Sublist texts) (holds : Holds texts t) : Holds others t := by
  induction fewer generalizing t with
  | slnil => exact .nil t
  | cons s _ ih =>
    cases holds with
    | cons before rest => exact ((ih rest).append_left s).append_left before
  | cons_cons s _ ih =>
    cases holds with
    | cons before rest => exact .cons before (ih rest)

theorem isInfix {s : Text} (holds : Holds [s] t) : s <:+: t := by
  generalize one : [s] = texts at holds
  cases holds with
  | nil => cases one
  | cons before rest =>
    cases one
    exact ⟨before, _, List.append_assoc before s _⟩

/-- Where a text is cut in two, each of the texts in it is in one part, or one of them is cut. -/
theorem cut (holds : Holds texts (t ++ u)) : ∃ first last,
    (texts = first ++ last ∧ Holds first t ∧ Holds last u) ∨
      ∃ x y t' u', texts = first ++ (x ++ y) :: last ∧ x ≠ [] ∧ y ≠ [] ∧ t = t' ++ x ∧
        u = y ++ u' := by
  generalize whole : t ++ u = v at holds
  induction holds generalizing t with
  | nil => exact ⟨[], [], .inl ⟨rfl, .nil _, .nil _⟩⟩
  | @cons s texts v before rest ih =>
    rcases List.append_eq_append_iff.mp whole with ⟨x, split, right⟩ | ⟨x, rfl, right⟩
    · -- The text is in the second part.
      refine ⟨[], s :: texts, .inl ⟨rfl, .nil _, ?_⟩⟩
      rw [right]
      exact .cons x rest
    · rcases List.append_eq_append_iff.mp right with ⟨y, rfl, later⟩ | ⟨y, rfl, later⟩
      · obtain ⟨first, last, cases⟩ := ih later.symm
        refine ⟨s :: first, last, ?_⟩
        rcases cases with ⟨rfl, inFirst, inLast⟩ | ⟨x', y', t', u', rfl, filled, more, rfl, rfl⟩
        · exact .inl ⟨rfl, .cons before inFirst, inLast⟩
        · exact .inr ⟨x', y', before ++ (s ++ t'), u', rfl, filled, more, by simp, rfl⟩
      · cases x with
        | nil =>
          refine ⟨[], y :: texts, .inl ⟨rfl, .nil _, ?_⟩⟩
          rw [later]
          exact .cons [] rest
        | cons c x =>
          cases y with
          | nil =>
            refine ⟨[c :: x ++ []], texts, .inl ⟨rfl, ?_, by simpa [later] using rest⟩⟩
            simpa using Holds.cons (s := c :: x) before (.nil [])
          | cons d y =>
            exact ⟨[], texts, .inr ⟨c :: x, d :: y, before, v, rfl, by simp, by simp, rfl, later⟩⟩

section

variable {p : Char → Bool} (framed : ∀ s ∈ texts, Framed p s)

include framed

theorem eq_nil_of_bare (holds : Holds texts t) (bare : ∀ c ∈ t, p c = false) : texts = [] := by
  cases holds with
  | nil => rfl
  | @cons s texts t before rest =>
    obtain ⟨c, member, fits⟩ := (framed s List.mem_cons_self).exists_mem
    rw [bare c (by simp [member])] at fits
    cases fits

/-- A part without the characters at the ends of the texts can be left out at the start. -/
theorem of_append_left (holds : Holds texts (t ++ u)) (bare : ∀ c ∈ t, p c = false) :
    Holds texts u := by
  obtain ⟨first, last, ⟨rfl, inFirst, inLast⟩ | ⟨x, y, t', u', rfl, filled, -, rfl, -⟩⟩ := holds.cut
  · obtain rfl := inFirst.eq_nil_of_bare (fun s member => framed s (by simp [member])) bare
    exact inLast
  · obtain ⟨c, member, fits⟩ := (framed (x ++ y) (by simp)).exists_of_isPrefix rfl filled
    rw [bare c (by simp [member])] at fits
    cases fits

theorem of_append_right (holds : Holds texts (t ++ u)) (bare : ∀ c ∈ u, p c = false) :
    Holds texts t := by
  obtain ⟨first, last, ⟨rfl, inFirst, inLast⟩ | ⟨x, y, t', u', rfl, -, filled, -, rfl⟩⟩ := holds.cut
  · obtain rfl := inLast.eq_nil_of_bare (fun s member => framed s (by simp [member])) bare
    simpa using inFirst
  · obtain ⟨c, member, fits⟩ := (framed (x ++ y) (by simp)).exists_of_isSuffix rfl filled
    rw [bare c (by simp [member])] at fits
    cases fits

/-- Around a part without these characters that lies in none of the texts, each text is on one side
of it. -/
theorem around {m : Text} (holds : Holds texts (t ++ (m ++ u))) (bare : ∀ c ∈ m, p c = false)
    (outside : ∀ s ∈ texts, ¬ m <:+: s) :
    ∃ first last, texts = first ++ last ∧ Holds first t ∧ Holds last u := by
  obtain ⟨first, last, ⟨rfl, inFirst, inLast⟩ | ⟨x, y, t', u', rfl, -, filled, -, split⟩⟩ :=
    holds.cut
  · exact ⟨first, last, rfl, inFirst,
      inLast.of_append_left (fun s member => framed s (by simp [member])) bare⟩
  · rcases List.append_eq_append_iff.mp split with ⟨z, rfl, -⟩ | ⟨z, rfl, -⟩
    · exact absurd ⟨x, z, by simp⟩ (outside (x ++ (m ++ z)) (by simp))
    · obtain ⟨c, member, fits⟩ := (framed (x ++ y) (by simp)).exists_of_isSuffix rfl filled
      rw [bare c (by simp [member])] at fits
      cases fits

/-- Texts are kept where matches are replaced, if each match that is changed has none of the
characters at their ends and lies in none of them. -/
theorem replace {length : Text → Nat} {f : Text → Text} (holds : Holds texts t)
    (changed : ∀ m, .found m ∈ pieces length t → f m ≠ m →
      (∀ c ∈ m, p c = false) ∧ ∀ s ∈ texts, ¬ m <:+: s) :
    Holds texts (Text.replace length f t) := by
  -- The text before goes along, since a string may begin in it.
  suffices whole : ∀ before, Holds texts (before ++ t) →
      Holds texts (before ++ Text.replace length f t) from whole [] holds
  clear holds
  induction size : t.length using Nat.strong_induction_on generalizing t texts with
  | _ n ih =>
    subst size
    intro before holds
    cases t with
    | nil => exact holds
    | cons c t =>
      by_cases unmatched : length (c :: t) = 0
      · rw [replace_cons unmatched]
        rw [pieces_plain unmatched] at changed
        simpa using ih t.length (by simp) framed
          (fun m found => changed m (List.mem_cons_of_mem _ found)) rfl (before ++ [c])
          (by simpa using holds)
      · have divided := pieces_of_match unmatched (List.cons_ne_nil c t)
        rw [replace_of_match unmatched (List.cons_ne_nil c t)]
        generalize cut : (c :: t).take (length (c :: t)) = m at divided
        have shorter : ((c :: t).drop (length (c :: t))).length < (c :: t).length := by
          rw [List.length_drop, List.length_cons]
          omega
        have whole := List.take_append_drop (length (c :: t)) (c :: t)
        rw [cut] at whole
        rw [← whole] at holds
        rw [divided] at changed
        have later := fun m found => changed m (List.mem_cons_of_mem _ found)
        by_cases same : f m = m
        · rw [same, ← List.append_assoc]
          exact ih _ shorter framed later rfl (before ++ m) (by simpa using holds)
        · obtain ⟨bare, outside⟩ := changed m List.mem_cons_self same
          obtain ⟨first, last, rfl, inFirst, inLast⟩ := holds.around framed bare outside
          have kept := ih _ shorter (fun s member => framed s (by simp [member]))
            (fun m found differs => ⟨(later m found differs).1, fun s member =>
              (later m found differs).2 s (by simp [member])⟩) rfl [] inLast
          exact inFirst.append (kept.append_left (f m))

end

theorem trim (holds : Holds texts t) (framed : ∀ s ∈ texts, Framed (!isBlank ·) s) :
    Holds texts (Text.trim t) := by
  obtain ⟨before, after, split, leads, trails⟩ := exists_append_trim t
  rw [split] at holds
  have started := of_append_right framed holds fun c member => by simp [trails c member]
  exact of_append_left framed started fun c member => by simp [leads c member]

end Holds

end Stylesheet.Text
