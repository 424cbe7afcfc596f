import Salita.Text.Blank

namespace Salita.Text

def whiteSpace : List Nat :=
  [0x9, 0xa, 0xb, 0xc, 0xd, 0x20, 0x85, 0xa0, 0x1680, 0x2000, 0x2001, 0x2002, 0x2003, 0x2004,
    0x2005, 0x2006, 0x2007, 0x2008, 0x2009, 0x200a, 0x2028, 0x2029, 0x202f, 0x205f, 0x3000]

def IsWhite (c : Char) : Prop := c.toNat ∈ whiteSpace

instance (c : Char) : Decidable (IsWhite c) := inferInstanceAs (Decidable (_ ∈ _))

theorem isBlank_iff {c : Char} : isBlank c = true ↔ IsWhite c := by
  simp only [isBlank, IsWhite, whiteSpace, List.mem_cons, List.not_mem_nil, or_false,
    Bool.or_eq_true, Bool.and_eq_true, decide_eq_true_eq, beq_iff_eq]
  omega

structure Trims (text core : List Char) : Prop where
  around : ∃ left right, text = left ++ (core ++ right) ∧ (∀ c ∈ left, IsWhite c) ∧
    ∀ c ∈ right, IsWhite c
  first : ∀ c ∈ core.head?, ¬ IsWhite c
  last : ∀ c ∈ core.getLast?, ¬ IsWhite c

theorem dropWhile_isBlank {blanks rest : List Char} (white : ∀ c ∈ blanks, IsWhite c)
    (solid : ∀ c ∈ rest.head?, ¬ IsWhite c) : (blanks ++ rest).dropWhile isBlank = rest := by
  rw [List.dropWhile_append_of_pos fun c member => isBlank_iff.2 (white c member)]
  cases rest with
  | nil => rfl
  | cons c rest => exact List.dropWhile_cons_of_neg fun blank => solid c rfl (isBlank_iff.1 blank)

theorem exists_dropWhile_isBlank (text : List Char) :
    ∃ blanks, text = blanks ++ text.dropWhile isBlank ∧ (∀ c ∈ blanks, IsWhite c) ∧
      ∀ c ∈ (text.dropWhile isBlank).head?, ¬ IsWhite c := by
  refine ⟨text.takeWhile isBlank, List.takeWhile_append_dropWhile.symm, ?_, ?_⟩
  · intro c member
    exact isBlank_iff.1 (List.all_eq_true.1 List.all_takeWhile c member)
  · intro c first white
    have solid := List.head?_dropWhile_not isBlank text
    rw [Option.mem_def.1 first] at solid
    simp [isBlank_iff.2 white] at solid

theorem trims_trim (text : List Char) : Trims text (trim text) := by
  obtain ⟨left, split, leftWhite, first⟩ := exists_dropWhile_isBlank text
  obtain ⟨right, mirrored, rightWhite, last⟩ :=
    exists_dropWhile_isBlank (text.dropWhile isBlank).reverse
  have core : text.dropWhile isBlank = trim text ++ right.reverse := by
    rw [trim, ← List.reverse_append, ← mirrored, List.reverse_reverse]
  constructor
  · refine ⟨left, right.reverse, by rw [← core, ← split], leftWhite, ?_⟩
    intro c member
    exact rightWhite c (List.mem_reverse.1 member)
  · intro c head
    refine first c ?_
    rw [core, List.head?_append, Option.mem_def.1 head]
    rfl
  · intro c tail
    rw [trim, List.getLast?_reverse] at tail
    exact last c tail

theorem Trims.trim_eq {text core : List Char} (trims : Trims text core) : trim text = core := by
  obtain ⟨⟨left, right, rfl, leftWhite, rightWhite⟩, first, last⟩ := trims
  cases core with
  | nil =>
      have white : ∀ c ∈ left ++ right, IsWhite c := by
        intro c member
        exact (List.mem_append.1 member).elim (leftWhite c) (rightWhite c)
      have dropped : (left ++ right ++ []).dropWhile isBlank = [] :=
        dropWhile_isBlank white (by simp)
      rw [List.append_nil] at dropped
      rw [trim, List.nil_append, dropped]
      rfl
  | cons c core =>
      have dropped : (left ++ (c :: core ++ right)).dropWhile isBlank = c :: core ++ right :=
        dropWhile_isBlank leftWhite first
      rw [trim, dropped, List.reverse_append, dropWhile_isBlank, List.reverse_reverse]
      · intro d member
        exact rightWhite d (List.mem_reverse.1 member)
      · rwa [List.head?_reverse]

end Salita.Text
