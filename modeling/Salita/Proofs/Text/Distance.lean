import Mathlib.Data.List.Infix
import Mathlib.Order.Bounds.Basic
import Salita.Text.Distance

namespace Salita.Text

/-- One character is inserted, deleted or replaced by another one, and the others stay. -/
inductive Edit : List Char → List Char → Prop
  | insert (c : Char) (text : List Char) : Edit text (c :: text)
  | delete (c : Char) (text : List Char) : Edit (c :: text) text
  | replace {c d : Char} (different : c ≠ d) (text : List Char) : Edit (c :: text) (d :: text)
  | behind {a b : List Char} (c : Char) (edit : Edit a b) : Edit (c :: a) (c :: b)

inductive Edits : Nat → List Char → List Char → Prop
  | none (text : List Char) : Edits 0 text text
  | more {n : Nat} {a b c : List Char} (first : Edit a b) (others : Edits n b c) :
      Edits (n + 1) a c

variable {a b c t : List Char} {m n : Nat}

theorem Edit.symm (edit : Edit a b) : Edit b a := by
  induction edit with
  | insert c text => exact .delete c text
  | delete c text => exact .insert c text
  | replace different text => exact .replace different.symm text
  | behind c edit ih => exact .behind c ih

theorem Edit.append_left (edit : Edit a b) : Edit (t ++ a) (t ++ b) := by
  induction t with
  | nil => exact edit
  | cons c t ih => exact .behind c ih

theorem Edit.append_right (edit : Edit a b) : Edit (a ++ t) (b ++ t) := by
  induction edit with
  | insert c text => exact .insert c (text ++ t)
  | delete c text => exact .delete c (text ++ t)
  | replace different text => exact .replace different (text ++ t)
  | behind c edit ih => exact .behind c ih

theorem Edit.reverse (edit : Edit a b) : Edit a.reverse b.reverse := by
  induction edit with
  | insert c text => simpa using (Edit.insert c []).append_left (t := text.reverse)
  | delete c text => simpa using (Edit.delete c []).append_left (t := text.reverse)
  | replace different text =>
      simpa using (Edit.replace different []).append_left (t := text.reverse)
  | behind c edit ih => simpa using ih.append_right (t := [c])

theorem Edits.trans (left : Edits m a b) (right : Edits n b c) : Edits (m + n) a c := by
  induction left with
  | none text => rwa [Nat.zero_add]
  | more first others ih =>
      rw [Nat.succ_add]
      exact .more first (ih right)

theorem Edits.symm (edits : Edits n a b) : Edits n b a := by
  induction edits with
  | none text => exact .none text
  | more first others ih => exact ih.trans (.more first.symm (.none _))

theorem Edits.reverse (edits : Edits n a b) : Edits n a.reverse b.reverse := by
  induction edits with
  | none text => exact .none text.reverse
  | more first others ih => exact .more first.reverse ih

theorem Edits.behind (d : Char) (edits : Edits n a b) : Edits n (d :: a) (d :: b) := by
  induction edits with
  | none text => exact .none (d :: text)
  | more first others ih => exact .more (first.behind d) ih

theorem Edits.zero_iff : Edits 0 a b ↔ a = b := by
  constructor
  · rintro ⟨⟩
    rfl
  · rintro rfl
    exact .none a

/-- The distance by its first characters: the first one of `a` is deleted, the first one of `b` is
inserted, or the one is put in place of the other, which takes an edit unless they are equal. -/
def levenshtein : List Char → List Char → Nat
  | [], b => b.length
  | c :: a, [] => (c :: a).length
  | c :: a, d :: b =>
      min (min (levenshtein a (d :: b) + 1) (levenshtein (c :: a) b + 1))
        (levenshtein a b + if c = d then 0 else 1)

@[simp] theorem levenshtein_nil_left : levenshtein [] b = b.length := by rw [levenshtein]

@[simp] theorem levenshtein_nil_right : levenshtein a [] = a.length := by
  cases a <;> rw [levenshtein]

theorem levenshtein_cons_left_le (d : Char) (a b : List Char) :
    levenshtein (d :: a) b ≤ levenshtein a b + 1 := by
  cases b with
  | nil => simp
  | cons e b =>
      rw [levenshtein]
      omega

theorem levenshtein_cons_right_le (d : Char) (a b : List Char) :
    levenshtein a (d :: b) ≤ levenshtein a b + 1 := by
  cases a with
  | nil => simp
  | cons e a =>
      rw [levenshtein]
      omega

theorem Edit.levenshtein_le (edit : Edit a b) (c : List Char) :
    levenshtein a c ≤ levenshtein b c + 1 := by
  induction edit generalizing c with
  | insert d text =>
      induction c with
      | nil => simp; omega
      | cons e c ih =>
          have first := levenshtein_cons_right_le e text c
          rw [levenshtein]
          omega
  | delete d text => exact levenshtein_cons_left_le d text c
  | @replace d e different text =>
      induction c with
      | nil => simp
      | cons f c ih =>
          rw [levenshtein, levenshtein]
          split <;> split <;> omega
  | @behind a b d edit ih =>
      induction c with
      | nil =>
          have := ih []
          simp only [levenshtein_nil_right, List.length_cons] at this ⊢
          omega
      | cons e c inner =>
          have above := ih (e :: c)
          have diagonal := ih c
          rw [levenshtein, levenshtein]
          omega

theorem levenshtein_self (a : List Char) : levenshtein a a = 0 := by
  induction a with
  | nil => rw [levenshtein_nil_left, List.length_nil]
  | cons c a ih =>
      rw [levenshtein, ih, if_pos rfl]
      omega

theorem Edits.levenshtein_le (edits : Edits n a b) : levenshtein a b ≤ n := by
  induction edits with
  | none text => rw [levenshtein_self]
  | @more n a b c first others ih =>
      have := first.levenshtein_le c
      omega

theorem edits_levenshtein (a b : List Char) : Edits (levenshtein a b) a b := by
  fun_induction levenshtein a b with
  | case1 b =>
      induction b with
      | nil => exact .none []
      | cons d b ih => exact .more (.insert d []) (ih.behind d)
  | case2 c a =>
      induction a generalizing c with
      | nil => exact .more (.delete c []) (.none [])
      | cons d a ih => exact .more (.delete c (d :: a)) (ih d)
  | case3 c a d b deleted inserted replaced =>
      -- The least of the three numbers is one of them.
      rcases le_total (min (levenshtein a (d :: b) + 1) (levenshtein (c :: a) b + 1))
        (levenshtein a b + if c = d then 0 else 1) with outer | outer
      · rw [min_eq_left outer]
        rcases le_total (levenshtein a (d :: b) + 1) (levenshtein (c :: a) b + 1) with inner | inner
        · rw [min_eq_left inner]
          exact .more (.delete c a) deleted
        · rw [min_eq_right inner]
          exact .more (.insert d (c :: a)) (inserted.behind d)
      · rw [min_eq_right outer]
        split
        case isTrue equal =>
          rw [equal]
          exact replaced.behind d
        case isFalse different => exact .more (.replace different a) (replaced.behind d)

theorem isLeast_levenshtein (a b : List Char) : IsLeast {n | Edits n a b} (levenshtein a b) :=
  ⟨edits_levenshtein a b, fun _ edits => Edits.levenshtein_le edits⟩

theorem levenshtein_comm (a b : List Char) : levenshtein a b = levenshtein b a :=
  le_antisymm (edits_levenshtein b a).symm.levenshtein_le
    (edits_levenshtein a b).symm.levenshtein_le

theorem levenshtein_reverse (a b : List Char) :
    levenshtein a.reverse b.reverse = levenshtein a b := by
  refine le_antisymm (edits_levenshtein a b).reverse.levenshtein_le ?_
  have back := (edits_levenshtein a.reverse b.reverse).reverse
  rw [List.reverse_reverse, List.reverse_reverse] at back
  exact back.levenshtein_le

theorem levenshtein_concat (a b : List Char) (c d : Char) :
    levenshtein (a ++ [c]) (b ++ [d]) =
      min (min (levenshtein a (b ++ [d]) + 1) (levenshtein (a ++ [c]) b + 1))
        (levenshtein a b + if c = d then 0 else 1) := by
  rw [← levenshtein_reverse (a ++ [c]), ← levenshtein_reverse a (b ++ [d]),
    ← levenshtein_reverse (a ++ [c]) b, ← levenshtein_reverse a b]
  simp only [List.reverse_append, List.reverse_cons, List.reverse_nil, List.nil_append,
    List.cons_append]
  rw [levenshtein]

/-- Equal characters at the ends are kept: no other way takes fewer edits. -/
theorem levenshtein_concat_eq_ite (a b : List Char) (c d : Char) :
    levenshtein (a ++ [c]) (b ++ [d]) =
      if c = d then levenshtein a b
      else 1 + min (levenshtein a b) (min (levenshtein a (b ++ [d])) (levenshtein (a ++ [c]) b)) := by
  have deleted : levenshtein a b ≤ levenshtein (a ++ [c]) b + 1 := by
    refine Edit.levenshtein_le ?_ b
    simpa using (Edit.insert c []).append_left (t := a)
  have inserted : levenshtein a b ≤ levenshtein a (b ++ [d]) + 1 := by
    rw [levenshtein_comm a b, levenshtein_comm a]
    refine Edit.levenshtein_le ?_ a
    simpa using (Edit.insert d []).append_left (t := b)
  rw [levenshtein_concat]
  split <;> omega

def row (read start b : List Char) : List Nat :=
  b.inits.map fun more => levenshtein read (start ++ more)

@[simp] theorem row_nil (read start : List Char) : row read start [] = [levenshtein read start] := by
  simp [row]

@[simp] theorem row_cons (read start b : List Char) (d : Char) :
    row read start (d :: b) = levenshtein read start :: row read (start ++ [d]) b := by
  simp [row, Function.comp_def]

@[simp] theorem length_row (read start b : List Char) : (row read start b).length = b.length + 1 := by
  simp [row]

theorem row_eq_cons (read start b : List Char) :
    row read start b = levenshtein read start :: (row read start b).tail := by
  cases b <;> simp

theorem row_nil_left (start b : List Char) :
    row [] start b = List.range' start.length (b.length + 1) := by
  induction b generalizing start with
  | nil => simp
  | cons d b ih =>
      rw [row_cons, ih, levenshtein_nil_left, List.length_append, List.length_singleton,
        ← List.range'_succ, List.length_cons]

theorem getLastD_row (read start b : List Char) :
    (row read start b).getLastD 0 = levenshtein read (start ++ b) := by
  induction b generalizing start with
  | nil => simp
  | cons d b ih =>
      have rest := ih (start ++ [d])
      rw [List.append_assoc, List.singleton_append] at rest
      rw [← rest, row_cons, row_eq_cons _ (start ++ [d]), List.getLastD_cons, List.getLastD_cons,
        List.getLastD_cons]

theorem rowBehind_row (read start b : List Char) (c : Char) :
    rowBehind c (levenshtein read start) (levenshtein (read ++ [c]) start) b
        (row read start b).tail =
      (row (read ++ [c]) start b).tail := by
  induction b generalizing start with
  | nil => simp [rowBehind]
  | cons d b ih =>
      rw [row_cons, row_cons, List.tail_cons, List.tail_cons, row_eq_cons read,
        row_eq_cons (read ++ [c]), rowBehind, ← levenshtein_concat_eq_ite, ih]

theorem nextRow_row (read b : List Char) (c : Char) :
    nextRow b (row read [] b) c = row (read ++ [c]) [] b := by
  have first : levenshtein read [] + 1 = levenshtein (read ++ [c]) [] := by simp
  rw [row_eq_cons, nextRow, first, rowBehind_row, ← row_eq_cons]

theorem foldl_nextRow (read a b : List Char) :
    a.foldl (nextRow b) (row read [] b) = row (read ++ a) [] b := by
  induction a generalizing read with
  | nil => rw [List.foldl_nil, List.append_nil]
  | cons c a ih => rw [List.foldl_cons, nextRow_row, ih, List.append_assoc, List.singleton_append]

theorem range_eq_row (b : List Char) : List.range (b.length + 1) = row [] [] b := by
  rw [row_nil_left, List.range_eq_range', List.length_nil]

theorem foldl_nextRow_range (a b : List Char) :
    a.foldl (nextRow b) (List.range (b.length + 1)) = row a [] b := by
  rw [range_eq_row, foldl_nextRow, List.nil_append]

theorem distance_eq_levenshtein (a b : List Char) : distance a b = levenshtein a b := by
  rw [distance, foldl_nextRow_range, getLastD_row, List.nil_append]

/-- The entries behind the first, each written over the entry of the last row at its place `j + 1`.
Nothing results if the row has no such entry. -/
def overwrite? (c : Char) : List Char → Nat → Nat → List Nat → Option (List Nat)
  | [], _, _, row => some row
  | d :: b, j, diagonal, row => do
      let above ← row[j + 1]?
      let left ← row[j]?
      let entry := if c = d then diagonal else 1 + min (min diagonal above) left
      overwrite? c b (j + 1) above (row.set (j + 1) entry)

def overwriteAll? (b : List Char) : List Char → Nat → List Nat → Option (List Nat)
  | [], _, row => some row
  | c :: a, i, row => do
      let diagonal ← row[0]?
      let row ← overwrite? c b 0 diagonal (row.set 0 (i + 1))
      overwriteAll? b a (i + 1) row

/-- The distance by a single row that is changed where it stands, with a check of every place at which
it is read or written. -/
def distanceInPlace? (a b : List Char) : Option Nat := do
  let row ← overwriteAll? b a 0 (List.range (b.length + 1))
  row[b.length]?

/-- Half-way through, the row has the new entries in front and the old ones behind. -/
theorem overwrite?_eq (c : Char) (b : List Char) (front old : List Nat) (diagonal left : Nat)
    (complete : old.length = b.length) :
    overwrite? c b front.length diagonal (front ++ left :: old) =
      some (front ++ left :: rowBehind c diagonal left b old) := by
  induction b generalizing front old diagonal left with
  | nil =>
      rw [List.length_eq_zero_iff.1 complete]
      rfl
  | cons d b ih =>
      obtain ⟨above, old, rfl⟩ := List.exists_cons_of_length_eq_add_one complete
      have rest := ih (front ++ [left]) old above
        (if c = d then diagonal else 1 + min diagonal (min above left)) (by simpa using complete)
      simp only [List.append_assoc, List.singleton_append, List.length_append,
        List.length_singleton] at rest
      simp [overwrite?, rowBehind, min_assoc, rest]

theorem overwriteAll?_row (read a b : List Char) :
    overwriteAll? b a read.length (row read [] b) = some (row (read ++ a) [] b) := by
  induction a generalizing read with
  | nil => rw [overwriteAll?, List.append_nil]
  | cons c a ih =>
      have next := nextRow_row read b c
      rw [row_eq_cons, nextRow, levenshtein_nil_right] at next
      have changed := overwrite?_eq c b [] (row read [] b).tail read.length (read.length + 1)
        (by simp)
      rw [List.length_nil, List.nil_append, List.nil_append, next] at changed
      have rest := ih (read ++ [c])
      rw [List.length_append, List.length_singleton, List.append_assoc, List.singleton_append] at rest
      rw [overwriteAll?, row_eq_cons]
      simp [changed, rest]

theorem distanceInPlace?_eq (a b : List Char) : distanceInPlace? a b = some (distance a b) := by
  have all := overwriteAll?_row [] a b
  rw [← range_eq_row, List.length_nil, List.nil_append] at all
  have last : (row a [] b)[b.length]? = some (distance a b) := by
    simp [row, List.getElem_inits, distance_eq_levenshtein]
  rw [distanceInPlace?, all]
  exact last

/-- The distance is what the recursion on both texts gives, and the least number of edits that turn
the one text into the other. Each row has an entry for every beginning of `b`, so that a row that is
written over is nowhere read beyond its end. The distance is a metric. -/
theorem distance_least_edits (a b : List Char) :
    distance a b = levenshtein a b ∧ IsLeast {n | Edits n a b} (distance a b) ∧
      (∀ read : List Char,
        read.foldl (nextRow b) (List.range (b.length + 1)) = b.inits.map (levenshtein read)) ∧
      distanceInPlace? a b = some (distance a b) ∧
      (distance a b = 0 ↔ a = b) ∧ distance a b = distance b a ∧
      ∀ c, distance a c ≤ distance a b + distance b c := by
  refine ⟨distance_eq_levenshtein a b, ?_, fun read => ?_, distanceInPlace?_eq a b, ?_, ?_,
    fun c => ?_⟩
  · rw [distance_eq_levenshtein]
    exact isLeast_levenshtein a b
  · rw [foldl_nextRow_range]
    rfl
  · rw [distance_eq_levenshtein, ← Edits.zero_iff]
    constructor
    · intro zero
      rw [← zero]
      exact edits_levenshtein a b
    · exact fun edits => Nat.le_zero.1 edits.levenshtein_le
  · rw [distance_eq_levenshtein, distance_eq_levenshtein, levenshtein_comm]
  · simp only [distance_eq_levenshtein]
    exact ((edits_levenshtein a b).trans (edits_levenshtein b c)).levenshtein_le

end Salita.Text
