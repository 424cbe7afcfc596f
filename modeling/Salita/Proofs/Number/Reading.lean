import Salita.Number.Reading

namespace Salita

theorem Whole.ofInt?_eq_some_iff {n : Int} {value : Int64} :
    Whole.ofInt? n = some value ↔ value.toInt = n := by
  unfold Whole.ofInt? Whole.limit
  constructor
  · intro read
    split at read
    case isTrue inRange =>
      rw [← Option.some.inj read]
      exact Int64.toInt_ofInt_of_le inRange.1 inRange.2
    case isFalse => cases read
  · rintro rfl
    have low := value.le_toInt
    have high := value.toInt_lt
    rw [if_pos ⟨by omega, by omega⟩, Int64.ofInt_toInt]

end Salita

namespace Salita.Decimal

theorem le_foldl_shift (digits : List Char) (n : Nat) : n ≤ digits.foldl shift n := by
  induction digits generalizing n with
  | nil => exact Nat.le_refl n
  | cons digit digits ih =>
      have larger : n ≤ shift n digit := by
        unfold shift
        omega
      exact Nat.le_trans larger (ih (shift n digit))

theorem foldl_upTo (bound : Nat) (digits : List Char) (n : Nat) :
    (digits.foldl shift n < bound →
      digits.foldl (fun n digit => if n < bound then shift n digit else n) n =
        digits.foldl shift n) ∧
    (bound ≤ digits.foldl shift n →
      bound ≤ digits.foldl (fun n digit => if n < bound then shift n digit else n) n) := by
  induction digits generalizing n with
  | nil => exact ⟨fun _ => rfl, id⟩
  | cons digit digits ih =>
      simp only [List.foldl_cons]
      by_cases below : n < bound
      · rw [if_pos below]
        exact ih (shift n digit)
      · have least := le_foldl_shift digits n
        have more := le_foldl_shift (digit :: digits) n
        rw [if_neg below]
        simp only [List.foldl_cons] at more
        refine ⟨fun small => by omega, fun _ => (ih n).2 (by omega)⟩

theorem splitSign_of_head {c : Char} {text : List Char} (unsigned : c ≠ '+' ∧ c ≠ '-') :
    splitSign (c :: text) = (false, c :: text) := by
  unfold splitSign
  split <;> simp_all

/-- The bound on the value leaves out no number of 64 bits. -/
theorem ofInt?_signed_valueUpTo {negative : Bool} {digits : List Char} {value : Int64} :
    Whole.ofInt? (signed negative (valueUpTo 0x10000000000000000 digits)) = some value ↔
      value.toInt = signed negative (valueOf digits) := by
  have upTo := foldl_upTo 0x10000000000000000 digits 0
  have low := value.le_toInt
  have high := value.toInt_lt
  rw [Whole.ofInt?_eq_some_iff]
  unfold valueUpTo valueOf signed
  by_cases small : digits.foldl shift 0 < 0x10000000000000000
  · rw [upTo.1 small]
  · have large := upTo.2 (by omega)
    cases negative <;> simp only [Bool.false_eq_true, if_false, if_true] <;> omega

theorem readWhole?_eq_some_iff_splitSign {text : List Char} {value : Int64} :
    readWhole? text = some value ↔ ((splitSign text).2 ≠ [] ∧
      ∀ c ∈ (splitSign text).2, c.isDigit = true) ∧
        value.toInt = signed (splitSign text).1 (valueOf (splitSign text).2) := by
  rw [readWhole?]
  simp only [← List.all_eq_true]
  split
  case isTrue run => rw [ofInt?_signed_valueUpTo, and_iff_right run]
  case isFalse unread => exact ⟨nofun, fun read => absurd read.1 unread⟩

theorem readWhole?_eq_some_iff {text : List Char} {value : Int64} (nonempty : text ≠ [])
    (digits : ∀ c ∈ text, c.isDigit = true) :
    readWhole? text = some value ↔ value.toInt = valueOf text := by
  obtain ⟨c, rest, rfl⟩ := List.exists_cons_of_ne_nil nonempty
  have unsigned : c ≠ '+' ∧ c ≠ '-' := by
    have digit := digits c (by simp)
    constructor <;> rintro rfl <;> simp at digit
  rw [readWhole?_eq_some_iff_splitSign, splitSign_of_head unsigned]
  exact and_iff_right ⟨nonempty, digits⟩

theorem readUnsigned?_pointed {whole fraction : List Char}
    (before : ∀ c ∈ whole, c.isDigit = true) (behind : ∀ c ∈ fraction, c.isDigit = true)
    (nonempty : whole ≠ [] ∨ fraction ≠ []) :
    readUnsigned? (whole ++ '.' :: fraction) =
      some (roundDigits (whole ++ fraction) (0 - fraction.length)) := by
  have point : Char.isDigit '.' = false := rfl
  have fractionTaken : fraction.takeWhile Char.isDigit = fraction := by
    have taken : (fraction ++ []).takeWhile Char.isDigit = fraction ++ [].takeWhile Char.isDigit :=
      List.takeWhile_append_of_pos behind
    simpa using taken
  have fractionDropped : fraction.dropWhile Char.isDigit = [] := by
    have dropped : (fraction ++ []).dropWhile Char.isDigit = [].dropWhile Char.isDigit :=
      List.dropWhile_append_of_pos behind
    simpa using dropped
  have someDigit : ¬ (whole = [] ∧ fraction = []) := by
    rintro ⟨rfl, rfl⟩
    simp at nonempty
  simp only [readUnsigned?, List.takeWhile_append_of_pos before,
    List.dropWhile_append_of_pos before, List.takeWhile_cons, List.dropWhile_cons, point,
    Bool.false_eq_true, if_false, List.append_nil, fractionTaken, fractionDropped, someDigit,
    readExponent?]
  rfl

theorem readFloat?_pointed {whole fraction : List Char}
    (before : ∀ c ∈ whole, c.isDigit = true) :
    readFloat? (whole ++ '.' :: fraction) = readUnsigned? (whole ++ '.' :: fraction) := by
  obtain ⟨c, rest, split, head⟩ : ∃ c rest, whole ++ '.' :: fraction = c :: rest ∧
      (c.isDigit = true ∨ c = '.') := by
    cases whole with
    | nil => exact ⟨'.', fraction, rfl, .inr rfl⟩
    | cons c whole => exact ⟨c, whole ++ '.' :: fraction, rfl, .inl (before c (by simp))⟩
  have unsigned : c ≠ '+' ∧ c ≠ '-' := by
    constructor <;> rintro rfl <;> simp at head
  have lower : c.toLower = c := by
    obtain digit | rfl := head
    · simp only [Char.isDigit, Bool.and_eq_true, decide_eq_true_eq] at digit
      delta Char.toLower
      rw [dif_neg]
      grind
    · rfl
  have notNamed {letter : Char} (name : List Char) (first : name.head? = some letter)
      (plain : letter.isDigit = false ∧ letter ≠ '.') : (c :: rest).map Char.toLower ≠ name := by
    intro named
    rw [← named, List.map_cons, List.head?_cons, lower] at first
    rw [Option.some.inj first] at head
    simp [plain] at head
  rw [split, readFloat?, splitSign_of_head unsigned]
  simp only
  rw [if_neg, if_neg]
  · cases readUnsigned? (c :: rest) <;> rfl
  · exact notNamed "nan".toList rfl ⟨rfl, by decide⟩
  · intro named
    rcases named with short | long
    · exact notNamed "inf".toList rfl ⟨rfl, by decide⟩ short
    · exact notNamed "infinity".toList rfl ⟨rfl, by decide⟩ long

end Salita.Decimal
