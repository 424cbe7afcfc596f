import Mathlib.Data.List.Induction
import Mathlib.Data.Nat.Digits.Defs
import Salita.Builtin.Dispatch
import Salita.Proofs.Evaluation.Arithmetic
import Salita.Proofs.Text.Blank
import Salita.Proofs.Token.Spelling

namespace Salita.Decimal

open Lexer (IsDigits)

def digitValue (c : Char) : Nat := c.toNat - '0'.toNat

def placeValue (digits : List Char) : Nat := Nat.ofDigits 10 (digits.reverse.map digitValue)

theorem placeValue_eq (digits : List Char) : placeValue digits = valueOf digits := by
  induction digits using List.reverseRecOn with
  | nil => rfl
  | append_singleton digits digit ih =>
      rw [placeValue, List.reverse_concat, List.map_cons, Nat.ofDigits_cons, valueOf,
        List.foldl_concat, ← valueOf, ← ih]
      exact Nat.add_comm _ _

inductive Numeral : List Char → Int → Prop
  | unsigned {digits : List Char} (run : IsDigits digits) : Numeral digits (placeValue digits)
  | plus {digits : List Char} (run : IsDigits digits) : Numeral ('+' :: digits) (placeValue digits)
  | minus {digits : List Char} (run : IsDigits digits) :
      Numeral ('-' :: digits) (-placeValue digits)

theorem ne_sign_of_isDigit {c : Char} (digit : c.isDigit = true) : c ≠ '+' ∧ c ≠ '-' := by
  constructor <;> rintro rfl <;> cases digit

theorem splitSign_of_isDigits {text : List Char} (run : IsDigits text) :
    splitSign text = (false, text) := by
  obtain ⟨c, rest, rfl⟩ := List.exists_cons_of_ne_nil run.1
  exact splitSign_of_head (ne_sign_of_isDigit (run.2 c List.mem_cons_self))

theorem numeral_iff {text : List Char} {n : Int} :
    Numeral text n ↔ IsDigits (splitSign text).2 ∧
      n = signed (splitSign text).1 (valueOf (splitSign text).2) := by
  constructor
  · intro numeral
    cases numeral with
    | unsigned run =>
        rw [placeValue_eq, splitSign_of_isDigits run]
        exact ⟨run, rfl⟩
    | plus run => exact ⟨run, by rw [placeValue_eq]; rfl⟩
    | minus run => exact ⟨run, by rw [placeValue_eq]; rfl⟩
  · rintro ⟨run, rfl⟩
    unfold splitSign at run ⊢
    split at run <;> rw [← placeValue_eq]
    case h_1 => exact .plus run
    case h_2 => exact .minus run
    case h_3 => exact .unsigned run

theorem readWhole?_eq_some_iff_numeral {text : List Char} {value : Int64} :
    readWhole? text = some value ↔ Numeral text value.toInt := by
  rw [readWhole?_eq_some_iff_splitSign, numeral_iff]
  rfl

theorem numeral_repr (n : Int) : Numeral n.repr.toList n := by
  have digits (m : Nat) : IsDigits m.repr.toList ∧ placeValue m.repr.toList = m := by
    have run := Lexer.isDigits_repr 0 m
    have value := Lexer.valueOf_repr 0 m
    rw [List.replicate_zero, List.nil_append] at run value
    exact ⟨run, by rw [placeValue_eq, value]⟩
  cases n with
  | ofNat m =>
      have numeral := Numeral.unsigned (digits m).1
      rwa [(digits m).2] at numeral
  | negSucc m =>
      have numeral := Numeral.minus (digits (m + 1)).1
      rw [(digits (m + 1)).2] at numeral
      have minus : (Int.negSucc m).repr.toList = '-' :: (m + 1).repr.toList := String.toList_append
      rw [minus]
      exact numeral

theorem not_isWhite_of_isDigit {c : Char} (digit : c.isDigit = true) : ¬ Text.IsWhite c := by
  obtain ⟨low, high⟩ : 48 ≤ c.toNat ∧ c.toNat ≤ 57 := Char.isDigit_iff_toNat.1 digit
  simp only [Text.IsWhite, Text.whiteSpace, List.mem_cons, List.not_mem_nil, or_false]
  omega

theorem Numeral.not_isWhite {text : List Char} {n : Int} (numeral : Numeral text n) :
    ∀ c ∈ text, ¬ Text.IsWhite c := by
  cases numeral with
  | unsigned run => exact fun c member => not_isWhite_of_isDigit (run.2 c member)
  | plus run =>
      refine List.forall_mem_cons.2 ⟨by decide, fun c member => ?_⟩
      exact not_isWhite_of_isDigit (run.2 c member)
  | minus run =>
      refine List.forall_mem_cons.2 ⟨by decide, fun c member => ?_⟩
      exact not_isWhite_of_isDigit (run.2 c member)

def IsWhole (text : String) (n : Int) : Prop :=
  ∃ core, Text.Trims text.toList core ∧ Numeral core n ∧ Whole.InRange n

theorem Numeral.trims {text : List Char} {n : Int} (numeral : Numeral text n) :
    Text.Trims text text where
  around := ⟨[], [], by simp, by simp, by simp⟩
  first c head := numeral.not_isWhite c (List.mem_of_mem_head? head)
  last c tail := numeral.not_isWhite c (List.mem_of_getLast? tail)

theorem isWhole_of_numeral {text : List Char} {value : Int64} (numeral : Numeral text value.toInt) :
    IsWhole (String.ofList text) value.toInt := by
  refine ⟨text, ?_, numeral, Whole.inRange_toInt value⟩
  rw [String.toList_ofList]
  exact numeral.trims

theorem readWhole?_trim_eq_some_iff {text : String} {value : Int64} :
    readWhole? (Text.trim text.toList) = some value ↔ IsWhole text value.toInt := by
  rw [readWhole?_eq_some_iff_numeral]
  constructor
  · intro numeral
    exact ⟨_, Text.trims_trim text.toList, numeral, Whole.inRange_toInt value⟩
  · rintro ⟨core, trims, numeral, -⟩
    rwa [trims.trim_eq]

end Salita.Decimal

namespace Salita

open Decimal (IsWhole)
open Lexer (IsDigits)
open Text (byteCount)

theorem lex_int {source : String} {tokens : Array Token} (read : lex source = .ok tokens)
    {t : Token} (member : t ∈ tokens) {n : Int64} (isInt : t.kind = .int n) :
    ∃ before digits after, source.toList = before ++ (digits ++ after) ∧
      t.span = .ofRange (byteCount before) (byteCount (before ++ digits)) ∧ IsDigits digits ∧
      n.toInt = Decimal.valueOf digits := by
  obtain ⟨body, covers, rfl⟩ := lex_eq_ok_iff.1 read
  rw [Array.mem_push, List.mem_toArray, List.mem_map] at member
  obtain ⟨u, inBody, rfl⟩ | rfl := member
  · obtain ⟨before, digits, after, stands, denotes, -⟩ :=
      @Lexer.Covers.lexemes 0 source.toList body covers source.toList [] rfl rfl u inBody
    have isInt : u.kind = .int n := isInt
    rw [isInt] at denotes
    refine ⟨before, digits, after, stands.split, ?_, ?_⟩
    · rw [← stands.start, ← stands.stop]
      rfl
    · cases denotes with
      | int run exact => exact ⟨run, exact⟩
  · cases isInt

namespace Native

theorem call_bilang_str {bilang : Native} (known : Registry.standard.get? "bilang" = some bilang)
    (text : String) :
    bilang.call [.str text] = match Decimal.readWhole? (Text.trim text.toList) with
      | some n => return .int n
      | none => Eval.fail (.invalidArgument "bilang" (.noWhole text)) := by
  cases known
  rfl

theorem call_titik_int {titik : Native} (known : Registry.standard.get? "titik" = some titik)
    (n : Int64) (s : Store) : titik.call [.int n] s = .ok (.str n.toInt.repr) s := by
  cases known
  rfl

theorem yields_bilang_iff {bilang : Native} (known : Registry.standard.get? "bilang" = some bilang)
    {text : String} {n : Int} : (bilang.call [.str text]).Yields n ↔ IsWhole text n := by
  rw [call_bilang_str known]
  constructor
  · intro yields
    obtain ⟨value, rfl, gives⟩ := yields {}
    split at gives
    case h_1 found read =>
      cases gives
      exact Decimal.readWhole?_trim_eq_some_iff.1 read
    case h_2 => cases gives
  · intro whole
    obtain ⟨-, -, -, inRange⟩ := id whole
    obtain ⟨value, rfl, -⟩ := Whole.exists_ofInt? inRange
    rw [Decimal.readWhole?_trim_eq_some_iff.2 whole]
    exact fun s => ⟨value, rfl, rfl⟩

theorem fails_bilang {bilang : Native} (known : Registry.standard.get? "bilang" = some bilang)
    {text : String} (other : ∀ n, ¬ IsWhole text n) :
    (bilang.call [.str text]).FailsBy (.invalidArgument "bilang" (.noWhole text)) := by
  rw [call_bilang_str known]
  split
  case h_1 value read => exact absurd (Decimal.readWhole?_trim_eq_some_iff.1 read) (other _)
  case h_2 => exact fun s => rfl

theorem message_noWhole (text : String) :
    (Cause.invalidArgument "bilang" (.noWhole text)).message =
      "(TypeError) : bilang() invalid literal for int: \"" ++ text ++ "\"" := by
  have start : "(TypeError) : bilang() invalid literal for int: \"" =
      "(TypeError) : " ++ ("bilang() " ++ "invalid literal for int: \"") := rfl
  rw [start]
  simp only [String.append_assoc]
  rfl

/-- `bilang` gives back the number that `titik` wrote. It reads a text exactly if this is a numeral
of 64 bits with white space around it, whatever zeros are in front, and reports any other text. The
literals of a program are texts that it reads as the same numbers. -/
theorem call_bilang (bilang titik : Native)
    (known : Registry.standard.get? "bilang" = some bilang ∧
      Registry.standard.get? "titik" = some titik) :
    (∀ n : Int64, ∃ text, (∀ s, titik.call [.int n] s = .ok (.str text) s) ∧
      (bilang.call [.str text]).Yields n.toInt) ∧
    (∀ text n, (bilang.call [.str text]).Yields n ↔ IsWhole text n) ∧
    (∀ text, (∀ n, ¬ IsWhole text n) →
      (bilang.call [.str text]).FailsBy (.invalidArgument "bilang" (.noWhole text)) ∧
      (Cause.invalidArgument "bilang" (.noWhole text)).message =
        "(TypeError) : bilang() invalid literal for int: \"" ++ text ++ "\"") ∧
    (∀ source tokens, lex source = .ok tokens → ∀ t ∈ tokens, ∀ n, t.kind = .int n →
      ∃ before digits after, source.toList = before ++ (digits ++ after) ∧
        t.span = .ofRange (byteCount before) (byteCount (before ++ digits)) ∧ IsDigits digits ∧
        (bilang.call [.str (String.ofList digits)]).Yields n.toInt) := by
  refine ⟨?_, ?_, ?_, ?_⟩
  · intro n
    refine ⟨_, call_titik_int known.2 n, (yields_bilang_iff known.1).2 ?_⟩
    have whole := Decimal.isWhole_of_numeral (Decimal.numeral_repr n.toInt)
    rwa [String.ofList_toList] at whole
  · exact fun text n => yields_bilang_iff known.1
  · exact fun text other => ⟨fails_bilang known.1 other, message_noWhole text⟩
  · intro source tokens read t member n isInt
    obtain ⟨before, digits, after, split, place, run, exact⟩ := lex_int read member isInt
    refine ⟨before, digits, after, split, place, run, (yields_bilang_iff known.1).2 ?_⟩
    refine Decimal.isWhole_of_numeral ?_
    rw [exact, ← Decimal.placeValue_eq]
    exact .unsigned run

theorem call_bilang_least :
    ∃ bilang titik, (Registry.standard.get? "bilang" = some bilang ∧
        Registry.standard.get? "titik" = some titik) ∧
      (∃ text, (∀ s, titik.call [.int Int64.minValue] s = .ok (.str text) s) ∧
        (bilang.call [.str text]).Yields (-2 ^ 63)) ∧
      (bilang.call [.str "\u3000-009223372036854775808\n"]).Yields (-2 ^ 63) ∧
      (bilang.call [.str "9223372036854775808"]).FailsBy
        (.invalidArgument "bilang" (.noWhole "9223372036854775808")) ∧
      ∃ before digits after, "x = 007".toList = before ++ (digits ++ after) ∧
        Span.mk 4 7 = .ofRange (byteCount before) (byteCount (before ++ digits)) ∧
        IsDigits digits ∧ (bilang.call [.str (String.ofList digits)]).Yields 7 := by
  obtain ⟨written, reads, refuses, literals⟩ :=
    call_bilang ⟨"bilang", .exact 1, .bilang⟩ ⟨"titik", .exact 1, .titik⟩ ⟨rfl, rfl⟩
  refine ⟨_, _, ⟨rfl, rfl⟩, written Int64.minValue, (reads _ _).2 ?_, ?_, ?_⟩
  · have whole : IsWhole "\u3000-009223372036854775808\n" Int64.minValue.toInt :=
      Decimal.readWhole?_trim_eq_some_iff.1 (by decide)
    exact whole
  · refine (refuses _ ?_).1
    intro n whole
    obtain ⟨-, -, -, inRange⟩ := id whole
    obtain ⟨value, rfl, -⟩ := Whole.exists_ofInt? inRange
    have read := Decimal.readWhole?_trim_eq_some_iff.2 whole
    have unread : Decimal.readWhole? (Text.trim "9223372036854775808".toList) = none := by decide
    rw [unread] at read
    cases read
  · have read : lex "x = 007" = .ok #[⟨.ident "x", ⟨0, 1⟩⟩, ⟨.symbol .equal, ⟨2, 3⟩⟩,
        ⟨.int 7, ⟨4, 7⟩⟩, ⟨.eof, ⟨7, 7⟩⟩] := rfl
    exact literals _ _ read ⟨.int 7, ⟨4, 7⟩⟩ (by simp) 7 rfl

end Native

end Salita
