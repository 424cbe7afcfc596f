import Salita.Token.Basic

namespace Salita.Grammar

inductive Bracket where
  | round
  | square
  | curly
deriving DecidableEq

namespace Bracket

def opening : Bracket → TokenKind
  | .round => .symbol .leftParen
  | .square => .symbol .leftBracket
  | .curly => .symbol .leftBrace

def closing : Bracket → TokenKind
  | .round => .symbol .rightParen
  | .square => .symbol .rightBracket
  | .curly => .symbol .rightBrace

theorem opening_ne_closing (b : Bracket) : b.opening ≠ b.closing := by
  cases b <;> decide

def Other (b : Bracket) (t : Token) : Prop := t.kind ≠ b.opening ∧ t.kind ≠ b.closing

instance (b : Bracket) (t : Token) : Decidable (b.Other t) :=
  inferInstanceAs (Decidable (t.kind ≠ b.opening ∧ t.kind ≠ b.closing))

end Bracket

/-- Every bracket of the kind is one of a pair, with pairs between its two brackets. -/
inductive Paired (b : Bracket) : List Token → Prop
  | nil : Paired b []
  | other {t : Token} {ts : List Token} (inert : b.Other t) (more : Paired b ts) :
      Paired b (t :: ts)
  | pair {first last : Token} {inner ts : List Token} (opened : first.kind = b.opening)
      (closed : last.kind = b.closing) (within : Paired b inner) (more : Paired b ts) :
      Paired b (first :: (inner ++ last :: ts))

variable {b : Bracket} {ts us : List Token} {t : Token}

theorem Paired.single (inert : b.Other t) : Paired b [t] := .other inert .nil

theorem Paired.append (left : Paired b ts) (right : Paired b us) : Paired b (ts ++ us) := by
  induction left with
  | nil => exact right
  | other inert more ih => exact .other inert ih
  | pair opened closed within more within_ih more_ih =>
      rw [List.cons_append, List.append_assoc, List.cons_append]
      exact .pair opened closed within more_ih

def Bracket.weight (b : Bracket) (t : Token) : Int :=
  if t.kind = b.opening then 1 else if t.kind = b.closing then -1 else 0

def Bracket.depth (b : Bracket) : List Token → Int
  | [] => 0
  | t :: ts => b.weight t + b.depth ts

theorem Bracket.weight_opening (opened : t.kind = b.opening) : b.weight t = 1 := if_pos opened

theorem Bracket.weight_closing (closed : t.kind = b.closing) : b.weight t = -1 := by
  have different : t.kind ≠ b.opening := by
    rw [closed]
    exact b.opening_ne_closing.symm
  rw [weight, if_neg different, if_pos closed]

theorem Bracket.weight_other (inert : b.Other t) : b.weight t = 0 := by
  rw [weight, if_neg inert.1, if_neg inert.2]

@[simp] theorem Bracket.depth_nil : b.depth [] = 0 := rfl

@[simp] theorem Bracket.depth_cons : b.depth (t :: ts) = b.weight t + b.depth ts := rfl

@[simp] theorem Bracket.depth_append : b.depth (ts ++ us) = b.depth ts + b.depth us := by
  induction ts with
  | nil => simp
  | cons t ts ih =>
      rw [List.cons_append, depth_cons, depth_cons, ih]
      omega

theorem Paired.depth_eq (paired : Paired b ts) : b.depth ts = 0 := by
  induction paired with
  | nil => rfl
  | other inert more ih =>
      rw [Bracket.depth_cons, Bracket.weight_other inert, ih]
      rfl
  | pair opened closed within more within_ih more_ih =>
      simp only [Bracket.depth_cons, Bracket.depth_append, Bracket.weight_opening opened,
        Bracket.weight_closing closed, within_ih, more_ih]
      rfl

theorem Paired.depth_nonneg (paired : Paired b (ts ++ us)) : 0 ≤ b.depth ts := by
  generalize split : ts ++ us = whole at paired
  induction paired generalizing ts us with
  | nil => simp [(List.append_eq_nil_iff.1 split).1]
  | other inert more ih =>
      cases ts with
      | nil => simp
      | cons t ts =>
          obtain ⟨rfl, tails⟩ := List.cons.inj split
          rw [Bracket.depth_cons, Bracket.weight_other inert]
          have := ih tails
          omega
  | @pair first last inner more opened closed within rest within_ih rest_ih =>
      cases ts with
      | nil => simp
      | cons t ts =>
          obtain ⟨rfl, tails⟩ := List.cons.inj split
          rw [Bracket.depth_cons, Bracket.weight_opening opened]
          rcases List.append_eq_append_iff.1 tails with ⟨tail, front, -⟩ | ⟨tail, rfl, behind⟩
          · have := within_ih front.symm
            omega
          · have inside := within.depth_eq
            rw [Bracket.depth_append]
            cases tail with
            | nil =>
                rw [Bracket.depth_nil]
                omega
            | cons last tail =>
                obtain ⟨rfl, after⟩ := List.cons.inj behind
                have := rest_ih after.symm
                rw [Bracket.depth_cons, Bracket.weight_closing closed]
                omega

theorem Paired.depth_nonpos (paired : Paired b (ts ++ us)) : b.depth us ≤ 0 := by
  have total := paired.depth_eq
  have front := paired.depth_nonneg
  rw [Bracket.depth_append] at total
  omega

def Closed (b : Bracket) (behind : List Token) : Prop :=
  ∃ inner last rest, behind = inner ++ last :: rest ∧ last.kind = b.closing ∧ Paired b inner

theorem Paired.not_closed (paired : Paired b ts) : ¬ Closed b ts := by
  rintro ⟨inner, last, rest, rfl, closed, within⟩
  rw [List.append_cons] at paired
  have below := paired.depth_nonneg
  simp only [Bracket.depth_append, within.depth_eq, Bracket.depth_cons,
    Bracket.weight_closing closed, Bracket.depth_nil] at below
  omega

theorem Closed.append (closed : Closed b ts) : Closed b (ts ++ us) := by
  obtain ⟨inner, last, rest, rfl, isLast, within⟩ := closed
  exact ⟨inner, last, rest ++ us, by simp, isLast, within⟩

theorem Paired.closed {before behind : List Token} {first : Token}
    (paired : Paired b (before ++ first :: behind)) (opened : first.kind = b.opening) :
    Closed b behind := by
  generalize split : before ++ first :: behind = whole at paired
  induction paired generalizing before behind with
  | nil => simp at split
  | other inert more ih =>
      cases before with
      | nil =>
          obtain ⟨rfl, -⟩ := List.cons.inj split
          exact absurd opened inert.1
      | cons t before => exact ih (List.cons.inj split).2
  | @pair u last inner ts isFirst isLast within more within_ih more_ih =>
      cases before with
      | nil => exact ⟨inner, last, ts, (List.cons.inj split).2, isLast, within⟩
      | cons t before =>
          rcases List.append_eq_append_iff.1 (List.cons.inj split).2 with
            ⟨tail, rfl, ends⟩ | ⟨tail, rfl, ends⟩
          · cases tail with
            | nil =>
                obtain ⟨rfl, -⟩ := List.cons.inj ends
                exact absurd (opened.symm.trans isLast) b.opening_ne_closing
            | cons u tail =>
                obtain ⟨rfl, rfl⟩ := List.cons.inj ends
                exact (within_ih rfl).append
          · cases tail with
            | nil =>
                obtain ⟨rfl, -⟩ := List.cons.inj ends
                exact absurd (opened.symm.trans isLast) b.opening_ne_closing
            | cons u tail => exact more_ih (List.cons.inj ends).2.symm

end Salita.Grammar
