import Salita.Proofs.Syntax.Cursor

namespace Salita.Cursor

inductive Operation where
  | current
  | previousSpan
  | isAtEnd
  | check (kind : TokenKind)
  | peek (ahead : Nat)
  | advance
  | eat (kind : TokenKind)

def act (c : Cursor) : Operation → Cursor
  | .advance => c.advance
  | .eat kind => (c.eat kind).2
  | _ => c

def consumed? (c : Cursor) : Operation → Option Token
  | .advance => if c.isAtEnd then none else some c.current
  | .eat kind => if c.check kind && !c.isAtEnd then some c.current else none
  | _ => none

def run (c : Cursor) (ops : List Operation) : Cursor := ops.foldl act c

def consumed (c : Cursor) : List Operation → List Token
  | [] => []
  | op :: ops => (c.consumed? op).toList ++ (c.act op).consumed ops

theorem run_append (c : Cursor) (ops more : List Operation) :
    c.run (ops ++ more) = (c.run ops).run more :=
  List.foldl_append

theorem advance_of_isAtEnd {c : Cursor} (atEnd : c.isAtEnd = true) : c.advance = c := by
  simp [advance, atEnd]

theorem act_cases (c : Cursor) (op : Operation) :
    (c.act op = c ∧ c.consumed? op = none) ∨
      (c.isAtEnd = false ∧ c.act op = c.advance ∧ c.consumed? op = some c.current) := by
  cases op with
  | advance =>
      cases atEnd : c.isAtEnd with
      | true => exact .inl ⟨advance_of_isAtEnd atEnd, by simp [consumed?, atEnd]⟩
      | false => exact .inr ⟨rfl, rfl, by simp [consumed?, atEnd]⟩
  | eat kind =>
      cases found : c.check kind with
      | false => exact .inl ⟨by simp [act, eat, found], by simp [consumed?, found]⟩
      | true =>
          have moved : c.act (.eat kind) = c.advance := by simp [act, eat, found]
          cases atEnd : c.isAtEnd with
          | true =>
              exact .inl ⟨by rw [moved, advance_of_isAtEnd atEnd], by simp [consumed?, atEnd]⟩
          | false => exact .inr ⟨rfl, moved, by simp [consumed?, found, atEnd]⟩
  | current | previousSpan | isAtEnd | check | peek => exact .inl ⟨rfl, rfl⟩

theorem position_le_act (c : Cursor) (op : Operation) : c.position ≤ (c.act op).position := by
  rcases c.act_cases op with ⟨same, -⟩ | ⟨more, moved, -⟩
  · exact Nat.le_of_eq (by rw [same])
  · rw [moved, advance, more]
    exact Nat.le_succ c.position

variable {left : List Token}

theorem act_between (passed : List Token) (ends : Ends left) (op : Operation) :
    ∃ rest, left = ((between passed left).consumed? op).toList ++ rest ∧ Ends rest ∧
      (between passed left).act op =
        between (passed ++ ((between passed left).consumed? op).toList) rest := by
  obtain ⟨t, behind, rfl⟩ := ends.exists_cons
  rcases (between passed (t :: behind)).act_cases op with ⟨same, none⟩ | ⟨more, moved, some⟩
  · exact ⟨t :: behind, by simp [none], ends, by simp [same, none]⟩
  · have inner : t.kind ≠ .eof := by simpa [isAtEnd] using more
    refine ⟨behind, by simp [some], ends.tail inner, ?_⟩
    rw [moved, some, current_between]
    exact advance_between inner

theorem position_le_run (c : Cursor) (ops : List Operation) :
    c.position ≤ (c.run ops).position := by
  induction ops generalizing c with
  | nil => exact Nat.le_refl _
  | cons op ops ih => exact Nat.le_trans (c.position_le_act op) (ih (c.act op))

theorem run_between (passed : List Token) (ends : Ends left) (ops : List Operation) :
    ∃ rest, left = (between passed left).consumed ops ++ rest ∧ Ends rest ∧
      (between passed left).run ops =
        between (passed ++ (between passed left).consumed ops) rest := by
  induction ops generalizing passed left with
  | nil => exact ⟨left, rfl, ends, by simp [run, consumed]⟩
  | cons op ops ih =>
      obtain ⟨behind, split, ends₁, acted⟩ := act_between passed ends op
      obtain ⟨rest, split', ends₂, ran⟩ :=
        ih (passed ++ ((between passed left).consumed? op).toList) ends₁
      refine ⟨rest, ?_, ends₂, ?_⟩
      · rw [consumed, acted, List.append_assoc, ← split', ← split]
      · rw [← acted] at ran
        rw [consumed, ← List.append_assoc, ← ran]
        rfl

structure Stands (body : List Token) (stop : Token) (passed : List Token) (c : Cursor) : Prop where
  tokens : c.tokens = (body ++ [stop]).toArray
  within : c.position ≤ body.length
  current : (body ++ [stop])[c.position]? = some c.current
  consumed : passed = (body ++ [stop]).take c.position
  previousSpan : c.previousSpan = (passed.getLast?.map (·.span)).getD .origin

theorem stands_between {body passed : List Token} {stop : Token} (ends : Ends left)
    (split : body ++ [stop] = passed ++ left) : Stands body stop passed (between passed left) := by
  obtain ⟨t, rest, rfl⟩ := ends.exists_cons
  constructor
  · rw [split]
    rfl
  · have lengths := congrArg List.length split
    simp only [List.length_append, List.length_cons, List.length_nil] at lengths
    simp only [between]
    omega
  · rw [split, current_between]
    simp [between]
  · rw [split]
    simp [between]
  · exact previousSpan_between passed (t :: rest)

theorem stands_run {body : List Token} {stop : Token} (ends : Ends (body ++ [stop]))
    (ops : List Operation) :
    Stands body stop ((ofTokens (body ++ [stop]).toArray).consumed ops)
      ((ofTokens (body ++ [stop]).toArray).run ops) := by
  rw [ofTokens_eq_between]
  obtain ⟨rest, split, ends', ran⟩ := run_between [] ends ops
  rw [ran]
  exact stands_between ends' split

end Salita.Cursor
