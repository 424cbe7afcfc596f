import Mathlib.Data.List.Forall2
import Salita.Proofs.Syntax.Cursor
import Salita.Proofs.Syntax.Grammar

namespace Salita.Grammar
open List

def SameKinds (ts us : List Token) : Prop :=
  Forall₂ (fun t u => t.kind.sameKind u.kind = true) ts us

theorem sameKinds_nil_iff {us : List Token} : SameKinds [] us ↔ us = [] := forall₂_nil_left_iff

theorem sameKinds_cons_iff {t : Token} {ts us : List Token} :
    SameKinds (t :: ts) us ↔
      ∃ u vs, t.kind.sameKind u.kind = true ∧ SameKinds ts vs ∧ us = u :: vs := forall₂_cons_left_iff

theorem sameKinds_append_iff {ts ts' us : List Token} :
    SameKinds (ts ++ ts') us ↔ ∃ vs vs', SameKinds ts vs ∧ SameKinds ts' vs' ∧ us = vs ++ vs' := by
  induction ts generalizing us with
  | nil => simp [sameKinds_nil_iff]
  | cons t ts ih =>
      simp only [List.cons_append, sameKinds_cons_iff, ih]
      constructor
      · rintro ⟨u, _, same, ⟨vs, vs', first, rest, rfl⟩, rfl⟩
        exact ⟨u :: vs, vs', ⟨u, vs, same, first, rfl⟩, rest, rfl⟩
      · rintro ⟨_, vs', ⟨u, vs, same, first, rfl⟩, rest, rfl⟩
        exact ⟨u, vs ++ vs', same, ⟨vs, vs', first, rest, rfl⟩, rfl⟩

theorem sameKind_comm (kind other : TokenKind) : kind.sameKind other = other.sameKind kind := by
  cases kind <;> cases other <;> simp [TokenKind.sameKind, Bool.beq_comm]

theorem SameKinds.symm {ts us : List Token} (same : SameKinds ts us) : SameKinds us ts := by
  refine Forall₂.flip (same.imp fun t u same => ?_)
  rw [flip, sameKind_comm]
  exact same

section
variable {t u : Token}

theorem symbol_of_sameKind {mark : Symbol} (spelled : t.kind = .symbol mark)
    (same : t.kind.sameKind u.kind = true) : u.kind = .symbol mark := by
  rw [spelled, sameKind_comm] at same
  exact (Parser.sameKind_iff (.inl ⟨mark, rfl⟩)).1 same

theorem keyword_of_sameKind {word : Keyword} (spelled : t.kind = .keyword word)
    (same : t.kind.sameKind u.kind = true) : u.kind = .keyword word := by
  rw [spelled, sameKind_comm] at same
  exact (Parser.sameKind_iff (.inr ⟨word, rfl⟩)).1 same

theorem ident_of_sameKind {name : String} (named : t.kind = .ident name)
    (same : t.kind.sameKind u.kind = true) : ∃ other, u.kind = .ident other := by
  rw [named] at same
  cases kind : u.kind with
  | ident other => exact ⟨other, rfl⟩
  | _ => simp [kind, TokenKind.sameKind] at same

theorem operator_of_sameKind {op : BinaryOp} (spelled : t.kind = operatorKind op)
    (same : t.kind.sameKind u.kind = true) : u.kind = operatorKind op := by
  cases op with
  | and | or => exact keyword_of_sameKind spelled same
  | _ => exact symbol_of_sameKind spelled same

theorem literal_of_sameKind {value : Literal} (spelled : t.kind = literalKind value)
    (same : t.kind.sameKind u.kind = true) : ∃ other, u.kind = literalKind other := by
  cases value with
  | bool b =>
      refine ⟨.bool b, ?_⟩
      cases b <;> exact keyword_of_sameKind spelled same
  | int n =>
      rw [spelled] at same
      cases kind : u.kind with
      | int m => exact ⟨.int m, rfl⟩
      | _ => simp [kind, literalKind, TokenKind.sameKind] at same
  | float x =>
      rw [spelled] at same
      cases kind : u.kind with
      | float y => exact ⟨.float y, rfl⟩
      | _ => simp [kind, literalKind, TokenKind.sameKind] at same
  | str text =>
      rw [spelled] at same
      cases kind : u.kind with
      | str other => exact ⟨.str other, rfl⟩
      | _ => simp [kind, literalKind, TokenKind.sameKind] at same

end

mutual

theorem exprText_of_sameKinds {r : Rank} {ts us : List Token} {e : Expr} :
    ExprText r ts e → SameKinds ts us → ∃ e', ExprText r us e'
  | .tighter next derived, same => by
      obtain ⟨e', derived'⟩ := exprText_of_sameKinds derived same
      exact ⟨e', .tighter next derived'⟩
  | .binary op leftward spelled next left right, same => by
      simp only [sameKinds_append_iff, sameKinds_cons_iff] at same
      obtain ⟨ls, _, sameLeft, ⟨mark, rs, sameMark, sameRight, rfl⟩, rfl⟩ := same
      obtain ⟨left', derivedLeft⟩ := exprText_of_sameKinds left sameLeft
      obtain ⟨right', derivedRight⟩ := exprText_of_sameKinds right sameRight
      exact ⟨_, .binary op leftward (operator_of_sameKind spelled sameMark) next derivedLeft
        derivedRight⟩
  | .power spelled base exponent, same => by
      simp only [sameKinds_append_iff, sameKinds_cons_iff] at same
      obtain ⟨bs, _, sameBase, ⟨mark, es, sameMark, sameExponent, rfl⟩, rfl⟩ := same
      obtain ⟨base', derivedBase⟩ := exprText_of_sameKinds base sameBase
      obtain ⟨exponent', derivedExponent⟩ := exprText_of_sameKinds exponent sameExponent
      exact ⟨_, .power (operator_of_sameKind spelled sameMark) derivedBase derivedExponent⟩
  | .not spelled operand, same => by
      obtain ⟨mark, us, sameMark, sameRest, rfl⟩ := sameKinds_cons_iff.1 same
      obtain ⟨e', derived⟩ := exprText_of_sameKinds operand sameRest
      exact ⟨_, .not (keyword_of_sameKind spelled sameMark) derived⟩
  | .neg spelled operand, same => by
      obtain ⟨mark, us, sameMark, sameRest, rfl⟩ := sameKinds_cons_iff.1 same
      obtain ⟨e', derived⟩ := exprText_of_sameKinds operand sameRest
      exact ⟨_, .neg (symbol_of_sameKind spelled sameMark) derived⟩
  | .literal value spelled, same => by
      obtain ⟨u, _, sameToken, rest, rfl⟩ := sameKinds_cons_iff.1 same
      obtain rfl := sameKinds_nil_iff.1 rest
      obtain ⟨other, spelled'⟩ := literal_of_sameKind spelled sameToken
      exact ⟨_, .literal other spelled'⟩
  | .var named, same => by
      obtain ⟨u, _, sameToken, rest, rfl⟩ := sameKinds_cons_iff.1 same
      obtain rfl := sameKinds_nil_iff.1 rest
      obtain ⟨other, named'⟩ := ident_of_sameKind named sameToken
      exact ⟨_, .var named'⟩
  | .call named opened closed items, same => by
      simp only [List.cons_append, sameKinds_append_iff, sameKinds_cons_iff,
        sameKinds_nil_iff] at same
      obtain ⟨u, _, sameName, ⟨opening, _, sameOpening, ⟨vs, _, sameItems,
        ⟨closing, _, sameClosing, rfl, rfl⟩, rfl⟩, rfl⟩, rfl⟩ := same
      obtain ⟨other, named'⟩ := ident_of_sameKind named sameName
      obtain ⟨args', derived⟩ := listText_of_sameKinds items sameItems
      exact ⟨_, .call named' (symbol_of_sameKind opened sameOpening)
        (symbol_of_sameKind closed sameClosing) derived⟩
  | .index named opened closed position, same => by
      simp only [List.cons_append, sameKinds_append_iff, sameKinds_cons_iff,
        sameKinds_nil_iff] at same
      obtain ⟨u, _, sameName, ⟨opening, _, sameOpening, ⟨vs, _, sameInner,
        ⟨closing, _, sameClosing, rfl, rfl⟩, rfl⟩, rfl⟩, rfl⟩ := same
      obtain ⟨other, named'⟩ := ident_of_sameKind named sameName
      obtain ⟨position', derived⟩ := exprText_of_sameKinds position sameInner
      exact ⟨_, .index named' (symbol_of_sameKind opened sameOpening)
        (symbol_of_sameKind closed sameClosing) derived⟩
  | .group opened closed inner, same => by
      simp only [List.cons_append, sameKinds_append_iff, sameKinds_cons_iff,
        sameKinds_nil_iff] at same
      obtain ⟨opening, _, sameOpening, ⟨vs, _, sameInner, ⟨closing, _, sameClosing, rfl, rfl⟩, rfl⟩,
        rfl⟩ := same
      obtain ⟨e', derived⟩ := exprText_of_sameKinds inner sameInner
      exact ⟨_, .group (symbol_of_sameKind opened sameOpening)
        (symbol_of_sameKind closed sameClosing) derived⟩
  | .list opened closed items, same => by
      simp only [List.cons_append, sameKinds_append_iff, sameKinds_cons_iff,
        sameKinds_nil_iff] at same
      obtain ⟨opening, _, sameOpening, ⟨vs, _, sameItems, ⟨closing, _, sameClosing, rfl, rfl⟩, rfl⟩,
        rfl⟩ := same
      obtain ⟨items', derived⟩ := listText_of_sameKinds items sameItems
      exact ⟨_, .list (symbol_of_sameKind opened sameOpening)
        (symbol_of_sameKind closed sameClosing) derived⟩

theorem itemsText_of_sameKinds {ts us : List Token} {es : List Expr} :
    ItemsText ts es → SameKinds ts us → ∃ es', ItemsText us es'
  | .one item, same => by
      obtain ⟨e', derived⟩ := exprText_of_sameKinds item same
      exact ⟨_, .one derived⟩
  | .more separated item items, same => by
      simp only [sameKinds_append_iff, sameKinds_cons_iff] at same
      obtain ⟨vs, _, sameItem, ⟨comma, ws, sameComma, sameItems, rfl⟩, rfl⟩ := same
      obtain ⟨e', derived⟩ := exprText_of_sameKinds item sameItem
      obtain ⟨es', derivedRest⟩ := itemsText_of_sameKinds items sameItems
      exact ⟨_, .more (symbol_of_sameKind separated sameComma) derived derivedRest⟩

theorem listText_of_sameKinds {ts us : List Token} {es : List Expr} :
    ListText ts es → SameKinds ts us → ∃ es', ListText us es'
  | .none, same => by
      obtain rfl := sameKinds_nil_iff.1 same
      exact ⟨[], .none⟩
  | .some items, same => by
      obtain ⟨es', derived⟩ := itemsText_of_sameKinds items same
      exact ⟨es', .some derived⟩

end

mutual

theorem stmtText_of_sameKinds {ts us : List Token} {s : Stmt} :
    StmtText ts s → SameKinds ts us → ∃ s', StmtText us s'
  | .call named opened closed ended items, same => by
      simp only [List.cons_append, sameKinds_append_iff, sameKinds_cons_iff,
        sameKinds_nil_iff] at same
      obtain ⟨u, _, sameName, ⟨opening, _, sameOpening, ⟨vs, _, sameItems, ⟨closing, _, sameClosing,
        ⟨stop, _, sameStop, rfl, rfl⟩, rfl⟩, rfl⟩, rfl⟩, rfl⟩ := same
      obtain ⟨other, named'⟩ := ident_of_sameKind named sameName
      obtain ⟨args', derived⟩ := listText_of_sameKinds items sameItems
      exact ⟨_, .call named' (symbol_of_sameKind opened sameOpening)
        (symbol_of_sameKind closed sameClosing) (symbol_of_sameKind ended sameStop) derived⟩
  | .assign named spelled ended value, same => by
      simp only [List.cons_append, sameKinds_append_iff, sameKinds_cons_iff,
        sameKinds_nil_iff] at same
      obtain ⟨u, _, sameName, ⟨mark, _, sameMark, ⟨vs, _, sameValue, ⟨stop, _, sameStop, rfl, rfl⟩,
        rfl⟩, rfl⟩, rfl⟩ := same
      obtain ⟨other, named'⟩ := ident_of_sameKind named sameName
      obtain ⟨value', derived⟩ := exprText_of_sameKinds value sameValue
      exact ⟨_, .assign named' (symbol_of_sameKind spelled sameMark)
        (symbol_of_sameKind ended sameStop) derived⟩
  | .update op named compound spelled ended value, same => by
      simp only [List.cons_append, sameKinds_append_iff, sameKinds_cons_iff,
        sameKinds_nil_iff] at same
      obtain ⟨u, _, sameName, ⟨mark, _, sameMark, ⟨vs, _, sameValue, ⟨stop, _, sameStop, rfl, rfl⟩,
        rfl⟩, rfl⟩, rfl⟩ := same
      obtain ⟨other, named'⟩ := ident_of_sameKind named sameName
      obtain ⟨value', derived⟩ := exprText_of_sameKinds value sameValue
      exact ⟨_, .update op named' compound (symbol_of_sameKind spelled sameMark)
        (symbol_of_sameKind ended sameStop) derived⟩
  | .choose choice, same => by
      obtain ⟨choice', derived⟩ := choiceText_of_sameKinds choice same
      obtain ⟨first, us, last, rfl, -⟩ := derived.exists_concat
      exact ⟨_, .choose derived⟩
  | .repeatWhile spelled opened closed cond body, same => by
      simp only [List.cons_append, sameKinds_append_iff, sameKinds_cons_iff] at same
      obtain ⟨first, _, sameFirst, ⟨opening, _, sameOpening, ⟨cs, _, sameCond, ⟨closing, bs,
        sameClosing, sameBody, rfl⟩, rfl⟩, rfl⟩, rfl⟩ := same
      obtain ⟨cond', derived⟩ := exprText_of_sameKinds cond sameCond
      obtain ⟨body', derivedBody⟩ := blockText_of_sameKinds body sameBody
      exact ⟨_, .repeatWhile (keyword_of_sameKind spelled sameFirst)
        (symbol_of_sameKind opened sameOpening) (symbol_of_sameKind closed sameClosing) derived
        derivedBody⟩
  | .forEach spelled eachSpelled named withinSpelled opened divided closed lower upper body,
      same => by
      simp only [List.cons_append, List.append_assoc, sameKinds_append_iff,
        sameKinds_cons_iff] at same
      obtain ⟨first, _, sameFirst, ⟨each, _, sameEach, ⟨u, _, sameName, ⟨within, _, sameWithin,
        ⟨opening, _, sameOpening, ⟨fs, _, sameLower, ⟨colon, _, sameColon, ⟨ls, _, sameUpper,
        ⟨closing, bs, sameClosing, sameBody, rfl⟩, rfl⟩, rfl⟩, rfl⟩, rfl⟩, rfl⟩, rfl⟩, rfl⟩, rfl⟩ :=
          same
      obtain ⟨other, named'⟩ := ident_of_sameKind named sameName
      obtain ⟨lower', derivedLower⟩ := exprText_of_sameKinds lower sameLower
      obtain ⟨upper', derivedUpper⟩ := exprText_of_sameKinds upper sameUpper
      obtain ⟨body', derivedBody⟩ := blockText_of_sameKinds body sameBody
      have derived := StmtText.forEach (keyword_of_sameKind spelled sameFirst)
        (keyword_of_sameKind eachSpelled sameEach) named'
        (keyword_of_sameKind withinSpelled sameWithin) (symbol_of_sameKind opened sameOpening)
        (symbol_of_sameKind divided sameColon) (symbol_of_sameKind closed sameClosing) derivedLower
        derivedUpper derivedBody
      exact ⟨_, by simpa using derived⟩
  | .print spelled opened closed ended items, same => by
      simp only [List.cons_append, sameKinds_append_iff, sameKinds_cons_iff,
        sameKinds_nil_iff] at same
      obtain ⟨first, _, sameFirst, ⟨opening, _, sameOpening, ⟨vs, _, sameItems, ⟨closing, _,
        sameClosing, ⟨stop, _, sameStop, rfl, rfl⟩, rfl⟩, rfl⟩, rfl⟩, rfl⟩ := same
      obtain ⟨args', derived⟩ := listText_of_sameKinds items sameItems
      exact ⟨_, .print (keyword_of_sameKind spelled sameFirst)
        (symbol_of_sameKind opened sameOpening) (symbol_of_sameKind closed sameClosing)
        (symbol_of_sameKind ended sameStop) derived⟩
  | .leave spelled ended, same => by
      simp only [sameKinds_cons_iff, sameKinds_nil_iff] at same
      obtain ⟨first, _, sameFirst, ⟨stop, _, sameStop, rfl, rfl⟩, rfl⟩ := same
      exact ⟨_, .leave (keyword_of_sameKind spelled sameFirst) (symbol_of_sameKind ended sameStop)⟩

theorem choiceText_of_sameKinds {ts us : List Token} {choice : Choice} :
    ChoiceText ts choice → SameKinds ts us → ∃ choice', ChoiceText us choice'
  | .alone spelled opened closed cond body, same => by
      simp only [List.cons_append, sameKinds_append_iff, sameKinds_cons_iff] at same
      obtain ⟨first, _, sameFirst, ⟨opening, _, sameOpening, ⟨cs, _, sameCond, ⟨closing, bs,
        sameClosing, sameBody, rfl⟩, rfl⟩, rfl⟩, rfl⟩ := same
      obtain ⟨cond', derived⟩ := exprText_of_sameKinds cond sameCond
      obtain ⟨body', derivedBody⟩ := blockText_of_sameKinds body sameBody
      exact ⟨_, .alone (keyword_of_sameKind spelled sameFirst)
        (symbol_of_sameKind opened sameOpening) (symbol_of_sameKind closed sameClosing) derived
        derivedBody⟩
  | .otherwise spelled opened closed marked cond body other, same => by
      simp only [List.cons_append, List.append_assoc, sameKinds_append_iff,
        sameKinds_cons_iff] at same
      obtain ⟨first, _, sameFirst, ⟨opening, _, sameOpening, ⟨cs, _, sameCond, ⟨closing, _,
        sameClosing, ⟨bs, _, sameBody, ⟨mark, os, sameMark, sameOther, rfl⟩, rfl⟩, rfl⟩, rfl⟩, rfl⟩,
        rfl⟩ := same
      obtain ⟨cond', derived⟩ := exprText_of_sameKinds cond sameCond
      obtain ⟨body', derivedBody⟩ := blockText_of_sameKinds body sameBody
      obtain ⟨other', derivedOther⟩ := blockText_of_sameKinds other sameOther
      have derived := ChoiceText.otherwise (keyword_of_sameKind spelled sameFirst)
        (symbol_of_sameKind opened sameOpening) (symbol_of_sameKind closed sameClosing)
        (keyword_of_sameKind marked sameMark) derived derivedBody derivedOther
      exact ⟨_, by simpa using derived⟩
  | .further spelled opened closed marked cond body other, same => by
      simp only [List.cons_append, List.append_assoc, sameKinds_append_iff,
        sameKinds_cons_iff] at same
      obtain ⟨first, _, sameFirst, ⟨opening, _, sameOpening, ⟨cs, _, sameCond, ⟨closing, _,
        sameClosing, ⟨bs, _, sameBody, ⟨mark, os, sameMark, sameOther, rfl⟩, rfl⟩, rfl⟩, rfl⟩, rfl⟩,
        rfl⟩ := same
      obtain ⟨cond', derived⟩ := exprText_of_sameKinds cond sameCond
      obtain ⟨body', derivedBody⟩ := blockText_of_sameKinds body sameBody
      obtain ⟨other', derivedOther⟩ := choiceText_of_sameKinds other sameOther
      have derived := ChoiceText.further (keyword_of_sameKind spelled sameFirst)
        (symbol_of_sameKind opened sameOpening) (symbol_of_sameKind closed sameClosing)
        (keyword_of_sameKind marked sameMark) derived derivedBody derivedOther
      exact ⟨_, by simpa using derived⟩

theorem blockText_of_sameKinds {ts us : List Token} {body : Block} :
    BlockText ts body → SameKinds ts us → ∃ body', BlockText us body'
  | .braces opened closed stmts, same => by
      simp only [List.cons_append, sameKinds_append_iff, sameKinds_cons_iff,
        sameKinds_nil_iff] at same
      obtain ⟨opening, _, sameOpening, ⟨vs, _, sameStmts, ⟨closing, _, sameClosing, rfl, rfl⟩, rfl⟩,
        rfl⟩ := same
      obtain ⟨stmts', derived⟩ := stmtsText_of_sameKinds stmts sameStmts
      exact ⟨_, .braces (symbol_of_sameKind opened sameOpening)
        (symbol_of_sameKind closed sameClosing) derived⟩

theorem stmtsText_of_sameKinds {ts us : List Token} {stmts : List Stmt} :
    StmtsText ts stmts → SameKinds ts us → ∃ stmts', StmtsText us stmts'
  | .nil, same => by
      obtain rfl := sameKinds_nil_iff.1 same
      exact ⟨[], .nil⟩
  | .cons stmt rest, same => by
      obtain ⟨vs, vs', sameStmt, sameRest, rfl⟩ := sameKinds_append_iff.1 same
      obtain ⟨s', derived⟩ := stmtText_of_sameKinds stmt sameStmt
      obtain ⟨stmts', derivedRest⟩ := stmtsText_of_sameKinds rest sameRest
      exact ⟨_, .cons derived derivedRest⟩

end

end Salita.Grammar
