import Salita.Proofs.Syntax.Completeness

namespace Salita.Parser
open Cursor Grammar

variable {ts : List Token}

/-! ## First and next tokens of statements -/

inductive Leads : TokenKind → Prop
  | name (text : String) : Leads (.ident text)
  | kapag : Leads (.keyword .kapag)
  | hanggat : Leads (.keyword .hanggat)
  | sa : Leads (.keyword .sa)
  | ilimbag : Leads (.keyword .ilimbag)
  | lumisan : Leads (.keyword .lumisan)

def Alternative (kind : TokenKind) : Prop := kind = .keyword .kundiman ∨ kind = .keyword .ngunit

theorem Leads.not_alternative {kind : TokenKind} (leads : Leads kind) : ¬Alternative kind := by
  rintro (rfl | rfl) <;> cases leads

theorem leads_of_stmtText {s : Stmt} (derived : StmtText ts s) :
    ∃ t us, ts = t :: us ∧ Leads t.kind := by
  cases derived with
  | call named => exact ⟨_, _, rfl, named ▸ .name _⟩
  | assign named => exact ⟨_, _, rfl, named ▸ .name _⟩
  | update _ named => exact ⟨_, _, rfl, named ▸ .name _⟩
  | choose derived =>
      obtain ⟨first, us, last, equal, spelled⟩ := derived.exists_concat
      exact ⟨first, us ++ [last], equal, spelled ▸ .kapag⟩
  | repeatWhile spelled => exact ⟨_, _, rfl, spelled ▸ .hanggat⟩
  | forEach spelled => exact ⟨_, _, rfl, spelled ▸ .sa⟩
  | print spelled => exact ⟨_, _, rfl, spelled ▸ .ilimbag⟩
  | leave spelled => exact ⟨_, _, rfl, spelled ▸ .lumisan⟩

theorem exists_next {ss : List Stmt} {t : Token} (derived : StmtsText ts ss)
    (stops : ¬Alternative t.kind) (rest : List Token) :
    ∃ t' rest', ts ++ t :: rest = t' :: rest' ∧ ¬Alternative t'.kind := by
  cases derived with
  | nil => exact ⟨t, rest, rfl, stops⟩
  | cons first _ =>
      obtain ⟨t', us, rfl, leads⟩ := leads_of_stmtText first
      exact ⟨t', _, rfl, leads.not_alternative⟩

/-! ## Statements without blocks -/

theorem run_expr {e : Expr} {t : Token} (derived : ExprText .or ts e)
    (stops : ¬Continues .or t.kind) (fuel : Nat) (passed rest : List Token)
    (ample : Ample fuel 14 (ts ++ t :: rest)) :
    (expr fuel).run (between passed (ts ++ t :: rest)) =
      .ok e (between (passed ++ ts) (t :: rest)) :=
  (complete derived).completes fuel passed t rest stops ample

theorem run_condition {cond : Expr} {opening closing : Token}
    (opened : opening.kind = .symbol .leftParen) (closed : closing.kind = .symbol .rightParen)
    (derived : ExprText .or ts cond) (fuel : Nat) (passed rest : List Token)
    (ample : Ample fuel 14 (ts ++ closing :: rest)) :
    (condition fuel).run (between passed (opening :: (ts ++ closing :: rest))) =
      .ok cond (between (passed ++ opening :: ts ++ [closing]) rest) := by
  have run := run_expr derived (closed ▸ not_continues_closing (.inl rfl)) fuel
    (passed ++ [opening]) rest ample
  rw [condition, run_bind_of_ok (symbol_between opened), run_bind_of_ok run,
    run_bind_of_ok (symbol_between closed)]
  simp

def CompletesStmt (ts : List Token) (s : Stmt) : Prop :=
  ∀ fuel passed (t : Token) rest, ¬Alternative t.kind → Ample fuel 2 (ts ++ t :: rest) →
    (stmt fuel).run (between passed (ts ++ t :: rest)) =
      .ok s (between (passed ++ ts) (t :: rest))

theorem run_stmt_name {t : Token} {name : String} (named : t.kind = .ident name) (fuel : Nat)
    (passed left : List Token) :
    (stmt (fuel + 1)).run (between passed (t :: left)) =
      (nameStmt fuel).run (between passed (t :: left)) := by
  rw [stmt, run_bind_of_ok currentKind_between, named]

theorem CompletesStmt.call {t opening closing stop : Token} {name : String} {args : List Expr}
    (named : t.kind = .ident name) (opened : opening.kind = .symbol .leftParen)
    (closed : closing.kind = .symbol .rightParen) (ended : stop.kind = .symbol .semicolon)
    (derived : ListText ts args) :
    CompletesStmt (t :: opening :: ts ++ [closing, stop])
      (.call ⟨name, t.span⟩ args (t.span.merge stop.span)) := by
  intro fuel passed next rest _ ample
  simp only [Ample, List.append_assoc, List.cons_append, List.nil_append, List.length_append,
    List.length_cons] at ample ⊢
  obtain ⟨less, rfl⟩ : ∃ less, fuel = less + 1 := ⟨fuel - 1, by omega⟩
  have run := (completeList derived).arguments opened closed less (passed ++ [t])
    (stop :: next :: rest)
    (by simp only [Ample, List.cons_append, List.length_append, List.length_cons]; omega)
  simp only [List.cons_append] at run
  rw [run_stmt_name named, nameStmt, run_bind_of_ok (identifier_between named),
    run_bind_of_ok currentKind_between, if_pos opened, run_bind_of_ok run]
  simp only
  rw [run_bind_of_ok (symbol_between ended)]
  simp

theorem CompletesStmt.assign {t mark stop : Token} {name : String} {e : Expr}
    (named : t.kind = .ident name) (spelled : mark.kind = .symbol .equal)
    (ended : stop.kind = .symbol .semicolon) (derived : ExprText .or ts e) :
    CompletesStmt (t :: mark :: ts ++ [stop])
      (.assign ⟨name, t.span⟩ e (t.span.merge stop.span)) := by
  intro fuel passed next rest _ ample
  simp only [Ample, List.append_assoc, List.cons_append, List.nil_append, List.length_append,
    List.length_cons] at ample ⊢
  obtain ⟨less, rfl⟩ : ∃ less, fuel = less + 1 := ⟨fuel - 1, by omega⟩
  have run := run_expr derived (ended ▸ not_continues_of_mem (by simp)) less
    (passed ++ [t] ++ [mark]) (next :: rest)
    (by simp only [Ample, List.length_append, List.length_cons]; omega)
  rw [run_stmt_name named, nameStmt, run_bind_of_ok (identifier_between named),
    run_bind_of_ok currentKind_between, if_neg (by simp [spelled]), if_pos spelled,
    run_bind_of_ok (advance_between (by simp [spelled])), run_bind_of_ok run,
    run_bind_of_ok (symbol_between ended)]
  simp

theorem CompletesStmt.update {t mark stop : Token} {name : String} {e : Expr} {op : BinaryOp}
    {symbol : Symbol} (named : t.kind = .ident name) (compound : updateMark? op = some symbol)
    (spelled : mark.kind = .symbol symbol) (ended : stop.kind = .symbol .semicolon)
    (derived : ExprText .or ts e) :
    CompletesStmt (t :: mark :: ts ++ [stop])
      (.update ⟨name, t.span⟩ op e (t.span.merge stop.span)) := by
  intro fuel passed next rest _ ample
  simp only [Ample, List.append_assoc, List.cons_append, List.nil_append, List.length_append,
    List.length_cons] at ample ⊢
  obtain ⟨less, rfl⟩ : ∃ less, fuel = less + 1 := ⟨fuel - 1, by omega⟩
  have run := run_expr derived (ended ▸ not_continues_of_mem (by simp)) less
    (passed ++ [t] ++ [mark]) (next :: rest)
    (by simp only [Ample, List.length_append, List.length_cons]; omega)
  have other : symbol ≠ .leftParen ∧ symbol ≠ .equal := by
    cases op <;> cases compound <;> decide
  have found : updateOperator? mark.kind = some op :=
    updateOperator?_eq_some.2 ⟨symbol, compound, spelled⟩
  rw [run_stmt_name named, nameStmt, run_bind_of_ok (identifier_between named),
    run_bind_of_ok currentKind_between, if_neg (by simp [spelled, other]),
    if_neg (by simp [spelled, other]), found]
  simp only
  rw [run_bind_of_ok (advance_between (by simp [spelled])), run_bind_of_ok run,
    run_bind_of_ok (symbol_between ended)]
  simp

theorem CompletesStmt.print {first opening closing stop : Token} {args : List Expr}
    (spelled : first.kind = .keyword .ilimbag) (opened : opening.kind = .symbol .leftParen)
    (closed : closing.kind = .symbol .rightParen) (ended : stop.kind = .symbol .semicolon)
    (derived : ListText ts args) :
    CompletesStmt (first :: opening :: ts ++ [closing, stop])
      (.print args (first.span.merge stop.span)) := by
  intro fuel passed next rest _ ample
  simp only [Ample, List.append_assoc, List.cons_append, List.nil_append, List.length_append,
    List.length_cons] at ample ⊢
  obtain ⟨less, rfl⟩ : ∃ less, fuel = less + 1 := ⟨fuel - 1, by omega⟩
  have run := (completeList derived).arguments opened closed less (passed ++ [first])
    (stop :: next :: rest)
    (by simp only [Ample, List.cons_append, List.length_append, List.length_cons]; omega)
  simp only [List.cons_append] at run
  rw [stmt, run_bind_of_ok currentKind_between, spelled]
  simp only
  rw [printStmt, run_bind_of_ok (advance_between (by simp [spelled])), run_bind_of_ok run]
  simp only
  rw [run_bind_of_ok (symbol_between ended)]
  simp

theorem CompletesStmt.leave {first stop : Token} (spelled : first.kind = .keyword .lumisan)
    (ended : stop.kind = .symbol .semicolon) :
    CompletesStmt [first, stop] (.leave (first.span.merge stop.span)) := by
  intro fuel passed next rest _ ample
  obtain ⟨less, rfl, -⟩ := ample.exists_succ
  simp only [List.cons_append, List.nil_append]
  rw [stmt, run_bind_of_ok currentKind_between, spelled]
  simp only
  rw [leaveStmt, run_bind_of_ok (advance_between (by simp [spelled])),
    run_bind_of_ok (symbol_between ended)]
  simp

/-! ## Blocks and the statements around them -/

def CompletesChoice (ts : List Token) (choice : Choice) : Prop :=
  ∀ fuel passed (t : Token) rest, ¬Alternative t.kind → Ample fuel 1 (ts ++ t :: rest) →
    (Parser.choice fuel).run (between passed (ts ++ t :: rest)) =
      .ok choice (between (passed ++ ts) (t :: rest))

def CompletesBlock (ts : List Token) (body : Block) : Prop :=
  ∀ fuel passed rest, Ample fuel 1 (ts ++ rest) →
    (block fuel).run (between passed (ts ++ rest)) = .ok body (between (passed ++ ts) rest)

def CompletesStmts (ts : List Token) (ss : List Stmt) : Prop :=
  ∀ fuel passed before (closing : Token) rest, closing.kind = .symbol .rightBrace →
    Ample fuel 3 (ts ++ closing :: rest) →
    (blockStmts fuel before).run (between passed (ts ++ closing :: rest)) =
      .ok (before.reverse ++ ss) (between (passed ++ ts) (closing :: rest))

theorem CompletesStmts.nil : CompletesStmts [] [] := by
  intro fuel passed before closing rest closed ample
  obtain ⟨less, rfl, -⟩ := ample.exists_succ
  simp only [List.nil_append, List.append_nil]
  rw [blockStmts, run_bind_of_ok currentKind_between, closed]
  rfl

theorem CompletesStmts.cons {us : List Token} {s : Stmt} {ss : List Stmt}
    (derived : StmtText ts s) (first : CompletesStmt ts s) (derivedRest : StmtsText us ss)
    (next : CompletesStmts us ss) : CompletesStmts (ts ++ us) (s :: ss) := by
  intro fuel passed before closing rest closed ample
  obtain ⟨less, rfl, ample'⟩ := ample.exists_succ
  obtain ⟨t, ts, rfl, leads⟩ := leads_of_stmtText derived
  obtain ⟨t', rest', split, stops⟩ :=
    exists_next derivedRest (t := closing) (by simp [Alternative, closed]) rest
  have runNext := next less (passed ++ t :: ts) (s :: before) closing rest closed
    (by simp only [Ample, List.length_append, List.length_cons] at ample' ⊢; omega)
  rw [List.append_assoc] at ample' ⊢
  rw [split] at ample' runNext ⊢
  have run := first less passed t' rest' stops ample'
  simp only [List.cons_append] at run ⊢
  rw [blockStmts, run_bind_of_ok currentKind_between]
  split
  · rename_i brace
    exact absurd (brace ▸ leads) (by intro leads; cases leads)
  · rename_i last
    exact absurd (last ▸ leads) (by intro leads; cases leads)
  · rw [run_bind_of_ok run, runNext]
    simp

theorem run_inside {α : Type} {brace : Span} {x : Rule α} {c c' : Cursor} {a : α}
    (run : x.run c = .ok a c') : (inside brace x).run c = .ok a c' := by
  simp only [EStateM.run, inside] at run ⊢
  rw [run]

theorem CompletesBlock.braces {opening closing : Token} {ss : List Stmt}
    (opened : opening.kind = .symbol .leftBrace) (closed : closing.kind = .symbol .rightBrace)
    (stmts : CompletesStmts ts ss) :
    CompletesBlock (opening :: ts ++ [closing]) (.mk ss (opening.span.merge closing.span)) := by
  intro fuel passed rest ample
  simp only [Ample, List.append_assoc, List.cons_append, List.nil_append, List.length_append,
    List.length_cons] at ample ⊢
  obtain ⟨less, rfl⟩ : ∃ less, fuel = less + 1 := ⟨fuel - 1, by omega⟩
  have run := stmts less (passed ++ [opening]) [] closing rest closed
    (by simp only [Ample, List.length_append, List.length_cons]; omega)
  rw [block, run_bind_of_ok (symbol_between opened), run_bind_of_ok (run_inside run),
    run_bind_of_ok (advance_between (by simp [closed]))]
  simp

def alternatives (fuel : Nat) (cond : Expr) (body : Block) : Rule Choice := do
  match ← currentKind with
  | .keyword .kundiman =>
      let _ ← advance
      let otherwise ← block fuel
      return .mk cond body (.block otherwise)
  | .keyword .ngunit =>
      let _ ← advance
      let next ← choice fuel
      return .mk cond body (.choice next)
  | _ => return .mk cond body .nothing

theorem run_choice {first opening closing : Token} {cs bs : List Token} {cond : Expr}
    {body : Block} (spelled : first.kind = .keyword .kapag)
    (opened : opening.kind = .symbol .leftParen) (closed : closing.kind = .symbol .rightParen)
    (derived : ExprText .or cs cond) (completesBody : CompletesBlock bs body) (fuel : Nat)
    (passed rest : List Token) (ample : Ample fuel 0 (opening :: (cs ++ closing :: (bs ++ rest)))) :
    (choice (fuel + 1)).run (between passed (first :: opening :: (cs ++ closing :: (bs ++ rest)))) =
      (alternatives fuel cond body).run
        (between (passed ++ first :: opening :: (cs ++ closing :: bs)) rest) := by
  simp only [Ample, List.length_append, List.length_cons] at ample
  have runCond := run_condition opened closed derived fuel (passed ++ [first]) (bs ++ rest)
    (by simp only [Ample, List.length_append, List.length_cons]; omega)
  have runBody := completesBody fuel (passed ++ [first] ++ opening :: cs ++ [closing]) rest
    (by simp only [Ample, List.length_append]; omega)
  rw [choice, run_bind_of_ok (keyword_between spelled), run_bind_of_ok runCond,
    run_bind_of_ok runBody]
  simp only [List.append_assoc, List.cons_append, List.nil_append]
  rfl

theorem CompletesChoice.alone {first opening closing : Token} {cs bs : List Token} {cond : Expr}
    {body : Block} (spelled : first.kind = .keyword .kapag)
    (opened : opening.kind = .symbol .leftParen) (closed : closing.kind = .symbol .rightParen)
    (derived : ExprText .or cs cond) (completesBody : CompletesBlock bs body) :
    CompletesChoice (first :: opening :: cs ++ closing :: bs) (.mk cond body .nothing) := by
  intro fuel passed t rest stops ample
  simp only [Ample, List.append_assoc, List.cons_append, List.length_append,
    List.length_cons] at ample ⊢
  obtain ⟨less, rfl⟩ : ∃ less, fuel = less + 1 := ⟨fuel - 1, by omega⟩
  rw [run_choice spelled opened closed derived completesBody less passed (t :: rest)
    (by simp only [Ample, List.length_append, List.length_cons]; omega)]
  rw [alternatives, run_bind_of_ok currentKind_between]
  split
  · rename_i kundiman
    exact absurd (.inl kundiman) stops
  · rename_i ngunit
    exact absurd (.inr ngunit) stops
  · rfl

theorem CompletesChoice.otherwise {first opening closing mark : Token} {cs bs os : List Token}
    {cond : Expr} {body other : Block} (spelled : first.kind = .keyword .kapag)
    (opened : opening.kind = .symbol .leftParen) (closed : closing.kind = .symbol .rightParen)
    (marked : mark.kind = .keyword .kundiman) (derived : ExprText .or cs cond)
    (completesBody : CompletesBlock bs body) (completesOther : CompletesBlock os other) :
    CompletesChoice (first :: opening :: cs ++ closing :: bs ++ mark :: os)
      (.mk cond body (.block other)) := by
  intro fuel passed t rest _ ample
  simp only [Ample, List.append_assoc, List.cons_append, List.length_append,
    List.length_cons] at ample ⊢
  obtain ⟨less, rfl⟩ : ∃ less, fuel = less + 1 := ⟨fuel - 1, by omega⟩
  have runOther := completesOther less
    (passed ++ first :: opening :: (cs ++ closing :: bs) ++ [mark]) (t :: rest)
    (by simp only [Ample, List.length_append, List.length_cons]; omega)
  rw [run_choice spelled opened closed derived completesBody less passed (mark :: (os ++ t :: rest))
    (by simp only [Ample, List.length_append, List.length_cons]; omega)]
  rw [alternatives, run_bind_of_ok currentKind_between, marked]
  simp only
  rw [run_bind_of_ok (advance_between (by simp [marked])), run_bind_of_ok runOther]
  simp

theorem CompletesChoice.further {first opening closing mark : Token} {cs bs os : List Token}
    {cond : Expr} {body : Block} {other : Choice} (spelled : first.kind = .keyword .kapag)
    (opened : opening.kind = .symbol .leftParen) (closed : closing.kind = .symbol .rightParen)
    (marked : mark.kind = .keyword .ngunit) (derived : ExprText .or cs cond)
    (completesBody : CompletesBlock bs body) (completesOther : CompletesChoice os other) :
    CompletesChoice (first :: opening :: cs ++ closing :: bs ++ mark :: os)
      (.mk cond body (.choice other)) := by
  intro fuel passed t rest stops ample
  simp only [Ample, List.append_assoc, List.cons_append, List.length_append,
    List.length_cons] at ample ⊢
  obtain ⟨less, rfl⟩ : ∃ less, fuel = less + 1 := ⟨fuel - 1, by omega⟩
  have runOther := completesOther less
    (passed ++ first :: opening :: (cs ++ closing :: bs) ++ [mark]) t rest stops
    (by simp only [Ample, List.length_append, List.length_cons]; omega)
  rw [run_choice spelled opened closed derived completesBody less passed (mark :: (os ++ t :: rest))
    (by simp only [Ample, List.length_append, List.length_cons]; omega)]
  rw [alternatives, run_bind_of_ok currentKind_between, marked]
  simp only
  rw [run_bind_of_ok (advance_between (by simp [marked])), run_bind_of_ok runOther]
  simp

theorem CompletesStmt.choose {first last : Token} {choice : Choice}
    (derived : ChoiceText (first :: ts ++ [last]) choice)
    (completes : CompletesChoice (first :: ts ++ [last]) choice) :
    CompletesStmt (first :: ts ++ [last]) (.choose choice (first.span.merge last.span)) := by
  intro fuel passed t rest stops ample
  obtain ⟨less, rfl, ample'⟩ := ample.exists_succ
  obtain ⟨_, _, _, equal, spelled⟩ := derived.exists_concat
  obtain ⟨rfl, -⟩ := List.cons.inj equal
  have run := completes less passed t rest stops ample'
  have behind : passed ++ first :: (ts ++ [last]) = passed ++ first :: ts ++ [last] := by simp
  simp only [List.cons_append] at run ⊢
  rw [stmt, run_bind_of_ok currentKind_between, spelled]
  simp only
  rw [run_bind_of_ok (EStateM.run_get _), run_bind_of_ok run, run_bind_of_ok (EStateM.run_get _),
    span_between, behind, previousSpan_concat]
  rfl

theorem CompletesStmt.repeatWhile {first opening closing : Token} {cs bs : List Token} {cond : Expr}
    {body : Block} (spelled : first.kind = .keyword .hanggat)
    (opened : opening.kind = .symbol .leftParen) (closed : closing.kind = .symbol .rightParen)
    (derived : ExprText .or cs cond) (completesBody : CompletesBlock bs body) :
    CompletesStmt (first :: opening :: cs ++ closing :: bs)
      (.repeatWhile cond body (first.span.merge body.span)) := by
  intro fuel passed t rest _ ample
  simp only [Ample, List.append_assoc, List.cons_append, List.length_append,
    List.length_cons] at ample ⊢
  obtain ⟨less, rfl⟩ : ∃ less, fuel = less + 1 := ⟨fuel - 1, by omega⟩
  have runCond := run_condition opened closed derived less (passed ++ [first]) (bs ++ t :: rest)
    (by simp only [Ample, List.length_append, List.length_cons]; omega)
  have runBody := completesBody less (passed ++ [first] ++ opening :: cs ++ [closing]) (t :: rest)
    (by simp only [Ample, List.length_append, List.length_cons]; omega)
  rw [stmt, run_bind_of_ok currentKind_between, spelled]
  simp only
  rw [run_bind_of_ok (advance_between (by simp [spelled])), run_bind_of_ok runCond,
    run_bind_of_ok runBody]
  simp

theorem CompletesStmt.forEach {first each t within opening colon closing : Token} {name : String}
    {fs ls bs : List Token} {lower upper : Expr} {body : Block}
    (spelled : first.kind = .keyword .sa) (eachSpelled : each.kind = .keyword .bawat)
    (named : t.kind = .ident name) (withinSpelled : within.kind = .keyword .sa)
    (opened : opening.kind = .symbol .leftBracket) (divided : colon.kind = .symbol .colon)
    (closed : closing.kind = .symbol .rightBracket) (derivedLower : ExprText .or fs lower)
    (derivedUpper : ExprText .or ls upper) (completesBody : CompletesBlock bs body) :
    CompletesStmt (first :: each :: t :: within :: opening :: fs ++ colon :: ls ++ closing :: bs)
      (.forEach ⟨name, t.span⟩ lower upper body (first.span.merge body.span)) := by
  intro fuel passed next rest _ ample
  simp only [Ample, List.append_assoc, List.cons_append, List.length_append,
    List.length_cons] at ample ⊢
  obtain ⟨less, rfl⟩ : ∃ less, fuel = less + 1 := ⟨fuel - 1, by omega⟩
  have runLower := run_expr derivedLower (divided ▸ not_continues_of_mem (by simp)) less
    (passed ++ [first] ++ [each] ++ [t] ++ [within] ++ [opening])
    (ls ++ closing :: (bs ++ next :: rest))
    (by simp only [Ample, List.length_append, List.length_cons]; omega)
  have runUpper := run_expr derivedUpper (closed ▸ not_continues_closing (.inr rfl)) less
    (passed ++ [first] ++ [each] ++ [t] ++ [within] ++ [opening] ++ fs ++ [colon])
    (bs ++ next :: rest)
    (by simp only [Ample, List.length_append, List.length_cons]; omega)
  have runBody := completesBody less
    (passed ++ [first] ++ [each] ++ [t] ++ [within] ++ [opening] ++ fs ++ [colon] ++ ls ++ [closing])
    (next :: rest) (by simp only [Ample, List.length_append, List.length_cons]; omega)
  rw [stmt, run_bind_of_ok currentKind_between, spelled]
  simp only
  rw [run_bind_of_ok (advance_between (by simp [spelled])),
    run_bind_of_ok (keyword_between eachSpelled), run_bind_of_ok (identifier_between named),
    run_bind_of_ok (keyword_between withinSpelled), run_bind_of_ok (symbol_between opened),
    run_bind_of_ok runLower, run_bind_of_ok (symbol_between divided), run_bind_of_ok runUpper,
    run_bind_of_ok (symbol_between closed), run_bind_of_ok runBody]
  simp

mutual

theorem completeStmt {ts : List Token} {s : Stmt} : StmtText ts s → CompletesStmt ts s
  | .call named opened closed ended derived => .call named opened closed ended derived
  | .assign named spelled ended derived => .assign named spelled ended derived
  | .update _ named compound spelled ended derived => .update named compound spelled ended derived
  | .choose derived => .choose derived (completeChoice derived)
  | .repeatWhile spelled opened closed derived derivedBody =>
      .repeatWhile spelled opened closed derived (completeBlock derivedBody)
  | .forEach spelled eachSpelled named withinSpelled opened divided closed lower upper body =>
      .forEach spelled eachSpelled named withinSpelled opened divided closed lower upper
        (completeBlock body)
  | .print spelled opened closed ended derived => .print spelled opened closed ended derived
  | .leave spelled ended => .leave spelled ended

theorem completeChoice {ts : List Token} {choice : Choice} :
    ChoiceText ts choice → CompletesChoice ts choice
  | .alone spelled opened closed derived body =>
      .alone spelled opened closed derived (completeBlock body)
  | .otherwise spelled opened closed marked derived body other =>
      .otherwise spelled opened closed marked derived (completeBlock body) (completeBlock other)
  | .further spelled opened closed marked derived body other =>
      .further spelled opened closed marked derived (completeBlock body) (completeChoice other)

theorem completeBlock {ts : List Token} {body : Block} : BlockText ts body → CompletesBlock ts body
  | .braces opened closed derived => .braces opened closed (completeStmts derived)

theorem completeStmts {ts : List Token} {ss : List Stmt} : StmtsText ts ss → CompletesStmts ts ss
  | .nil => .nil
  | .cons derived derivedRest =>
      .cons derived (completeStmt derived) derivedRest (completeStmts derivedRest)

end

/-! ## Programs -/

theorem run_programFrom {ts : List Token} {program : Program} {stop : Token}
    (last : stop.kind = .eof) (derived : ProgramText ts program) :
    ∀ fuel passed before, Ample fuel 3 (ts ++ [stop]) →
      (programFrom fuel before).run (between passed (ts ++ [stop])) =
        .ok (before.reverse ++ program) (between (passed ++ ts) [stop]) := by
  cases derived with
  | nil =>
      intro fuel passed before ample
      obtain ⟨less, rfl, -⟩ := ample.exists_succ
      simp only [List.nil_append, List.append_nil]
      rw [programFrom, run_bind_of_ok currentKind_between, last]
      rfl
  | @cons ts us s _ derived derivedRest =>
      intro fuel passed before ample
      obtain ⟨less, rfl, ample'⟩ := ample.exists_succ
      obtain ⟨t, ts, rfl, leads⟩ := leads_of_stmtText derived
      obtain ⟨t', rest', split, stops⟩ :=
        exists_next derivedRest (t := stop) (by simp [Alternative, last]) []
      have runNext := run_programFrom last derivedRest less (passed ++ t :: ts) (s :: before)
        (by simp only [Ample, List.length_append, List.length_cons] at ample' ⊢; omega)
      rw [List.append_assoc] at ample' ⊢
      rw [split] at ample' runNext ⊢
      have run := completeStmt derived less passed t' rest' stops ample'
      simp only [List.cons_append] at run ⊢
      rw [programFrom, run_bind_of_ok currentKind_between]
      split
      · rename_i eof
        exact absurd (eof ▸ leads) (by intro leads; cases leads)
      · rw [run_bind_of_ok run, runNext]
        simp

end Parser

open Salita.Parser Cursor Grammar

variable {body : List Token} {stop : Token} {source : String} {program : Program}

theorem parse_eq_ok_iff_run :
    parse body.toArray source = .ok program ↔
      ∃ c, (programFrom (enough body.length) []).run (between [] body) = .ok program c := by
  rw [← ofTokens_eq_between]
  simp only [parse, EStateM.run, List.size_toArray]
  cases programFrom (enough body.length) [] (ofTokens body.toArray) with
  | ok program c => simp
  | error failure c => simp

theorem ample_enough (tokens : List Token) : Ample (enough tokens.length) 3 tokens := by
  unfold Ample enough
  omega

theorem settled_program {less more : Nat} (last : stop.kind = .eof)
    (only : ∀ t ∈ body, t.kind ≠ .eof) (ample : Ample less 3 (body ++ [stop]))
    (enough : less ≤ more) :
    Settled (· = .eof) (programFrom less []) (programFrom more []) ProgramText []
      (body ++ [stop]) := by
  have ends : Ends (body ++ [stop]) := ⟨body, stop, rfl, last, only⟩
  obtain ⟨t, left, equal⟩ := ends.exists_cons
  rw [equal] at ends ample ⊢
  have reads := (readsUpTo_programFrom enough []).mono (Q := ProgramText) (by simp)
  exact reads.settled [] t left trivial ends ample

theorem programText_of_parse (last : stop.kind = .eof) (only : ∀ t ∈ body, t.kind ≠ .eof)
    (parsed : parse (body ++ [stop]).toArray source = .ok program) : ProgramText body program := by
  obtain ⟨c, run⟩ := parse_eq_ok_iff_run.1 parsed
  obtain ⟨ts, t, rest, split, ends, outcome⟩ :=
    settled_program last only (ample_enough _) (Nat.le_refl _)
  rcases outcome with ⟨found, eof, derived, runs, -⟩ | ⟨failure, -, -, runs, -⟩
  · have same := runs rest
    rw [← split, run, EStateM.Result.ok.injEq] at same
    obtain rfl := ends.eq_of_eof eof
    obtain ⟨rfl, -⟩ := List.append_inj' split rfl
    exact same.1 ▸ derived
  · have same := runs rest
    rw [← split, run] at same
    cases same

theorem parse_of_programText (last : stop.kind = .eof) (derived : ProgramText body program) :
    parse (body ++ [stop]).toArray source = .ok program := by
  exact parse_eq_ok_iff_run.2 ⟨_, run_programFrom last derived _ [] [] (ample_enough _)⟩

theorem parse_ok_iff (last : stop.kind = .eof) (only : ∀ t ∈ body, t.kind ≠ .eof) :
    parse (body ++ [stop]).toArray source = .ok program ↔ ProgramText body program :=
  ⟨programText_of_parse last only, parse_of_programText last⟩

/-- On tokens that end with their only end mark, `parse` succeeds exactly if the grammar derives a
program from the tokens before it, and gives the one program that it derives. -/
theorem parse_exact (body : List Token) (stop : Token) (source : String)
    (last : stop.kind = .eof) (only : ∀ t ∈ body, t.kind ≠ .eof) :
    ((∃ program, parse (body ++ [stop]).toArray source = .ok program) ↔
      ∃ program, ProgramText body program) ∧
    ∀ program, parse (body ++ [stop]).toArray source = .ok program →
      ProgramText body program ∧ ∀ other, ProgramText body other → other = program := by
  refine ⟨exists_congr fun program => parse_ok_iff last only, ?_⟩
  intro program parsed
  refine ⟨programText_of_parse last only parsed, ?_⟩
  intro other derived
  have parsed' : parse (body ++ [stop]).toArray source = .ok other :=
    parse_of_programText last derived
  rw [parsed] at parsed'
  exact (Except.ok.inj parsed').symm

theorem parse_exact_signed_power :
    ProgramText
        [⟨.ident "x", ⟨0, 1⟩⟩, ⟨.symbol .equal, ⟨2, 3⟩⟩, ⟨.symbol .minus, ⟨4, 5⟩⟩,
          ⟨.int 2, ⟨5, 6⟩⟩, ⟨.symbol .starStar, ⟨7, 9⟩⟩, ⟨.symbol .minus, ⟨10, 11⟩⟩,
          ⟨.ident "y", ⟨11, 12⟩⟩, ⟨.symbol .semicolon, ⟨12, 13⟩⟩]
        [.assign ⟨"x", ⟨0, 1⟩⟩
          (.unary .neg
            (.binary .pow (.literal (.int 2) ⟨5, 6⟩)
              (.unary .neg (.var ⟨"y", ⟨11, 12⟩⟩) ⟨10, 12⟩) ⟨5, 12⟩) ⟨4, 12⟩) ⟨0, 13⟩] ∧
      ∀ other, ProgramText
        [⟨.ident "x", ⟨0, 1⟩⟩, ⟨.symbol .equal, ⟨2, 3⟩⟩, ⟨.symbol .minus, ⟨4, 5⟩⟩,
          ⟨.int 2, ⟨5, 6⟩⟩, ⟨.symbol .starStar, ⟨7, 9⟩⟩, ⟨.symbol .minus, ⟨10, 11⟩⟩,
          ⟨.ident "y", ⟨11, 12⟩⟩, ⟨.symbol .semicolon, ⟨12, 13⟩⟩] other →
        other = [.assign ⟨"x", ⟨0, 1⟩⟩
          (.unary .neg
            (.binary .pow (.literal (.int 2) ⟨5, 6⟩)
              (.unary .neg (.var ⟨"y", ⟨11, 12⟩⟩) ⟨10, 12⟩) ⟨5, 12⟩) ⟨4, 12⟩) ⟨0, 13⟩] :=
  (parse_exact _ ⟨.eof, ⟨13, 13⟩⟩ "" rfl (by decide)).2 _ rfl

end Salita
