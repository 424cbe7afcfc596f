import Salita.Proofs.Syntax.Grammar

namespace Salita

def Span.shift (distance : Nat) (s : Span) : Span := ⟨s.start + distance, s.stop + distance⟩

/-- A move of spans by which merged spans stay merged. -/
structure Span.Rigid (move : Span → Span) : Prop where
  merge : ∀ a b : Span, move (a.merge b) = (move a).merge (move b)

theorem Span.rigid_shift (distance : Nat) : Span.Rigid (Span.shift distance) := by
  constructor
  intro a b
  simp only [Span.shift, Span.merge, Nat.add_min_add_right, Nat.add_max_add_right]

def Token.relocate (move : Span → Span) (t : Token) : Token := ⟨t.kind, move t.span⟩

@[simp] theorem Token.span_relocate (move : Span → Span) (t : Token) :
    (t.relocate move).span = move t.span := rfl

section
variable (move : Span → Span)

def Name.relocate (name : Name) : Name := ⟨name.text, move name.span⟩

mutual

def Expr.relocate : Expr → Expr
  | .literal value span => .literal value (move span)
  | .var name => .var (name.relocate move)
  | .list items span => .list (Expr.relocateAll items) (move span)
  | .binary op left right span => .binary op left.relocate right.relocate (move span)
  | .unary op operand span => .unary op operand.relocate (move span)
  | .index target position span => .index (target.relocate move) position.relocate (move span)
  | .call target args span => .call (target.relocate move) (Expr.relocateAll args) (move span)

def Expr.relocateAll : List Expr → List Expr
  | [] => []
  | e :: rest => e.relocate :: Expr.relocateAll rest

end

mutual

def Stmt.relocate : Stmt → Stmt
  | .assign target value span => .assign (target.relocate move) (value.relocate move) (move span)
  | .update target op value span =>
      .update (target.relocate move) op (value.relocate move) (move span)
  | .choose choice span => .choose choice.relocate (move span)
  | .repeatWhile cond body span => .repeatWhile (cond.relocate move) body.relocate (move span)
  | .forEach var first last body span =>
      .forEach (var.relocate move) (first.relocate move) (last.relocate move) body.relocate
        (move span)
  | .print args span => .print (Expr.relocateAll move args) (move span)
  | .leave span => .leave (move span)
  | .call target args span =>
      .call (target.relocate move) (Expr.relocateAll move args) (move span)

def Choice.relocate : Choice → Choice
  | .mk cond block otherwise => .mk (cond.relocate move) block.relocate otherwise.relocate

def Otherwise.relocate : Otherwise → Otherwise
  | .nothing => .nothing
  | .block block => .block block.relocate
  | .choice choice => .choice choice.relocate

def Block.relocate : Block → Block
  | .mk stmts span => .mk (Program.relocate stmts) (move span)

def Program.relocate : List Stmt → List Stmt
  | [] => []
  | stmt :: rest => stmt.relocate :: Program.relocate rest

end

@[simp] theorem Expr.span_relocate (e : Expr) : (e.relocate move).span = move e.span := by
  cases e <;> rfl

@[simp] theorem Block.span_relocate (block : Block) :
    (block.relocate move).span = move block.span := by
  cases block
  rfl

end

namespace Grammar

abbrev moved (move : Span → Span) (ts : List Token) : List Token := ts.map (Token.relocate move)

variable {move : Span → Span}

mutual

theorem ExprText.relocate {r : Rank} {ts : List Token} {e : Expr} (rigid : Span.Rigid move) :
    ExprText r ts e → ExprText r (moved move ts) (e.relocate move)
  | .tighter next operand => .tighter next (operand.relocate rigid)
  | @ExprText.binary r ls rs left right mark op leftward spelled next first second => by
      have derived := @ExprText.binary r _ _ _ _ (mark.relocate move) op leftward spelled next
        (first.relocate rigid) (second.relocate rigid)
      simpa [Expr.relocate, Name.relocate, rigid.merge] using derived
  | @ExprText.power bs es base exponent mark spelled first second => by
      have derived := @ExprText.power _ _ _ _ (mark.relocate move) spelled
        (first.relocate rigid) (second.relocate rigid)
      simpa [Expr.relocate, Name.relocate, rigid.merge] using derived
  | @ExprText.not ts e mark spelled operand => by
      have derived := @ExprText.not _ _ (mark.relocate move) spelled (operand.relocate rigid)
      simpa [Expr.relocate, Name.relocate, rigid.merge] using derived
  | @ExprText.neg ts e mark spelled operand => by
      have derived := @ExprText.neg _ _ (mark.relocate move) spelled (operand.relocate rigid)
      simpa [Expr.relocate, Name.relocate, rigid.merge] using derived
  | .literal value spelled => .literal value spelled
  | .var named => .var named
  | @ExprText.call name t opening closing ts args named opened closed items => by
      have derived := @ExprText.call name (t.relocate move) (opening.relocate move)
        (closing.relocate move) _ _ named opened closed (items.relocate rigid)
      simpa [Expr.relocate, Name.relocate, rigid.merge] using derived
  | @ExprText.index name t opening closing ts position named opened closed inner => by
      have derived := @ExprText.index name (t.relocate move) (opening.relocate move)
        (closing.relocate move) _ _ named opened closed (inner.relocate rigid)
      simpa [Expr.relocate, Name.relocate, rigid.merge] using derived
  | @ExprText.group opening closing ts e opened closed inner => by
      have derived := @ExprText.group (opening.relocate move) (closing.relocate move) _ _
        opened closed (inner.relocate rigid)
      simpa [Expr.relocate, Name.relocate, rigid.merge] using derived
  | @ExprText.list opening closing ts items opened closed inner => by
      have derived := @ExprText.list (opening.relocate move) (closing.relocate move) _ _
        opened closed (inner.relocate rigid)
      simpa [Expr.relocate, Name.relocate, rigid.merge] using derived

theorem ItemsText.relocate {ts : List Token} {es : List Expr} (rigid : Span.Rigid move) :
    ItemsText ts es → ItemsText (moved move ts) (Expr.relocateAll move es)
  | .one single => .one (single.relocate rigid)
  | @ItemsText.more ts us e es comma separated first rest => by
      have derived := @ItemsText.more _ _ _ _ (comma.relocate move) separated
        (first.relocate rigid) (rest.relocate rigid)
      simpa [Expr.relocateAll] using derived

theorem ListText.relocate {ts : List Token} {es : List Expr} (rigid : Span.Rigid move) :
    ListText ts es → ListText (moved move ts) (Expr.relocateAll move es)
  | .none => .none
  | .some items => .some (items.relocate rigid)

end

mutual

theorem StmtText.relocate {ts : List Token} {stmt : Stmt} (rigid : Span.Rigid move) :
    StmtText ts stmt → StmtText (moved move ts) (stmt.relocate move)
  | @StmtText.call name t opening closing stop ts args named opened closed ended items => by
      have derived := @StmtText.call name (t.relocate move) (opening.relocate move)
        (closing.relocate move) (stop.relocate move) _ _ named opened closed ended
        (items.relocate rigid)
      simpa [Stmt.relocate, Name.relocate, rigid.merge] using derived
  | @StmtText.assign name t mark stop ts e named spelled ended value => by
      have derived := @StmtText.assign name (t.relocate move) (mark.relocate move)
        (stop.relocate move) _ _ named spelled ended (value.relocate rigid)
      simpa [Stmt.relocate, Name.relocate, rigid.merge] using derived
  | @StmtText.update name t mark stop ts e symbol op named compound spelled ended value => by
      have derived := @StmtText.update name (t.relocate move) (mark.relocate move)
        (stop.relocate move) _ _ symbol op named compound spelled ended (value.relocate rigid)
      simpa [Stmt.relocate, Name.relocate, rigid.merge] using derived
  | @StmtText.choose first last ts choice alternatives => by
      have derived := @StmtText.choose (first.relocate move) (last.relocate move) (moved move ts) _
        (by simpa using alternatives.relocate rigid)
      simpa [Stmt.relocate, rigid.merge] using derived
  | @StmtText.repeatWhile first opening closing cs bs cond body spelled opened closed test block =>
    by
      have derived := @StmtText.repeatWhile (first.relocate move) (opening.relocate move)
        (closing.relocate move) _ _ _ _ spelled opened closed (test.relocate rigid)
        (block.relocate rigid)
      simpa [Stmt.relocate, rigid.merge] using derived
  | @StmtText.forEach first each t within opening colon closing name fs ls bs lower upper body
      spelled eachSpelled named withinSpelled opened divided closed low high block => by
      have derived := @StmtText.forEach (first.relocate move) (each.relocate move)
        (t.relocate move) (within.relocate move) (opening.relocate move) (colon.relocate move)
        (closing.relocate move) name _ _ _ _ _ _ spelled eachSpelled named withinSpelled opened
        divided closed (low.relocate rigid) (high.relocate rigid) (block.relocate rigid)
      simpa [Stmt.relocate, Name.relocate, rigid.merge] using derived
  | @StmtText.print first opening closing stop ts args spelled opened closed ended items => by
      have derived := @StmtText.print (first.relocate move) (opening.relocate move)
        (closing.relocate move) (stop.relocate move) _ _ spelled opened closed ended
        (items.relocate rigid)
      simpa [Stmt.relocate, rigid.merge] using derived
  | @StmtText.leave first stop spelled ended => by
      have derived := @StmtText.leave (first.relocate move) (stop.relocate move) spelled ended
      simpa [Stmt.relocate, rigid.merge] using derived

theorem ChoiceText.relocate {ts : List Token} {choice : Choice} (rigid : Span.Rigid move) :
    ChoiceText ts choice → ChoiceText (moved move ts) (choice.relocate move)
  | @ChoiceText.alone first opening closing cs bs cond body spelled opened closed test block => by
      have derived := @ChoiceText.alone (first.relocate move) (opening.relocate move)
        (closing.relocate move) _ _ _ _ spelled opened closed (test.relocate rigid)
        (block.relocate rigid)
      simpa [Choice.relocate, Otherwise.relocate] using derived
  | @ChoiceText.otherwise first opening closing mark cs bs os cond body other spelled opened closed
      marked test block last => by
      have derived := @ChoiceText.otherwise (first.relocate move) (opening.relocate move)
        (closing.relocate move) (mark.relocate move) _ _ _ _ _ _ spelled opened closed marked
        (test.relocate rigid) (block.relocate rigid) (last.relocate rigid)
      simpa [Choice.relocate, Otherwise.relocate] using derived
  | @ChoiceText.further first opening closing mark cs bs os cond body other spelled opened closed
      marked test block next => by
      have derived := @ChoiceText.further (first.relocate move) (opening.relocate move)
        (closing.relocate move) (mark.relocate move) _ _ _ _ _ _ spelled opened closed marked
        (test.relocate rigid) (block.relocate rigid) (next.relocate rigid)
      simpa [Choice.relocate, Otherwise.relocate] using derived

theorem BlockText.relocate {ts : List Token} {block : Block} (rigid : Span.Rigid move) :
    BlockText ts block → BlockText (moved move ts) (block.relocate move)
  | @BlockText.braces opening closing ts stmts opened closed inner => by
      have derived := @BlockText.braces (opening.relocate move) (closing.relocate move) _ _
        opened closed (inner.relocate rigid)
      simpa [Block.relocate, rigid.merge] using derived

theorem StmtsText.relocate {ts : List Token} {stmts : List Stmt} (rigid : Span.Rigid move) :
    StmtsText ts stmts → StmtsText (moved move ts) (Program.relocate move stmts)
  | .nil => .nil
  | @StmtsText.cons ts us stmt stmts first rest => by
      have derived := StmtsText.cons (first.relocate rigid) (rest.relocate rigid)
      simpa [Program.relocate] using derived

end

/-- No statement reaches over the end of a program into the next one. -/
theorem StmtsText.append {us : List Token} {others : List Stmt} (more : StmtsText us others) :
    ∀ {ts : List Token} {stmts : List Stmt}, StmtsText ts stmts →
      StmtsText (ts ++ us) (stmts ++ others)
  | _, _, .nil => more
  | _, _, @StmtsText.cons ts rest stmt stmts first inner => by
      rw [List.append_assoc, List.cons_append]
      exact .cons first (StmtsText.append more inner)

end Grammar

end Salita
