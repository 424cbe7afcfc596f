import Salita.Proofs.Syntax.Nesting
import Salita.Proofs.Syntax.Pairing
import Salita.Proofs.Token.Cutting

/-!
# Where expressions stand among tokens

The span of an expression reaches over the tokens that it is derived from, but for the parentheses
that these begin and end with when they belong to an operand at the edge. What is left of the tokens
without such parentheses has parentheses that are not paired.
-/

namespace Salita

/-! ## Expressions in a tree -/

mutual

def Expr.nodes : Expr → List Expr
  | .literal value span => [.literal value span]
  | .var name => [.var name]
  | .list items span => .list items span :: Expr.nodesAll items
  | .binary op left right span => .binary op left right span :: (left.nodes ++ right.nodes)
  | .unary op operand span => .unary op operand span :: operand.nodes
  | .index target position span => .index target position span :: position.nodes
  | .call target args span => .call target args span :: Expr.nodesAll args

def Expr.nodesAll : List Expr → List Expr
  | [] => []
  | e :: rest => e.nodes ++ Expr.nodesAll rest

end

mutual

def Stmt.nodes : Stmt → List Expr
  | .assign _ value _ => value.nodes
  | .update _ _ value _ => value.nodes
  | .choose choice _ => choice.nodes
  | .repeatWhile cond body _ => cond.nodes ++ body.nodes
  | .forEach _ first last body _ => first.nodes ++ last.nodes ++ body.nodes
  | .print args _ => Expr.nodesAll args
  | .leave _ => []
  | .call _ args _ => Expr.nodesAll args

def Choice.nodes : Choice → List Expr
  | .mk cond block otherwise => cond.nodes ++ block.nodes ++ otherwise.nodes

def Otherwise.nodes : Otherwise → List Expr
  | .nothing => []
  | .block block => block.nodes
  | .choice choice => choice.nodes

def Block.nodes : Block → List Expr
  | .mk stmts _ => Program.nodes stmts

def Program.nodes : Program → List Expr
  | [] => []
  | stmt :: rest => stmt.nodes ++ Program.nodes rest

end

def Expr.IsOperation : Expr → Prop
  | .binary .. | .unary .. => True
  | _ => False

/-! ## Stretches of tokens -/

theorem Placed.precedes {ts us : List Token} {t u : Token} (placed : Placed (ts ++ us))
    (first : t ∈ ts) (second : u ∈ us) :
    t.span.start ≤ u.span.start ∧ t.span.stop ≤ u.span.stop := by
  have order := (List.pairwise_append.1 placed.ordered).2.2 t first u second
  have solid := placed.left.solid t first
  have nonempty := placed.right.solid u second
  omega

theorem Stretch.single (t : Token) : Stretch t.span.start t.span.stop [t] :=
  ⟨⟨t, [], rfl, rfl⟩, ⟨[], t, rfl, rfl⟩⟩

theorem Stretch.merge {a b : Span} {ts between us : List Token} (first : Stretch a.start a.stop ts)
    (second : Stretch b.start b.stop us) (placed : Placed (ts ++ (between ++ us))) :
    Stretch (a.merge b).start (a.merge b).stop (ts ++ (between ++ us)) := by
  have starts : a.start ≤ b.start := by
    obtain ⟨t, rest, rfl, start⟩ := first.first
    obtain ⟨u, rest', rfl, start'⟩ := second.first
    rw [← start, ← start']
    exact (placed.precedes (by simp) (by simp)).1
  have stops : a.stop ≤ b.stop := by
    obtain ⟨rest, t, rfl, stop⟩ := first.last
    obtain ⟨rest', u, rfl, stop'⟩ := second.last
    rw [← stop, ← stop']
    exact (placed.precedes (by simp) (by simp)).2
  constructor
  · obtain ⟨t, rest, rfl, start⟩ := first.first
    exact ⟨t, rest ++ (between ++ us), rfl, start.trans (Nat.min_eq_left starts).symm⟩
  · obtain ⟨rest, u, rfl, stop⟩ := second.last
    exact ⟨ts ++ (between ++ rest), u, by simp, stop.trans (Nat.max_eq_right stops).symm⟩

namespace Grammar

/-! ## Parentheses -/

theorem other_of_kind {b : Bracket} {t : Token} {kind : TokenKind} (spelled : t.kind = kind)
    (notOpening : kind ≠ b.opening) (notClosing : kind ≠ b.closing) : b.Other t := by
  rw [← spelled] at notOpening notClosing
  exact ⟨notOpening, notClosing⟩

theorem operatorKind_other {t : Token} {op : BinaryOp} (spelled : t.kind = operatorKind op) :
    Bracket.round.Other t :=
  other_of_kind spelled (by cases op <;> decide) (by cases op <;> decide)

theorem literalKind_other {t : Token} {value : Literal} (spelled : t.kind = literalKind value) :
    Bracket.round.Other t :=
  other_of_kind spelled (Parser.literalKind_ne_symbol value _) (Parser.literalKind_ne_symbol value _)

mutual

theorem ExprText.paired {r : Rank} {ts : List Token} {e : Expr} :
    ExprText r ts e → Paired .round ts
  | .tighter _ operand => operand.paired
  | .binary _ _ spelled _ first second =>
      first.paired.append (.other (operatorKind_other spelled) second.paired)
  | .power spelled first second =>
      first.paired.append (.other (operatorKind_other spelled) second.paired)
  | .not spelled operand => .other (other_of_kind spelled nofun nofun) operand.paired
  | .neg spelled operand => .other (other_of_kind spelled nofun nofun) operand.paired
  | .literal _ spelled => .single (literalKind_other spelled)
  | .var named => .single (other_of_kind named nofun nofun)
  | .call named opened closed items =>
      .other (other_of_kind named nofun nofun) (.pair opened closed items.paired .nil)
  | .index named opened closed position =>
      .other (other_of_kind named nofun nofun) (.other (other_of_kind opened nofun nofun)
        (position.paired.append (.single (other_of_kind closed nofun nofun))))
  | .group opened closed inner => .pair opened closed inner.paired .nil
  | .list opened closed items =>
      .other (other_of_kind opened nofun nofun)
        (items.paired.append (.single (other_of_kind closed nofun nofun)))

theorem ItemsText.paired {ts : List Token} {es : List Expr} : ItemsText ts es → Paired .round ts
  | .one item => item.paired
  | .more separated item items =>
      item.paired.append (.other (other_of_kind separated nofun nofun) items.paired)

theorem ListText.paired {ts : List Token} {es : List Expr} : ListText ts es → Paired .round ts
  | .none => .nil
  | .some items => items.paired

end

theorem Paired.relocate {b : Bracket} {ts : List Token} (paired : Paired b ts)
    (move : Span → Span) : Paired b (moved move ts) := by
  induction paired with
  | nil => exact .nil
  | other inert more ih => exact .other inert ih
  | pair opened closed within more within_ih more_ih =>
      rw [moved, List.map_cons, List.map_append, List.map_cons]
      exact .pair opened closed within_ih more_ih

variable {front front' inner inner' back back' : List Token} {a b : Span}

theorem depth_opening (opening : ∀ t ∈ front, t.kind = .symbol .leftParen) :
    Bracket.round.depth front = front.length := by
  induction front with
  | nil => rfl
  | cons t front ih =>
      rw [Bracket.depth_cons, ih fun u member => opening u (List.mem_cons_of_mem t member),
        Bracket.weight_opening (opening t List.mem_cons_self), List.length_cons]
      omega

theorem depth_closing (closing : ∀ t ∈ back, t.kind = .symbol .rightParen) :
    Bracket.round.depth back = -back.length := by
  induction back with
  | nil => rfl
  | cons t back ih =>
      rw [Bracket.depth_cons, ih fun u member => closing u (List.mem_cons_of_mem t member),
        Bracket.weight_closing (closing t List.mem_cons_self), List.length_cons]
      omega

/-! ## The tokens in a span -/

/-- The tokens `inner` reach over the span, with opening parentheses in front of them and closing
ones behind. -/
structure Enclosed (span : Span) (front inner back : List Token) : Prop where
  opening : ∀ t ∈ front, t.kind = .symbol .leftParen
  closing : ∀ t ∈ back, t.kind = .symbol .rightParen
  stretch : Stretch span.start span.stop inner

def Framed (span : Span) (ts : List Token) : Prop :=
  ∃ front inner back, ts = front ++ (inner ++ back) ∧ Enclosed span front inner back

theorem Enclosed.whole {ts : List Token} (stretch : Stretch a.start a.stop ts) :
    Enclosed a [] ts [] := ⟨by simp, by simp, stretch⟩

theorem Enclosed.fromTo {first last : Token} {ts : List Token}
    (placed : Placed (first :: ts ++ [last])) :
    Enclosed (first.span.merge last.span) [] (first :: ts ++ [last]) [] :=
  .whole ((Stretch.single first).merge (.single last) placed)

theorem Enclosed.between {mark : Token} (left : Enclosed a front inner back)
    (right : Enclosed b front' inner' back')
    (placed : Placed (front ++ (inner ++ back) ++ mark :: (front' ++ (inner' ++ back')))) :
    Enclosed (a.merge b) front (inner ++ (back ++ mark :: front' ++ inner')) back' := by
  refine ⟨left.opening, right.closing, left.stretch.merge right.stretch (placed.sublist ?_)⟩
  have inside : inner ++ (back ++ mark :: front' ++ inner') <:+:
      front ++ (inner ++ back) ++ mark :: (front' ++ (inner' ++ back')) :=
    ⟨front, back', by simp⟩
  exact inside.sublist

theorem Enclosed.marked {mark : Token} (operand : Enclosed a front inner back)
    (placed : Placed (mark :: (front ++ (inner ++ back)))) :
    Enclosed (mark.span.merge a) [] (mark :: (front ++ inner)) back := by
  refine ⟨by simp, operand.closing, ?_⟩
  refine (Stretch.single mark).merge operand.stretch (placed.sublist ?_)
  have inside : mark :: (front ++ inner) <:+: mark :: (front ++ (inner ++ back)) :=
    ⟨[], back, by simp⟩
  exact inside.sublist

namespace Framed

variable {ts us : List Token}

theorem whole (enclosed : Enclosed a [] ts []) : Framed a ts := ⟨[], ts, [], by simp, enclosed⟩

theorem single {t : Token} : Framed t.span [t] := .whole (.whole (.single t))

theorem group {opening closing : Token} (opened : opening.kind = .symbol .leftParen)
    (closed : closing.kind = .symbol .rightParen) (framed : Framed a ts) :
    Framed a (opening :: ts ++ [closing]) := by
  obtain ⟨front, inner, back, rfl, enclosed⟩ := framed
  refine ⟨opening :: front, inner, back ++ [closing], by simp, ?_, ?_, enclosed.stretch⟩
  · simpa [opened] using enclosed.opening
  · simpa [or_imp, forall_and, closed] using enclosed.closing

theorem between {mark : Token} (left : Framed a ts) (right : Framed b us)
    (placed : Placed (ts ++ mark :: us)) : Framed (a.merge b) (ts ++ mark :: us) := by
  obtain ⟨front, inner, back, rfl, enclosed⟩ := left
  obtain ⟨front', inner', back', rfl, enclosed'⟩ := right
  exact ⟨front, _, back', by simp, enclosed.between enclosed' placed⟩

theorem marked {mark : Token} (operand : Framed a ts) (placed : Placed (mark :: ts)) :
    Framed (mark.span.merge a) (mark :: ts) := by
  obtain ⟨front, inner, back, rfl, enclosed⟩ := operand
  exact ⟨[], _, back, by simp, enclosed.marked placed⟩

end Framed

theorem ExprText.framed {r : Rank} {ts : List Token} {e : Expr} :
    ExprText r ts e → Placed ts → Framed e.span ts
  | .tighter _ operand => operand.framed
  | .binary _ _ _ _ first second => fun placed =>
      (first.framed placed.left).between (second.framed placed.right.tail) placed
  | .power _ first second => fun placed =>
      (first.framed placed.left).between (second.framed placed.right.tail) placed
  | .not _ operand => fun placed => (operand.framed placed.tail).marked placed
  | .neg _ operand => fun placed => (operand.framed placed.tail).marked placed
  | .literal _ _ => fun _ => .single
  | .var _ => fun _ => .single
  | .call _ _ _ _ => fun placed => .whole (.fromTo placed)
  | .index _ _ _ _ => fun placed => .whole (.fromTo placed)
  | .group opened closed inside => fun placed =>
      (inside.framed placed.left.tail).group opened closed
  | .list _ _ _ => fun placed => .whole (.fromTo placed)

/-! ## Expressions among tokens -/

/-- The tokens derive the expression, and its span reaches over `inner`. If the parentheses in there
are paired, these are all the tokens. -/
structure Spread (e : Expr) (front inner back : List Token) : Prop where
  derived : ∃ r, ExprText r (front ++ (inner ++ back)) e
  enclosed : Enclosed e.span front inner back
  paired : Paired .round inner ∨ e.IsOperation
  tight : Paired .round inner → front = [] ∧ back = []

def Occurs (ts : List Token) (e : Expr) : Prop :=
  ∃ front inner back, front ++ (inner ++ back) <:+: ts ∧ Spread e front inner back

variable {ts us : List Token} {e : Expr} {r r' r'' : Rank}

theorem Occurs.before (occurs : Occurs ts e) : Occurs (ts ++ us) e := by
  obtain ⟨front, inner, back, inside, spread⟩ := occurs
  exact ⟨front, inner, back, inside.trans ⟨[], us, rfl⟩, spread⟩

theorem Occurs.behind (occurs : Occurs us e) : Occurs (ts ++ us) e := by
  obtain ⟨front, inner, back, inside, spread⟩ := occurs
  exact ⟨front, inner, back, inside.trans (List.suffix_append ts us).isInfix, spread⟩

theorem Occurs.cons {t : Token} (occurs : Occurs ts e) : Occurs (t :: ts) e :=
  @Occurs.behind [t] ts e occurs

theorem Spread.occurs (spread : Spread e front inner back)
    (all : front ++ (inner ++ back) = ts) : Occurs ts e :=
  ⟨front, inner, back, ⟨[], [], by simp [all]⟩, spread⟩

theorem Occurs.whole (derived : ExprText r ts e) (enclosed : Enclosed e.span [] ts []) :
    Occurs ts e := by
  have all : [] ++ (ts ++ []) = ts := by simp
  refine Spread.occurs ⟨⟨r, ?_⟩, enclosed, .inl derived.paired, fun _ => ⟨rfl, rfl⟩⟩ all
  rw [all]
  exact derived

theorem Occurs.binary {mark : Token} {op : BinaryOp} {left right : Expr}
    (first : ExprText r ts left) (second : ExprText r' us right)
    (derived : ExprText r'' (ts ++ mark :: us)
      (.binary op left right (left.span.merge right.span)))
    (placed : Placed (ts ++ mark :: us)) :
    Occurs (ts ++ mark :: us) (.binary op left right (left.span.merge right.span)) := by
  obtain ⟨front, inner, back, rfl, enclosed⟩ := first.framed placed.left
  obtain ⟨front', inner', back', rfl, enclosed'⟩ := second.framed placed.right.tail
  have all : front ++ (inner ++ (back ++ mark :: front' ++ inner') ++ back') =
      front ++ (inner ++ back) ++ mark :: (front' ++ (inner' ++ back')) := by simp
  refine Spread.occurs ⟨⟨r'', ?_⟩, enclosed.between enclosed' placed, .inr trivial, ?_⟩ all
  · rw [all]
    exact derived
  · intro paired
    have left := first.paired.depth_eq
    have right := second.paired.depth_eq
    have start := @Paired.depth_nonneg _ (inner ++ back) (mark :: front' ++ inner')
      (by simpa using paired)
    have stop := @Paired.depth_nonpos _ (inner ++ back ++ [mark]) (front' ++ inner')
      (by simpa using paired)
    simp only [Bracket.depth_append, depth_opening enclosed.opening,
      depth_closing enclosed'.closing] at left right start stop
    exact ⟨List.length_eq_zero_iff.1 (by omega), List.length_eq_zero_iff.1 (by omega)⟩

theorem Occurs.unary {mark : Token} {op : UnaryOp} {operand : Expr} (single : ExprText r ts operand)
    (derived : ExprText r' (mark :: ts) (.unary op operand (mark.span.merge operand.span)))
    (placed : Placed (mark :: ts)) :
    Occurs (mark :: ts) (.unary op operand (mark.span.merge operand.span)) := by
  obtain ⟨front, inner, back, rfl, enclosed⟩ := single.framed placed.tail
  have all : [] ++ (mark :: (front ++ inner) ++ back) = mark :: (front ++ (inner ++ back)) := by
    simp
  refine Spread.occurs ⟨⟨r', ?_⟩, enclosed.marked placed, .inr trivial, ?_⟩ all
  · rw [all]
    exact derived
  · intro paired
    have whole := single.paired.depth_eq
    have stop := @Paired.depth_nonpos _ [mark] (front ++ inner) paired
    simp only [Bracket.depth_append, depth_closing enclosed.closing] at whole stop
    exact ⟨rfl, List.length_eq_zero_iff.1 (by omega)⟩

mutual

theorem ExprText.occurs {r : Rank} {ts : List Token} {e : Expr} :
    ExprText r ts e → Placed ts → ∀ n ∈ e.nodes, Occurs ts n
  | .tighter _ operand, placed => operand.occurs placed
  | .binary op leftward spelled next first second, placed => by
      have derived := ExprText.binary op leftward spelled next first second
      have left := first.occurs placed.left
      have right := second.occurs placed.right.tail
      simp only [Expr.nodes, List.forall_mem_cons, List.forall_mem_append]
      exact ⟨.binary first second derived placed, fun n member => (left n member).before,
        fun n member => (right n member).cons.behind⟩
  | .power spelled first second, placed => by
      have derived := ExprText.power spelled first second
      have left := first.occurs placed.left
      have right := second.occurs placed.right.tail
      simp only [Expr.nodes, List.forall_mem_cons, List.forall_mem_append]
      exact ⟨.binary first second derived placed, fun n member => (left n member).before,
        fun n member => (right n member).cons.behind⟩
  | .not spelled single, placed => by
      have derived := ExprText.not spelled single
      have inner := single.occurs placed.tail
      simp only [Expr.nodes, List.forall_mem_cons]
      exact ⟨.unary single derived placed, fun n member => (inner n member).cons⟩
  | .neg spelled single, placed => by
      have derived := ExprText.neg spelled single
      have inner := single.occurs placed.tail
      simp only [Expr.nodes, List.forall_mem_cons]
      exact ⟨.unary single derived placed, fun n member => (inner n member).cons⟩
  | .literal value spelled, _ => by
      have whole := Occurs.whole (.literal value spelled) (.whole (.single _))
      simpa [Expr.nodes] using whole
  | .var named, _ => by
      have whole := Occurs.whole (.var named) (.whole (.single _))
      simpa [Expr.nodes] using whole
  | .call named opened closed items, placed => by
      have whole := Occurs.whole (.call named opened closed items) (.fromTo placed)
      have inner := items.occurs placed.left.tail.tail
      simp only [Expr.nodes, List.forall_mem_cons]
      exact ⟨whole, fun n member => (inner n member).cons.cons.before⟩
  | .index named opened closed position, placed => by
      have whole := Occurs.whole (.index named opened closed position) (.fromTo placed)
      have inner := position.occurs placed.left.tail.tail
      simp only [Expr.nodes, List.forall_mem_cons]
      exact ⟨whole, fun n member => (inner n member).cons.cons.before⟩
  | .group _ _ inside, placed =>
      fun n member => (inside.occurs placed.left.tail n member).cons.before
  | .list opened closed items, placed => by
      have whole := Occurs.whole (.list opened closed items) (.fromTo placed)
      have inner := items.occurs placed.left.tail
      simp only [Expr.nodes, List.forall_mem_cons]
      exact ⟨whole, fun n member => (inner n member).cons.before⟩

theorem ItemsText.occurs {ts : List Token} {es : List Expr} :
    ItemsText ts es → Placed ts → ∀ n ∈ Expr.nodesAll es, Occurs ts n
  | .one item, placed => by
      simpa [Expr.nodesAll] using item.occurs placed
  | .more _ item items, placed => by
      have first := item.occurs placed.left
      have rest := items.occurs placed.right.tail
      simp only [Expr.nodesAll, List.forall_mem_append]
      exact ⟨fun n member => (first n member).before, fun n member => (rest n member).cons.behind⟩

theorem ListText.occurs {ts : List Token} {es : List Expr} :
    ListText ts es → Placed ts → ∀ n ∈ Expr.nodesAll es, Occurs ts n
  | .none, _ => by simp [Expr.nodesAll]
  | .some items, placed => items.occurs placed

end

mutual

theorem StmtText.occurs {ts : List Token} {s : Stmt} :
    StmtText ts s → Placed ts → ∀ n ∈ s.nodes, Occurs ts n
  | .call _ _ _ _ items, placed => fun n member =>
      (items.occurs placed.left.tail.tail n member).cons.cons.before
  | .assign _ _ _ value, placed => fun n member =>
      (value.occurs placed.left.tail.tail n member).cons.cons.before
  | .update _ _ _ _ _ value, placed => fun n member =>
      (value.occurs placed.left.tail.tail n member).cons.cons.before
  | .choose choice, placed => choice.occurs placed
  | .repeatWhile _ _ _ cond body, placed => by
      have test := cond.occurs placed.left.tail.tail
      have inner := body.occurs placed.right.tail
      simp only [Stmt.nodes, List.forall_mem_append]
      exact ⟨fun n member => (test n member).cons.cons.before,
        fun n member => (inner n member).cons.behind⟩
  | .forEach _ _ _ _ _ _ _ lower upper body, placed => by
      have low := lower.occurs placed.left.left.tail.tail.tail.tail.tail
      have high := upper.occurs placed.left.right.tail
      have inner := body.occurs placed.right.tail
      simp only [Stmt.nodes, List.forall_mem_append]
      exact ⟨⟨fun n member => (low n member).cons.cons.cons.cons.cons.before.before,
        fun n member => (high n member).cons.behind.before⟩,
        fun n member => (inner n member).cons.behind⟩
  | .print _ _ _ _ items, placed => fun n member =>
      (items.occurs placed.left.tail.tail n member).cons.cons.before
  | .leave _ _, _ => by simp [Stmt.nodes]

theorem ChoiceText.occurs {ts : List Token} {choice : Choice} :
    ChoiceText ts choice → Placed ts → ∀ n ∈ choice.nodes, Occurs ts n
  | .alone _ _ _ cond body, placed => by
      have test := cond.occurs placed.left.tail.tail
      have inner := body.occurs placed.right.tail
      simp only [Choice.nodes, Otherwise.nodes, List.append_nil, List.forall_mem_append]
      exact ⟨fun n member => (test n member).cons.cons.before,
        fun n member => (inner n member).cons.behind⟩
  | .otherwise _ _ _ _ cond body other, placed => by
      have test := cond.occurs placed.left.left.tail.tail
      have inner := body.occurs placed.left.right.tail
      have last := other.occurs placed.right.tail
      simp only [Choice.nodes, Otherwise.nodes, List.forall_mem_append]
      exact ⟨⟨fun n member => (test n member).cons.cons.before.before,
        fun n member => (inner n member).cons.behind.before⟩,
        fun n member => (last n member).cons.behind⟩
  | .further _ _ _ _ cond body other, placed => by
      have test := cond.occurs placed.left.left.tail.tail
      have inner := body.occurs placed.left.right.tail
      have last := other.occurs placed.right.tail
      simp only [Choice.nodes, Otherwise.nodes, List.forall_mem_append]
      exact ⟨⟨fun n member => (test n member).cons.cons.before.before,
        fun n member => (inner n member).cons.behind.before⟩,
        fun n member => (last n member).cons.behind⟩

theorem BlockText.occurs {ts : List Token} {body : Block} :
    BlockText ts body → Placed ts → ∀ n ∈ body.nodes, Occurs ts n
  | .braces _ _ stmts, placed => fun n member =>
      (stmts.occurs placed.left.tail n member).cons.before

theorem StmtsText.occurs {ts : List Token} {stmts : List Stmt} :
    StmtsText ts stmts → Placed ts → ∀ n ∈ Program.nodes stmts, Occurs ts n
  | .nil, _ => by simp [Program.nodes]
  | .cons stmt rest, placed => by
      have first := stmt.occurs placed.left
      have more := rest.occurs placed.right
      simp only [Program.nodes, List.forall_mem_append]
      exact ⟨fun n member => (first n member).before, fun n member => (more n member).behind⟩

end

end Grammar

end Salita
