import Salita.Proofs.Syntax.Exactness
import Salita.Proofs.Syntax.Spans
import Salita.Proofs.Token.Tiling

namespace Salita

inductive Region where
  | node (span : Span) (parts : List Region)

def Region.span : Region → Span
  | .node span _ => span

def Name.region (name : Name) : Region := .node name.span []

mutual

def Expr.region : Expr → Region
  | .literal _ span => .node span []
  | .var name => .node name.span [name.region]
  | .list items span => .node span (Expr.regions items)
  | .binary _ left right span => .node span [left.region, right.region]
  | .unary _ operand span => .node span [operand.region]
  | .index target position span => .node span [target.region, position.region]
  | .call target args span => .node span (target.region :: Expr.regions args)

def Expr.regions : List Expr → List Region
  | [] => []
  | e :: rest => e.region :: Expr.regions rest

end

mutual

def Stmt.region : Stmt → Region
  | .assign target value span => .node span [target.region, value.region]
  | .update target _ value span => .node span [target.region, value.region]
  | .choose choice span => .node span choice.regions
  | .repeatWhile cond body span => .node span [cond.region, body.region]
  | .forEach var first last body span =>
      .node span [var.region, first.region, last.region, body.region]
  | .print args span => .node span (Expr.regions args)
  | .leave span => .node span []
  | .call target args span => .node span (target.region :: Expr.regions args)

def Choice.regions : Choice → List Region
  | .mk cond block otherwise => cond.region :: block.region :: otherwise.regions

def Otherwise.regions : Otherwise → List Region
  | .nothing => []
  | .block block => [block.region]
  | .choice choice => choice.regions

def Block.region : Block → Region
  | .mk stmts span => .node span (Program.regions stmts)

def Program.regions : Program → List Region
  | [] => []
  | stmt :: rest => stmt.region :: Program.regions rest

end

theorem Stmt.span_mem_spans (stmt : Stmt) : stmt.span ∈ stmt.spans := by
  cases stmt <;> simp [Stmt.span, Stmt.spans]

theorem Expr.span_region (e : Expr) : e.region.span = e.span := by
  cases e <;> rfl

/-- A node whose spans reach from token to token. The parts of each node lie within it, one behind
the other. -/
inductive Region.Nested (tokens : List Token) : Region → Prop
  | node {span : Span} {parts : List Region} (reaches : Reaches tokens span)
      (within : ∀ part ∈ parts, part.span.Within span)
      (apart : parts.Pairwise fun a b => a.span.stop ≤ b.span.start)
      (inner : ∀ part ∈ parts, part.Nested tokens) : Nested tokens (.node span parts)

structure Siblings (tokens : List Token) (regions : List Region) : Prop where
  nested : ∀ region ∈ regions, region.Nested tokens
  apart : regions.Pairwise fun a b => a.span.stop ≤ b.span.start

theorem Reaches.mono {tokens others : List Token} {span : Span} (reaches : Reaches tokens span)
    (subset : tokens ⊆ others) : Reaches others span := by
  obtain ⟨⟨first, firstMember, start⟩, ⟨last, lastMember, stop⟩, nonempty⟩ := reaches
  exact ⟨⟨first, subset firstMember, start⟩, ⟨last, subset lastMember, stop⟩, nonempty⟩

theorem Reaches.within {tokens : List Token} {span outer : Span} (reaches : Reaches tokens span)
    (covers : ∀ t ∈ tokens, t.span.Within outer) : span.Within outer := by
  obtain ⟨⟨first, firstMember, start⟩, ⟨last, lastMember, stop⟩, -⟩ := reaches
  exact ⟨start ▸ (covers first firstMember).start, stop ▸ (covers last lastMember).stop⟩

theorem Span.Within.refl (span : Span) : span.Within span := ⟨Nat.le_refl _, Nat.le_refl _⟩

theorem Region.Nested.reaches {tokens : List Token} {region : Region}
    (nested : region.Nested tokens) : Reaches tokens region.span := by
  cases nested with
  | node reaches => exact reaches

theorem Region.Nested.mono {tokens others : List Token} {region : Region}
    (nested : region.Nested tokens) (subset : tokens ⊆ others) : region.Nested others := by
  induction nested with
  | node reaches within apart inner ih => exact .node (reaches.mono subset) within apart ih

namespace Siblings

variable {ts us : List Token} {parts others : List Region} {span : Span}

theorem none (ts : List Token) : Siblings ts [] := ⟨by simp, .nil⟩

theorem one {region : Region} (nested : region.Nested ts) : Siblings ts [region] :=
  ⟨by simpa using nested, by simp⟩

theorem mono (siblings : Siblings ts parts) (subset : ts ⊆ us) : Siblings us parts :=
  ⟨fun region member => (siblings.nested region member).mono subset, siblings.apart⟩

theorem head {region : Region} (siblings : Siblings ts (region :: parts)) : region.Nested ts :=
  siblings.nested region List.mem_cons_self

theorem enclose (siblings : Siblings ts parts) (reaches : Reaches ts span)
    (covers : ∀ t ∈ ts, t.span.Within span) : Siblings ts [.node span parts] := by
  refine one (.node reaches ?_ siblings.apart siblings.nested)
  intro part member
  exact (siblings.nested part member).reaches.within covers

end Siblings

structure Placed (tokens : List Token) : Prop where
  solid : Solid tokens
  ordered : tokens.Pairwise fun a b => a.span.stop ≤ b.span.start

namespace Placed

variable {ts us : List Token} {first last : Token}

theorem sublist (placed : Placed ts) (sublist : us.Sublist ts) : Placed us :=
  ⟨fun t member => placed.solid t (sublist.subset member), placed.ordered.sublist sublist⟩

theorem left (placed : Placed (ts ++ us)) : Placed ts :=
  placed.sublist (List.sublist_append_left ts us)

theorem right (placed : Placed (ts ++ us)) : Placed us :=
  placed.sublist (List.sublist_append_right ts us)

theorem tail (placed : Placed (first :: ts)) : Placed ts :=
  placed.sublist (List.sublist_cons_self first ts)

theorem within_ends (placed : Placed (first :: ts ++ [last])) :
    ∀ t ∈ first :: ts ++ [last], t.span.Within (first.span.merge last.span) := by
  intro t member
  have firstNonempty := placed.solid first (by simp)
  have lastNonempty := placed.solid last (by simp)
  have front : first.span.start ≤ t.span.start := by
    rcases List.mem_cons.1 member with same | later
    · exact same ▸ Nat.le_refl _
    · have order := List.rel_of_pairwise_cons placed.ordered later
      omega
  have back : t.span.stop ≤ last.span.stop := by
    rcases List.mem_append.1 member with earlier | final
    · have order := (List.pairwise_append.1 placed.ordered).2.2 t earlier last List.mem_cons_self
      omega
    · exact List.mem_singleton.1 final ▸ Nat.le_refl _
  exact ⟨Nat.le_trans (Nat.min_le_left _ _) front, Nat.le_trans back (Nat.le_max_right _ _)⟩

theorem reaches_ends (placed : Placed (first :: ts ++ [last])) :
    Reaches (first :: ts ++ [last]) (first.span.merge last.span) :=
  (placed.solid.reaches (by simp)).merge (placed.solid.reaches (by simp))

end Placed

namespace Siblings

variable {ts us : List Token} {parts : List Region}

theorem cons {t : Token} (siblings : Siblings ts parts) : Siblings (t :: ts) parts :=
  siblings.mono (List.subset_cons_self t ts)

theorem before (siblings : Siblings ts parts) : Siblings (ts ++ us) parts :=
  siblings.mono (List.subset_append_left ts us)

end Siblings

namespace Placed

variable {ts us : List Token} {t mark first last : Token} {parts others : List Region} {a b : Region}

theorem append (placed : Placed (ts ++ us)) (front : Siblings ts parts) (back : Siblings us others) :
    Siblings (ts ++ us) (parts ++ others) := by
  constructor
  · intro region member
    rcases List.mem_append.1 member with left | right
    · exact (front.nested region left).mono (List.subset_append_left ts us)
    · exact (back.nested region right).mono (List.subset_append_right ts us)
  · refine List.pairwise_append.2 ⟨front.apart, back.apart, ?_⟩
    intro a left b right
    obtain ⟨-, ⟨last, lastMember, stop⟩, -⟩ := (front.nested a left).reaches
    obtain ⟨⟨next, nextMember, start⟩, -, -⟩ := (back.nested b right).reaches
    rw [← stop, ← start]
    exact (List.pairwise_append.1 placed.ordered).2.2 last lastMember next nextMember

theorem single (placed : Placed (t :: ts)) : Placed [t] :=
  placed.sublist (List.singleton_sublist.2 List.mem_cons_self)

theorem alone (placed : Placed [t]) (siblings : Siblings [t] parts) :
    Siblings [t] [.node t.span parts] := by
  apply siblings.enclose (placed.solid.reaches List.mem_cons_self)
  intro other member
  exact List.mem_singleton.1 member ▸ .refl _

theorem named (placed : Placed (t :: ts)) (text : String) (siblings : Siblings ts parts) :
    Siblings (t :: ts) ((Name.mk text t.span).region :: parts) :=
  append placed (placed.single.alone (.none [t])) siblings

theorem marked (placed : Placed (mark :: ts)) (operand : Siblings ts [a]) :
    Siblings (mark :: ts) [.node (mark.span.merge a.span) [a]] := by
  have inner : Siblings (mark :: ts) [a] := operand.cons
  have reaches := (placed.solid.reaches List.mem_cons_self).merge inner.head.reaches
  refine .one (.node reaches ?_ inner.apart inner.nested)
  intro part member
  rw [List.mem_singleton.1 member]
  exact ⟨Nat.min_le_right _ _, Nat.le_max_right _ _⟩

theorem between (placed : Placed (ts ++ mark :: us)) (left : Siblings ts [a])
    (right : Siblings us [b]) :
    Siblings (ts ++ mark :: us) [.node (a.span.merge b.span) [a, b]] := by
  -- The tokens of a group reach further than its node, so the node here lies around the two spans.
  have operands := placed.append left right.cons
  have first := (operands.nested a (by simp)).reaches
  have second := (operands.nested b (by simp)).reaches
  refine .one (.node (first.merge second) ?_ operands.apart operands.nested)
  intro part member
  rcases List.mem_cons.1 member with same | member
  · rw [same]
    exact ⟨Nat.min_le_left _ _, Nat.le_max_left _ _⟩
  · rw [List.mem_singleton.1 member]
    exact ⟨Nat.min_le_right _ _, Nat.le_max_right _ _⟩

theorem fromTo (placed : Placed (first :: ts ++ [last])) (siblings : Siblings (first :: ts) parts) :
    Siblings (first :: ts ++ [last]) [.node (first.span.merge last.span) parts] :=
  siblings.before.enclose placed.reaches_ends placed.within_ends

end Placed

namespace Grammar

mutual

theorem ExprText.siblings {r : Rank} {ts : List Token} {e : Expr} :
    ExprText r ts e → Placed ts → Siblings ts [e.region]
  | .tighter _ operand, placed => operand.siblings placed
  | .binary _ _ _ _ first second, placed => by
      have node := placed.between (first.siblings placed.left) (second.siblings placed.right.tail)
      rw [Expr.span_region, Expr.span_region] at node
      exact node
  | .power _ first second, placed => by
      have node := placed.between (first.siblings placed.left) (second.siblings placed.right.tail)
      rw [Expr.span_region, Expr.span_region] at node
      exact node
  | .not _ operand, placed => by
      have node := placed.marked (operand.siblings placed.tail)
      rw [Expr.span_region] at node
      exact node
  | .neg _ operand, placed => by
      have node := placed.marked (operand.siblings placed.tail)
      rw [Expr.span_region] at node
      exact node
  | .literal _ _, placed => placed.alone (.none _)
  | .var _, placed => placed.alone (placed.named _ (.none []))
  | .call _ _ _ items, placed =>
      placed.fromTo (placed.left.named _ (.cons (items.siblings placed.left.tail.tail)))
  | .index _ _ _ position, placed =>
      placed.fromTo (placed.left.named _ (.cons (position.siblings placed.left.tail.tail)))
  | .group _ _ inner, placed => (inner.siblings placed.left.tail).cons.before
  | .list _ _ items, placed => placed.fromTo (items.siblings placed.left.tail).cons

theorem ItemsText.siblings {ts : List Token} {es : List Expr} :
    ItemsText ts es → Placed ts → Siblings ts (Expr.regions es)
  | .one item, placed => item.siblings placed
  | .more _ item items, placed =>
      placed.append (item.siblings placed.left) (.cons (items.siblings placed.right.tail))

theorem ListText.siblings {ts : List Token} {es : List Expr} :
    ListText ts es → Placed ts → Siblings ts (Expr.regions es)
  | .none, _ => .none _
  | .some items, placed => items.siblings placed

end

theorem StmtText.enclose {ts : List Token} {s : Stmt} {parts : List Region}
    (derived : StmtText ts s) (placed : Placed ts) (siblings : Siblings ts parts) :
    Siblings ts [.node s.span parts] :=
  siblings.enclose (derived.reaches placed.solid (List.Subset.refl ts) _ s.span_mem_spans)
    (derived.within placed.solid placed.ordered)

mutual

theorem StmtText.siblings {ts : List Token} {s : Stmt} :
    StmtText ts s → Placed ts → Siblings ts [s.region]
  | .call named opened closed ended items, placed =>
      (StmtText.call named opened closed ended items).enclose placed
        (.before (placed.left.named _ (.cons (items.siblings placed.left.tail.tail))))
  | .assign named spelled ended value, placed =>
      (StmtText.assign named spelled ended value).enclose placed
        (.before (placed.left.named _ (.cons (value.siblings placed.left.tail.tail))))
  | .update op named compound spelled ended value, placed =>
      (StmtText.update op named compound spelled ended value).enclose placed
        (.before (placed.left.named _ (.cons (value.siblings placed.left.tail.tail))))
  | .choose choice, placed => (StmtText.choose choice).enclose placed (choice.siblings placed)
  | .repeatWhile spelled opened closed cond body, placed => by
      have parts := placed.append (.cons (.cons (cond.siblings placed.left.tail.tail)))
        (.cons (body.siblings placed.right.tail))
      exact (StmtText.repeatWhile spelled opened closed cond body).enclose placed parts
  | .forEach spelled each named within opened divided closed lower upper body, placed => by
      have range := placed.left.left
      have front (text : String) := range.tail.tail.named text
        (.cons (.cons (lower.siblings range.tail.tail.tail.tail.tail)))
      have parts (text : String) := placed.append
        (placed.left.append (front text).cons.cons (.cons (upper.siblings placed.left.right.tail)))
        (.cons (body.siblings placed.right.tail))
      exact (StmtText.forEach spelled each named within opened divided closed lower upper
        body).enclose placed (parts _)
  | .print spelled opened closed ended items, placed => by
      have args := items.siblings placed.left.tail.tail
      exact (StmtText.print spelled opened closed ended items).enclose placed args.cons.cons.before
  | .leave spelled ended, placed => (StmtText.leave spelled ended).enclose placed (.none _)

theorem ChoiceText.siblings {ts : List Token} {choice : Choice} :
    ChoiceText ts choice → Placed ts → Siblings ts choice.regions
  | .alone _ _ _ cond body, placed =>
      placed.append (.cons (.cons (cond.siblings placed.left.tail.tail)))
        (.cons (body.siblings placed.right.tail))
  | .otherwise _ _ _ _ cond body other, placed => by
      have front := placed.left.append (.cons (.cons (cond.siblings placed.left.left.tail.tail)))
        (.cons (body.siblings placed.left.right.tail))
      exact placed.append front (.cons (other.siblings placed.right.tail))
  | .further _ _ _ _ cond body other, placed => by
      have front := placed.left.append (.cons (.cons (cond.siblings placed.left.left.tail.tail)))
        (.cons (body.siblings placed.left.right.tail))
      exact placed.append front (.cons (other.siblings placed.right.tail))

theorem BlockText.siblings {ts : List Token} {body : Block} :
    BlockText ts body → Placed ts → Siblings ts [body.region]
  | .braces _ _ stmts, placed => placed.fromTo (stmts.siblings placed.left.tail).cons

theorem StmtsText.siblings {ts : List Token} {stmts : List Stmt} :
    StmtsText ts stmts → Placed ts → Siblings ts (Program.regions stmts)
  | .nil, _ => .none _
  | .cons stmt rest, placed =>
      placed.append (stmt.siblings placed.left) (rest.siblings placed.right)

end

end Grammar

open Lexer

theorem Lexer.Covers.placed {source : List Char} {tokens : List Token}
    (covers : Covers 0 source tokens) : Placed tokens :=
  ⟨fun t member => (covers.span_bounds t member).2.1, covers.ordered⟩

/-- The statements of a text that can be read stand one behind the other, with all their parts
nested, and every node starts where a token starts and stops where one stops. -/
theorem parse_nested {source : String} {tokens : Array Token} {program : Program}
    (small : Text.byteCount source.toList < 0x100000000) (read : lex source = .ok tokens)
    (parsed : parse tokens source = .ok program) :
    ∃ body, tokens.toList = body ++ [⟨.eof, .point (Text.byteCount source.toList)⟩] ∧
      Siblings body (Program.regions program) := by
  obtain ⟨body, covers, rfl⟩ := (lex_eq_ok_iff_of_small small).1 read
  have derived := (parse_ok_iff rfl covers.ne_eof).1 parsed
  exact ⟨body, rfl, derived.siblings covers.placed⟩

theorem parse_nested_group :
    Text.byteCount "x = (a) * [1];".toList < 0x100000000 ∧
      ∃ tokens program body, lex "x = (a) * [1];" = .ok tokens ∧
        parse tokens "x = (a) * [1];" = .ok program ∧
        tokens.toList = body ++ [⟨.eof, .point 14⟩] ∧
        Program.regions program =
          [.node ⟨0, 14⟩ [.node ⟨0, 1⟩ [],
            .node ⟨5, 13⟩ [.node ⟨5, 6⟩ [.node ⟨5, 6⟩ []],
              .node ⟨10, 13⟩ [.node ⟨11, 12⟩ []]]]] ∧
        Siblings body (Program.regions program) := by
  have small : Text.byteCount "x = (a) * [1];".toList < 0x100000000 := by decide
  obtain ⟨body, split, siblings⟩ := @parse_nested "x = (a) * [1];"
    #[⟨.ident "x", ⟨0, 1⟩⟩, ⟨.symbol .equal, ⟨2, 3⟩⟩, ⟨.symbol .leftParen, ⟨4, 5⟩⟩,
      ⟨.ident "a", ⟨5, 6⟩⟩, ⟨.symbol .rightParen, ⟨6, 7⟩⟩, ⟨.symbol .star, ⟨8, 9⟩⟩,
      ⟨.symbol .leftBracket, ⟨10, 11⟩⟩, ⟨.int 1, ⟨11, 12⟩⟩, ⟨.symbol .rightBracket, ⟨12, 13⟩⟩,
      ⟨.symbol .semicolon, ⟨13, 14⟩⟩, ⟨.eof, ⟨14, 14⟩⟩]
    [.assign ⟨"x", ⟨0, 1⟩⟩
      (.binary .mul (.var ⟨"a", ⟨5, 6⟩⟩) (.list [.literal (.int 1) ⟨11, 12⟩] ⟨10, 13⟩) ⟨5, 13⟩)
      ⟨0, 14⟩] small rfl rfl
  refine ⟨small, _, _, body, ?_, ?_, split, ?_, siblings⟩ <;> rfl

end Salita
