import Salita.Proofs.Syntax.Grammar

namespace Salita

mutual

def Expr.spans : Expr → List Span
  | .literal _ span => [span]
  | .var name => [name.span]
  | .list items span => span :: Expr.spansAll items
  | .binary _ left right span => span :: (left.spans ++ right.spans)
  | .unary _ operand span => span :: operand.spans
  | .index target position span => span :: target.span :: position.spans
  | .call target args span => span :: target.span :: Expr.spansAll args

def Expr.spansAll : List Expr → List Span
  | [] => []
  | e :: rest => e.spans ++ Expr.spansAll rest

end

mutual

def Stmt.spans : Stmt → List Span
  | .assign target value span => span :: target.span :: value.spans
  | .update target _ value span => span :: target.span :: value.spans
  | .choose choice span => span :: choice.spans
  | .repeatWhile cond body span => span :: (cond.spans ++ body.spans)
  | .forEach var first last body span =>
      span :: var.span :: (first.spans ++ last.spans ++ body.spans)
  | .print args span => span :: Expr.spansAll args
  | .leave span => [span]
  | .call target args span => span :: target.span :: Expr.spansAll args

def Choice.spans : Choice → List Span
  | .mk cond block otherwise => cond.spans ++ block.spans ++ otherwise.spans

def Otherwise.spans : Otherwise → List Span
  | .nothing => []
  | .block block => block.spans
  | .choice choice => choice.spans

def Block.spans : Block → List Span
  | .mk stmts span => span :: Program.spans stmts

def Program.spans : Program → List Span
  | [] => []
  | stmt :: rest => stmt.spans ++ Program.spans rest

end

theorem Expr.span_mem_spans (e : Expr) : e.span ∈ e.spans := by
  cases e <;> simp [Expr.span, Expr.spans]

theorem Block.span_mem_spans (block : Block) : block.span ∈ block.spans := by
  cases block
  simp [Block.span, Block.spans]

structure Span.Within (span outer : Span) : Prop where
  start : outer.start ≤ span.start
  stop : span.stop ≤ outer.stop

structure Reaches (tokens : List Token) (span : Span) : Prop where
  start : ∃ t ∈ tokens, t.span.start = span.start
  stop : ∃ t ∈ tokens, t.span.stop = span.stop
  nonempty : span.start < span.stop

def Solid (tokens : List Token) : Prop := ∀ t ∈ tokens, t.span.start < t.span.stop

theorem Solid.reaches {tokens : List Token} (solid : Solid tokens) {t : Token}
    (member : t ∈ tokens) : Reaches tokens t.span :=
  ⟨⟨t, member, rfl⟩, ⟨t, member, rfl⟩, solid t member⟩

theorem Reaches.merge {tokens : List Token} {a b : Span} (first : Reaches tokens a)
    (second : Reaches tokens b) : Reaches tokens (a.merge b) := by
  constructor
  · rcases Nat.le_total a.start b.start with before | before
    · simpa only [Span.merge, Nat.min_eq_left before] using first.start
    · simpa only [Span.merge, Nat.min_eq_right before] using second.start
  · rcases Nat.le_total a.stop b.stop with before | before
    · simpa only [Span.merge, Nat.max_eq_right before] using second.stop
    · simpa only [Span.merge, Nat.max_eq_left before] using first.stop
  · have := first.nonempty
    simp only [Span.merge]
    omega

namespace Grammar

variable {tokens : List Token}

mutual

theorem ExprText.reaches {r : Rank} {ts : List Token} {e : Expr} (solid : Solid tokens) :
    ExprText r ts e → ts ⊆ tokens → ∀ span ∈ e.spans, Reaches tokens span
  | .tighter _ operand, inside => operand.reaches solid inside
  | .binary _ _ _ _ first second, inside => by
      simp only [List.append_subset, List.cons_subset] at inside
      have left := first.reaches solid inside.1
      have right := second.reaches solid inside.2.2
      simp only [Expr.spans, List.forall_mem_cons, List.forall_mem_append]
      exact ⟨(left _ (Expr.span_mem_spans _)).merge (right _ (Expr.span_mem_spans _)), left, right⟩
  | .power _ first second, inside => by
      simp only [List.append_subset, List.cons_subset] at inside
      have left := first.reaches solid inside.1
      have right := second.reaches solid inside.2.2
      simp only [Expr.spans, List.forall_mem_cons, List.forall_mem_append]
      exact ⟨(left _ (Expr.span_mem_spans _)).merge (right _ (Expr.span_mem_spans _)), left, right⟩
  | .not _ operand, inside => by
      simp only [List.cons_subset] at inside
      have inner := operand.reaches solid inside.2
      simp only [Expr.spans, List.forall_mem_cons]
      exact ⟨(solid.reaches inside.1).merge (inner _ (Expr.span_mem_spans _)), inner⟩
  | .neg _ operand, inside => by
      simp only [List.cons_subset] at inside
      have inner := operand.reaches solid inside.2
      simp only [Expr.spans, List.forall_mem_cons]
      exact ⟨(solid.reaches inside.1).merge (inner _ (Expr.span_mem_spans _)), inner⟩
  | .literal _ _, inside => by
      simpa [Expr.spans] using solid.reaches (inside List.mem_cons_self)
  | .var _, inside => by
      simpa [Expr.spans] using solid.reaches (inside List.mem_cons_self)
  | .call _ _ _ items, inside => by
      simp only [List.cons_append, List.append_subset, List.cons_subset] at inside
      have name := solid.reaches inside.1
      have closing := solid.reaches inside.2.2.2.1
      have inner := items.reaches solid inside.2.2.1
      simp only [Expr.spans, List.forall_mem_cons]
      exact ⟨name.merge closing, name, inner⟩
  | .index _ _ _ position, inside => by
      simp only [List.cons_append, List.append_subset, List.cons_subset] at inside
      have name := solid.reaches inside.1
      have closing := solid.reaches inside.2.2.2.1
      have inner := position.reaches solid inside.2.2.1
      simp only [Expr.spans, List.forall_mem_cons]
      exact ⟨name.merge closing, name, inner⟩
  | .group _ _ inner, inside => by
      simp only [List.cons_append, List.append_subset, List.cons_subset] at inside
      exact inner.reaches solid inside.2.1
  | .list _ _ items, inside => by
      simp only [List.cons_append, List.append_subset, List.cons_subset] at inside
      have inner := items.reaches solid inside.2.1
      simp only [Expr.spans, List.forall_mem_cons]
      exact ⟨(solid.reaches inside.1).merge (solid.reaches inside.2.2.1), inner⟩

theorem ItemsText.reaches {ts : List Token} {es : List Expr} (solid : Solid tokens) :
    ItemsText ts es → ts ⊆ tokens → ∀ span ∈ Expr.spansAll es, Reaches tokens span
  | .one item, inside => by
      simpa [Expr.spansAll] using item.reaches solid inside
  | .more _ item items, inside => by
      simp only [List.append_subset, List.cons_subset] at inside
      simp only [Expr.spansAll, List.forall_mem_append]
      exact ⟨item.reaches solid inside.1, items.reaches solid inside.2.2⟩

theorem ListText.reaches {ts : List Token} {es : List Expr} (solid : Solid tokens) :
    ListText ts es → ts ⊆ tokens → ∀ span ∈ Expr.spansAll es, Reaches tokens span
  | .none, _ => by simp [Expr.spansAll]
  | .some items, inside => items.reaches solid inside

end

mutual

theorem StmtText.reaches {ts : List Token} {s : Stmt} (solid : Solid tokens) :
    StmtText ts s → ts ⊆ tokens → ∀ span ∈ s.spans, Reaches tokens span
  | .call _ _ _ _ items, inside => by
      simp only [List.cons_append, List.append_subset, List.cons_subset] at inside
      have name := solid.reaches inside.1
      have stop := solid.reaches inside.2.2.2.2.1
      have inner := items.reaches solid inside.2.2.1
      simp only [Stmt.spans, List.forall_mem_cons]
      exact ⟨name.merge stop, name, inner⟩
  | .assign _ _ _ value, inside => by
      simp only [List.cons_append, List.append_subset, List.cons_subset] at inside
      have name := solid.reaches inside.1
      have stop := solid.reaches inside.2.2.2.1
      have inner := value.reaches solid inside.2.2.1
      simp only [Stmt.spans, List.forall_mem_cons]
      exact ⟨name.merge stop, name, inner⟩
  | .update _ _ _ _ _ value, inside => by
      simp only [List.cons_append, List.append_subset, List.cons_subset] at inside
      have name := solid.reaches inside.1
      have stop := solid.reaches inside.2.2.2.1
      have inner := value.reaches solid inside.2.2.1
      simp only [Stmt.spans, List.forall_mem_cons]
      exact ⟨name.merge stop, name, inner⟩
  | .choose choice, inside => by
      have inner := choice.reaches solid inside
      simp only [List.cons_append, List.append_subset, List.cons_subset] at inside
      simp only [Stmt.spans, List.forall_mem_cons]
      exact ⟨(solid.reaches inside.1).merge (solid.reaches inside.2.2.1), inner⟩
  | .repeatWhile _ _ _ cond body, inside => by
      simp only [List.cons_append, List.append_subset, List.cons_subset] at inside
      have test := cond.reaches solid inside.2.2.1
      have inner := body.reaches solid inside.2.2.2.2
      simp only [Stmt.spans, List.forall_mem_cons, List.forall_mem_append]
      exact ⟨(solid.reaches inside.1).merge (inner _ (Block.span_mem_spans _)), test, inner⟩
  | .forEach _ _ _ _ _ _ _ lower upper body, inside => by
      simp only [List.cons_append, List.append_assoc, List.append_subset, List.cons_subset] at inside
      obtain ⟨first, -, name, -, -, lows, -, highs, -, rest⟩ := inside
      have low := lower.reaches solid lows
      have high := upper.reaches solid highs
      have inner := body.reaches solid rest
      simp only [Stmt.spans, List.forall_mem_cons, List.forall_mem_append]
      exact ⟨(solid.reaches first).merge (inner _ (Block.span_mem_spans _)), solid.reaches name,
        ⟨low, high⟩, inner⟩
  | .print _ _ _ _ items, inside => by
      simp only [List.cons_append, List.append_subset, List.cons_subset] at inside
      have inner := items.reaches solid inside.2.2.1
      simp only [Stmt.spans, List.forall_mem_cons]
      exact ⟨(solid.reaches inside.1).merge (solid.reaches inside.2.2.2.2.1), inner⟩
  | .leave _ _, inside => by
      simp only [List.cons_subset] at inside
      simpa [Stmt.spans] using (solid.reaches inside.1).merge (solid.reaches inside.2.1)

theorem ChoiceText.reaches {ts : List Token} {choice : Choice} (solid : Solid tokens) :
    ChoiceText ts choice → ts ⊆ tokens → ∀ span ∈ choice.spans, Reaches tokens span
  | .alone _ _ _ cond body, inside => by
      simp only [List.cons_append, List.append_subset, List.cons_subset] at inside
      simp only [Choice.spans, Otherwise.spans, List.append_nil, List.forall_mem_append]
      exact ⟨cond.reaches solid inside.2.2.1, body.reaches solid inside.2.2.2.2⟩
  | .otherwise _ _ _ _ cond body other, inside => by
      simp only [List.cons_append, List.append_assoc, List.append_subset, List.cons_subset] at inside
      obtain ⟨-, -, tests, -, blocks, -, others⟩ := inside
      simp only [Choice.spans, Otherwise.spans, List.forall_mem_append]
      exact ⟨⟨cond.reaches solid tests, body.reaches solid blocks⟩, other.reaches solid others⟩
  | .further _ _ _ _ cond body other, inside => by
      simp only [List.cons_append, List.append_assoc, List.append_subset, List.cons_subset] at inside
      obtain ⟨-, -, tests, -, blocks, -, others⟩ := inside
      simp only [Choice.spans, Otherwise.spans, List.forall_mem_append]
      exact ⟨⟨cond.reaches solid tests, body.reaches solid blocks⟩, other.reaches solid others⟩

theorem BlockText.reaches {ts : List Token} {body : Block} (solid : Solid tokens) :
    BlockText ts body → ts ⊆ tokens → ∀ span ∈ body.spans, Reaches tokens span
  | .braces _ _ stmts, inside => by
      simp only [List.cons_append, List.append_subset, List.cons_subset] at inside
      have inner := stmts.reaches solid inside.2.1
      simp only [Block.spans, List.forall_mem_cons]
      exact ⟨(solid.reaches inside.1).merge (solid.reaches inside.2.2.1), inner⟩

theorem StmtsText.reaches {ts : List Token} {stmts : List Stmt} (solid : Solid tokens) :
    StmtsText ts stmts → ts ⊆ tokens → ∀ span ∈ Program.spans stmts, Reaches tokens span
  | .nil, _ => by simp [Program.spans]
  | .cons stmt rest, inside => by
      simp only [List.append_subset] at inside
      simp only [Program.spans, List.forall_mem_append]
      exact ⟨stmt.reaches solid inside.1, rest.reaches solid inside.2⟩

end

def StopsBy (limit : Nat) (ts : List Token) : Prop :=
  ∃ us last, ts = us ++ [last] ∧ last.span.stop ≤ limit

theorem StopsBy.one {limit : Nat} {last : Token} (le : last.span.stop ≤ limit) :
    StopsBy limit [last] := ⟨[], last, rfl, le⟩

theorem StopsBy.append {limit : Nat} {ts : List Token} (stops : StopsBy limit ts)
    (before : List Token) : StopsBy limit (before ++ ts) := by
  obtain ⟨us, last, rfl, bound⟩ := stops
  exact ⟨before ++ us, last, by rw [List.append_assoc], bound⟩

theorem StopsBy.cons {limit : Nat} {ts : List Token} (stops : StopsBy limit ts) (t : Token) :
    StopsBy limit (t :: ts) := stops.append [t]

theorem StopsBy.mono {limit limit' : Nat} {ts : List Token} (stops : StopsBy limit ts)
    (le : limit ≤ limit') : StopsBy limit' ts := by
  obtain ⟨us, last, split, bound⟩ := stops
  exact ⟨us, last, split, Nat.le_trans bound le⟩

theorem BlockText.stopsBy {ts : List Token} {body : Block} (derived : BlockText ts body) :
    StopsBy body.span.stop ts := by
  cases derived with
  | braces _ _ _ => exact (StopsBy.one (Nat.le_max_right _ _)).append _

theorem StmtText.start_le {first : Token} {ts : List Token} {s : Stmt}
    (derived : StmtText (first :: ts) s) : s.span.start ≤ first.span.start := by
  cases derived <;> exact Nat.min_le_left _ _

theorem StmtText.stopsBy {ts : List Token} {s : Stmt} (derived : StmtText ts s) :
    StopsBy s.span.stop ts := by
  cases derived with
  | call _ _ _ _ _ => exact ((StopsBy.one (Nat.le_max_right _ _)).cons _).append _
  | assign _ _ _ _ => exact (StopsBy.one (Nat.le_max_right _ _)).append _
  | update _ _ _ _ _ => exact (StopsBy.one (Nat.le_max_right _ _)).append _
  | choose _ => exact (StopsBy.one (Nat.le_max_right _ _)).append _
  | repeatWhile _ _ _ _ body =>
      exact ((body.stopsBy.mono (Nat.le_max_right _ _)).cons _).append _
  | forEach _ _ _ _ _ _ _ _ _ body =>
      exact ((body.stopsBy.mono (Nat.le_max_right _ _)).cons _).append _
  | print _ _ _ _ _ => exact ((StopsBy.one (Nat.le_max_right _ _)).cons _).append _
  | leave _ _ => exact (StopsBy.one (Nat.le_max_right _ _)).cons _

theorem StmtText.within {ts : List Token} {s : Stmt} (derived : StmtText ts s) (solid : Solid ts)
    (ordered : ts.Pairwise fun a b => a.span.stop ≤ b.span.start) :
    ∀ t ∈ ts, t.span.Within s.span := by
  intro t member
  constructor
  · cases ts with
    | nil => cases member
    | cons first rest =>
        have start := derived.start_le
        have nonempty := solid first List.mem_cons_self
        cases member with
        | head => exact start
        | tail _ later =>
            have order := List.rel_of_pairwise_cons ordered later
            omega
  · obtain ⟨us, last, rfl, stop⟩ := derived.stopsBy
    have nonempty := solid last (by simp)
    rw [List.pairwise_append] at ordered
    rcases List.mem_append.1 member with earlier | final
    · have order := ordered.2.2 t earlier last List.mem_cons_self
      omega
    · rw [List.mem_singleton.1 final]
      exact stop

theorem StmtText.spans_within {ts : List Token} {s : Stmt} (derived : StmtText ts s)
    (solid : Solid ts) (ordered : ts.Pairwise fun a b => a.span.stop ≤ b.span.start) :
    ∀ span ∈ s.spans, span.Within s.span := by
  intro span member
  obtain ⟨⟨first, firstMember, start⟩, ⟨last, lastMember, stop⟩, -⟩ :=
    derived.reaches solid (List.Subset.refl ts) span member
  have within := derived.within solid ordered
  exact ⟨start ▸ (within first firstMember).start, stop ▸ (within last lastMember).stop⟩

end Grammar

def Choice.lastSpan : Choice → Span
  | .mk _ block .nothing => block.span
  | .mk _ _ (.block block) => block.span
  | .mk _ _ (.choice choice) => choice.lastSpan

namespace Grammar

theorem BlockText.exists_braces {ts : List Token} {body : Block} (derived : BlockText ts body) :
    ∃ opening us closing, ts = opening :: us ++ [closing] ∧
      body.span = opening.span.merge closing.span := by
  cases derived with
  | braces _ _ _ => exact ⟨_, _, _, rfl, rfl⟩

theorem ChoiceText.exists_lastSpan {ts : List Token} {choice : Choice}
    (derived : ChoiceText ts choice) :
    ∃ before opening us closing, ts = before ++ (opening :: us ++ [closing]) ∧
      choice.lastSpan = opening.span.merge closing.span := by
  cases derived with
  | alone _ _ _ _ body =>
      obtain ⟨opening, us, closing, rfl, span⟩ := body.exists_braces
      exact ⟨_, opening, us, closing, (List.append_assoc _ [_] _).symm, span⟩
  | otherwise _ _ _ _ _ _ other =>
      obtain ⟨opening, us, closing, rfl, span⟩ := other.exists_braces
      exact ⟨_, opening, us, closing, (List.append_assoc _ [_] _).symm, span⟩
  | further _ _ _ _ _ _ other =>
      obtain ⟨before, opening, us, closing, rfl, span⟩ := other.exists_lastSpan
      exact ⟨_, opening, us, closing, (List.append_assoc _ (_ :: before) _).symm, span⟩

/-- On tokens in order it is all the same whether a choice stops with the last of them or with its
last block. -/
theorem StmtText.span_choose {ts : List Token} {choice : Choice} {span : Span}
    (derived : StmtText ts (.choose choice span)) (solid : Solid ts)
    (ordered : ts.Pairwise fun a b => a.span.stop ≤ b.span.start) :
    ∃ first us, ts = first :: us ∧ span = first.span.merge choice.lastSpan := by
  cases derived with
  | @choose first last us _ alternatives =>
      refine ⟨first, us ++ [last], rfl, ?_⟩
      obtain ⟨before, opening, vs, closing, split, lastSpan⟩ := alternatives.exists_lastSpan
      rw [← List.append_assoc] at split
      obtain ⟨front, equal⟩ := List.append_inj' split rfl
      obtain rfl := List.singleton_inj.1 equal
      have member : opening ∈ first :: us := by simp [front]
      have start : first.span.start ≤ opening.span.start := by
        have nonempty := solid first (by simp)
        cases member with
        | head => exact Nat.le_refl _
        | tail _ later =>
            have order := List.rel_of_pairwise_cons ordered (List.mem_append_left _ later)
            omega
      have stop : opening.span.stop ≤ last.span.stop := by
        have nonempty := solid last (by simp)
        have order := (List.pairwise_append.1 ordered).2.2 opening member last List.mem_cons_self
        omega
      rw [lastSpan]
      simp only [Span.merge, Span.mk.injEq]
      omega

end Grammar

end Salita
