import Salita.Builtin.Dispatch
import Salita.Proofs.Computation

namespace Salita

abbrev Cause.variable? : Cause → Option String
  | .undefinedName name .vars => some name
  | .notSubscriptable name _ => some name
  | _ => none

/-- A computation on the store that is composed of elementary steps. Only one that `changes` lists
may change the elements of a list. -/
inductive Composed (changes : Bool) : {α : Type} → Eval α → Prop
  | pure {α : Type} (a : α) : Composed changes (Pure.pure a)
  | bind {α β : Type} {x : Eval α} {f : α → Eval β} (first : Composed changes x)
      (next : ∀ a, Composed changes (f a)) : Composed changes (x >>= f)
  | fail {α : Type} {cause : Cause} (nameless : cause.variable? = none) :
      Composed changes (α := α) (Eval.fail cause)
  | heap : Composed changes Eval.heap
  | newList (items : Array Value) : Composed changes (Eval.newList items)
  | modifyList (allowed : changes = true) (id : ListId) (change : Array Value → Array Value) :
      Composed changes (Eval.modifyList id change)
  | print (text : String) : Composed changes (Eval.print text)
  | readLine : Composed changes Eval.readLine
  | openFile (path : String) (mode : FileMode) : Composed changes (Call.openFile path mode)
  | readRest (file : FileRef) : Composed changes (Eval.onFiles (·.readRest file))
  | readFileLine (file : FileRef) : Composed changes (Eval.onFiles (·.readLine file))
  | write (file : FileRef) (text : String) : Composed changes (Eval.onFiles (·.write file text))
  | close (file : FileRef) :
      Composed changes (Eval.onFiles fun table => (.ok (), table.close file))

namespace Composed

attribute [simp] Composed.pure Composed.bind Composed.fail Composed.heap Composed.newList Composed.print
  Composed.readLine Composed.openFile Composed.readRest Composed.readFileLine Composed.write Composed.close

variable {changes : Bool}

@[simp] theorem map {α β : Type} {x : Eval α} (f : α → β) (composed : Composed changes x) :
    Composed changes (f <$> x) := by
  rw [map_eq_pure_bind]
  exact .bind composed fun a => .pure (f a)

@[simp] theorem textOf (value : Value) : Composed changes (Eval.textOf value) := by
  simp [Eval.textOf]

@[simp] theorem isTrue (value : Value) : Composed changes (Eval.isTrue value) := by
  simp [Eval.isTrue]

@[simp] theorem items (id : ListId) : Composed changes (Eval.items id) := by
  simp [Eval.items]

@[simp] theorem last? (id : ListId) : Composed changes (Eval.last? id) := by
  simp [Eval.last?]

/-! ## Operators -/

@[simp] theorem refuse {α : Type} (left : Value) (op : BinaryOp) (right : Value) :
    Composed changes (α := α) (Operation.refuse left op right) :=
  .bind (textOf left) fun _ => .bind (textOf right) fun _ => .fail rfl

@[simp] theorem divideByZero {α : Type} (dividend : Value) :
    Composed changes (α := α) (Operation.divideByZero dividend) := by
  simp [Operation.divideByZero]

@[simp] theorem order (left right : Value) (op : BinaryOp) :
    Composed changes (Operation.order left right op) := by
  unfold Operation.order
  refine .bind .heap fun heap => ?_
  split <;> simp

@[simp] theorem compare (left right : Value) (op : BinaryOp) :
    Composed changes (Operation.compare left right op) := by
  unfold Operation.compare
  refine .bind (order left right op) fun result => ?_
  split <;> simp

@[simp] theorem exact (result : Option Int64) (a : Int64) (op : BinaryOp) (b : Int64) :
    Composed changes (Operation.exact result a op b) := by
  unfold Operation.exact
  split <;> simp

@[simp] theorem wholePower (base exponent : Int64) :
    Composed changes (Operation.wholePower base exponent) := by
  unfold Operation.wholePower
  split
  · split <;> simp
  · simp

@[simp] theorem whole (a b : Int64) (op : BinaryOp) : Composed changes (Operation.whole a b op) := by
  unfold Operation.whole
  cases op <;> simp
  all_goals split <;> simp

@[simp] theorem floatPower (a b : Float) (dividend : Value) :
    Composed changes (Operation.floatPower a b dividend) := by
  unfold Operation.floatPower
  split
  · simp
  · dsimp only
    split
    · exact .bind (textOf _) fun _ => .bind (textOf _) fun _ => .fail rfl
    · simp

@[simp] theorem float (a b : Float) (op : BinaryOp) (dividend : Value) :
    Composed changes (Operation.float a b op dividend) := by
  unfold Operation.float
  cases op <;> simp
  all_goals split <;> simp

theorem binary (left right : Value) (op : BinaryOp) :
    Composed changes (Operation.binary left right op) := by
  unfold Operation.binary
  split
  · simp
  · split
    · simp
    · split
      · simp
      · split
        case h_1 | h_2 | h_3 | h_4 | h_11 => simp
        all_goals split <;> simp

theorem unary (operand : Value) (op : UnaryOp) : Composed changes (Operation.unary operand op) := by
  unfold Operation.unary
  split
  · simp
  · split <;> simp
  · simp
  · simp

/-! ## Elements of lists -/

@[simp] theorem resolve (id : ListId) (index : Value) :
    Composed changes (Indexing.resolve id index) := by
  unfold Indexing.resolve
  split
  · refine .bind (items id) fun elements => ?_
    dsimp only
    split <;> simp
  · simp

theorem get (id : ListId) (index : Value) : Composed changes (Indexing.get id index) := by
  simp [Indexing.get]

@[simp] theorem set (id : ListId) (index value : Value) :
    Composed true (Indexing.set id index value) := by
  unfold Indexing.set
  exact .bind (resolve id index) fun position => .modifyList rfl id _

/-! ## Arguments -/

variable (call : Call)

@[simp] theorem refuseArguments {α : Type} (problem : ArgumentProblem) :
    Composed changes (α := α) (call.refuse problem) := .fail rfl

@[simp] theorem refuseType {α : Type} (position : Nat) (wanted : String) (found : Value) :
    Composed changes (α := α) (call.refuseType position wanted found) := .fail rfl

@[simp] theorem arg (position : Nat) : Composed changes (call.arg position) := by
  unfold Call.arg
  split <;> simp

@[simp] theorem list (position : Nat) : Composed changes (call.list position) := by
  unfold Call.list
  refine .bind (arg call position) fun value => ?_
  split <;> simp

@[simp] theorem str (position : Nat) : Composed changes (call.str position) := by
  unfold Call.str
  refine .bind (arg call position) fun value => ?_
  split <;> simp

@[simp] theorem number (position : Nat) : Composed changes (call.number position) := by
  unfold Call.number
  refine .bind (arg call position) fun value => ?_
  split <;> simp

@[simp] theorem file (position : Nat) : Composed changes (call.file position) := by
  unfold Call.file
  refine .bind (arg call position) fun value => ?_
  split <;> simp

@[simp] theorem text : Composed changes call.text := by
  simp [Call.text]

@[simp] theorem wholeOf (rounding : Binary64.Rounding) (x : Float) :
    Composed changes (call.wholeOf rounding x) := by
  unfold Call.wholeOf
  split
  · simp
  · split <;> simp

@[simp] theorem exactResult (result : Option Int64) : Composed changes (call.exact result) := by
  unfold Call.exact
  split <;> simp

@[simp] theorem sequence (position : Nat) : Composed changes (call.sequence position) := by
  unfold Call.sequence
  refine .bind (arg call position) fun value => ?_
  split <;> simp

/-! ## Functions of numbers -/

@[simp] theorem halaga : Composed changes call.halaga := by
  unfold Call.halaga
  refine .bind (arg call 0) fun value => ?_
  split <;> simp

@[simp] theorem ibilog : Composed changes call.ibilog := by
  unfold Call.ibilog
  dsimp only
  split
  all_goals
    refine .bind (by simp) fun digits => .bind (arg call 0) fun value => ?_
    split <;> simp

@[simp] theorem roundBy (rounding : Binary64.Rounding) :
    Composed changes (call.roundBy rounding) := by
  unfold Call.roundBy
  refine .bind (arg call 0) fun value => ?_
  split <;> simp

@[simp] theorem iangat : Composed changes call.iangat := by
  unfold Call.iangat
  refine .bind (number call 0) fun base => .bind (number call 1) fun exponent => ?_
  dsimp only
  split <;> simp

@[simp] theorem ibaba : Composed changes call.ibaba := by
  unfold Call.ibaba
  refine .bind (number call 0) fun x => ?_
  dsimp only
  split
  all_goals
    refine .bind (by simp) fun base => ?_
    cases base
    all_goals
      dsimp only
      split <;> simp

@[simp] theorem parisugat : Composed changes call.parisugat := by
  unfold Call.parisugat
  refine .bind (number call 0) fun x => ?_
  split <;> simp

@[simp] theorem select (op : BinaryOp) (wanted : Ordering) (best : Value) (rest : List Value) :
    Composed changes (Call.select op wanted best rest) := by
  induction rest generalizing best with
  | nil => exact .pure best
  | cons candidate rest ih =>
      unfold Call.select
      refine .bind (order candidate best op) fun result => ?_
      split
      · exact ih candidate
      · exact ih best

theorem choose (op : BinaryOp) (wanted : Ordering) (candidates : List Value) :
    Composed changes (match candidates with
      | [] => call.refuse .emptySequence
      | best :: rest => Call.select op wanted best rest) := by
  split <;> simp

@[simp] theorem extreme (op : BinaryOp) (wanted : Ordering) :
    Composed changes (call.extreme op wanted) := by
  unfold Call.extreme
  dsimp only
  split
  · exact .bind (items _) fun elements => .bind (.pure _) (choose call op wanted)
  · exact .bind (.pure _) (choose call op wanted)
  · exact .bind (refuseType call 0 _ _) (choose call op wanted)
  · exact .bind (.pure _) (choose call op wanted)

@[simp] theorem haba : Composed changes call.haba := by
  unfold Call.haba
  refine .bind (arg call 0) fun value => ?_
  split <;> simp

/-! ## Conversions -/

@[simp] theorem bilang : Composed changes call.bilang := by
  unfold Call.bilang
  refine .bind (arg call 0) fun value => ?_
  split
  case h_4 => split <;> simp
  all_goals simp

@[simp] theorem lutang : Composed changes call.lutang := by
  unfold Call.lutang
  refine .bind (arg call 0) fun value => ?_
  split
  case h_4 => split <;> simp
  all_goals simp

@[simp] theorem titik : Composed changes call.titik := by
  simp [Call.titik]

/-! ## Functions of lists -/

@[simp] theorem palitan : Composed true call.palitan := by
  unfold Call.palitan
  refine .bind (list call 0) fun id => .bind (arg call 1) fun index => ?_
  exact .bind (arg call 2) fun value => .bind (set id index value) fun _ => .pure _

@[simp] theorem idagdag : Composed true call.idagdag := by
  unfold Call.idagdag
  refine .bind (arg call 1) fun value => .bind (list call 0) fun id => ?_
  exact .bind (.modifyList rfl id _) fun _ => .pure _

@[simp] theorem silipin : Composed changes call.silipin := by
  unfold Call.silipin
  refine .bind (list call 0) fun id => .bind (last? id) fun value => ?_
  split <;> simp

@[simp] theorem tanggalan : Composed true call.tanggalan := by
  unfold Call.tanggalan
  refine .bind (list call 0) fun id => .bind (last? id) fun value => ?_
  split
  · exact .bind (.modifyList rfl id _) fun _ => .pure _
  · exact .fail rfl

@[simp] theorem sorted (descending : Bool) (elements : List Value) :
    Composed changes (Call.sorted descending elements) := by
  unfold Call.sorted
  refine .bind .heap fun heap => ?_
  split <;> simp

@[simp] theorem isaayos : Composed true call.isaayos := by
  unfold Call.isaayos
  refine .bind (list call 0) fun id => ?_
  dsimp only
  split
  all_goals
    refine .bind (by simp) fun descending => .bind (items id) fun elements => ?_
    refine .bind (sorted _ _) fun result => ?_
    exact .bind (.modifyList rfl id _) fun _ => .pure _

@[simp] theorem baligtarin : Composed true call.baligtarin := by
  unfold Call.baligtarin
  exact .bind (list call 0) fun id => .bind (.modifyList rfl id _) fun _ => .pure _

@[simp] theorem baligtad : Composed changes call.baligtad := by
  simp [Call.baligtad]

@[simp] theorem nakaayos : Composed changes call.nakaayos := by
  simp [Call.nakaayos]

/-! ## Input and files -/

@[simp] theorem pahingi : Composed changes call.pahingi := by
  unfold Call.pahingi
  split
  · refine .bind (textOf _) fun text => .bind (.print text) fun _ => ?_
    exact .bind .readLine fun line => .pure _
  · simp

@[simp] theorem buksan : Composed changes call.buksan := by
  unfold Call.buksan
  refine .bind (str call 0) fun path => .bind (str call 1) fun mode => ?_
  split <;> simp

@[simp] theorem basahin : Composed changes call.basahin := by
  simp [Call.basahin]

@[simp] theorem linya : Composed changes call.linya := by
  simp [Call.linya]

@[simp] theorem isulat : Composed changes call.isulat := by
  unfold Call.isulat
  refine .bind (str call 1) fun text => .bind (file call 0) fun handle => ?_
  exact .bind (.write handle text) fun _ => .pure _

@[simp] theorem isara : Composed changes call.isara := by
  simp [Call.isara]

end Composed

def Builtin.changesLists : Builtin → Bool
  | .palitan | .idagdag | .tanggalan | .isaayos | .baligtarin => true
  | _ => false

theorem Builtin.composed_perform (builtin : Builtin) (call : Call) :
    Composed builtin.changesLists (builtin.perform call) := by
  cases builtin <;> simp [Builtin.perform, Builtin.changesLists, Call.maximo, Call.minimo]

theorem Native.composed_call (f : Native) (args : List Value) :
    Composed f.builtin.changesLists (f.call args) := by
  refine .bind ?_ fun _ => f.builtin.composed_perform ⟨f.name, args⟩
  unfold Arity.check
  split <;> simp

/-! ## Errors -/

structure EvalError.Bare (e : EvalError) : Prop where
  unplaced : e.span = none
  nameless : e.cause.variable? = none

theorem fails_bare_onFiles {α : Type} (operation : FileTable → Except FileError α × FileTable) :
    Fails EvalError.Bare (Eval.onFiles operation) := by
  intro s e s' failed
  simp only [Eval.onFiles] at failed
  split at failed
  · cases failed
  · cases failed
    exact ⟨rfl, rfl⟩

theorem Composed.fails_bare {changes : Bool} {α : Type} {x : Eval α}
    (composed : Composed changes x) : Fails EvalError.Bare x := by
  induction composed with
  | pure a => exact .pure a
  | bind first next first_ih next_ih => exact .bind first_ih next_ih
  | fail nameless =>
      intro s e s' failed
      cases failed
      exact ⟨rfl, nameless⟩
  | readLine =>
      intro s e s' failed
      unfold Eval.readLine at failed
      split at failed
      · cases failed
        exact ⟨rfl, rfl⟩
      · cases failed
  | openFile path mode =>
      intro s e s' failed
      unfold Call.openFile at failed
      split at failed
      · cases failed
      · cases failed
        exact ⟨rfl, rfl⟩
      · cases failed
        exact ⟨rfl, rfl⟩
  | readRest file => exact fails_bare_onFiles _
  | readFileLine file => exact fails_bare_onFiles _
  | write file text => exact fails_bare_onFiles _
  | close file => exact fails_bare_onFiles _
  | heap | newList items | modifyList allowed id change | print text =>
      intro s e s' failed
      cases failed

end Salita
