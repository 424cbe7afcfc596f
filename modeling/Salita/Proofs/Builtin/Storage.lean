import Salita.Proofs.Builtin.Composition

namespace Salita

namespace Heap

def Contains (heap : Heap) (id : ListId) : Prop := id.index < heap.lists.size

instance (heap : Heap) (id : ListId) : Decidable (heap.Contains id) :=
  inferInstanceAs (Decidable (id.index < heap.lists.size))

structure Kept (changes : Bool) (heap next : Heap) : Prop where
  contains : ∀ id, heap.Contains id → next.Contains id
  items : changes = false → ∀ id, heap.Contains id → next.items id = heap.items id

variable {changes : Bool} {heap mid next : Heap}

theorem Kept.refl (heap : Heap) : Kept changes heap heap := ⟨fun _ => id, fun _ _ _ => rfl⟩

theorem Kept.trans (first : Kept changes heap mid) (second : Kept changes mid next) :
    Kept changes heap next where
  contains := fun id present => second.contains id (first.contains id present)
  items := by
    intro unchanged id present
    rw [second.items unchanged id (first.contains id present), first.items unchanged id present]

theorem Kept.mono {more : Bool} (kept : Kept changes heap next)
    (le : changes = true → more = true) : Kept more heap next where
  contains := kept.contains
  items := by
    intro unchanged
    apply kept.items
    cases changes with
    | false => rfl
    | true =>
        rw [le rfl] at unchanged
        exact unchanged

theorem Kept.alloc (heap : Heap) (items : Array Value) :
    Kept changes heap (heap.alloc items).2 where
  contains := by
    intro id present
    simp only [Contains, Heap.alloc, Array.size_push] at present ⊢
    omega
  items := by
    intro _ id present
    simp only [Heap.items, Heap.alloc, Array.getElem?_push_lt present, Array.getElem?_eq_getElem present]

theorem Kept.modify (allowed : changes = true) (heap : Heap) (id : ListId)
    (change : Array Value → Array Value) : Kept changes heap (heap.modify id change) where
  contains := by
    intro other present
    simpa only [Contains, Heap.modify, Array.size_modify] using present
  items := by
    intro unchanged
    rw [allowed] at unchanged
    cases unchanged

end Heap

abbrev KeepsLists (changes : Bool) {α : Type} (x : Eval α) : Prop :=
  Keeps (fun s next => s.heap.Kept changes next.heap) x

theorem Keeps.of_ok {ε σ α : Type} {R : σ → σ → Prop} {x : EStateM ε σ α} (keeps : Keeps R x)
    {s next : σ} {a : α} (done : x s = .ok a next) : R s next := by
  have kept := keeps s
  rw [after, done] at kept
  exact kept

section
variable {changes : Bool} {α : Type} {x : Eval α}

theorem keepsLists_of_heap_eq (same : ∀ s, (after x s).heap = s.heap) : KeepsLists changes x := by
  intro s
  rw [same]
  exact .refl s.heap

theorem keepsLists_onFiles (operation : FileTable → Except FileError α × FileTable) :
    KeepsLists changes (Eval.onFiles operation) := by
  apply keepsLists_of_heap_eq
  intro s
  simp only [after, Eval.onFiles]
  generalize operation s.files = result
  obtain ⟨outcome, files⟩ := result
  cases outcome <;> rfl

theorem after_mapError (change : EvalError → EvalError) (s : Store) :
    after (x.mapError change) s = after x s := by
  simp only [after, Eval.mapError]
  cases x s <;> rfl

theorem keepsLists_mapError (change : EvalError → EvalError) (keeps : KeepsLists changes x) :
    KeepsLists changes (x.mapError change) := by
  intro s
  rw [after_mapError]
  exact keeps s

theorem Composed.keepsLists (composed : Composed changes x) : KeepsLists changes x := by
  induction composed with
  | pure a => exact .pure (fun s => .refl s.heap) a
  | bind first next first_ih next_ih => exact .bind .trans first_ih next_ih
  | newList items => exact fun s => .alloc s.heap items
  | modifyList allowed id change => exact fun s => .modify allowed s.heap id change
  | fail | heap | print text => exact keepsLists_of_heap_eq fun _ => rfl
  | readLine =>
      apply keepsLists_of_heap_eq
      intro s
      simp only [after, Eval.readLine]
      cases s.input <;> rfl
  | openFile path mode =>
      apply keepsLists_of_heap_eq
      intro s
      simp only [after, Call.openFile]
      cases s.files.openFile path mode with
      | ok opened => rfl
      | error e => cases e <;> rfl
  | readRest file | readFileLine file | write file text | close file => exact keepsLists_onFiles _

end

def Store.NewList (s : Store) (value : Value) (next : Store) : Prop :=
  ∃ id, value = .list id ∧ ¬ s.heap.Contains id ∧ next.heap.Contains id

theorem Store.NewList.of_kept {changes : Bool} {s mid next : Store} {value : Value}
    (new : mid.NewList value next) (kept : s.heap.Kept changes mid.heap) : s.NewList value next := by
  obtain ⟨id, same, absent, present⟩ := new
  exact ⟨id, same, fun before => absent (kept.contains id before), present⟩

theorem Eval.exists_newList (s : Store) (items : Array Value) :
    ∃ value next, Eval.newList items s = .ok value next ∧ s.NewList value next := by
  refine ⟨_, _, rfl, ⟨s.heap.lists.size⟩, rfl, Nat.lt_irrefl _, ?_⟩
  simp only [Heap.Contains, Array.size_push]
  omega

def MakesList (x : Eval Value) : Prop := ∀ s value next, x s = .ok value next → s.NewList value next

theorem MakesList.newList (items : Array Value) : MakesList (Eval.newList items) := by
  intro s value next done
  obtain ⟨made, last, run, new⟩ := Eval.exists_newList s items
  rw [run] at done
  cases done
  exact new

theorem MakesList.bind {changes : Bool} {α : Type} {x : Eval α} {f : α → Eval Value}
    (first : KeepsLists changes x) (next : ∀ a, MakesList (f a)) : MakesList (x >>= f) := by
  intro s value last done
  obtain ⟨a, mid, result, done⟩ := bind_eq_ok.1 done
  exact (next a mid value last done).of_kept (first.of_ok result)

inductive Operation.Builds : Value → BinaryOp → Value → Prop
  | join (a b : ListId) : Builds (.list a) .add (.list b)
  | repeated (a : ListId) (n : Int64) : Builds (.list a) .mul (.int n)
  | repeating (n : Int64) (a : ListId) : Builds (.int n) .mul (.list a)

theorem Operation.Builds.exists_newList {left right : Value} {op : BinaryOp}
    (builds : Operation.Builds left op right) (s : Store) :
    ∃ value next, Operation.binary left right op s = .ok value next ∧ s.NewList value next := by
  cases builds with
  | join a b => exact Eval.exists_newList s (s.heap.items a ++ s.heap.items b)
  | repeated a n | repeating n a =>
      exact Eval.exists_newList s (Operation.repeatItems (s.heap.items a) n)

def Builtin.makesList : Builtin → Bool
  | .baligtad | .nakaayos => true
  | _ => false

theorem Builtin.makesList_perform {builtin : Builtin} (makes : builtin.makesList = true)
    (call : Call) : MakesList (builtin.perform call) := by
  have taken := (@Composed.sequence false call 0).keepsLists
  cases builtin with
  | baligtad => exact .bind taken fun items => .newList _
  | nakaayos =>
      have sorted (items : List Value) := (@Composed.sorted false false items).keepsLists
      exact .bind taken fun items => .bind (sorted items) fun result => .newList _
  | _ => cases makes

theorem Native.makesList_call {f : Native} (makes : f.builtin.makesList = true)
    (args : List Value) : MakesList (f.call args) := by
  have checked : Composed false (f.arity.check f.name args.length) := by
    unfold Arity.check
    split <;> simp
  exact .bind checked.keepsLists fun _ => f.builtin.makesList_perform makes ⟨f.name, args⟩

end Salita
