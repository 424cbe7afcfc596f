import Salita.Builtin.Dispatch
import Salita.Proofs.Computation
import Salita.Proofs.Value.Sort

namespace Salita

theorem Heap.items_set_self {heap : Heap} {id : ListId} {items : Array Value}
    (vanishes : heap.items id = #[] → items = #[]) : (heap.set id items).items id = items := by
  by_cases inside : id.index < heap.lists.size
  · rw [Heap.items, Heap.set, Heap.modify, Array.getElem?_modify, if_pos rfl,
      Array.getElem?_eq_getElem inside]
    rfl
  · have outside : ¬ id.index < (heap.set id items).lists.size := by
      simpa [Heap.set, Heap.modify] using inside
    rw [Heap.items_of_not_contained outside, vanishes (Heap.items_of_not_contained inside)]

theorem Heap.items_set_sorted {heap : Heap} {descending : Bool} {id : ListId} {sorted : List Value}
    (done : heap.sort descending (heap.items id).toList = .ok sorted) :
    (heap.set id sorted.toArray).items id = sorted.toArray := by
  refine items_set_self fun empty => ?_
  have perm := (arranges_of_sort done).perm
  rw [empty] at perm
  rw [perm.eq_nil]

theorem Heap.items_alloc_self (heap : Heap) (items : Array Value) :
    (heap.alloc items).2.items (heap.alloc items).1 = items := by
  simp [Heap.alloc, Heap.items]

def Heap.elements? (heap : Heap) : Value → Option (List Value)
  | .list id => some (heap.items id).toList
  | .str s => some (Value.characters s)
  | _ => none

namespace Call

variable {call : Call} {position : Nat} {s next : Store}

theorem arg_eq_ok {value : Value} (done : call.arg position s = .ok value next) :
    call.arg? position = some value ∧ next = s := by
  cases found : call.arg? position with
  | none =>
      rw [arg, found] at done
      cases done
  | some given =>
      rw [arg, found] at done
      cases done
      exact ⟨rfl, rfl⟩

theorem list_eq_ok {id : ListId} (done : call.list position s = .ok id next) :
    call.arg? position = some (.list id) ∧ next = s := by
  obtain ⟨value, mid, found, done⟩ := bind_eq_ok.1 done
  obtain ⟨given, rfl⟩ := arg_eq_ok found
  cases value with
  | list =>
      cases done
      exact ⟨given, rfl⟩
  | _ => cases done

theorem sequence_eq_ok {items : List Value} (done : call.sequence position s = .ok items next) :
    ((call.arg? position).bind s.heap.elements? = some items) ∧ next = s := by
  obtain ⟨value, mid, found, done⟩ := bind_eq_ok.1 done
  obtain ⟨given, rfl⟩ := arg_eq_ok found
  rw [given]
  cases value with
  | list | str =>
      cases done
      exact ⟨rfl, rfl⟩
  | _ => cases done

theorem sorted_eq_ok {descending : Bool} {items : List Value} {result : Array Value}
    (done : sorted descending items s = .ok result next) :
    s.heap.sort descending items = .ok result.toList ∧ next = s := by
  obtain ⟨heap, mid, looked, done⟩ := bind_eq_ok.1 done
  cases looked
  cases arranged : s.heap.sort descending items with
  | error pair =>
      rw [arranged] at done
      cases done
  | ok values =>
      rw [arranged] at done
      cases done
      exact ⟨rfl, rfl⟩

theorem sortAt_eq_ok {descending : Bool} {id : ListId} {value : Value}
    (done : (do
      let items ← sorted descending (← Eval.items id).toList
      Eval.modifyList id fun _ => items
      return .void : Eval Value) s = .ok value next) :
    value = .void ∧ s.heap.sort descending (s.heap.items id).toList =
      .ok (next.heap.items id).toList := by
  obtain ⟨items, mid, looked, sorting⟩ := bind_eq_ok.1 done
  cases looked
  obtain ⟨result, mid, arranged, placing⟩ := bind_eq_ok.1 sorting
  obtain ⟨arranged, rfl⟩ := sorted_eq_ok arranged
  cases placing
  have placed : (mid.heap.set id result).items id = result := Heap.items_set_sorted arranged
  rw [← placed] at arranged
  exact ⟨rfl, arranged⟩

theorem sort_of_isaayos {value : Value} (done : call.isaayos s = .ok value next) :
    ∃ id, call.arg? 0 = some (.list id) ∧ value = .void ∧
      s.heap.sort ((call.arg? 1).any s.heap.isTrue) (s.heap.items id).toList =
        .ok (next.heap.items id).toList := by
  obtain ⟨id, mid, found, sorting⟩ := bind_eq_ok.1 done
  obtain ⟨given, rfl⟩ := list_eq_ok found
  refine ⟨id, given, ?_⟩
  cases second : call.arg? 1 with
  | none | some =>
      rw [second] at sorting
      exact sortAt_eq_ok sorting

theorem isaayos_eq_ok {value : Value} (done : call.isaayos s = .ok value next) :
    ∃ id, call.arg? 0 = some (.list id) ∧ value = .void ∧
      s.heap.Arranges ((call.arg? 1).any s.heap.isTrue) (s.heap.items id).toList
        (next.heap.items id).toList := by
  obtain ⟨id, given, result, sorted⟩ := sort_of_isaayos done
  exact ⟨id, given, result, Heap.arranges_of_sort sorted⟩

theorem sort_of_nakaayos {value : Value} (done : call.nakaayos s = .ok value next) :
    ∃ items id, (call.arg? 0).bind s.heap.elements? = some items ∧ value = .list id ∧
      s.heap.sort false items = .ok (next.heap.items id).toList := by
  obtain ⟨items, mid, found, sorting⟩ := bind_eq_ok.1 done
  obtain ⟨given, rfl⟩ := sequence_eq_ok found
  obtain ⟨result, mid, arranged, making⟩ := bind_eq_ok.1 sorting
  obtain ⟨arranged, rfl⟩ := sorted_eq_ok arranged
  cases making
  rw [← mid.heap.items_alloc_self result] at arranged
  exact ⟨items, _, given, rfl, arranged⟩

theorem nakaayos_eq_ok {value : Value} (done : call.nakaayos s = .ok value next) :
    ∃ items id, (call.arg? 0).bind s.heap.elements? = some items ∧ value = .list id ∧
      s.heap.Arranges false items (next.heap.items id).toList := by
  obtain ⟨items, id, given, result, sorted⟩ := sort_of_nakaayos done
  exact ⟨items, id, given, result, Heap.arranges_of_sort sorted⟩

end Call

theorem Native.perform_of_call {f : Native} {args : List Value} {value : Value} {s next : Store}
    (done : f.call args s = .ok value next) :
    f.builtin.perform ⟨f.name, args⟩ s = .ok value next := by
  obtain ⟨_, mid, checked, performed⟩ := bind_eq_ok.1 done
  unfold Arity.check at checked
  split at checked
  case isTrue =>
    cases checked
    exact performed
  case isFalse => cases checked

/-- Where the functions that sort succeed, the elements of the result are those that were given, in
order. The order of whole numbers, of texts and of truth values is a strict weak order. -/
theorem Native.call_sorts (s next : Store) (args : List Value) (value : Value) :
    (∀ isaayos, Registry.standard.get? "isaayos" = some isaayos →
      isaayos.call args s = .ok value next →
        ∃ id, args[0]? = some (.list id) ∧ value = .void ∧
          s.heap.Arranges (args[1]?.any s.heap.isTrue) (s.heap.items id).toList
            (next.heap.items id).toList) ∧
    (∀ nakaayos, Registry.standard.get? "nakaayos" = some nakaayos →
      nakaayos.call args s = .ok value next →
        ∃ items id, args[0]?.bind s.heap.elements? = some items ∧ value = .list id ∧
          s.heap.Arranges false items (next.heap.items id).toList) ∧
    ∀ type ∈ [ValueType.int, .str, .bool], ∀ (descending : Bool) (items : List Value),
      (∀ x ∈ items, x.type = type) → Sort.WeaklyOrders (s.heap.Precedes descending) items := by
  refine ⟨?_, ?_, ?_⟩
  · intro isaayos known done
    cases known
    exact Call.isaayos_eq_ok (perform_of_call done)
  · intro nakaayos known done
    cases known
    exact Call.nakaayos_eq_ok (perform_of_call done)
  · intro type scalar descending items uniform
    exact Heap.weaklyOrders_of_type scalar uniform

theorem Native.call_sorts_equal_lists :
    ∃ (isaayos nakaayos : Native) (s down text : Store) (items : List Value),
      s.heap.lists = #[#[.list ⟨1⟩, .list ⟨2⟩, .list ⟨3⟩], #[.int 1], #[.int 2], #[.int 1]] ∧
      items = [.list ⟨1⟩, .list ⟨2⟩, .list ⟨3⟩] ∧
      isaayos.call [.list ⟨0⟩, .bool true] s = .ok .void down ∧
      down.heap.items ⟨0⟩ = #[.list ⟨2⟩, .list ⟨1⟩, .list ⟨3⟩] ∧
      Sort.WeaklyOrders (s.heap.Precedes true) items ∧
      s.heap.Arranges true items (down.heap.items ⟨0⟩).toList ∧
      nakaayos.call [.str "bab"] s = .ok (.list ⟨4⟩) text ∧
      text.heap.items ⟨4⟩ = #[.str "a", .str "b", .str "b"] ∧
      (text.heap.items ⟨4⟩).toList.Pairwise (Sort.MayFollow (s.heap.Precedes false)) := by
  let isaayos : Native := ⟨"isaayos", .range 1 2, .isaayos⟩
  let nakaayos : Native := ⟨"nakaayos", .exact 1, .nakaayos⟩
  let lists : Array (Array Value) :=
    #[#[.list ⟨1⟩, .list ⟨2⟩, .list ⟨3⟩], #[.int 1], #[.int 2], #[.int 1]]
  let s : Store := { heap := ⟨lists⟩ }
  let down : Store := { heap := ⟨lists.set! 0 #[.list ⟨2⟩, .list ⟨1⟩, .list ⟨3⟩]⟩ }
  let text : Store := { heap := ⟨lists.push #[.str "a", .str "b", .str "b"]⟩ }
  have downRun : isaayos.call [.list ⟨0⟩, .bool true] s = .ok .void down := by
    with_unfolding_all rfl
  have textRun : nakaayos.call [.str "bab"] s = .ok (.list ⟨4⟩) text := by
    with_unfolding_all rfl
  have weak : Sort.WeaklyOrders (s.heap.Precedes true) [.list ⟨1⟩, .list ⟨2⟩, .list ⟨3⟩] :=
    Heap.weaklyOrders_of_divides (by decide +kernel)
  obtain ⟨descends, -, -⟩ := Native.call_sorts s down [.list ⟨0⟩, .bool true] .void
  obtain ⟨-, ascends, uniform⟩ := Native.call_sorts s text [.str "bab"] (.list ⟨4⟩)
  obtain ⟨id, given, -, downSorted⟩ := descends isaayos rfl downRun
  cases given
  obtain ⟨items, id, characters, same, textSorted⟩ := ascends nakaayos rfl textRun
  cases same
  cases characters
  have ordered := textSorted.pairwise (uniform .str (by decide) false _ (by decide))
  exact ⟨isaayos, nakaayos, s, down, text, _, rfl, rfl, downRun, rfl, weak, downSorted, textRun,
    rfl, ordered⟩

end Salita
