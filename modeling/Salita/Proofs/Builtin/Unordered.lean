import Salita.Proofs.Builtin.InPlace
import Salita.Proofs.Value.Displacement

namespace Salita

section
variable {s : Store} {id : ListId} {sorted : List Value}

theorem Native.call_isaayos {isaayos : Native}
    (known : Registry.standard.get? "isaayos" = some isaayos)
    (order : Option Value)
    (done : s.heap.sort (order.any s.heap.isTrue) (s.heap.items id).toList = .ok sorted) :
    isaayos.call (.list id :: order.toList) s =
      .ok .void { s with heap := s.heap.set id sorted.toArray } := by
  cases known
  have run (args : List Value) (given : args = .list id :: order.toList) :
      (⟨"isaayos", .range 1 2, .isaayos⟩ : Native).call args s =
        Builtin.isaayos.perform ⟨"isaayos", args⟩ s := by
    subst given
    cases order <;> rfl
  rw [run _ rfl, Builtin.perform_isaayos, done]
  rfl

theorem Native.call_nakaayos {nakaayos : Native}
    (known : Registry.standard.get? "nakaayos" = some nakaayos)
    (done : s.heap.sort false (s.heap.items id).toList = .ok sorted) :
    nakaayos.call [.list id] s = Eval.newList sorted.toArray s := by
  cases known
  show (do Eval.newList (← Call.sorted false (s.heap.items id).toList) : Eval Value) s = _
  simp only [Call.sorted, Eval.heap, bind, EStateM.bind, done]
  rfl

end

/-- Where the functions that sort succeed, an element goes ahead of another only if it has to stand
before that one or before one in front of it. So what is in front of something that is not a number
stays in front of it. -/
theorem Native.call_sorts_unordered (s next : Store) (args : List Value) (value : Value) :
    (∀ isaayos, Registry.standard.get? "isaayos" = some isaayos →
      isaayos.call args s = .ok value next →
        ∃ id moved, args[0]? = some (.list id) ∧
          s.heap.Tracks (args[1]?.any s.heap.isTrue) (s.heap.items id).toList
            (next.heap.items id).toList moved) ∧
    (∀ nakaayos, Registry.standard.get? "nakaayos" = some nakaayos →
      nakaayos.call args s = .ok value next →
        ∃ items id moved, args[0]?.bind s.heap.elements? = some items ∧ value = .list id ∧
          s.heap.Tracks false items (next.heap.items id).toList moved) := by
  constructor
  · intro isaayos known done
    cases known
    obtain ⟨id, given, -, sorted⟩ := Call.sort_of_isaayos (perform_of_call done)
    obtain ⟨moved, tracks⟩ := Heap.exists_tracks_of_sort sorted
    exact ⟨id, moved, given, tracks⟩
  · intro nakaayos known done
    cases known
    obtain ⟨items, id, given, result, sorted⟩ := Call.sort_of_nakaayos (perform_of_call done)
    obtain ⟨moved, tracks⟩ := Heap.exists_tracks_of_sort sorted
    exact ⟨items, id, moved, given, result, tracks⟩

theorem Native.call_sorts_unordered_behind :
    ∃ (isaayos nakaayos : Native) (s next last : Store) (down up : List (Value × Nat)),
      s.heap.lists = #[#[.int 3, .int 1, .float Binary64.nan, .int 2]] ∧
      isaayos.call [.list ⟨0⟩, .bool true] s = .ok .void next ∧
      next.heap.items ⟨0⟩ = #[.int 3, .int 1, .float Binary64.nan, .int 2] ∧
      s.heap.Tracks true (s.heap.items ⟨0⟩).toList (next.heap.items ⟨0⟩).toList down ∧
      nakaayos.call [.list ⟨0⟩] s = .ok (.list ⟨1⟩) last ∧
      last.heap.items ⟨1⟩ = #[.int 1, .int 3, .float Binary64.nan, .int 2] ∧
      s.heap.Tracks false (s.heap.items ⟨0⟩).toList (last.heap.items ⟨1⟩).toList up := by
  let isaayos : Native := ⟨"isaayos", .range 1 2, .isaayos⟩
  let nakaayos : Native := ⟨"nakaayos", .exact 1, .nakaayos⟩
  let lists : Array (Array Value) := #[#[.int 3, .int 1, .float Binary64.nan, .int 2]]
  let s : Store := { heap := ⟨lists⟩ }
  let last : Store := { heap := ⟨lists.push #[.int 1, .int 3, .float Binary64.nan, .int 2]⟩ }
  have downRun : isaayos.call [.list ⟨0⟩, .bool true] s = .ok .void s :=
    Native.call_isaayos rfl (some (.bool true)) (by decide +kernel)
  have upRun : nakaayos.call [.list ⟨0⟩] s = .ok (.list ⟨1⟩) last :=
    Native.call_nakaayos rfl (by decide +kernel)
  obtain ⟨descends, -⟩ := Native.call_sorts_unordered s s [.list ⟨0⟩, .bool true] .void
  obtain ⟨-, ascends⟩ := Native.call_sorts_unordered s last [.list ⟨0⟩] (.list ⟨1⟩)
  obtain ⟨id, down, given, downTracks⟩ := descends isaayos rfl downRun
  cases given
  obtain ⟨items, id, up, given, same, upTracks⟩ := ascends nakaayos rfl upRun
  cases same
  cases given
  exact ⟨isaayos, nakaayos, s, s, last, down, up, rfl, downRun, rfl, downTracks, upRun, rfl,
    upTracks⟩

/-- Two numbers behind what is not a number are less than one in front of it, and they go ahead of
both. -/
theorem Native.call_sorts_unordered_ahead :
    ∃ (isaayos nakaayos : Native) (s next last : Store) (nan : Value),
      Registry.standard.get? "isaayos" = some isaayos ∧
      Registry.standard.get? "nakaayos" = some nakaayos ∧
      nan = .float Binary64.nan ∧ s.heap.lists = #[#[.int 5, nan, .int 1, .int 2]] ∧
      isaayos.call [.list ⟨0⟩] s = .ok .void next ∧
      next.heap.items ⟨0⟩ = #[.int 1, .int 2, .int 5, nan] ∧
      nakaayos.call [.list ⟨0⟩] s = .ok (.list ⟨1⟩) last ∧
      last.heap.items ⟨1⟩ = #[.int 1, .int 2, .int 5, nan] ∧
      s.heap.order nan (.int 1) = .ok none ∧
      [nan, .int 1].Sublist (s.heap.items ⟨0⟩).toList ∧
      ¬ [nan, .int 1].Sublist (next.heap.items ⟨0⟩).toList ∧
      ¬ [nan, .int 1].Sublist (last.heap.items ⟨1⟩).toList := by
  let isaayos : Native := ⟨"isaayos", .range 1 2, .isaayos⟩
  let nakaayos : Native := ⟨"nakaayos", .exact 1, .nakaayos⟩
  let nan : Value := .float Binary64.nan
  let lists : Array (Array Value) := #[#[.int 5, nan, .int 1, .int 2]]
  let sorted : Array Value := #[.int 1, .int 2, .int 5, nan]
  let s : Store := { heap := ⟨lists⟩ }
  let next : Store := { heap := ⟨#[sorted]⟩ }
  let last : Store := { heap := ⟨lists.push sorted⟩ }
  have inPlace : isaayos.call [.list ⟨0⟩] s = .ok .void next :=
    Native.call_isaayos rfl none (by decide +kernel)
  have apart : nakaayos.call [.list ⟨0⟩] s = .ok (.list ⟨1⟩) last :=
    Native.call_nakaayos rfl (by decide +kernel)
  have unordered : s.heap.order nan (.int 1) = .ok none := by decide +kernel
  have before : [nan, .int 1].Sublist (s.heap.items ⟨0⟩).toList := by decide +kernel
  have behind : ¬ [nan, .int 1].Sublist sorted.toList := by decide +kernel
  exact ⟨isaayos, nakaayos, s, next, last, nan, rfl, rfl, rfl, rfl, inPlace, rfl, apart, rfl,
    unordered, before, behind, behind⟩

end Salita
