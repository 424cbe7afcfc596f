import Salita.Proofs.Value.Order
import Salita.Value.Display

/-!
# Values written out

The rules by which a value is written, without a bound on the lists that are entered: a list is
written out with its elements, unless it stands somewhere inside itself. Main statement: on every
heap the rules come to one text, which is the text of the value, and if no list that the value
reaches holds itself, this is the text that the elements alone make up.
-/

namespace Salita.Heap

mutual

/-- How a value is written inside of the lists `around`, from the innermost to the outermost. -/
inductive Writes (heap : Heap) : List ListId → Value → String → Prop
  | scalar {around : List ListId} {value : Value} (plain : value.type ≠ .list ∧ value.type ≠ .str) :
      Writes heap around value value.scalarText
  | quoted {around : List ListId} {s : String} : Writes heap around (.str s) ("\"" ++ s ++ "\"")
  | recurring {around : List ListId} {id : ListId} (inside : id ∈ around) :
      Writes heap around (.list id) "[...]"
  | full {around : List ListId} {id : ListId} {texts : List String} (outside : id ∉ around)
      (items : WritesItems heap (id :: around) (heap.items id).toList texts) :
      Writes heap around (.list id) ("[" ++ ", ".intercalate texts ++ "]")

inductive WritesItems (heap : Heap) : List ListId → List Value → List String → Prop
  | nil {around : List ListId} : WritesItems heap around [] []
  | cons {around : List ListId} {value : Value} {values : List Value} {text : String}
      {texts : List String} (first : Writes heap around value text)
      (rest : WritesItems heap around values texts) :
      WritesItems heap around (value :: values) (text :: texts)

end

mutual

inductive Spells (heap : Heap) : Value → String → Prop
  | scalar {value : Value} (plain : value.type ≠ .list ∧ value.type ≠ .str) :
      Spells heap value value.scalarText
  | quoted {s : String} : Spells heap (.str s) ("\"" ++ s ++ "\"")
  | list {id : ListId} {texts : List String} (items : SpellsItems heap (heap.items id).toList texts) :
      Spells heap (.list id) ("[" ++ ", ".intercalate texts ++ "]")

inductive SpellsItems (heap : Heap) : List Value → List String → Prop
  | nil : SpellsItems heap [] []
  | cons {value : Value} {values : List Value} {text : String} {texts : List String}
      (first : Spells heap value text) (rest : SpellsItems heap values texts) :
      SpellsItems heap (value :: values) (text :: texts)

end

variable {heap : Heap}

mutual

theorem Writes.unique {around : List ListId} {value : Value} {text other : String} :
    heap.Writes around value text → heap.Writes around value other → text = other
  | .scalar plain, written => by
      cases written with
      | scalar => rfl
      | quoted | recurring | full => simp [Value.type] at plain
  | .quoted, written => by
      cases written with
      | scalar plain => simp [Value.type] at plain
      | quoted => rfl
  | .recurring inside, written => by
      cases written with
      | scalar plain => simp [Value.type] at plain
      | recurring => rfl
      | full outside => exact absurd inside outside
  | .full outside items, written => by
      cases written with
      | scalar plain => simp [Value.type] at plain
      | recurring inside => exact absurd inside outside
      | full _ others => rw [items.unique others]

theorem WritesItems.unique {around : List ListId} {values : List Value} {texts others : List String} :
    heap.WritesItems around values texts → heap.WritesItems around values others → texts = others
  | .nil, written => by
      cases written
      rfl
  | .cons first rest, written => by
      cases written with
      | cons again more => rw [first.unique again, rest.unique more]

end

mutual

theorem Spells.unique {value : Value} {text other : String} :
    heap.Spells value text → heap.Spells value other → text = other
  | .scalar plain, spelled => by
      cases spelled with
      | scalar => rfl
      | quoted | list => simp [Value.type] at plain
  | .quoted, spelled => by
      cases spelled with
      | scalar plain => simp [Value.type] at plain
      | quoted => rfl
  | .list items, spelled => by
      cases spelled with
      | scalar plain => simp [Value.type] at plain
      | list others => rw [items.unique others]

theorem SpellsItems.unique {values : List Value} {texts others : List String} :
    heap.SpellsItems values texts → heap.SpellsItems values others → texts = others
  | .nil, spelled => by
      cases spelled
      rfl
  | .cons first rest, spelled => by
      cases spelled with
      | cons again more => rw [first.unique again, rest.unique more]

end

def outside (heap : Heap) (around : List ListId) : Finset (Fin heap.lists.size) :=
  Finset.univ.filter fun index => ⟨index⟩ ∉ around

theorem card_outside_cons {around : List ListId} {id : ListId} (present : id.index < heap.lists.size)
    (new : id ∉ around) : (heap.outside (id :: around)).card < (heap.outside around).card := by
  apply Finset.card_lt_card
  constructor
  · intro index member
    simp only [outside, Finset.mem_filter, Finset.mem_univ, true_and, List.mem_cons] at member ⊢
    exact fun old => member (.inr old)
  · intro subset
    have before : ⟨id.index, present⟩ ∈ heap.outside around := by simpa [outside] using new
    have now := subset before
    simp [outside] at now

theorem card_outside_nil (heap : Heap) : (heap.outside []).card ≤ heap.lists.size := by
  have bound : (heap.outside []).card ≤ _ := Finset.card_filter_le _ _
  rwa [Finset.card_univ, Fintype.card_fin] at bound

theorem writesItems_map {around : List ListId} {write : Value → String} {values : List Value}
    (writes : ∀ value ∈ values, heap.Writes around value (write value)) :
    heap.WritesItems around values (values.map write) := by
  induction values with
  | nil => exact .nil
  | cons value values ih =>
      rw [List.forall_mem_cons] at writes
      exact .cons writes.1 (ih writes.2)

theorem writes_scalarText {around : List ListId} {value : Value} (apart : value.type ≠ .list) :
    heap.Writes around value value.scalarText := by
  by_cases text : value.type = .str
  · cases value with
    | str s => exact .quoted
    | int | float | bool | list | function | file | void => cases text
  · exact .scalar ⟨apart, text⟩

/-- The text of a value inside the lists of `around`, where each list gives its elements a set of
their own. -/
def textWithin (heap : Heap) : Nat → Around → Value → String
  | 0, _, value => value.scalarText
  | depth + 1, around, .list id =>
      if around.contains id.index then Value.recurring
      else
        let inside := around.insert id.index
        let texts := (heap.items id).toList.map (heap.textWithin depth inside)
        "[" ++ ", ".intercalate texts ++ "]"
  | _ + 1, _, value => value.scalarText

theorem textWithin_list {depth : Nat} {around : Around} {id : ListId} :
    heap.textWithin (depth + 1) around (.list id) =
      if around.contains id.index then Value.recurring
      else "[" ++ ", ".intercalate
        ((heap.items id).toList.map (heap.textWithin depth (around.insert id.index))) ++ "]" := rfl

theorem textWithin_of_apart {depth : Nat} {around : Around} {value : Value}
    (apart : value.type ≠ .list) : heap.textWithin depth around value = value.scalarText := by
  cases value with
  | list => exact absurd rfl apart
  | int | float | str | bool | function | file | void => cases depth <;> rfl

theorem run_write_list (depth : Nat) (entered : Around) (id : ListId) :
    (heap.write (depth + 1) (.list id)).run entered =
      if entered.contains id.index then (Value.recurring, entered)
      else
        let written := ((heap.items id).toList.mapM (heap.write depth)).run
          (entered.insert id.index)
        ("[" ++ ", ".intercalate written.1 ++ "]", written.2.erase id.index) := by
  by_cases inside : entered.contains id.index = true
  · simp only [write, StateT.run_bind, StateT.run_get, pure_bind, if_pos inside]
    rfl
  · simp only [write, StateT.run_bind, StateT.run_get, pure_bind, if_neg inside]
    rfl

theorem run_write_of_apart {depth : Nat} {value : Value} (apart : value.type ≠ .list)
    (entered : Around) : (heap.write depth value).run entered = (value.scalarText, entered) := by
  cases value with
  | list => exact absurd rfl apart
  | int | float | str | bool | function | file | void => cases depth <;> rfl

def Alike (entered other : Around) : Prop := ∀ index, index ∈ entered ↔ index ∈ other

theorem Alike.insert {entered other : Around} (alike : Alike entered other) (index : Nat) :
    Alike (entered.insert index) (other.insert index) := by
  intro i
  rw [Std.TreeSet.mem_insert, Std.TreeSet.mem_insert, alike i]

theorem Alike.erase {entered other : Around} {index : Nat}
    (alike : Alike entered (other.insert index)) (new : index ∉ other) :
    Alike (entered.erase index) other := by
  intro i
  rw [Std.TreeSet.mem_erase, alike i, Std.TreeSet.mem_insert, ne_eq,
    Std.LawfulEqCmp.compare_eq_iff_eq]
  by_cases same : index = i
  · subst same
    simp [new]
  · simp [same]

theorem run_mapM_write {depth : Nat} {outer : Around}
    (writes : ∀ (entered : Around) (value : Value), Alike entered outer →
      ((heap.write depth value).run entered).1 = heap.textWithin depth outer value ∧
        Alike ((heap.write depth value).run entered).2 outer)
    (values : List Value) {entered : Around} (alike : Alike entered outer) :
    ((values.mapM (heap.write depth)).run entered).1 = values.map (heap.textWithin depth outer) ∧
      Alike ((values.mapM (heap.write depth)).run entered).2 outer := by
  induction values generalizing entered with
  | nil => exact ⟨rfl, alike⟩
  | cons value values ih =>
      obtain ⟨text, between⟩ := writes entered value alike
      obtain ⟨texts, behind⟩ := ih between
      rw [List.mapM_cons, List.map_cons, ← text, ← texts]
      exact ⟨rfl, behind⟩

/-- Writing a value one list after the other comes to the text that it has if each list gives its own
set to its elements, and it leaves the set as it was. -/
theorem run_write {depth : Nat} {entered outer : Around} (alike : Alike entered outer)
    (value : Value) :
    ((heap.write depth value).run entered).1 = heap.textWithin depth outer value ∧
      Alike ((heap.write depth value).run entered).2 outer := by
  induction depth generalizing entered outer value with
  | zero => exact ⟨rfl, alike⟩
  | succ depth ih =>
      by_cases list : value.type = .list
      · obtain ⟨id, rfl⟩ : ∃ id, value = .list id := by
          cases value with
          | list id => exact ⟨id, rfl⟩
          | int | float | str | bool | function | file | void => cases list
        rw [run_write_list, textWithin_list]
        simp only [Std.TreeSet.contains_iff_mem, alike id.index]
        split
        case isTrue inside => exact ⟨rfl, alike⟩
        case isFalse new =>
          obtain ⟨texts, restored⟩ := run_mapM_write
            (fun entered value inner => ih inner value) (heap.items id).toList
            (alike.insert id.index)
          rw [← texts]
          exact ⟨rfl, restored.erase new⟩
      · rw [run_write_of_apart list, textWithin_of_apart list]
        exact ⟨rfl, alike⟩

def Records (entered : Around) (around : List ListId) : Prop :=
  ∀ id : ListId, entered.contains id.index = true ↔ id ∈ around

theorem Records.insert {entered : Around} {around : List ListId} (records : Records entered around)
    (id : ListId) : Records (entered.insert id.index) (id :: around) := by
  intro other
  rw [Std.TreeSet.contains_insert, Bool.or_eq_true, records other, List.mem_cons, beq_iff_eq,
    Std.LawfulEqCmp.compare_eq_iff_eq]
  apply or_congr_left
  constructor
  · intro same
    cases id
    cases other
    exact congrArg ListId.mk same.symm
  · rintro rfl
    rfl

theorem writes_textWithin {depth : Nat} {entered : Around} {around : List ListId}
    (records : Records entered around) (bound : (heap.outside around).card < depth) (value : Value) :
    heap.Writes around value (heap.textWithin depth entered value) := by
  induction depth generalizing entered around value with
  | zero => exact absurd bound (Nat.not_lt_zero _)
  | succ depth ih =>
      by_cases list : value.type = .list
      · obtain ⟨id, rfl⟩ : ∃ id, value = .list id := by
          cases value with
          | list id => exact ⟨id, rfl⟩
          | int | float | str | bool | function | file | void => cases list
        rw [textWithin_list]
        split
        case isTrue inside => exact .recurring ((records id).1 inside)
        case isFalse notInside =>
          have new : id ∉ around := fun inside => notInside ((records id).2 inside)
          refine .full new (writesItems_map fun item member => ?_)
          -- A list that is not there has no elements, so it needs no depth for them.
          have present : id.index < heap.lists.size := by
            refine Decidable.not_not.1 fun absent => ?_
            rw [items_of_not_contained absent] at member
            cases member
          have fewer := card_outside_cons present new
          exact ih (records.insert id) (by omega) item
      · rw [textWithin_of_apart list]
        exact writes_scalarText list

theorem writes_iff {depth : Nat} (enough : heap.lists.size < depth) {value : Value} {text : String} :
    heap.Writes [] value text ↔ text = heap.textWithin depth ∅ value := by
  have records : Records ∅ [] := by
    intro id
    simp
  have written := writes_textWithin records (Nat.lt_of_le_of_lt heap.card_outside_nil enough) value
  constructor
  · exact fun other => other.unique written
  · rintro rfl
    exact written

theorem text_of_apart {value : Value} (apart : value.type ≠ .str) :
    heap.text value = heap.textWithin (heap.lists.size + 1) ∅ value := by
  have run : heap.text value = ((heap.write (heap.lists.size + 1) value).run ∅).1 := by
    cases value with
    | str => exact absurd rfl apart
    | int | float | bool | list | function | file | void => rfl
  rw [run, (run_write (fun _ => Iff.rfl) value).1]

theorem Encloses.item {a id : ListId} {value : Value} (encloses : heap.Encloses a (.list id))
    (member : value ∈ (heap.items id).toList) : heap.Encloses a value := by
  rintro inner rfl
  exact (encloses id rfl).tail member

mutual

/-- Where no cycle is reached, no list around a value comes again inside of it. -/
theorem Writes.spells {around : List ListId} {value : Value} {text : String} :
    heap.Writes around value text → ¬ heap.ReachesCycle value →
      (∀ outer ∈ around, heap.Encloses outer value) → heap.Spells value text
  | .scalar plain, _, _ => .scalar plain
  | .quoted, _, _ => .quoted
  | .recurring inside, acyclic, encloses =>
      absurd ⟨_, _, rfl, .refl, encloses _ inside _ rfl⟩ acyclic
  | @Writes.full _ _ id _ _ items, acyclic, encloses => by
      refine .list (items.spells (fun _ held cycle => acyclic (cycle.of_mem held)) ?_)
      intro value held
      rw [List.forall_mem_cons]
      refine ⟨?_, fun outer inside => (encloses outer inside).item held⟩
      rintro inner rfl
      exact .single held

theorem WritesItems.spells {around : List ListId} {values : List Value} {texts : List String} :
    heap.WritesItems around values texts → (∀ value ∈ values, ¬ heap.ReachesCycle value) →
      (∀ value ∈ values, ∀ outer ∈ around, heap.Encloses outer value) →
      heap.SpellsItems values texts
  | .nil, _, _ => .nil
  | .cons first rest, acyclic, encloses => by
      rw [List.forall_mem_cons] at acyclic encloses
      exact .cons (first.spells acyclic.1 encloses.1) (rest.spells acyclic.2 encloses.2)

end

/-- A text stands for itself. Writing any other value comes to one text on every heap, whatever its
cycles and however often a list is shared, and entering more lists than there are changes nothing.
A value that reaches no cycle is written by its elements alone. -/
theorem text_written (heap : Heap) :
    (∀ s, heap.text (.str s) = s) ∧
    ∀ value : Value, value.type ≠ .str →
      (∀ text, heap.Writes [] value text ↔ text = heap.text value) ∧
      (∀ depth > heap.lists.size, ((heap.write depth value).run ∅).1 = heap.text value ∧
        heap.textWithin depth ∅ value = heap.text value) ∧
      (¬ heap.ReachesCycle value → ∀ text, heap.Spells value text ↔ text = heap.text value) := by
  refine ⟨fun s => rfl, fun value apart => ?_⟩
  have written (text : String) : heap.Writes [] value text ↔ text = heap.text value := by
    rw [text_of_apart apart]
    exact writes_iff (Nat.lt_succ_self _)
  refine ⟨written, ?_, ?_⟩
  · intro depth enough
    have within : heap.textWithin depth ∅ value = heap.text value :=
      (written _).1 ((writes_iff enough).2 rfl)
    exact ⟨(run_write (fun _ => Iff.rfl) value).1.trans within, within⟩
  · intro acyclic text
    have spelled : heap.Spells value (heap.text value) :=
      ((written _).2 rfl).spells acyclic (by simp)
    constructor
    · exact fun other => other.unique spelled
    · rintro rfl
      exact spelled

/-- The first list holds the second one twice, side by side, and the second holds the first. The
third holds the fourth one twice and is no part of itself. -/
theorem text_written_shared :
    ∃ heap : Heap,
      heap.lists = #[#[.list ⟨1⟩, .list ⟨1⟩, .str "a"], #[.int 2, .list ⟨0⟩],
        #[.list ⟨3⟩, .list ⟨3⟩], #[.bool true]] ∧
      heap.text (.list ⟨0⟩) = "[[2, [...]], [2, [...]], \"a\"]" ∧
      heap.Writes [] (.list ⟨0⟩) "[[2, [...]], [2, [...]], \"a\"]" ∧
      ¬ heap.ReachesCycle (.list ⟨2⟩) ∧ heap.Spells (.list ⟨2⟩) "[[Totoo], [Totoo]]" := by
  let heap : Heap := ⟨#[#[.list ⟨1⟩, .list ⟨1⟩, .str "a"], #[.int 2, .list ⟨0⟩],
    #[.list ⟨3⟩, .list ⟨3⟩], #[.bool true]]⟩
  have first : heap.text (.list ⟨0⟩) = "[[2, [...]], [2, [...]], \"a\"]" := by decide +kernel
  have third : heap.text (.list ⟨2⟩) = "[[Totoo], [Totoo]]" := by decide +kernel
  have inner (b : ListId) (held : heap.Holds ⟨2⟩ b) : b = ⟨3⟩ := by
    simpa [Holds, heap, items] using held
  have innermost (b : ListId) : ¬ heap.Holds ⟨3⟩ b := by simp [Holds, heap, items]
  have acyclic : ¬ heap.ReachesCycle (.list ⟨2⟩) := by
    rintro ⟨root, id, same, reached, cycle⟩
    cases same
    obtain ⟨next, held, back⟩ := Relation.TransGen.head'_iff.1 cycle
    rcases reached.cases_head with rfl | ⟨b, step, reached⟩
    · obtain rfl := inner next held
      rcases back.cases_head with same | ⟨c, step, -⟩
      · cases same
      · exact innermost c step
    · obtain rfl := inner b step
      rcases reached.cases_head with rfl | ⟨c, step, -⟩
      · exact innermost next held
      · exact innermost c step
  obtain ⟨-, written⟩ := text_written heap
  exact ⟨heap, rfl, first, ((written (.list ⟨0⟩) (by decide)).1 _).2 first.symm, acyclic,
    ((written (.list ⟨2⟩) (by decide)).2.2 acyclic _).2 third.symm⟩

end Salita.Heap
