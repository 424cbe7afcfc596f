import Mathlib.Data.Finset.Card
import Mathlib.Data.Finset.Dedup
import Mathlib.Data.List.Induction
import Salita.Interpreter.Environment

namespace Salita

def Native.IsLast (registered : List Native) (name : String) (f : Native) : Prop :=
  ∃ earlier later, registered = earlier ++ f :: later ∧ f.name = name ∧ ∀ g ∈ later, g.name ≠ name

def Native.firstIndex (registered : List Native) (name : String) : Nat :=
  registered.findIdx (·.name = name)

namespace Registry

structure Holds (registry : Registry) (registered : List Native) : Prop where
  distinct : registry.names.Nodup
  complete : ∀ name, name ∈ registry.names ↔ ∃ f ∈ registered, f.name = name
  ordered : registry.names.Pairwise fun a b =>
    Native.firstIndex registered a < Native.firstIndex registered b
  finds : ∀ name f, registry.get? name = some f ↔ Native.IsLast registered name f
  misses : ∀ name, registry.get? name = none ↔ ∀ f ∈ registered, f.name ≠ name

theorem get?_cons (g : Native) (rest : List Native) (name : String) :
    get? ⟨g :: rest⟩ name = if g.name = name then some g else get? ⟨rest⟩ name := by
  unfold get?
  split
  case isTrue same => exact List.find?_cons_of_pos (decide_eq_true same)
  case isFalse other => exact List.find?_cons_of_neg (by simp [other])

theorem get?_register (registry : Registry) (f : Native) (name : String) :
    (registry.register f).get? name = if f.name = name then some f else registry.get? name := by
  obtain ⟨functions⟩ := registry
  show get? ⟨put f functions⟩ name = _
  induction functions with
  | nil => rw [put, get?_cons]
  | cons g rest ih =>
      unfold put
      split
      case isTrue same =>
        rw [get?_cons, get?_cons, same]
        split <;> rfl
      case isFalse other =>
        rw [get?_cons, ih, get?_cons]
        split
        case isTrue first => rw [if_neg fun same => other (first.trans same.symm)]
        case isFalse => rfl

theorem names_register_of_mem {registry : Registry} {f : Native}
    (known : f.name ∈ registry.names) : (registry.register f).names = registry.names := by
  obtain ⟨functions⟩ := registry
  show (put f functions).map (·.name) = functions.map (·.name)
  induction functions with
  | nil => cases known
  | cons g rest ih =>
      unfold put
      split
      case isTrue same => rw [List.map_cons, List.map_cons, same]
      case isFalse other =>
        have later := (List.mem_cons.1 known).resolve_left (Ne.symm other)
        rw [List.map_cons, List.map_cons, ih later]

theorem functions_register_of_notMem {registry : Registry} {f : Native}
    (free : f.name ∉ registry.names) :
    (registry.register f).functions = registry.functions ++ [f] := by
  obtain ⟨functions⟩ := registry
  show put f functions = functions ++ [f]
  induction functions with
  | nil => rfl
  | cons g rest ih =>
      obtain ⟨other, free⟩ := not_or.1 (mt List.mem_cons.2 free)
      rw [put, if_neg (Ne.symm other), ih free, List.cons_append]

theorem names_register_of_notMem {registry : Registry} {f : Native}
    (free : f.name ∉ registry.names) :
    (registry.register f).names = registry.names ++ [f.name] := by
  rw [names, functions_register_of_notMem free, List.map_append]
  rfl

end Registry

namespace Native

theorem isLast_concat {registered : List Native} {f g : Native} {name : String} :
    IsLast (registered ++ [f]) name g ↔
      if f.name = name then f = g else IsLast registered name g := by
  constructor
  · rintro ⟨earlier, later, split, same, others⟩
    rcases List.eq_nil_or_concat' later with rfl | ⟨later, last, rfl⟩
    · obtain ⟨-, only⟩ := List.append_inj' split rfl
      obtain rfl : f = g := List.head_eq_of_cons_eq only
      rw [if_pos same]
    · rw [← List.cons_append, ← List.append_assoc] at split
      obtain ⟨rest, only⟩ := List.append_inj' split rfl
      obtain rfl : f = last := List.head_eq_of_cons_eq only
      rw [if_neg (others f (by simp))]
      exact ⟨earlier, later, rest, same, fun g member => others g (by simp [member])⟩
  · split
    case isTrue same =>
      rintro rfl
      exact ⟨registered, [], rfl, same, by simp⟩
    case isFalse other =>
      rintro ⟨earlier, later, rfl, same, others⟩
      refine ⟨earlier, later ++ [f], by simp, same, ?_⟩
      intro g member
      rcases List.mem_append.1 member with inside | last
      · exact others g inside
      · rwa [List.mem_singleton.1 last]

theorem firstIndex_concat_of_mem {registered : List Native} {name : String} (f : Native)
    (known : ∃ g ∈ registered, g.name = name) :
    firstIndex (registered ++ [f]) name = firstIndex registered name ∧
      firstIndex registered name < registered.length := by
  have inside : firstIndex registered name < registered.length := by
    obtain ⟨g, member, same⟩ := known
    exact List.findIdx_lt_length_of_exists ⟨g, member, decide_eq_true same⟩
  refine ⟨?_, inside⟩
  rw [firstIndex, List.findIdx_append]
  exact if_pos inside

theorem firstIndex_concat_of_notMem {registered : List Native} {f : Native}
    (free : ¬ ∃ g ∈ registered, g.name = f.name) :
    firstIndex (registered ++ [f]) f.name = registered.length := by
  have none : registered.findIdx (·.name = f.name) = registered.length := by
    refine List.findIdx_eq_length.2 fun g member => decide_eq_false ?_
    exact fun same => free ⟨g, member, same⟩
  rw [firstIndex, List.findIdx_append, none, if_neg (Nat.lt_irrefl _)]
  simp

end Native

namespace Registry

theorem mem_names_register {registry : Registry} {f : Native} {name : String} :
    name ∈ (registry.register f).names ↔ name ∈ registry.names ∨ f.name = name := by
  by_cases known : f.name ∈ registry.names
  · rw [names_register_of_mem known]
    refine ⟨.inl, ?_⟩
    rintro (old | rfl)
    · exact old
    · exact known
  · rw [names_register_of_notMem known, List.mem_append, List.mem_singleton, eq_comm]

theorem Holds.ordered_register {registry : Registry} {registered : List Native}
    (holds : registry.Holds registered) (f : Native) :
    (registry.register f).names.Pairwise fun a b =>
      Native.firstIndex (registered ++ [f]) a < Native.firstIndex (registered ++ [f]) b := by
  have old : registry.names.Pairwise fun a b =>
      Native.firstIndex (registered ++ [f]) a < Native.firstIndex (registered ++ [f]) b := by
    refine holds.ordered.imp_of_mem fun {a b} first second less => ?_
    rw [(Native.firstIndex_concat_of_mem f ((holds.complete a).1 first)).1,
      (Native.firstIndex_concat_of_mem f ((holds.complete b).1 second)).1]
    exact less
  by_cases known : f.name ∈ registry.names
  · rwa [names_register_of_mem known]
  · rw [names_register_of_notMem known]
    refine List.pairwise_append.2 ⟨old, List.pairwise_singleton _ _, ?_⟩
    intro a first b last
    obtain ⟨same, inside⟩ := Native.firstIndex_concat_of_mem f ((holds.complete a).1 first)
    rw [List.mem_singleton.1 last, same,
      Native.firstIndex_concat_of_notMem fun found => known ((holds.complete _).2 found)]
    exact inside

theorem Holds.register {registry : Registry} {registered : List Native}
    (holds : registry.Holds registered) (f : Native) :
    (registry.register f).Holds (registered ++ [f]) where
  distinct := by
    by_cases known : f.name ∈ registry.names
    · rw [names_register_of_mem known]
      exact holds.distinct
    · rw [names_register_of_notMem known]
      refine List.nodup_append.2 ⟨holds.distinct, List.nodup_singleton _, ?_⟩
      rintro name listed _ last rfl
      exact known (List.mem_singleton.1 last ▸ listed)
  complete name := by
    rw [mem_names_register, holds.complete]
    simp [or_and_right, exists_or]
  ordered := holds.ordered_register f
  finds name g := by
    rw [get?_register, Native.isLast_concat]
    split
    case isTrue => exact Option.some_inj
    case isFalse => exact holds.finds name g
  misses name := by
    rw [get?_register, List.forall_mem_append, List.forall_mem_singleton]
    split
    case isTrue same => simp [same]
    case isFalse other => simp [other, holds.misses]

theorem holds_empty : Holds .empty [] := by
  constructor <;> simp [names, empty, get?, Native.IsLast]

theorem holds_foldl (registered : List Native) :
    Holds (registered.foldl register .empty) registered := by
  induction registered using List.reverseRecOn with
  | nil => exact holds_empty
  | append_singleton registered f ih =>
      rw [List.foldl_concat]
      exact ih.register f

theorem foldl_register_functions {registry : Registry} (distinct : registry.names.Nodup) :
    registry.functions.foldl register .empty = registry := by
  obtain ⟨functions⟩ := registry
  show functions.foldl register .empty = ⟨functions⟩
  induction functions using List.reverseRecOn with
  | nil => rfl
  | append_singleton functions f ih =>
      rw [names, List.map_append, List.nodup_append] at distinct
      obtain ⟨earlier, -, apart⟩ := distinct
      have free : f.name ∉ names ⟨functions⟩ := fun listed => apart _ listed f.name (by simp) rfl
      rw [List.foldl_concat, ih earlier]
      exact congrArg Registry.mk (functions_register_of_notMem free)

end Registry

namespace Environment

structure Resolves (env : Environment) (registry : Registry) (registered : List Native) : Prop where
  known : ∀ name f, env.functionOf name = .ok f ↔ registry.get? name = some f
  unknown : ∀ name, registry.get? name = none → ∃ e, env.functionOf name = .error e ∧
    e.cause = .undefinedName name .functions ∧ e.code.className = "NameError"
  count : env.functions.size = (registered.map (·.name)).toFinset.card

theorem functionOf_eq_ok_iff {env : Environment} {name : String} {f : Native} :
    env.functionOf name = .ok f ↔ env.functions.get? name = some f := by
  unfold functionOf
  split
  case h_1 g found => simp [found]
  case h_2 missing => simp [missing]

theorem size_of_holds {registry : Registry} {registered : List Native}
    (holds : registry.Holds registered) :
    registry.size = (registered.map (·.name)).toFinset.card := by
  have same : (registered.map (·.name)).toFinset = registry.names.toFinset := by
    ext name
    rw [List.mem_toFinset, List.mem_toFinset, holds.complete, List.mem_map]
  rw [same, List.toFinset_card_of_nodup holds.distinct, Registry.names, List.length_map]
  rfl

theorem resolves_ofRegistry {registry : Registry} {registered : List Native}
    (holds : registry.Holds registered) :
    (ofRegistry registry).Resolves registry registered := by
  rw [ofRegistry, Registry.foldl_register_functions holds.distinct]
  constructor
  · exact fun name f => functionOf_eq_ok_iff
  · intro name missing
    rw [functionOf, missing]
    exact ⟨_, rfl, rfl, rfl⟩
  · exact size_of_holds holds

/-- A registry lists the names of all functions that were registered, each once and in the order in
which they came first, and finds the last function of a name. The environment made of it finds the
same, and has no function of any other name. -/
theorem registered_functions (added : List Native) :
    (Registry.Holds (added.foldl .register .empty) added ∧
      (ofRegistry (added.foldl .register .empty)).Resolves (added.foldl .register .empty) added) ∧
    (Registry.Holds (added.foldl .register .standard) (Native.standard ++ added) ∧
      (ofRegistry (added.foldl .register .standard)).Resolves
        (added.foldl .register .standard) (Native.standard ++ added)) := by
  have fresh := Registry.holds_foldl added
  have standard := Registry.holds_foldl (Native.standard ++ added)
  rw [List.foldl_append] at standard
  exact ⟨⟨fresh, resolves_ofRegistry fresh⟩, standard, resolves_ofRegistry standard⟩

end Environment

end Salita
