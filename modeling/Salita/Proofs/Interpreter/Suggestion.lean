import Mathlib.Data.Prod.Lex
import Mathlib.Data.String.Basic
import Salita.Interpreter.Environment

namespace Salita.Suggestion

def Tolerated (length changes : Nat) : Prop :=
  3 ≤ length ∧ changes ≤ 1 ∨ 6 ≤ length ∧ changes ≤ 2 ∨ 10 ≤ length ∧ changes ≤ 3

def Near (known : Set String) (name c : String) : Prop :=
  c ∈ known ∧ c ≠ name ∧ Tolerated name.length (Text.distance name.toList c.toList)

def rank (name c : String) : Nat ×ₗ String := toLex (Text.distance name.toList c.toList, c)

def IsNearest (known : Set String) (name c : String) : Prop :=
  Near known name c ∧ ∀ other, Near known name other → rank name c ≤ rank name other

variable {known : Set String} {name c d : String} {candidates : List String}

theorem IsNearest.unique (first : IsNearest known name c) (second : IsNearest known name d) :
    c = d := by
  have same : rank name c = rank name d :=
    le_antisymm (first.2 d second.1) (second.2 c first.1)
  exact congrArg (fun key => (ofLex key).2) same

theorem tolerated_iff (length changes : Nat) :
    Tolerated length changes ↔ tolerance length ≠ 0 ∧ changes ≤ tolerance length := by
  unfold Tolerated tolerance
  split
  · omega
  · split
    · omega
    · split <;> omega

theorem nearer_eq_min (a b : Nat × String) : toLex (nearer a b) = min (toLex b) (toLex a) := by
  have smaller : (b.1 < a.1 ∨ (b.1 = a.1 ∧ b.2 < a.2)) ↔ toLex b < toLex a :=
    Prod.Lex.toLex_lt_toLex.symm
  unfold nearer
  split
  case isTrue less => exact (min_eq_left (smaller.1 less).le).symm
  case isFalse kept => exact (min_eq_right (not_lt.1 (mt smaller.2 kept))).symm

theorem foldl_nearer (first : Nat × String) (rest : List (Nat × String)) :
    rest.foldl nearer first ∈ first :: rest ∧
      ∀ x ∈ first :: rest, toLex (rest.foldl nearer first) ≤ toLex x := by
  induction rest generalizing first with
  | nil => simp
  | cons second rest ih =>
      obtain ⟨member, least⟩ := ih (nearer first second)
      have kept : nearer first second = first ∨ nearer first second = second := by
        unfold nearer
        split <;> simp
      have start := least _ List.mem_cons_self
      rw [nearer_eq_min, le_min_iff] at start
      constructor
      · rw [List.foldl_cons]
        rcases List.mem_cons.1 member with same | behind
        · rw [same]
          rcases kept with kept | kept <;> simp [kept]
        · exact .tail _ (.tail _ behind)
      · intro x inside
        rcases List.mem_cons.1 inside with rfl | inside
        · exact start.2
        · rcases List.mem_cons.1 inside with rfl | behind
          · exact start.1
          · exact least x (.tail _ behind)

theorem mem_candidatesFor {x : Nat × String} :
    x ∈ candidatesFor name candidates ↔
      x.2 ∈ candidates ∧ x.2 ≠ name ∧ x.1 = Text.distance name.toList x.2.toList ∧
        x.1 ≤ tolerance name.length := by
  obtain ⟨changes, c⟩ := x
  simp only [candidatesFor, List.mem_filter, List.mem_map, Prod.mk.injEq, decide_eq_true_eq]
  constructor
  · rintro ⟨⟨c, ⟨member, other⟩, rfl, rfl⟩, few⟩
    exact ⟨member, other, rfl, few⟩
  · rintro ⟨member, other, rfl, few⟩
    exact ⟨⟨c, ⟨member, other⟩, rfl, rfl⟩, few⟩

theorem near_iff (long : tolerance name.length ≠ 0) :
    Near {c | c ∈ candidates} name c ↔
      (Text.distance name.toList c.toList, c) ∈ candidatesFor name candidates := by
  rw [mem_candidatesFor, Near, tolerated_iff]
  simp [long]

theorem isNearest_of_closest? (found : closest? name candidates = some c) :
    IsNearest {c | c ∈ candidates} name c := by
  unfold closest? at found
  split at found
  case isTrue => cases found
  case isFalse long =>
    split at found
    case h_1 => cases found
    case h_2 first rest pairs =>
      obtain ⟨member, least⟩ := foldl_nearer first rest
      rw [← pairs] at member least
      obtain ⟨-, -, distance, -⟩ := mem_candidatesFor.1 member
      have pair : rest.foldl nearer first = (Text.distance name.toList c.toList, c) := by
        cases found
        exact Prod.ext distance rfl
      rw [pair] at member least
      exact ⟨(near_iff long).2 member, fun other near => least _ ((near_iff long).1 near)⟩

theorem not_near_of_closest? (missing : closest? name candidates = none) (c : String) :
    ¬ Near {c | c ∈ candidates} name c := by
  intro near
  have long := ((tolerated_iff _ _).1 near.2.2).1
  have member := (near_iff long).1 near
  rw [closest?, if_neg long] at missing
  split at missing
  case h_1 pairs =>
    rw [pairs] at member
    cases member
  case h_2 => cases missing

theorem closest?_eq_some_iff :
    closest? name candidates = some c ↔ IsNearest {c | c ∈ candidates} name c := by
  refine ⟨isNearest_of_closest?, fun nearest => ?_⟩
  cases result : closest? name candidates with
  | none => exact absurd nearest.1 (not_near_of_closest? result c)
  | some d => rw [(isNearest_of_closest? result).unique nearest]

theorem closest?_eq_none_iff :
    closest? name candidates = none ↔ ∀ c, ¬ Near {c | c ∈ candidates} name c := by
  refine ⟨not_near_of_closest?, fun missing => ?_⟩
  cases result : closest? name candidates with
  | none => rfl
  | some d => exact absurd (isNearest_of_closest? result).1 (missing d)

theorem closest?_congr {others : List String} (same : ∀ c, c ∈ others ↔ c ∈ candidates) :
    closest? name others = closest? name candidates := by
  have sets : {c | c ∈ others} = {c | c ∈ candidates} := Set.ext same
  refine Option.ext fun c => ?_
  rw [closest?_eq_some_iff, closest?_eq_some_iff, sets]

/-- What a help says about a name: it asks for the nearest of the known names, if one is near. Any
list of the known names gives the same help. -/
structure Helps (known : Set String) (name : String) (help : Option String) : Prop where
  nearest : ∀ text, help = some text ↔
    ∃ c, IsNearest known name c ∧ text = "did you mean `" ++ c ++ "`?"
  unordered : ∀ names : List String, (∀ c, c ∈ names ↔ c ∈ known) →
    didYouMean? name names = help

theorem helps_didYouMean? (listed : ∀ c, c ∈ candidates ↔ c ∈ known) :
    Helps known name (didYouMean? name candidates) where
  nearest text := by
    have same : {c | c ∈ candidates} = known := Set.ext listed
    simp only [didYouMean?, Option.map_eq_some_iff, closest?_eq_some_iff, same, eq_comm (a := text)]
  unordered names all := by
    rw [didYouMean?, didYouMean?, closest?_congr fun c => (all c).trans (listed c).symm]

end Salita.Suggestion

namespace Salita.Environment

open Suggestion

def bound (env : Environment) : Set String := {c | (env.get? c).isSome}

def registered (env : Environment) : Set String := {c | (env.functions.get? c).isSome}

variable {env : Environment} {name : String} {e : EvalError}

theorem mem_variableNames (c : String) : c ∈ env.variableNames ↔ c ∈ env.bound := by
  simp [variableNames, bound, get?, List.lookup_isSome_iff]

theorem mem_functionNames (c : String) : c ∈ env.functions.names ↔ c ∈ env.registered := by
  simp [Registry.names, registered, Registry.get?]

theorem helps_of_valueOf (failed : env.valueOf name = .error e) :
    name ∉ env.bound ∧ Helps env.bound name e.help := by
  unfold valueOf at failed
  split at failed
  case h_1 => cases failed
  case h_2 missing =>
    cases failed
    exact ⟨by simp [bound, missing], helps_didYouMean? mem_variableNames⟩

theorem helps_of_functionOf (failed : env.functionOf name = .error e) :
    name ∉ env.registered ∧ Helps env.registered name e.help := by
  unfold functionOf at failed
  split at failed
  case h_1 => cases failed
  case h_2 missing =>
    cases failed
    exact ⟨by simp [registered, missing], helps_didYouMean? mem_functionNames⟩

end Salita.Environment

namespace Salita.Suggestion

/-- The candidate that is chosen is the nearest one, and there is none exactly if no candidate is near,
as for all names of one or two characters. The order of the candidates and their repetitions do not
matter. So the help for a variable without a value is about the variables that have one, and the help
for a function that does not exist about those that do. -/
theorem choice_nearest (name : String) :
    (∀ candidates : List String,
      (name.length ≤ 2 → closest? name candidates = none) ∧
      (∀ c, closest? name candidates = some c ↔ IsNearest {c | c ∈ candidates} name c) ∧
      (closest? name candidates = none ↔ ∀ c, ¬ Near {c | c ∈ candidates} name c) ∧
      ∀ others : List String, (∀ c, c ∈ others ↔ c ∈ candidates) →
        closest? name others = closest? name candidates) ∧
    ∀ (env : Environment) (e : EvalError),
      (env.valueOf name = .error e → name ∉ env.bound ∧ Helps env.bound name e.help) ∧
      (env.functionOf name = .error e →
        name ∉ env.registered ∧ Helps env.registered name e.help) := by
  refine ⟨fun candidates => ⟨fun short => ?_, fun c => closest?_eq_some_iff, closest?_eq_none_iff,
    fun others => closest?_congr⟩, fun env e => ⟨env.helps_of_valueOf, env.helps_of_functionOf⟩⟩
  rw [closest?, if_pos]
  exact if_pos short

theorem choice_nearest_kabuuan :
    let env : Environment := ⟨[("kabuoan", .int 3), ("kabuan", .int 2)], .standard⟩
    closest? "kabuuan" ["kabuoan", "kabuan", "kabuuan", "kabuoan"] = some "kabuan" ∧
      IsNearest {c | c ∈ ["kabuoan", "kabuan", "kabuuan", "kabuoan"]} "kabuuan" "kabuan" ∧
      closest? "kabuuan" ["kabuuan", "kabuan", "kabuoan"] = some "kabuan" ∧
      closest? "ab" ["abo"] = none ∧ (∀ c, ¬ Near {c | c ∈ ["abo"]} "ab" c) ∧
      (∃ e, env.valueOf "kabuuan" = .error e ∧ Helps env.bound "kabuuan" e.help ∧
        e.help = some "did you mean `kabuan`?") ∧
      ∃ e, env.functionOf "baligtat" = .error e ∧ Helps env.registered "baligtat" e.help ∧
        e.help = some "did you mean `baligtad`?" := by
  intro env
  have chosen : closest? "kabuuan" ["kabuoan", "kabuan", "kabuuan", "kabuoan"] = some "kabuan" := by
    decide +kernel
  obtain ⟨-, nearest, -, unordered⟩ :=
    (choice_nearest "kabuuan").1 ["kabuoan", "kabuan", "kabuuan", "kabuoan"]
  obtain ⟨short, -, nothing, -⟩ := (choice_nearest "ab").1 ["abo"]
  have others : closest? "kabuuan" ["kabuuan", "kabuan", "kabuoan"] = some "kabuan" := by
    rw [unordered _ fun c => by simp [or_comm, or_left_comm], chosen]
  have noValue : env.valueOf "kabuuan" = .error
      { cause := .undefinedName "kabuuan" .vars, help := some "did you mean `kabuan`?" } := by
    rfl
  have noFunction : env.functionOf "baligtat" = .error
      { cause := .undefinedName "baligtat" .functions, help := some "did you mean `baligtad`?" } := by
    rfl
  exact ⟨chosen, (nearest _).1 chosen, others, short (by decide), nothing.1 (short (by decide)),
    ⟨_, noValue, (((choice_nearest "kabuuan").2 env _).1 noValue).2, rfl⟩,
    _, noFunction, (((choice_nearest "baligtat").2 env _).2 noFunction).2, rfl⟩

end Salita.Suggestion
