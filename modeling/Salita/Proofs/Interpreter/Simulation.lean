import Salita.Interpreter.Statement

namespace Salita

section
variable {ε σ α β : Type} {R : σ → σ → Prop} {C : ε → ε → Prop}

inductive Alike (R : σ → σ → Prop) (C : ε → ε → Prop) :
    EStateM.Result ε σ α → EStateM.Result ε σ α → Prop
  | ok {s t : σ} (a : α) (states : R s t) : Alike R C (.ok a s) (.ok a t)
  | error {s t : σ} {e d : ε} (failures : C e d) (states : R s t) :
      Alike R C (.error e s) (.error d t)

def Simulates (R : σ → σ → Prop) (C : ε → ε → Prop) (x y : EStateM ε σ α) : Prop :=
  ∀ s t, R s t → Alike R C (x s) (y t)

namespace Simulates

theorem pure (a : α) : Simulates R C (pure a) (pure a) := fun _ _ states => .ok a states

theorem bind {x y : EStateM ε σ α} {f g : α → EStateM ε σ β} (first : Simulates R C x y)
    (next : ∀ a, Simulates R C (f a) (g a)) : Simulates R C (x >>= f) (y >>= g) := by
  intro s t states
  have alike := first s t states
  simp only [Bind.bind, EStateM.bind]
  generalize x s = left at alike
  generalize y t = right at alike
  cases alike with
  | ok a states => exact next a _ _ states
  | error failures states => exact .error failures states

end Simulates

end

theorem Simulates.mapError {R : Store → Store → Prop} {C : EvalError → EvalError → Prop}
    {change : EvalError → EvalError} {α : Type} {x y : Eval α}
    (changed : ∀ {e d : EvalError}, C e d → C (change e) (change d)) (same : Simulates R C x y) :
    Simulates R C (x.mapError change) (y.mapError change) := by
  intro s t states
  have alike := same s t states
  simp only [Eval.mapError]
  generalize x s = left at alike
  generalize y t = right at alike
  cases alike with
  | ok a states => exact .ok a states
  | error failures states => exact .error (changed failures) states

section
variable {R : Machine → Machine → Prop} {C : Stop → Stop → Prop}

theorem Simulates.repeatWhile {step step' : Exec Bool} (steps : Simulates R C step step')
    (rounds_end : C .outOfRounds .outOfRounds) (rounds : Nat) :
    Simulates R C (Exec.repeatWhile step rounds) (Exec.repeatWhile step' rounds) := by
  induction rounds with
  | zero => exact fun m n states => .error rounds_end states
  | succ rounds ih =>
      refine .bind steps fun again => ?_
      cases again with
      | false => exact .pure ()
      | true => exact ih

theorem Simulates.forEach {step step' : Int → Exec Bool}
    (steps : ∀ i, Simulates R C (step i) (step' i)) (count : Nat) (i : Int) :
    Simulates R C (Exec.forEach step count i) (Exec.forEach step' count i) := by
  induction count generalizing i with
  | zero => exact .pure ()
  | succ count ih =>
      refine .bind (steps i) fun again => ?_
      cases again with
      | false => exact .pure ()
      | true => exact ih (i + 1)

end

end Salita
