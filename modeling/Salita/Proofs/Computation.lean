/-!
# Steps of computations

A computation with a state that can fail runs step by step: it succeeds when each of its steps
does, and it stops with the first one that fails. What is known of the steps is known of the whole:
how they fail, how they change the state, and how two runs of them compare.
-/

namespace Salita

variable {ε σ α β : Type} {x : EStateM ε σ α} {f : α → EStateM ε σ β} {s s' : σ}

theorem run_bind_of_ok {a : α} {s₁ : σ} (first : x.run s = .ok a s₁) :
    (x >>= f).run s = (f a).run s₁ := by
  rw [EStateM.run_bind, first]

theorem bind_eq_error {e : ε} :
    (x >>= f) s = .error e s' ↔
      x s = .error e s' ∨ ∃ a s₁, x s = .ok a s₁ ∧ f a s₁ = .error e s' := by
  simp only [bind, EStateM.bind]
  cases x s with
  | ok a s₁ =>
      constructor
      · exact fun failed => .inr ⟨a, s₁, rfl, failed⟩
      · rintro (failed | ⟨a, s₁, first, failed⟩)
        · cases failed
        · cases first
          exact failed
  | error e₁ s₁ => simp

def Fails (C : ε → Prop) (x : EStateM ε σ α) : Prop := ∀ s e s', x s = .error e s' → C e

section
variable {C : ε → Prop}

theorem Fails.pure (a : α) : Fails C (pure a : EStateM ε σ α) := by
  intro s e s' failed
  cases failed

theorem Fails.bind (first : Fails C x) (next : ∀ a, Fails C (f a)) : Fails C (x >>= f) := by
  intro s e s' failed
  rcases bind_eq_error.1 failed with failed | ⟨a, s₁, -, failed⟩
  · exact first s e s' failed
  · exact next a s₁ e s' failed

end

theorem bind_eq_ok {b : β} :
    (x >>= f) s = .ok b s' ↔ ∃ a s₁, x s = .ok a s₁ ∧ f a s₁ = .ok b s' := by
  simp only [bind, EStateM.bind]
  cases x s with
  | ok a s₁ =>
      constructor
      · exact fun done => ⟨a, s₁, rfl, done⟩
      · rintro ⟨a, s₁, first, done⟩
        cases first
        exact done
  | error e s₁ => simp

def Returns (C : α → Prop) (x : EStateM ε σ α) : Prop := ∀ s a s', x s = .ok a s' → C a

theorem Returns.any (x : EStateM ε σ α) : Returns (fun _ => True) x := fun _ _ _ _ => trivial

theorem Returns.pure {C : α → Prop} {a : α} (holds : C a) :
    Returns C (pure a : EStateM ε σ α) := by
  intro s b s' done
  cases done
  exact holds

theorem Returns.bind {C : α → Prop} {D : β → Prop} (first : Returns C x)
    (next : ∀ a, C a → Returns D (f a)) : Returns D (x >>= f) := by
  intro s b s' done
  obtain ⟨a, s₁, result, done⟩ := bind_eq_ok.1 done
  exact next a (first s a s₁ result) s₁ b s' done

def mapFailure (change : ε → ε) (x : EStateM ε σ α) : EStateM ε σ α := fun s =>
  match x s with
  | .ok a s => .ok a s
  | .error e s => .error (change e) s

variable {change : ε → ε}

@[simp] theorem mapFailure_pure (a : α) :
    mapFailure change (pure a : EStateM ε σ α) = pure a := rfl

@[simp] theorem mapFailure_bind :
    mapFailure change (x >>= f) = mapFailure change x >>= fun a => mapFailure change (f a) := by
  funext s
  simp only [mapFailure, bind, EStateM.bind]
  cases x s <;> rfl

theorem mapFailure_eq_self (unchanged : Fails (fun e => change e = e) x) :
    mapFailure change x = x := by
  funext s
  unfold mapFailure
  cases result : x s with
  | ok a s' => rfl
  | error e s' =>
      show EStateM.Result.error (change e) s' = .error e s'
      rw [unchanged s e s' result]

def after (x : EStateM ε σ α) (s : σ) : σ :=
  match x s with
  | .ok _ s' | .error _ s' => s'

def Keeps (R : σ → σ → Prop) (x : EStateM ε σ α) : Prop := ∀ s, R s (after x s)

section
variable {R : σ → σ → Prop}

theorem Keeps.pure (refl : ∀ s, R s s) (a : α) : Keeps R (pure a : EStateM ε σ α) := refl

theorem Keeps.bind (trans : ∀ {s₁ s₂ s₃}, R s₁ s₂ → R s₂ s₃ → R s₁ s₃) (first : Keeps R x)
    (next : ∀ a, Keeps R (f a)) : Keeps R (x >>= f) := by
  intro s
  have kept := first s
  simp only [after, Bind.bind, EStateM.bind] at kept ⊢
  cases result : x s with
  | ok a s₁ =>
      rw [result] at kept
      exact trans kept (next a s₁)
  | error e s₁ =>
      rw [result] at kept
      exact kept

end

end Salita
