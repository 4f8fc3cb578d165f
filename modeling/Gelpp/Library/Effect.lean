import Mathlib

-- The state survives an exception.
structure Effect (ε σ α : Type) where
  run : σ → Except ε α × σ

namespace Effect

variable {ε σ α β : Type}

instance : Monad (Effect ε σ) where
  pure a := ⟨fun s => (.ok a, s)⟩
  bind m k := ⟨fun s =>
    match m.run s with
    | (.ok a, t) => (k a).run t
    | (.error e, t) => (.error e, t)⟩

def get : Effect ε σ σ := ⟨fun s => (.ok s, s)⟩

def modify (f : σ → σ) : Effect ε σ Unit := ⟨fun s => (.ok (), f s)⟩

def raise (e : ε) : Effect ε σ α := ⟨fun s => (.error e, s)⟩

def lift (x : Except ε α) : Effect ε σ α := ⟨fun s => (x, s)⟩

theorem bind_of_ok {m : Effect ε σ α} {k : α → Effect ε σ β} {s t : σ} {a : α}
    (h : m.run s = (.ok a, t)) : (m >>= k).run s = (k a).run t := by
  simp only [bind, h]

theorem bind_of_error {m : Effect ε σ α} {k : α → Effect ε σ β} {s t : σ} {e : ε}
    (h : m.run s = (.error e, t)) : (m >>= k).run s = (.error e, t) := by
  simp only [bind, h]

theorem bind_ok {m : Effect ε σ α} {k : α → Effect ε σ β} {s u : σ} {b : β} :
    (m >>= k).run s = (.ok b, u) ↔ ∃ a t, m.run s = (.ok a, t) ∧ (k a).run t = (.ok b, u) := by
  cases h : m.run s with
  | mk r t =>
    cases r with
    | ok a =>
      rw [bind_of_ok h]
      constructor
      · exact fun hk => ⟨a, t, rfl, hk⟩
      · rintro ⟨a, t, heq, hk⟩
        cases heq
        exact hk
    | error e => simp [bind_of_error h]

theorem bind_assoc_run {γ : Type} (m : Effect ε σ α) (k : α → Effect ε σ β) (l : β → Effect ε σ γ)
    (s : σ) : (m >>= k >>= l).run s = (m >>= fun a => k a >>= l).run s := by
  cases h : m.run s with
  | mk r t =>
    cases r with
    | ok a =>
      rw [bind_of_ok h]
      simp only [bind, h]
    | error e => rw [bind_of_error h, bind_of_error (bind_of_error h)]

theorem bind_keeps {P : σ → Prop} {m : Effect ε σ α} {k : α → Effect ε σ β} {s : σ}
    (hm : P (m.run s).2) (hk : ∀ a t, P t → P ((k a).run t).2) : P ((m >>= k).run s).2 := by
  cases h : m.run s with
  | mk r t =>
    rw [h] at hm
    cases r with
    | ok a =>
      rw [bind_of_ok h]
      exact hk a t hm
    | error e =>
      rw [bind_of_error h]
      exact hm

theorem run_fst {m : Effect ε σ α} {s : σ} {r : Except ε α} (h : (m.run s).1 = r) :
    m.run s = (r, (m.run s).2) := Prod.ext h rfl

@[simp] theorem pure_run (a : α) (s : σ) : (pure a : Effect ε σ α).run s = (.ok a, s) := rfl
@[simp] theorem get_run (s : σ) : (get : Effect ε σ σ).run s = (.ok s, s) := rfl
@[simp] theorem modify_run (f : σ → σ) (s : σ) :
    (modify f : Effect ε σ Unit).run s = (.ok (), f s) := rfl
@[simp] theorem raise_run (e : ε) (s : σ) : (raise e : Effect ε σ α).run s = (.error e, s) := rfl
@[simp] theorem lift_run (x : Except ε α) (s : σ) : (lift x : Effect ε σ α).run s = (x, s) := rfl

@[simp] theorem pure_bind (a : α) (k : α → Effect ε σ β) (s : σ) :
    (pure a >>= k).run s = (k a).run s := rfl
@[simp] theorem get_bind (k : σ → Effect ε σ β) (s : σ) : (get >>= k).run s = (k s).run s := rfl
@[simp] theorem modify_bind (f : σ → σ) (k : Unit → Effect ε σ β) (s : σ) :
    (modify f >>= k).run s = (k ()).run (f s) := rfl
@[simp] theorem raise_bind (e : ε) (k : α → Effect ε σ β) (s : σ) :
    ((raise e : Effect ε σ α) >>= k).run s = (.error e, s) := rfl
@[simp] theorem lift_ok_bind (a : α) (k : α → Effect ε σ β) (s : σ) :
    (lift (.ok a) >>= k).run s = (k a).run s := rfl
@[simp] theorem lift_error_bind (e : ε) (k : α → Effect ε σ β) (s : σ) :
    ((lift (.error e) : Effect ε σ α) >>= k).run s = (.error e, s) := rfl

theorem ite_run (p : Prop) [Decidable p] (m n : Effect ε σ α) (s : σ) :
    (if p then m else n).run s = if p then m.run s else n.run s := by
  split <;> rfl

section
variable {A : ε → Prop}

-- From every state, an error is one of `A`.
def Stops (A : ε → Prop) (m : Effect ε σ α) : Prop := ∀ s e, (m.run s).1 = .error e → A e

namespace Stops

variable {m n : Effect ε σ α}

theorem pure (a : α) : Stops A (Pure.pure a : Effect ε σ α) := fun _ _ h => by cases h

theorem get : Stops A (Effect.get : Effect ε σ σ) := fun _ _ h => by cases h

theorem modify (f : σ → σ) : Stops A (Effect.modify f : Effect ε σ Unit) := fun _ _ h => by cases h

theorem raise {e : ε} (h : A e) : Stops A (Effect.raise e : Effect ε σ α) := by
  intro s e' he
  cases he
  exact h

theorem lift {x : Except ε α} (h : ∀ e, x = .error e → A e) : Stops A (Effect.lift x : Effect ε σ α) :=
  fun _ e he => h e he

theorem bind_of {k : α → Effect ε σ β} (P : α → Prop) (hm : Stops A m)
    (hP : ∀ s a t, m.run s = (.ok a, t) → P a) (hk : ∀ a, P a → Stops A (k a)) :
    Stops A (m >>= k) := by
  intro s e he
  cases hrun : m.run s with
  | mk r t =>
    cases r with
    | ok a =>
      rw [bind_of_ok hrun] at he
      exact hk a (hP s a t hrun) t e he
    | error e' =>
      rw [bind_of_error hrun] at he
      cases he
      apply hm s
      rw [hrun]

theorem bind {k : α → Effect ε σ β} (hm : Stops A m) (hk : ∀ a, Stops A (k a)) :
    Stops A (m >>= k) :=
  bind_of (fun _ => True) hm (fun _ _ _ _ => trivial) fun a _ => hk a

theorem ite {p : Prop} [Decidable p] (hm : p → Stops A m) (hn : ¬ p → Stops A n) :
    Stops A (if p then m else n) := by
  by_cases hp : p
  · rw [if_pos hp]
    exact hm hp
  · rw [if_neg hp]
    exact hn hp

end Stops

end

section
variable {I : σ → Prop}

-- From every state of `I`, with one result and an end in `I` again.
def Gives (I : σ → Prop) (m : Effect ε σ α) (r : Except ε α) : Prop :=
  ∀ s, I s → ∃ t, m.run s = (r, t) ∧ I t

namespace Gives

variable {m : Effect ε σ α} {r : Except ε α}

theorem pure (a : α) : Gives I (Pure.pure a : Effect ε σ α) (.ok a) := fun s hs => ⟨s, rfl, hs⟩

theorem raise (e : ε) : Gives I (Effect.raise e : Effect ε σ α) (.error e) :=
  fun s hs => ⟨s, rfl, hs⟩

theorem lift (x : Except ε α) : Gives I (Effect.lift x) x := fun s hs => ⟨s, rfl, hs⟩

theorem bind {k : α → Effect ε σ β} {f : α → Except ε β} (hm : Gives I m r)
    (hk : ∀ a, Gives I (k a) (f a)) : Gives I (m >>= k) (r >>= f) := by
  intro s hs
  obtain ⟨t, hrun, ht⟩ := hm s hs
  cases r with
  | ok a =>
    obtain ⟨u, hrun', hu⟩ := hk a t ht
    exact ⟨u, (bind_of_ok hrun).trans hrun', hu⟩
  | error e => exact ⟨t, bind_of_error hrun, ht⟩

theorem bind_ok {k : α → Effect ε σ β} {a : α} {r : Except ε β} (hm : Gives I m (.ok a))
    (hk : Gives I (k a) r) : Gives I (m >>= k) r := by
  intro s hs
  obtain ⟨t, hrun, ht⟩ := hm s hs
  obtain ⟨u, hrun', hu⟩ := hk t ht
  exact ⟨u, (bind_of_ok hrun).trans hrun', hu⟩

theorem bind_error {k : α → Effect ε σ β} {e : ε} (hm : Gives I m (.error e)) :
    Gives I (m >>= k) (.error e) := by
  intro s hs
  obtain ⟨t, hrun, ht⟩ := hm s hs
  exact ⟨t, Effect.bind_of_error hrun, ht⟩

end Gives

end

end Effect
