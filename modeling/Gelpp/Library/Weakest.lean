import Gelpp.Library.Effect

namespace Effect

variable {ε σ α β : Type}

-- What has to hold before `m` for it to end with a result of `P` or with an error of `A`.
def Wp (A : ε → Prop) (m : Effect ε σ α) (P : α → σ → Prop) (s : σ) : Prop :=
  match m.run s with
  | (.ok a, t) => P a t
  | (.error e, _) => A e

namespace Wp

variable {A : ε → Prop} {m n : Effect ε σ α} {P Q : α → σ → Prop} {s t : σ}

theorem of_run (h : m.run s = n.run t) : Wp A m P s ↔ Wp A n P t := by rw [Wp, Wp, h]

theorem of_ok {a : α} (h : m.run s = (.ok a, t)) : Wp A m P s ↔ P a t := by rw [Wp, h]

theorem of_error {e : ε} (h : m.run s = (.error e, t)) : Wp A m P s ↔ A e := by rw [Wp, h]

theorem congr (h : ∀ a t, P a t ↔ Q a t) : Wp A m P s ↔ Wp A m Q s := by
  unfold Wp
  split
  · exact h _ _
  · rfl

theorem mono (h : Wp A m P s) (hPQ : ∀ a t, P a t → Q a t) : Wp A m Q s := by
  unfold Wp at h ⊢
  split at h
  · exact hPQ _ _ h
  · exact h

theorem never (h : Wp (¬ A ·) m P s) : ¬ Wp A m (fun _ _ => False) s := by
  unfold Wp at h ⊢
  split at h
  · exact id
  · exact h

theorem bind {k : α → Effect ε σ β} {R : β → σ → Prop} :
    Wp A (m >>= k) R s ↔ Wp A m (fun a => Wp A (k a) R) s := by
  cases h : m.run s with
  | mk r t =>
    cases r with
    | ok a => rw [of_run (bind_of_ok h), of_ok h]
    | error e => rw [of_error (bind_of_error h), of_error h]

@[simp] theorem pure {a : α} : Wp A (Pure.pure a) P s ↔ P a s := Iff.rfl

@[simp] theorem get {P : σ → σ → Prop} : Wp A Effect.get P s ↔ P s s := Iff.rfl

@[simp] theorem modify {f : σ → σ} {P : Unit → σ → Prop} :
    Wp A (Effect.modify f) P s ↔ P () (f s) := Iff.rfl

@[simp] theorem raise {e : ε} : Wp A (Effect.raise e) P s ↔ A e := Iff.rfl

theorem lift {x : Except ε α} (hx : ∀ e, x = .error e → ¬ A e) :
    Wp A (Effect.lift x) P s ↔ ∃ a, x = .ok a ∧ P a s := by
  cases x with
  | ok a =>
    rw [of_ok (lift_run (.ok a) s)]
    simp
  | error e =>
    rw [of_error (lift_run (.error e) s)]
    simp [hx e rfl]

theorem lift_cases {x : Except ε α} :
    Wp A (Effect.lift x) P s ↔ (∀ e, x = .error e → A e) ∧ ∀ a, x = .ok a → P a s := by
  cases x with
  | ok a =>
    rw [of_ok (lift_run (.ok a) s)]
    simp
  | error e =>
    rw [of_error (lift_run (.error e) s)]
    simp

theorem ite {p : Prop} [Decidable p] :
    Wp A (if p then m else n) P s ↔ if p then Wp A m P s else Wp A n P s := by
  split <;> rfl

end Wp

end Effect
