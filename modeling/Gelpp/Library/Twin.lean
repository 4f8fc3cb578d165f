import Gelpp.Library.Effect

namespace Effect

variable {ε σ τ α β : Type}

-- Two runs with the same result. `E` relates the states that an error leaves, `Q` the other ones.
def Twin (E : σ → σ → Prop) (Q : α → σ → σ → Prop) (x y : Except ε α × σ) : Prop :=
  match x.1 with
  | .ok a => y.1 = .ok a ∧ Q a x.2 y.2
  | .error e => y.1 = .error e ∧ E x.2 y.2

namespace Twin

variable {E : σ → σ → Prop} {Q R : α → σ → σ → Prop} {P : β → σ → σ → Prop} {s t : σ}

theorem ok {a : α} (h : Q a s t) : Twin (ε := ε) E Q (.ok a, s) (.ok a, t) := ⟨rfl, h⟩

theorem error {e : ε} (h : E s t) : Twin E Q (.error e, s) (.error e, t) := ⟨rfl, h⟩

theorem result {x y : Except ε α × σ} (h : Twin E Q x y) : x.1 = y.1 := by
  obtain ⟨r, s⟩ := x
  cases r with
  | ok a => exact h.1.symm
  | error e => exact h.1.symm

theorem states {x y : Except ε α × σ} (h : Twin E Q x y) (hQ : ∀ a s t, Q a s t → E s t) :
    E x.2 y.2 := by
  obtain ⟨r, s⟩ := x
  cases r with
  | ok a => exact hQ a _ _ h.2
  | error e => exact h.2

theorem mono {E' : σ → σ → Prop} {x y : Except ε α × σ} (h : Twin E Q x y)
    (hE : ∀ s t, E s t → E' s t) (hQ : ∀ a s t, Q a s t → R a s t) : Twin E' R x y := by
  obtain ⟨r, s⟩ := x
  cases r with
  | ok a => exact ⟨h.1, hQ a _ _ h.2⟩
  | error e => exact ⟨h.1, hE _ _ h.2⟩

theorem bind {m n : Effect ε σ α} {k l : α → Effect ε σ β}
    (h : Twin E Q (m.run s) (n.run t))
    (hk : ∀ a s' t', Q a s' t' → Twin E P ((k a).run s') ((l a).run t')) :
    Twin E P ((m >>= k).run s) ((n >>= l).run t) := by
  cases hm : m.run s with
  | mk x s' =>
    cases hn : n.run t with
    | mk y t' =>
      rw [hm, hn] at h
      cases x with
      | ok a =>
        obtain ⟨hy, hQ⟩ := h
        obtain rfl : y = .ok a := hy
        rw [bind_of_ok hm, bind_of_ok hn]
        exact hk a s' t' hQ
      | error e =>
        obtain ⟨hy, hE⟩ := h
        obtain rfl : y = .error e := hy
        rw [bind_of_error hm, bind_of_error hn]
        exact error hE

theorem lift {x : Except ε α} (hQ : ∀ a, x = .ok a → Q a s t) (hE : E s t) :
    Twin E Q ((Effect.lift x).run s) ((Effect.lift x).run t) := by
  cases x with
  | ok a => exact ok (hQ a rfl)
  | error e => exact error hE

theorem ite {p : Prop} [Decidable p] {m m' n n' : Effect ε σ α}
    (h : p → Twin E Q (m.run s) (n.run t)) (h' : ¬ p → Twin E Q (m'.run s) (n'.run t)) :
    Twin E Q ((if p then m else m').run s) ((if p then n else n').run t) := by
  by_cases hp : p
  · rw [if_pos hp, if_pos hp]
    exact h hp
  · rw [if_neg hp, if_neg hp]
    exact h' hp

-- The two loops may go over different lists of the same length.
theorem forM {τ' : Type} (I : σ → σ → Prop) {S : τ → τ' → Prop} {body : τ → Effect ε σ PUnit}
    {body' : τ' → Effect ε σ PUnit}
    (hbody : ∀ a b s t, S a b → I s t → Twin E (fun _ => I) ((body a).run s) ((body' b).run t))
    {l : List τ} {l' : List τ'} (hl : List.Forall₂ S l l') (h : I s t) :
    Twin E (fun _ => I) ((l.forM body).run s) ((l'.forM body').run t) := by
  induction hl generalizing s t with
  | nil => exact ok h
  | cons hab _ ih => exact bind (hbody _ _ _ _ hab h) fun _ _ _ h' => ih h'

end Twin

end Effect
