import Gelpp.Library.Meets

-- Unless `x` stops with an error of `free`, `y` ends like it: with a related value or the same error.
def Echo {ε α β : Type} (free : ε → Prop) (R : α → β → Prop) (x : Except ε α) (y : Except ε β) :
    Prop :=
  match x with
  | .ok a => ∃ b, y = .ok b ∧ R a b
  | .error e => free e ∨ y = .error e

namespace Echo

variable {ε α β γ δ σ τ : Type} {free : ε → Prop} {R : α → β → Prop} {S : γ → δ → Prop}

theorem ok {a : α} {b : β} (h : R a b) : Echo free R (.ok a) (.ok b) := ⟨b, rfl, h⟩

theorem error (e : ε) : Echo free R (.error e) (.error e) := .inr rfl

theorem stopped {e : ε} {y : Except ε β} (h : free e) : Echo free R (.error e) y := .inl h

theorem of_ok {x : Except ε α} {y : Except ε β} {a : α} (h : Echo free R x y) (hx : x = .ok a) :
    ∃ b, y = .ok b ∧ R a b := by
  rw [hx] at h
  exact h

theorem of_ok_right {x : Except ε α} {y : Except ε β} {b : β} (h : Echo free R x y)
    (hx : ∀ e, free e → x ≠ .error e) (hy : y = .ok b) : ∃ a, x = .ok a ∧ R a b := by
  cases x with
  | ok a =>
    obtain ⟨b', hb', hab⟩ := h
    rw [hy, Except.ok.injEq] at hb'
    exact ⟨a, rfl, hb' ▸ hab⟩
  | error e =>
    rcases h with he | he
    · exact absurd rfl (hx e he)
    · rw [hy] at he
      cases he

theorem mono {R' : α → β → Prop} {x : Except ε α} {y : Except ε β} (h : Echo free R x y)
    (hR : ∀ a b, R a b → R' a b) : Echo free R' x y := by
  cases x with
  | ok a =>
    obtain ⟨b, hy, hab⟩ := h
    exact ⟨b, hy, hR a b hab⟩
  | error e => exact h

theorem meets {A : ε → Prop} {P : β → Prop} {x : Except ε α} {y : Except ε β} (h : Echo free R x y)
    (hy : Meets A P y) : Echo free (fun a b => R a b ∧ P b) x y := by
  cases x with
  | ok a =>
    obtain ⟨b, hb, hab⟩ := h
    exact ⟨b, hb, hab, hy.of_ok hb⟩
  | error e => exact h

theorem exact_bind {x : Except ε α} {y : Except ε β} {f : α → Except ε γ} {g : β → Except ε δ}
    (h : Echo free R x y)
    (hfg : ∀ a b, x = .ok a → y = .ok b → R a b → Echo free S (f a) (g b)) :
    Echo free S (x >>= f) (y >>= g) := by
  cases x with
  | ok a =>
    obtain ⟨b, rfl, hab⟩ := h
    exact hfg a b rfl rfl hab
  | error e =>
    rcases h with he | rfl
    · exact .inl he
    · exact .inr rfl

theorem bind {x : Except ε α} {y : Except ε β} {f : α → Except ε γ} {g : β → Except ε δ}
    (h : Echo free R x y) (hfg : ∀ a b, R a b → Echo free S (f a) (g b)) :
    Echo free S (x >>= f) (y >>= g) :=
  h.exact_bind fun a b _ _ hab => hfg a b hab

theorem ite {p q : Prop} [Decidable p] [Decidable q] {x x' : Except ε α} {y y' : Except ε β}
    (hpq : p ↔ q) (h : p → Echo free R x y) (h' : ¬ p → Echo free R x' y') :
    Echo free R (if p then x else x') (if q then y else y') := by
  by_cases hp : p
  · rw [if_pos hp, if_pos (hpq.mp hp)]
    exact h hp
  · rw [if_neg hp, if_neg (mt hpq.mpr hp)]
    exact h' hp

theorem refl {x : Except ε α} : Echo free Eq x x := by
  cases x with
  | ok a => exact ok rfl
  | error e => exact error e

section
variable {I : σ → τ → Prop} {s : σ} {t : τ}

-- In the loops the second program says at which of its states the turns are compared.
theorem times {body : σ → Except ε σ} {body' : τ → Except ε τ} {n : Nat}
    (hbody : ∀ k u v, k < n → Loop.times body' k t = .ok v → I u v →
      Echo free I (body u) (body' v)) (h : I s t) :
    Echo free I (Loop.times body n s) (Loop.times body' n t) := by
  induction n generalizing s t with
  | zero => exact ok h
  | succ n ih =>
    refine (hbody 0 s t (Nat.succ_pos n) rfl h).exact_bind fun u v _ hv huv => ih (fun k x y hk hy => ?_) huv
    refine hbody (k + 1) x y (Nat.succ_lt_succ hk) ?_
    rw [Loop.times, hv]
    exact hy

theorem foldlM {body : σ → γ → Except ε σ} {body' : τ → γ → Except ε τ} {l : List γ}
    (hbody : ∀ pre c post u v, l = pre ++ c :: post → pre.foldlM body' t = .ok v → I u v →
      Echo free I (body u c) (body' v c)) (h : I s t) :
    Echo free I (l.foldlM body s) (l.foldlM body' t) := by
  induction l generalizing s t with
  | nil => exact ok h
  | cons c l ih =>
    rw [List.foldlM_cons, List.foldlM_cons]
    refine (hbody [] c l s t rfl rfl h).exact_bind fun u v _ hv huv => ih (fun pre a post x y hl hy => ?_) huv
    refine hbody (c :: pre) a post x y (by rw [hl, List.cons_append]) ?_
    rw [List.foldlM_cons, hv]
    exact hy

variable {stuck : ε} {more : σ → Bool} {more' : τ → Bool} {body : σ → Except ε σ}
  {body' : τ → Except ε τ}

-- The second loop has at least the fuel of the first one, which is enough for it.
theorem run (rank : σ → Nat) (hmore : ∀ u v, I u v → more u = more' v)
    (hbody : ∀ u v, Loop.Visits more' body' t v → more' v = true → I u v →
      Echo free (fun x y => I x y ∧ rank x < rank u) (body u) (body' v))
    {n n' : Nat} (hn : rank s < n) (hn' : n ≤ n') (h : I s t) :
    Echo free I (Loop.run stuck more body n s) (Loop.run stuck more' body' n' t) := by
  induction n generalizing s t n' with
  | zero => exact absurd hn (Nat.not_lt_zero _)
  | succ n ih =>
    obtain ⟨n', rfl⟩ : ∃ k, n' = k + 1 := ⟨n' - 1, by omega⟩
    refine ite (by rw [hmore s t h]) (fun hm => ?_) fun _ => ok h
    have hm' : more' t = true := hmore s t h ▸ hm
    refine (hbody s t .refl hm' h).exact_bind fun u v _ hv ⟨huv, hrank⟩ => ?_
    exact ih (fun x y hy => hbody x y (.head ⟨hm', hv⟩ hy)) (by omega) (by omega) huv

theorem run_same (hmore : ∀ u v, I u v → more u = more' v)
    (hbody : ∀ u v, Loop.Visits more' body' t v → more' v = true → I u v →
      Echo free I (body u) (body' v)) {n : Nat} (h : I s t) :
    Echo free I (Loop.run stuck more body n s) (Loop.run stuck more' body' n t) := by
  induction n generalizing s t with
  | zero => exact ite (by rw [hmore s t h]) (fun _ => error stuck) fun _ => ok h
  | succ n ih =>
    refine ite (by rw [hmore s t h]) (fun hm => ?_) fun _ => ok h
    have hm' : more' t = true := hmore s t h ▸ hm
    refine (hbody s t .refl hm' h).exact_bind fun u v _ hv huv => ?_
    exact ih (fun x y hy => hbody x y (.head ⟨hm', hv⟩ hy)) huv

end

end Echo
