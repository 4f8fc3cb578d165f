import Gelpp.Library.Loop

def Meets {ε α : Type} (A : ε → Prop) (P : α → Prop) : Except ε α → Prop
  | .ok a => P a
  | .error e => A e

namespace Meets

variable {ε α β σ : Type} {A B : ε → Prop} {P Q : α → Prop} {R : β → Prop}

theorem ok {a : α} (h : P a) : Meets A P (.ok a) := h

theorem error {e : ε} (h : A e) : Meets A P (.error e : Except ε α) := h

theorem of_ok {x : Except ε α} {a : α} (h : Meets A P x) (hx : x = .ok a) : P a := by
  rw [hx] at h
  exact h

theorem of_error {x : Except ε α} {e : ε} (h : Meets A P x) (hx : x = .error e) : A e := by
  rw [hx] at h
  exact h

theorem ok_of_never {x : Except ε α} (h : Meets (fun _ => False) P x) : ∃ a, x = .ok a ∧ P a := by
  cases x with
  | ok a => exact ⟨a, rfl, h⟩
  | error e => exact h.elim

theorem mono {x : Except ε α} (h : Meets A P x) (hA : ∀ e, A e → B e) (hP : ∀ a, P a → Q a) :
    Meets B Q x := by
  cases x with
  | ok a => exact hP a h
  | error e => exact hA e h

theorem post {x : Except ε α} (h : Meets A P x) (hP : ∀ a, P a → Q a) : Meets A Q x :=
  h.mono (fun _ he => he) hP

theorem exact_post {x : Except ε α} (h : Meets A P x) (hP : ∀ a, x = .ok a → P a → Q a) :
    Meets A Q x := by
  cases x with
  | ok a => exact hP a rfl h
  | error e => exact h

theorem bind {x : Except ε α} {f : α → Except ε β} (hx : Meets A P x)
    (hf : ∀ a, P a → Meets A R (f a)) : Meets A R (x >>= f) := by
  cases x with
  | ok a => exact hf a hx
  | error e => exact hx

theorem exact_bind {x : Except ε α} {f : α → Except ε β} (hx : Meets A P x)
    (hf : ∀ a, x = .ok a → P a → Meets A R (f a)) : Meets A R (x >>= f) := by
  cases x with
  | ok a => exact hf a rfl hx
  | error e => exact hx

theorem ite {p : Prop} [Decidable p] {x y : Except ε α} (hx : p → Meets A P x)
    (hy : ¬ p → Meets A P y) : Meets A P (if p then x else y) := by
  by_cases h : p
  · rw [if_pos h]
    exact hx h
  · rw [if_neg h]
    exact hy h

theorem times (I : σ → Prop) {body : σ → Except ε σ} (hbody : ∀ s, I s → Meets A I (body s))
    {n : Nat} {s : σ} (hs : I s) : Meets A I (Loop.times body n s) := by
  induction n generalizing s with
  | zero => exact hs
  | succ n ih => exact (hbody s hs).bind fun _ ht => ih ht

theorem times_at (I : σ → Prop) {body : σ → Except ε σ} {n : Nat} {s : σ}
    (hbody : ∀ k t, k < n → Loop.times body k s = .ok t → I t → Meets A I (body t)) (hs : I s) :
    Meets A I (Loop.times body n s) := by
  induction n generalizing s with
  | zero => exact hs
  | succ n ih =>
    refine (hbody 0 s (Nat.succ_pos n) rfl hs).exact_bind fun t hst ht => ih (fun k u hk hu => ?_) ht
    refine hbody (k + 1) u (Nat.succ_lt_succ hk) ?_
    rw [Loop.times, hst]
    exact hu

theorem foldlM {τ : Type} (I : σ → Prop) {body : σ → τ → Except ε σ}
    (hbody : ∀ s a, I s → Meets A I (body s a)) {l : List τ} {s : σ} (hs : I s) :
    Meets A I (l.foldlM body s) := by
  induction l generalizing s with
  | nil => exact hs
  | cons a l ih =>
    rw [List.foldlM_cons]
    exact (hbody s a hs).bind fun _ ht => ih ht

theorem foldlM_at {τ : Type} (I : σ → Prop) {body : σ → τ → Except ε σ} {l : List τ} {s : σ}
    (hbody : ∀ pre a post t, l = pre ++ a :: post → pre.foldlM body s = .ok t → I t →
      Meets A I (body t a)) (hs : I s) : Meets A I (l.foldlM body s) := by
  induction l generalizing s with
  | nil => exact hs
  | cons a l ih =>
    rw [List.foldlM_cons]
    refine (hbody [] a l s rfl rfl hs).exact_bind fun t hst ht => ih (fun pre b post u hl hu => ?_) ht
    refine hbody (a :: pre) b post u (by rw [hl, List.cons_append]) ?_
    rw [List.foldlM_cons, hst]
    exact hu

section
variable {stuck : ε} {more : σ → Bool} {body : σ → Except ε σ}

-- The invariant is kept by every turn. The rank falls while the loop goes on, unless the loop is
-- allowed to run out of fuel.
theorem run_or (I : σ → Prop) (rank : σ → Nat) {s : σ}
    (hbody : ∀ t, Loop.Visits more body s t → more t = true → I t →
      Meets A (fun u => I u ∧ (more u = true → A stuck ∨ rank u < rank t)) (body t))
    {n : Nat} (hs : I s) (hn : more s = true → A stuck ∨ rank s < n) :
    Meets A (fun u => I u ∧ more u = false ∧ Loop.Visits more body s u)
      (Loop.run stuck more body n s) := by
  induction n generalizing s with
  | zero =>
    cases hm : more s with
    | true =>
      have hstuck : A stuck := (hn hm).resolve_right (Nat.not_lt_zero _)
      simpa [Loop.run, hm] using error (P := _) hstuck
    | false =>
      rw [Loop.run_done hm]
      exact ⟨hs, hm, .refl⟩
  | succ n ih =>
    cases hm : more s with
    | false =>
      rw [Loop.run_done hm]
      exact ⟨hs, hm, .refl⟩
    | true =>
      have hturn := hbody s .refl hm hs
      cases hb : body s with
      | error e =>
        rw [Loop.run_error hm hb]
        exact hturn.of_error hb
      | ok u =>
        have hstep : Loop.Step more body s u := ⟨hm, hb⟩
        obtain ⟨hu, hrank⟩ := hturn.of_ok hb
        rw [Loop.run_ok hstep]
        refine (ih (fun t ht => hbody t (.head hstep ht)) hu fun hmu => ?_).post ?_
        · rcases hrank hmu with h | h
          · exact .inl h
          · exact (hn hm).imp id fun h' => by omega
        · rintro v ⟨hv, hmv, hvisit⟩
          exact ⟨hv, hmv, .head hstep hvisit⟩

theorem run (I : σ → Prop) (rank : σ → Nat) {s : σ}
    (hbody : ∀ t, Loop.Visits more body s t → more t = true → I t →
      Meets A (fun u => I u ∧ (more u = true → rank u < rank t)) (body t))
    {n : Nat} (hs : I s) (hn : more s = true → rank s < n) :
    Meets A (fun u => I u ∧ more u = false ∧ Loop.Visits more body s u)
      (Loop.run stuck more body n s) :=
  run_or I rank
    (fun t hv hm ht => (hbody t hv hm ht).post fun _ hu => ⟨hu.1, fun h => .inr (hu.2 h)⟩) hs
    fun h => .inr (hn h)

theorem run_stuck (I : σ → Prop) (hstuck : A stuck) {s : σ}
    (hbody : ∀ t, Loop.Visits more body s t → more t = true → I t → Meets A I (body t))
    {n : Nat} (hs : I s) :
    Meets A (fun u => I u ∧ more u = false ∧ Loop.Visits more body s u)
      (Loop.run stuck more body n s) :=
  run_or I (fun _ => 0)
    (fun t hv hm ht => (hbody t hv hm ht).post fun _ hu => ⟨hu, fun _ => .inl hstuck⟩) hs
    fun _ => .inl hstuck

end

end Meets
