import Mathlib

namespace Loop

variable {ε σ τ : Type}

def run (stuck : ε) (more : σ → Bool) (body : σ → Except ε σ) : Nat → σ → Except ε σ
  | 0, s => if more s then .error stuck else .ok s
  | n + 1, s => if more s then body s >>= run stuck more body n else .ok s

def times (body : σ → Except ε σ) : Nat → σ → Except ε σ
  | 0, s => .ok s
  | n + 1, s => body s >>= times body n

def Step (more : σ → Bool) (body : σ → Except ε σ) (s t : σ) : Prop :=
  more s = true ∧ body s = .ok t

def Visits (more : σ → Bool) (body : σ → Except ε σ) : σ → σ → Prop :=
  Relation.ReflTransGen (Step more body)

variable {stuck : ε} {more : σ → Bool} {body : σ → Except ε σ}

theorem run_done {n : Nat} {s : σ} (h : more s = false) : run stuck more body n s = .ok s := by
  cases n <;> simp [run, h]

theorem run_ok {n : Nat} {s t : σ} (h : Step more body s t) :
    run stuck more body (n + 1) s = run stuck more body n t := by
  rw [run, if_pos h.1, h.2]
  rfl

theorem run_error {n : Nat} {s : σ} {e : ε} (hm : more s = true) (h : body s = .error e) :
    run stuck more body (n + 1) s = .error e := by
  rw [run, if_pos hm, h]
  rfl

theorem visits_of_run {n : Nat} {s t : σ} (h : run stuck more body n s = .ok t) :
    Visits more body s t ∧ more t = false := by
  induction n generalizing s with
  | zero =>
    cases hm : more s with
    | true => simp [run, hm] at h
    | false =>
      simp only [run, hm, Bool.false_eq_true, if_false, Except.ok.injEq] at h
      exact ⟨h ▸ .refl, h ▸ hm⟩
  | succ n ih =>
    cases hm : more s with
    | false =>
      simp only [run, hm, Bool.false_eq_true, if_false, Except.ok.injEq] at h
      exact ⟨h ▸ .refl, h ▸ hm⟩
    | true =>
      cases hb : body s with
      | error e => simp [run_error hm hb] at h
      | ok u =>
        rw [run_ok ⟨hm, hb⟩] at h
        exact ⟨.head ⟨hm, hb⟩ (ih h).1, (ih h).2⟩

theorem visits_invariant {I : σ → Prop} (hstep : ∀ s t, I s → Step more body s t → I t)
    {s t : σ} (hs : I s) (h : Visits more body s t) : I t := by
  induction h with
  | refl => exact hs
  | tail _ hst ih => exact hstep _ _ ih hst

theorem run_invariant {I : σ → Prop} (hstep : ∀ s t, I s → Step more body s t → I t)
    {n : Nat} {s t : σ} (hs : I s) (h : run stuck more body n s = .ok t) : I t :=
  visits_invariant hstep hs (visits_of_run h).1

theorem run_error_of_visits {s t : σ} {e : ε} (h : Visits more body s t) (hm : more t = true)
    (hb : body t = .error e) : ∃ n, ∀ k, n ≤ k → run stuck more body k s = .error e := by
  induction h using Relation.ReflTransGen.head_induction_on with
  | refl =>
    refine ⟨1, fun k hk => ?_⟩
    obtain ⟨j, rfl⟩ : ∃ j, k = j + 1 := ⟨k - 1, by omega⟩
    exact run_error hm hb
  | head hst _ ih =>
    obtain ⟨n, hn⟩ := ih
    refine ⟨n + 1, fun k hk => ?_⟩
    obtain ⟨j, rfl⟩ : ∃ j, k = j + 1 := ⟨k - 1, by omega⟩
    rw [run_ok hst]
    exact hn j (by omega)

theorem run_mono {n k : Nat} {s : σ} (hk : n ≤ k)
    (h : run stuck more body n s ≠ .error stuck) :
    run stuck more body k s = run stuck more body n s := by
  induction n generalizing s k with
  | zero =>
    cases hm : more s with
    | true => simp [run, hm] at h
    | false => rw [run_done hm, run_done hm]
  | succ n ih =>
    obtain ⟨j, rfl⟩ : ∃ j, k = j + 1 := ⟨k - 1, by omega⟩
    cases hm : more s with
    | false => rw [run_done hm, run_done hm]
    | true =>
      cases hb : body s with
      | error e => rw [run_error hm hb, run_error hm hb]
      | ok u =>
        rw [run_ok ⟨hm, hb⟩] at h ⊢
        rw [run_ok ⟨hm, hb⟩]
        exact ih (by omega) h

def every (more : σ → Bool) (body : σ → Except ε σ) (p : σ → Bool) : Nat → σ → Bool
  | 0, s => !more s
  | n + 1, s => !more s || p s && match body s with
    | .ok t => every more body p n t
    | .error _ => true

theorem every_next {p : σ → Bool} {n : Nat} {s t : σ} (h : every more body p n s = true)
    (hst : Step more body s t) : ∃ k, every more body p k t = true := by
  cases n with
  | zero => simp [every, hst.1] at h
  | succ n =>
    simp only [every, hst.1, hst.2, Bool.not_true, Bool.false_or, Bool.and_eq_true] at h
    exact ⟨n, h.2⟩

theorem of_every {p : σ → Bool} {n : Nat} {s t : σ} (h : every more body p n s = true)
    (hv : Visits more body s t) (hm : more t = true) : p t = true := by
  induction hv using Relation.ReflTransGen.head_induction_on generalizing n with
  | refl =>
    cases n with
    | zero => simp [every, hm] at h
    | succ n =>
      simp only [every, hm, Bool.not_true, Bool.false_or, Bool.and_eq_true] at h
      exact h.1
  | head hst _ ih =>
    obtain ⟨k, hk⟩ := every_next h hst
    exact ih hk

end Loop
