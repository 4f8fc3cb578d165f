import Gelpp.Library.Effect

namespace Effect

structure Printing (σ ρ : Type) where
  state : σ
  out : List ρ := []

variable {ε σ ρ α β : Type}

def onState (m : Effect ε σ α) : Effect ε (Printing σ ρ) α :=
  ⟨fun s => ((m.run s.state).1, { s with state := (m.run s.state).2 })⟩

theorem onState_run (m : Effect ε σ α) (s : Printing σ ρ) :
    (onState m).run s = ((m.run s.state).1, { s with state := (m.run s.state).2 }) := rfl

def print (r : ρ) : Effect ε (Printing σ ρ) Unit := modify fun s => { s with out := s.out ++ [r] }

def within {τ : Type} (t : τ) (m : Effect ε (Printing τ ρ) α) : Effect ε (Printing σ ρ) α :=
  ⟨fun s => ((m.run { state := t, out := s.out }).1,
    { s with out := (m.run { state := t, out := s.out }).2.out })⟩

theorem forM_map (l : List α) (g : α → β) (f : β → Effect ε σ Unit) :
    (l.map g).forM f = l.forM fun a => f (g a) := by
  induction l with
  | nil => rfl
  | cons a l ih => exact congrArg (fun m => f (g a) >>= fun _ => m) ih

-- From every state of `I`, with one result, the same rows and an end in `I` again.
def Prints (I : σ → Prop) (m : Effect ε (Printing σ ρ) α) (rows : List ρ) (r : Except ε α) : Prop :=
  ∀ s, I s.state → ∃ t, m.run s = (r, { state := t, out := s.out ++ rows }) ∧ I t

namespace Prints

variable {I : σ → Prop} {m : Effect ε (Printing σ ρ) α} {rows rows' : List ρ} {r : Except ε α}

theorem pure (a : α) : Prints I (Pure.pure a : Effect ε (Printing σ ρ) α) [] (.ok a) := by
  intro s hs
  refine ⟨s.state, ?_, hs⟩
  rw [List.append_nil]
  rfl

theorem raise (e : ε) : Prints I (Effect.raise e : Effect ε (Printing σ ρ) α) [] (.error e) := by
  intro s hs
  refine ⟨s.state, ?_, hs⟩
  rw [List.append_nil]
  rfl

theorem print (x : ρ) : Prints I (Effect.print x : Effect ε (Printing σ ρ) Unit) [x] (.ok ()) :=
  fun s hs => ⟨s.state, rfl, hs⟩

theorem onState {m : Effect ε σ α} (h : Gives I m r) :
    Prints I (Effect.onState m : Effect ε (Printing σ ρ) α) [] r := by
  intro s hs
  obtain ⟨t, hrun, ht⟩ := h s.state hs
  refine ⟨t, ?_, ht⟩
  rw [onState_run, hrun, List.append_nil]

theorem within {τ : Type} {J : τ → Prop} {m : Effect ε (Printing τ ρ) α} {t : τ} (ht : J t)
    (h : Prints J m rows r) : Prints I (Effect.within t m) rows r := by
  intro s hs
  obtain ⟨u, hrun, -⟩ := h { state := t, out := s.out } ht
  refine ⟨s.state, ?_, hs⟩
  rw [Effect.within]
  dsimp only
  rw [hrun]

theorem bind_ok {k : α → Effect ε (Printing σ ρ) β} {a : α} {r : Except ε β}
    (hm : Prints I m rows (.ok a)) (hk : Prints I (k a) rows' r) :
    Prints I (m >>= k) (rows ++ rows') r := by
  intro s hs
  obtain ⟨t, hrun, ht⟩ := hm s hs
  obtain ⟨u, hrun', hu⟩ := hk { state := t, out := s.out ++ rows } ht
  refine ⟨u, ?_, hu⟩
  rw [bind_of_ok hrun, hrun', List.append_assoc]

theorem returns {a : α} (hm : Prints I m rows (.ok a)) (g : α → β) :
    Prints I (m >>= fun a => Pure.pure (g a)) rows (.ok (g a)) := by
  have hends := hm.bind_ok (k := fun a => Pure.pure (g a)) (pure (g a))
  rwa [List.append_nil] at hends

theorem lift_bind {k : α → Effect ε (Printing σ ρ) β} {a : α} {r : Except ε β} (hk : Prints I (k a) rows r) :
    Prints I (Effect.lift (.ok a) >>= k) rows r := hk

theorem bind_error {k : α → Effect ε (Printing σ ρ) β} {e : ε} (hm : Prints I m rows (.error e)) :
    Prints I (m >>= k) rows (.error e) := by
  intro s hs
  obtain ⟨t, hrun, ht⟩ := hm s hs
  exact ⟨t, bind_of_error hrun, ht⟩

theorem read {m : Effect ε σ α} {k : α → Effect ε (Printing σ ρ) β} {a : α} {r : Except ε β}
    (hm : Gives I m (.ok a)) (hk : Prints I (k a) rows r) :
    Prints I (Effect.onState m >>= k) rows r := (onState hm).bind_ok hk

theorem enter {J : σ → Prop} {m : Effect ε σ α} {k : α → Effect ε (Printing σ ρ) β} {a : α} {r : Except ε β}
    (hm : ∀ s, I s → ∃ t, m.run s = (.ok a, t) ∧ J t) (hk : Prints J (k a) rows r)
    (hback : ∀ s, J s → I s) : Prints I (Effect.onState m >>= k) rows r := by
  intro s hs
  obtain ⟨t, hrun, ht⟩ := hm s.state hs
  obtain ⟨u, hrun', hu⟩ := hk { s with state := t } ht
  have hstate : (Effect.onState m).run s = (.ok a, ({ s with state := t } : Printing σ ρ)) := by
    rw [onState_run, hrun]
  exact ⟨u, (bind_of_ok hstate).trans hrun', hback u hu⟩

theorem read_error {m : Effect ε σ α} {k : α → Effect ε (Printing σ ρ) β} {e : ε}
    (hm : Gives I m (.error e)) : Prints I (Effect.onState m >>= k) [] (.error e) :=
  (onState hm).bind_error

theorem print_bind {k : Unit → Effect ε (Printing σ ρ) β} {r : Except ε β} (x : ρ)
    (hk : Prints I (k ()) rows r) : Prints I (Effect.print x >>= k) (x :: rows) r :=
  (print x).bind_ok hk

theorem forM₂ {l : List α} {m : List β} {f : α → Effect ε (Printing σ ρ) Unit} {g : β → List ρ}
    (h : List.Forall₂ (fun a b => Prints I (f a) (g b) (.ok ())) l m) :
    Prints I (l.forM f) (m.flatMap g) (.ok ()) := by
  induction h with
  | nil => exact pure ()
  | cons ha _ ih => exact ha.bind_ok ih

theorem forM {l : List α} {f : α → Effect ε (Printing σ ρ) Unit} {g : α → List ρ}
    (h : ∀ a ∈ l, Prints I (f a) (g a) (.ok ())) : Prints I (l.forM f) (l.flatMap g) (.ok ()) :=
  forM₂ (List.forall₂_same.mpr h)

theorem forM_flat {γ : Type} {l : List α} {m : List β} {f : α → Effect ε (Printing σ ρ) Unit}
    {es : β → List γ} {g : γ → List ρ} {p : γ → Prop} [DecidablePred p] {e : ε}
    (h : List.Forall₂ (fun a b => Prints I (f a) (((es b).takeWhile p).flatMap g)
      (if ∀ x ∈ es b, p x then .ok () else .error e)) l m) :
    Prints I (l.forM f) (((m.flatMap es).takeWhile p).flatMap g)
      (if ∀ x ∈ m.flatMap es, p x then .ok () else .error e) := by
  induction h with
  | nil =>
    rw [if_pos fun x hx => by cases hx]
    exact pure ()
  | @cons a b l m ha _ ih =>
    rw [List.flatMap_cons]
    by_cases hp : ∀ x ∈ es b, p x
    · have hall : ∀ x ∈ es b, decide (p x) = true := fun x hx => decide_eq_true (hp x hx)
      have hiff : (∀ x ∈ es b ++ m.flatMap es, p x) ↔ ∀ x ∈ m.flatMap es, p x := by
        rw [List.forall_mem_append, and_iff_right hp]
      rw [if_pos hp, List.takeWhile_eq_self_iff.mpr hall] at ha
      rw [List.takeWhile_append_of_pos hall, List.flatMap_append, if_congr hiff rfl rfl]
      exact ha.bind_ok ih
    · have hstop : (es b ++ m.flatMap es).takeWhile p = (es b).takeWhile p := by
        rw [List.takeWhile_append, if_neg fun hlen => hp fun x hx => ?_]
        have hself := (List.takeWhile_prefix _).eq_of_length hlen
        exact of_decide_eq_true (List.takeWhile_eq_self_iff.mp hself x hx)
      rw [if_neg hp] at ha
      rw [hstop, if_neg fun hall => hp fun x hx => hall x (List.mem_append_left _ hx)]
      exact ha.bind_error

theorem forM_until {l : List α} {f : α → Effect ε (Printing σ ρ) Unit} {g : α → List ρ}
    {p : α → Prop} [DecidablePred p] {e : ε} (h : ∀ a ∈ l, p a → Prints I (f a) (g a) (.ok ()))
    (hnot : ∀ a ∈ l, ¬ p a → Prints I (f a) [] (.error e)) :
    Prints I (l.forM f) ((l.takeWhile p).flatMap g) (if ∀ a ∈ l, p a then .ok () else .error e) := by
  have hflat : Prints I (l.forM f) (((l.flatMap fun a => [a]).takeWhile p).flatMap g)
      (if ∀ x ∈ l.flatMap fun a => [a], p x then .ok () else .error e) := by
    refine forM_flat (List.forall₂_same.mpr fun a ha => ?_)
    simp only [List.mem_singleton, forall_eq]
    by_cases hp : p a
    · rw [if_pos hp, List.takeWhile_cons_of_pos (p := fun b => decide (p b)) (decide_eq_true hp)]
      simpa using h a ha hp
    · rw [if_neg hp, List.takeWhile_cons_of_neg (p := fun b => decide (p b)) (by simpa using hp)]
      exact hnot a ha hp
  rwa [List.flatMap_singleton'] at hflat

end Prints

end Effect
