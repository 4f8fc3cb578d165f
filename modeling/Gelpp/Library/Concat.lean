import Gelpp.Library.Meets

inductive Concat {α β : Type} (E : α → List β → Prop) : List α → List β → Prop
  | nil : Concat E [] []
  | cons {a : α} {l : List α} {bs cs : List β} (head : E a bs) (tail : Concat E l cs) :
      Concat E (a :: l) (bs ++ cs)

namespace Concat

variable {α β ε σ : Type} {E : α → List β → Prop}

theorem mono {F : α → List β → Prop} {l : List α} {bs : List β} (h : Concat E l bs)
    (hF : ∀ a cs, E a cs → F a cs) : Concat F l bs := by
  induction h with
  | nil => exact .nil
  | cons head _ ih => exact .cons (hF _ _ head) ih

theorem sum_le {size : α → Nat} {l : List α} {bs : List β} (h : Concat E l bs)
    (hsize : ∀ a cs, E a cs → size a ≤ cs.length) : (l.map size).sum ≤ bs.length := by
  induction h with
  | nil => simp
  | @cons a l bs cs head _ ih =>
    have hhead := hsize a bs head
    rw [List.map_cons, List.sum_cons, List.length_append]
    omega

theorem length_le {l : List α} {bs : List β} {n : Nat} (h : Concat E l bs)
    (hn : ∀ a ∈ l, ∀ cs, E a cs → n ≤ cs.length) : l.length * n ≤ bs.length := by
  induction h with
  | nil => simp
  | @cons a l bs cs head _ ih =>
    have hhead := hn a (List.mem_cons_self ..) bs head
    have htail := ih fun b hb => hn b (List.mem_cons_of_mem _ hb)
    rw [List.length_cons, List.length_append, Nat.succ_mul]
    omega

theorem mem {l : List α} {bs : List β} (h : Concat E l bs) :
    Concat (fun a cs => a ∈ l ∧ E a cs) l bs := by
  induction h with
  | nil => exact .nil
  | @cons a l bs cs head _ ih =>
    refine .cons ⟨List.mem_cons_self .., head⟩ (ih.mono fun b ds hb => ?_)
    exact ⟨List.mem_cons_of_mem _ hb.1, hb.2⟩

theorem exists_of_mem {l : List α} {bs : List β} (h : Concat E l bs) {a : α} (ha : a ∈ l) :
    ∃ cs, E a cs ∧ cs.length ≤ bs.length := by
  induction h with
  | nil => cases ha
  | @cons b l bs cs head _ ih =>
    rw [List.length_append]
    rcases List.mem_cons.mp ha with rfl | ha
    · exact ⟨bs, head, Nat.le_add_right _ _⟩
    · obtain ⟨ds, hds, hle⟩ := ih ha
      exact ⟨ds, hds, Nat.le_trans hle (Nat.le_add_left _ _)⟩

-- `P k s` holds of the states in which the elements `k` have been read and `rest s` is what follows.
theorem foldlM_meets_prefix {A : ε → Prop} (P : List α → σ → Prop) (rest : σ → List β)
    {f : σ → α → Except ε σ} {l : List α} {bs tail : List β} (h : Concat E l bs) {k : List α}
    (hstep : ∀ k' a m bs s tail, k' ++ a :: m = k ++ l → P k' s → E a bs → rest s = bs ++ tail →
      Meets A (fun t => P (k' ++ [a]) t ∧ rest t = tail) (f s a))
    {s : σ} (hs : P k s) (hrest : rest s = bs ++ tail) :
    Meets A (fun t => P (k ++ l) t ∧ rest t = tail) (l.foldlM f s) := by
  induction h generalizing k s with
  | nil =>
    rw [List.append_nil]
    exact ⟨hs, hrest⟩
  | @cons a l bs cs head _ ih =>
    rw [List.append_assoc] at hrest
    rw [List.foldlM_cons]
    refine (hstep k a l bs s (cs ++ tail) rfl hs head hrest).bind fun t ht => ?_
    have hall : (k ++ [a]) ++ l = k ++ a :: l := by rw [List.append_assoc, List.singleton_append]
    have hrun := ih (k := k ++ [a]) (fun k' b m ds u more hk => hstep k' b m ds u more (hk.trans hall))
      ht.1 ht.2
    rwa [hall] at hrun

theorem foldlM_meets {A : ε → Prop} (P : List α → σ → Prop) (rest : σ → List β)
    {f : σ → α → Except ε σ}
    (hstep : ∀ k a bs s tail, P k s → E a bs → rest s = bs ++ tail →
      Meets A (fun t => P (k ++ [a]) t ∧ rest t = tail) (f s a))
    {l : List α} {bs tail : List β} (h : Concat E l bs) {k : List α} {s : σ} (hs : P k s)
    (hrest : rest s = bs ++ tail) :
    Meets A (fun t => P (k ++ l) t ∧ rest t = tail) (l.foldlM f s) :=
  foldlM_meets_prefix P rest h (fun k a _ bs s tail _ => hstep k a bs s tail) hs hrest

end Concat

theorem Loop.times_eq_foldlM {α ε σ : Type} (body : σ → Except ε σ) (l : List α) (s : σ) :
    Loop.times body l.length s = l.foldlM (fun t _ => body t) s := by
  induction l generalizing s with
  | nil => rfl
  | cons a l ih =>
    rw [List.length_cons, Loop.times, List.foldlM_cons]
    congr 1
    funext t
    exact ih t
