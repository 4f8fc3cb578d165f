import Mathlib

namespace Steps

variable {α β : Type} [LinearOrder α] {key : β → α}

def Encloses (key : β → α) (xs : List β) (a : α) (i : Nat) : Prop :=
  ∃ x y, xs[i]? = some x ∧ xs[i + 1]? = some y ∧ key x ≤ a ∧ a < key y

theorem encloses_cons {x : β} {xs : List β} {a : α} {i : Nat} (h : Encloses key xs a i) :
    Encloses key (x :: xs) a (i + 1) := by
  obtain ⟨y, z, hy, hz, hle, hlt⟩ := h
  exact ⟨y, z, by simpa using hy, by simpa using hz, hle, hlt⟩

theorem encloses_tail {x : β} {xs : List β} {a : α} {i : Nat}
    (h : Encloses key (x :: xs) a (i + 1)) : Encloses key xs a i := by
  obtain ⟨y, z, hy, hz, hle, hlt⟩ := h
  exact ⟨y, z, by simpa using hy, by simpa using hz, hle, hlt⟩

theorem not_encloses_nil {a : α} {i : Nat} : ¬ Encloses key [] a i := by
  rintro ⟨x, y, hx, -⟩
  simp at hx

theorem exists_encloses {x : β} {xs : List β} {a : α} (hlow : key x ≤ a)
    (hhigh : a < key ((x :: xs).getLast (List.cons_ne_nil x xs))) :
    ∃ i, Encloses key (x :: xs) a i := by
  induction xs generalizing x with
  | nil => exact absurd hhigh (not_lt.mpr hlow)
  | cons y xs ih =>
    rcases lt_or_ge a (key y) with hlt | hle
    · exact ⟨0, x, y, rfl, rfl, hlow, hlt⟩
    · obtain ⟨i, hi⟩ := ih hle (by simpa using hhigh)
      exact ⟨i + 1, encloses_cons hi⟩

theorem ge_head {x : β} {xs : List β} (h : (x :: xs).Pairwise (fun y z => key y ≤ key z)) {i : Nat}
    {y : β} (hy : (x :: xs)[i]? = some y) : key x ≤ key y := by
  cases i with
  | zero =>
    cases hy
    exact le_rfl
  | succ i =>
    have hmem : y ∈ xs := List.mem_of_getElem? (by simpa using hy)
    exact (List.pairwise_cons.mp h).1 y hmem

theorem le_last {xs : List β} (h : xs.Pairwise (fun y z => key y ≤ key z)) (hne : xs ≠ []) {i : Nat}
    {y : β} (hy : xs[i]? = some y) : key y ≤ key (xs.getLast hne) := by
  induction xs generalizing i y with
  | nil => exact absurd rfl hne
  | cons x xs ih =>
    cases xs with
    | nil =>
      cases i with
      | zero =>
        cases hy
        exact le_rfl
      | succ i => simp at hy
    | cons z xs =>
      have htail := (List.pairwise_cons.mp h).2
      cases i with
      | zero =>
        have hxz : key x ≤ key z := (List.pairwise_cons.mp h).1 z (by simp)
        cases hy
        exact hxz.trans (ih htail (List.cons_ne_nil z xs) (List.getElem?_cons_zero (l := xs)))
      | succ i => exact ih htail (List.cons_ne_nil z xs) (by simpa using hy)

theorem Encloses.not_before {xs : List β} {a : α} {i j : Nat}
    (h : xs.Pairwise (fun y z => key y ≤ key z)) (hi : Encloses key xs a i)
    (hj : Encloses key xs a j) : ¬ i < j := by
  obtain ⟨-, y, -, hy, -, hlt⟩ := hi
  obtain ⟨x, -, hx, -, hle, -⟩ := hj
  intro hij
  obtain ⟨hilt, rfl⟩ := List.getElem?_eq_some_iff.mp hy
  obtain ⟨hjlt, rfl⟩ := List.getElem?_eq_some_iff.mp hx
  have hsort : key xs[i + 1] ≤ key xs[j] := by
    rcases Nat.lt_or_ge (i + 1) j with hnext | hnext
    · exact List.pairwise_iff_getElem.mp h (i + 1) j hilt hjlt hnext
    · have heq : i + 1 = j := by omega
      subst heq
      exact le_rfl
  exact absurd (hlt.trans_le (hsort.trans hle)) (lt_irrefl a)

theorem Encloses.unique {xs : List β} {a : α} {i j : Nat}
    (h : xs.Pairwise (fun y z => key y ≤ key z)) (hi : Encloses key xs a i)
    (hj : Encloses key xs a j) : i = j :=
  Nat.le_antisymm (Nat.le_of_not_lt (hj.not_before h hi)) (Nat.le_of_not_lt (hi.not_before h hj))

theorem Encloses.hull {x : β} {xs : List β} {a : α} {i : Nat}
    (h : (x :: xs).Pairwise (fun y z => key y ≤ key z)) (hi : Encloses key (x :: xs) a i) :
    key x ≤ a ∧ a < key ((x :: xs).getLast (List.cons_ne_nil x xs)) := by
  obtain ⟨y, z, hy, hz, hle, hlt⟩ := hi
  exact ⟨(ge_head h hy).trans hle, hlt.trans_le (le_last h _ hz)⟩

end Steps
