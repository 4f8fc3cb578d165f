import Mathlib

structure Block (α : Type) where
  base : Nat
  cells : List α

namespace Block

variable {α : Type}

def Covers (b : Block α) (a : Nat) : Prop := b.base ≤ a ∧ a < b.base + b.cells.length

instance (b : Block α) (a : Nat) : Decidable (b.Covers a) := inferInstanceAs (Decidable (_ ∧ _))

def cell (b : Block α) (a : Nat) : Option α := if b.base ≤ a then b.cells[a - b.base]? else none

-- The first block that covers the address answers.
def read (bs : List (Block α)) (a : Nat) : Option α := bs.findSome? fun b => b.cell a

def pairsFrom (base : Nat) : List α → List (Nat × α)
  | [] => []
  | x :: xs => (base, x) :: pairsFrom (base + 1) xs

def pairs (b : Block α) : List (Nat × α) := pairsFrom b.base b.cells

theorem cell_covered {b : Block α} {a : Nat} (h : b.Covers a) :
    b.cell a = some (b.cells.get ⟨a - b.base, by have := h.1; have := h.2; omega⟩) := by
  rw [cell, if_pos h.1]
  exact List.getElem?_eq_getElem _

theorem cell_uncovered {b : Block α} {a : Nat} (h : ¬ b.Covers a) : b.cell a = none := by
  rw [cell]
  split
  · next hle =>
    apply List.getElem?_eq_none
    by_contra hlt
    exact h ⟨hle, by omega⟩
  · rfl

theorem read_cons (b : Block α) (bs : List (Block α)) (a : Nat) :
    read (b :: bs) a = (b.cell a).or (read bs a) := by
  rw [read, List.findSome?_cons]
  cases b.cell a with
  | none => rfl
  | some x => rfl

theorem lookup_append (l l' : List (Nat × α)) (a : Nat) :
    (l ++ l').lookup a = (l.lookup a).or (l'.lookup a) := by
  induction l with
  | nil => rfl
  | cons x l ih =>
    obtain ⟨k, v⟩ := x
    rw [List.cons_append, List.lookup_cons, List.lookup_cons]
    cases a == k with
    | true => rfl
    | false => exact ih

theorem lookup_pairsFrom (xs : List α) (base a : Nat) :
    (pairsFrom base xs).lookup a = if base ≤ a then xs[a - base]? else none := by
  induction xs generalizing base with
  | nil => simp [pairsFrom]
  | cons x xs ih =>
    rw [pairsFrom, List.lookup_cons]
    rcases Nat.lt_trichotomy a base with hlt | rfl | hgt
    · rw [beq_false_of_ne (by omega), ih, if_neg (by omega), if_neg (by omega)]
    · rw [beq_self_eq_true, if_pos (Nat.le_refl a), Nat.sub_self]
      rfl
    · obtain ⟨k, rfl⟩ : ∃ k, a = base + 1 + k := ⟨a - base - 1, by omega⟩
      rw [beq_false_of_ne (by omega), ih, if_pos (by omega), if_pos (by omega),
        Nat.add_sub_cancel_left, show base + 1 + k - base = k + 1 by omega]
      rfl

theorem lookup_pairs (bs : List (Block α)) (a : Nat) :
    (bs.flatMap pairs).lookup a = read bs a := by
  induction bs with
  | nil => rfl
  | cons b bs ih =>
    rw [List.flatMap_cons, lookup_append, ih, read_cons, pairs, lookup_pairsFrom]
    rfl

theorem read_find (bs : List (Block α)) (a : Nat) :
    read bs a = (bs.find? fun b => decide (b.Covers a)).bind fun b => b.cell a := by
  induction bs with
  | nil => rfl
  | cons b bs ih =>
    rw [read_cons, List.find?_cons]
    by_cases h : b.Covers a
    · rw [decide_eq_true h, cell_covered h]
      exact (cell_covered h).symm
    · rw [decide_eq_false h, cell_uncovered h]
      exact ih

end Block
