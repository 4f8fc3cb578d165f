import Mathlib

namespace Gelpp

inductive Fault where
  | assertion
  | bounds
  | index
  | division
  | overflow
  | shift
  | unset
  deriving DecidableEq, Repr

-- `exception` is a gel::Exception, `fault` an operation C++ leaves undefined or a failed ASSERT,
-- `badAlloc` an allocation that is too large, `outside` a request past a fenced buffer and `steps`
-- the end of the fuel of a loop.
inductive Stop where
  | exception (message : String)
  | fault (kind : Fault)
  | badAlloc
  | outside
  | steps
  deriving DecidableEq, Repr

abbrev Res (α : Type) := Except Stop α

namespace Res

variable {α β : Type}

theorem bind_ok {x : Res α} {f : α → Res β} {b : β} :
    x >>= f = .ok b ↔ ∃ a, x = .ok a ∧ f a = .ok b := by
  cases x <;> simp [bind, Except.bind]

theorem bind_error {x : Res α} {f : α → Res β} {e : Stop} :
    x >>= f = .error e ↔ x = .error e ∨ ∃ a, x = .ok a ∧ f a = .error e := by
  cases x <;> simp [bind, Except.bind]

def stop : Res α → Option Stop
  | .ok _ => none
  | .error e => some e

theorem stop_eq_some {x : Res α} {e : Stop} (h : stop x = some e) : x = .error e := by
  cases x with
  | ok a => cases h
  | error e' =>
    cases h
    rfl

theorem ok_of_map {x : Res α} {f : α → β} {b : β} (h : x.toOption.map f = some b) :
    ∃ a, x = .ok a ∧ f a = b := by
  cases x with
  | error e => cases h
  | ok a => exact ⟨a, rfl, Option.some.inj h⟩

theorem mapM_ok {f : α → Res β} {l : List α} {m : List β}
    (h : List.Forall₂ (fun a b => f a = .ok b) l m) : l.mapM f = .ok m := by
  induction h with
  | nil => rfl
  | cons hb _ ih =>
    rw [List.mapM_cons, hb, ih]
    rfl

@[simp] theorem ok_bind (a : α) (f : α → Res β) : (Except.ok a : Res α) >>= f = f a := rfl

@[simp] theorem error_bind (e : Stop) (f : α → Res β) :
    (Except.error e : Res α) >>= f = .error e := rfl

end Res

def toInt (n : Nat) : Int := (UInt32.ofNat n).toInt32.toInt

namespace InStream

-- InStream::read takes the size and gives its answer as an int, and its source is not here. One
-- assumption stands for it: the int is a count of 32 bits, in what is asked and in what is answered,
-- and no error is answered by the count that was asked.
def count (len : Int) : Nat := (len % 2 ^ 32).toNat

def delivered (bytes : List UInt8) (pos : Nat) (len : Int) : List UInt8 :=
  (bytes.drop pos).take (count len)

def answer (data : List UInt8) : Int := toInt data.length

end InStream

section
variable {n : Nat}

theorem toInt_bmod (n : Nat) : toInt n = Int.bmod n (2 ^ 32) := BitVec.toInt_ofNat' n

theorem toInt_small (h : n < 2 ^ 31) : toInt n = (n : Int) := by
  rw [toInt_bmod, Int.bmod_def]
  omega

theorem toInt_large (h : 2 ^ 31 ≤ n) (h' : n < 2 ^ 32) : toInt n < 0 := by
  rw [toInt_bmod, Int.bmod_def]
  omega

theorem count_toInt (n : Nat) : InStream.count (toInt n) = n % 2 ^ 32 := by
  have hmod : Int.bmod n (2 ^ 32) % 2 ^ 32 = (n : Int) % 2 ^ 32 := Int.bmod_emod
  rw [InStream.count, toInt_bmod, hmod]
  omega

theorem ofInt_toInt (n : Nat) : UInt32.ofInt (toInt n) = .ofNat n := by
  have h : (toInt n % 2 ^ 32).toNat = n % 2 ^ 32 := count_toInt n
  rw [UInt32.ofInt, h]
  exact UInt32.ofNat_mod_size

theorem count_small (h : n < 2 ^ 32) : InStream.count n = n := by
  rw [InStream.count]
  omega

end

end Gelpp
