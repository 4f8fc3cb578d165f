import Gelpp.Elf.Memory
import Gelpp.Manager

namespace Gelpp.ImageCommand

inductive Token where
  | block (name : String) (base : UInt64) (size : Nat) (writable executable : Bool)
  | address (a : UInt64)
  | byte (b : UInt8)
  | gap
  deriving DecidableEq, Repr

def displayBytes (a : UInt64) : Nat → Nat → List UInt8 → List Token
  | _, _, [] => []
  | p, off, b :: bs =>
    if p < 15 then .byte b :: displayBytes a (p + 1) (off + 1) bs
    else .address (a + .ofNat off) :: .byte b :: displayBytes a 0 (off + 1) bs

def displaySegment (noContent : Bool) (s : ImageSegment) : List Token :=
  .block s.name s.base s.size s.isWritable s.isExecutable ::
    (if noContent then [] else displayBytes s.base 15 0 s.buf) ++ [.gap]

def display (noContent : Bool) (im : Image) : List Token := im.segs.flatMap (displaySegment noContent)

section
variable {γ : Type}

-- The image of a PE-COFF file is a null pointer.
def makeImage (junk : Nat → UInt8) (coffi : γ → Res Image) : Manager.Opened γ → Res Image
  | .elf f => ((Elf.FileM.make junk).run f).1
  | .coffi f => coffi f
  | .pecoff _ => .error (.fault .bounds)

def run (noContent : Bool) (image : String → Res Image) : List String → List Token × Res Nat
  | [] => ([], .ok 0)
  | arg :: args =>
    match image arg with
    | .ok im => (display noContent im ++ (run noContent image args).1, (run noContent image args).2)
    | .error (.exception _) => ([], .ok 1)
    | .error e => ([], .error e)

end

def readBack : Option UInt64 → List Token → List (UInt64 × UInt8)
  | _, [] => []
  | _, .address a :: ts => readBack (some a) ts
  | some a, .byte b :: ts => (a, b) :: readBack (some (a + 1)) ts
  | none, .byte _ :: ts => readBack none ts
  | _, .block .. :: ts => readBack none ts
  | _, .gap :: ts => readBack none ts

def placedFrom (a : UInt64) : Nat → List UInt8 → List (UInt64 × UInt8)
  | _, [] => []
  | off, b :: bs => (a + .ofNat off, b) :: placedFrom a (off + 1) bs

section
variable {a : UInt64} {im : Image} {image : String → Res Image}

theorem next_address (a : UInt64) (off : Nat) : a + .ofNat off + 1 = a + .ofNat (off + 1) := by
  rw [UInt64.ofNat_add, UInt64.add_assoc]
  rfl

theorem readBack_bytes (a : UInt64) (ts : List Token) (bs : List UInt8) (p off : Nat) (cur : Option UInt64)
    (hcur : p < 15 → cur = some (a + .ofNat off)) :
    readBack cur (displayBytes a p off bs ++ .gap :: ts) = placedFrom a off bs ++ readBack none ts := by
  induction bs generalizing p off cur with
  | nil => cases cur <;> rfl
  | cons b bs ih =>
    rw [displayBytes]
    by_cases hp : p < 15
    · rw [if_pos hp, hcur hp, List.cons_append, readBack, next_address,
        ih (p + 1) (off + 1) _ fun _ => rfl]
      rfl
    · rw [if_neg hp, List.cons_append, List.cons_append]
      have haddress : ∀ ts, readBack cur (.address (a + .ofNat off) :: .byte b :: ts) =
          (a + .ofNat off, b) :: readBack (some (a + .ofNat (off + 1))) ts := by
        intro ts
        rw [← next_address]
        cases cur <;> rfl
      rw [haddress, ih 0 (off + 1) _ fun _ => rfl]
      rfl

theorem readBack_display (segs : List ImageSegment) :
    readBack none (segs.flatMap (displaySegment false)) =
      segs.flatMap fun s => placedFrom s.base 0 s.buf := by
  induction segs with
  | nil => rfl
  | cons s segs ih =>
    rw [List.flatMap_cons, List.flatMap_cons, displaySegment, if_neg Bool.false_ne_true,
      List.cons_append, List.cons_append, List.append_assoc, readBack]
    rw [List.singleton_append, readBack_bytes _ _ _ _ _ _ (by omega), ih]

theorem placedFrom_pairs {base size : Nat} (h : Region base size) (ha : a.toNat = base) (off : Nat)
    (bs : List UInt8) (hsize : off + bs.length = size) :
    (placedFrom a off bs).map (fun x => (x.1.toNat, x.2)) = Block.pairsFrom (base + off) bs := by
  induction bs generalizing off with
  | nil => rfl
  | cons b bs ih =>
    rw [List.length_cons] at hsize
    have hends := h.ends
    have hlt : off < 2 ^ 64 := by omega
    have hoff : (UInt64.ofNat off).toNat = off := UInt64.toNat_ofNat_of_lt hlt
    have haddress : (a + .ofNat off).toNat = base + off := by
      rw [UInt64.toNat_add, ha, hoff, Nat.mod_eq_of_lt (by omega)]
    rw [placedFrom, List.map_cons, haddress, ih (off + 1) (by omega)]
    rfl

def memoryOf (ts : List Token) (a : Nat) : Option UInt8 :=
  ((readBack none ts).map fun x => (x.1.toNat, x.2)).lookup a

theorem display_memory (h : ∀ s ∈ im.segs, Region s.base.toNat s.size) (a : Nat) :
    memoryOf (display false im) a = Block.read im.blocks a := by
  rw [memoryOf, display, readBack_display, ← Block.lookup_pairs, List.map_flatMap, Image.blocks,
    List.flatMap_map]
  congr 1
  refine List.flatMap_congr fun s hs => ?_
  exact placedFrom_pairs (h s hs) rfl 0 s.buf (Nat.zero_add _)

end

section
variable {γ : Type} {p : Manager.Platform} {coffi : Option (Res γ)} {imageOf : γ → Res Image}
  {disk : String → Except String Pecoff.Stream}

def imageFrom (p : Manager.Platform) (coffi : Option (Res γ)) (imageOf : γ → Res Image)
    (disk : String → Except String Pecoff.Stream) (arg : String) : Res Image := do
  makeImage p.junk imageOf (← Manager.openFile p coffi arg (disk arg))

structure Program (p : Manager.Platform) (coffi : Option (Res γ))
    (disk : String → Except String Pecoff.Stream) (arg : String) (m : Nat → Option UInt8) : Prop where
  opened : ∃ s f, disk arg = .ok s ∧ s.Calm ∧ s.pos = 0 ∧
    Manager.openFile p coffi arg (.ok s) = .ok (.elf f) ∧
    ∃ x : Elf.Executable f.source, x.Inside ∧ x.memory = m

end

end Gelpp.ImageCommand
