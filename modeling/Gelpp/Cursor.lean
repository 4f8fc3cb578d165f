import Gelpp.Outcome
import Gelpp.Library.ByteOrder

namespace Gelpp

structure Decoder where
  host : ByteOrder
  order : ByteOrder
  fix16 : UInt16 → UInt16
  fix32 : UInt32 → UInt32
  fix64 : UInt64 → UInt64
  fix16_load : ∀ bs : List UInt8, bs.length = 2 →
    (fix16 (.ofNat (host.value bs))).toNat = order.value bs
  fix32_load : ∀ bs : List UInt8, bs.length = 4 →
    (fix32 (.ofNat (host.value bs))).toNat = order.value bs
  fix64_load : ∀ bs : List UInt8, bs.length = 8 →
    (fix64 (.ofNat (host.value bs))).toNat = order.value bs

-- `fence` is ghost and `none` in every buffer of the library: a run over a buffer with
-- `fence = some lo` stops as `outside` at its first request for a byte before `lo` or past the end.
structure Buffer where
  decoder : Decoder
  bytes : List UInt8
  fence : Option Nat := none
  size_lt : bytes.length < 2 ^ 63

namespace Buffer

def size (b : Buffer) : Nat := b.bytes.length

def slice (b : Buffer) (off n : Nat) : List UInt8 := (b.bytes.drop off).take n

def getU8 (b : Buffer) (off : Nat) : UInt8 := b.bytes.getD off 0

def getI8 (b : Buffer) (off : Nat) : Int8 := (b.getU8 off).toInt8

def getU16 (b : Buffer) (off : Nat) : UInt16 :=
  b.decoder.fix16 (.ofNat (b.decoder.host.value (b.slice off 2)))

def getU32 (b : Buffer) (off : Nat) : UInt32 :=
  b.decoder.fix32 (.ofNat (b.decoder.host.value (b.slice off 4)))

def getU64 (b : Buffer) (off : Nat) : UInt64 :=
  b.decoder.fix64 (.ofNat (b.decoder.host.value (b.slice off 8)))

def demand (b : Buffer) (lo hi : Nat) : Res Unit :=
  match b.fence with
  | none => .ok ()
  | some f => if f ≤ lo ∧ hi ≤ b.size then .ok () else .error .outside

theorem demand_unfenced {b : Buffer} (h : b.fence = none) (lo hi : Nat) :
    b.demand lo hi = .ok () := by
  simp [demand, h]

end Buffer

inductive CString where
  | text (chars : List UInt8)
  | wild
  deriving DecidableEq, Repr

structure Cursor where
  buf : Buffer
  off : Nat
  off_le : off ≤ buf.size

inductive StringRead where
  | absent
  | unterminated (c : Cursor)
  | found (chars : List UInt8) (c : Cursor)

namespace Cursor

def start (b : Buffer) : Cursor := ⟨b, 0, Nat.zero_le _⟩

def ended (c : Cursor) : Bool := decide (c.buf.size ≤ c.off)

-- The sum is made in size_t.
def avail (c : Cursor) (s : Nat) : Prop := (c.off + s) % 2 ^ 64 ≤ c.buf.size

instance (c : Cursor) (s : Nat) : Decidable (c.avail s) := by
  unfold avail
  infer_instance

def advance (c : Cursor) (s : Nat) (h : c.avail s) : Cursor :=
  { c with off := (c.off + s) % 2 ^ 64, off_le := h }

def skip (c : Cursor) (s : Nat) : Res (Option Cursor) := do
  c.buf.demand ((c.off + s) % 2 ^ 64) ((c.off + s) % 2 ^ 64)
  if h : c.avail s then return some (c.advance s h) else return none

def move (c : Cursor) (o : Nat) : Res (Option Cursor) := do
  c.buf.demand o o
  if h : o ≤ c.buf.size then return some { c with off := o, off_le := h } else return none

-- The ASSERT of Buffer::get repeats the test of avail.
def read {α : Type} (n : Nat) (get : Buffer → Nat → α) (c : Cursor) :
    Res (Option (α × Cursor)) := do
  c.buf.demand c.off (c.off + n)
  if h : c.avail n then return some (get c.buf c.off, c.advance n h) else return none

def readU8 : Cursor → Res (Option (UInt8 × Cursor)) := read 1 Buffer.getU8
def readI8 : Cursor → Res (Option (Int8 × Cursor)) := read 1 Buffer.getI8
def readU16 : Cursor → Res (Option (UInt16 × Cursor)) := read 2 Buffer.getU16
def readU32 : Cursor → Res (Option (UInt32 × Cursor)) := read 4 Buffer.getU32
def readU64 : Cursor → Res (Option (UInt64 × Cursor)) := read 8 Buffer.getU64

def here (c : Cursor) : Res Nat := do
  c.buf.demand c.off (c.off + 1)
  if c.off < c.buf.size then return c.off else .error (.fault .assertion)

def rest (c : Cursor) : List UInt8 := c.buf.bytes.drop c.off

def forward (c : Cursor) (n : Nat) : Cursor :=
  { c with off := min (c.off + n) c.buf.size, off_le := Nat.min_le_right _ _ }

-- The scan stops after the first NUL or, without one, at the end of the buffer.
def readCString (c : Cursor) : Res StringRead := do
  let chars := c.rest.takeWhile (· ≠ 0)
  c.buf.demand c.off (c.off + chars.length + 1)
  if c.rest = [] then return .absent
  else if chars.length = c.rest.length then return .unterminated (c.forward chars.length)
  else return .found chars (c.forward (chars.length + 1))

end Cursor

end Gelpp
