import CookingIsa.Fault

/-!
# Memory

The memory maps one range of byte addresses, and words are read and written at addresses that are
multiples of four, the low byte first. The range may run past the last address; it does not wrap.
-/

namespace CookingIsa

/-- A range of bytes from the address `base` upwards. Byte `i` is the byte at `base + i`; those from
`size` on are never read. -/
structure Memory where
  base : Word
  size : Nat
  bytes : Nat → BitVec 8

/-- Why a word of memory cannot be accessed. -/
inductive MemoryError where
  /-- There is no word at the address. -/
  | address (error : AddressError)
  /-- The bytes of the word do not all lie in the memory. -/
  | outOfBounds
deriving DecidableEq, Repr

namespace Memory

def zero (base : Word) (size : Nat) : Memory := ⟨base, size, fun _ => 0#8⟩

/-- The offset from the base of the word at an address. -/
def locate (m : Memory) (addr : Word) : Except AddressError Nat :=
  if addr.toNat % 4 ≠ 0 then .error (.misaligned addr)
  else if addr.toNat < m.base.toNat then .error (.outOfRange addr)
  else if m.size < addr.toNat - m.base.toNat + 4 then .error (.outOfRange addr)
  else .ok (addr.toNat - m.base.toNat)

/-- The word in the four bytes from an offset on. -/
def readWord? (m : Memory) (offset : Nat) : Option Word :=
  if offset + 4 ≤ m.size then
    some (m.bytes (offset + 3) ++ m.bytes (offset + 2) ++ m.bytes (offset + 1) ++ m.bytes offset)
  else none

/-- The memory with a word put into the four bytes from an offset on. -/
def writeWord? (m : Memory) (offset : Nat) (w : Word) : Option Memory :=
  if offset + 4 ≤ m.size then
    some { m with bytes := fun i =>
      if offset ≤ i ∧ i < offset + 4 then w.extractLsb' (8 * (i - offset)) 8 else m.bytes i }
  else none

def load (m : Memory) (addr : Word) : Except MemoryError Word :=
  match m.locate addr with
  | .error e => .error (.address e)
  | .ok offset =>
    match m.readWord? offset with
    | none => .error .outOfBounds
    | some w => .ok w

def store (m : Memory) (addr w : Word) : Except MemoryError Memory :=
  match m.locate addr with
  | .error e => .error (.address e)
  | .ok offset =>
    match m.writeWord? offset w with
    | none => .error .outOfBounds
    | some m' => .ok m'

theorem locate_add_le {m : Memory} {addr : Word} {offset : Nat} (h : m.locate addr = .ok offset) :
    offset + 4 ≤ m.size := by
  unfold locate at h
  split at h
  · cases h
  · split at h
    · cases h
    · split at h
      · cases h
      · cases h
        omega

theorem bytes_of_writeWord? {m m' : Memory} {offset : Nat} {w : Word}
    (h : m.writeWord? offset w = some m') (i : Nat) :
    m'.bytes i = if offset ≤ i ∧ i < offset + 4 then w.extractLsb' (8 * (i - offset)) 8
      else m.bytes i := by
  unfold writeWord? at h
  split at h
  · cases h
    rfl
  · cases h

/-- A word is the join of its four bytes. -/
theorem join_bytes (w : Word) : w.extractLsb' 24 8 ++ w.extractLsb' 16 8 ++ w.extractLsb' 8 8 ++
    w.extractLsb' 0 8 = w := by
  refine BitVec.eq_of_getLsbD_eq fun i hi => ?_
  simp only [BitVec.getLsbD_append, BitVec.getLsbD_extractLsb']
  rcases (by omega : i < 8 ∨ 8 ≤ i ∧ i < 16 ∨ 16 ≤ i ∧ i < 24 ∨ 24 ≤ i) with h | h | h | h
  · simp [h]
  · simp [show ¬ i < 8 by omega, show i - 8 < 8 by omega, show 8 + (i - 8) = i by omega]
  · simp [show ¬ i < 8 by omega, show ¬ i - 8 < 8 by omega, show i - 8 - 8 < 8 by omega,
      show 16 + (i - 8 - 8) = i by omega]
  · simp [show ¬ i < 8 by omega, show ¬ i - 8 < 8 by omega, show ¬ i - 8 - 8 < 8 by omega,
      show i - 8 - 8 - 8 < 8 by omega, show 24 + (i - 8 - 8 - 8) = i by omega]

theorem readWord?_of_writeWord? {m m' : Memory} {offset : Nat} {w : Word}
    (h : m.writeWord? offset w = some m') : m'.readWord? offset = some w := by
  unfold writeWord? at h
  split at h
  · rename_i hin
    cases h
    simpa [readWord?, hin] using join_bytes w
  · cases h

end Memory

end CookingIsa
