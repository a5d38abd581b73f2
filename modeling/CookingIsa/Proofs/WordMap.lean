import Mathlib
import CookingIsa.Machine.Memory

/-!
# Memory is a map from addresses to words

Words are kept as four bytes each, at offsets from a base that need not be a multiple of four. Two
addresses that are multiples of four are four bytes apart at least, so the words at them never
share a byte, and a word read back is the one that was last stored at its address. So whatever calls
come before, a call is answered as by a map from addresses to words that is zero at first
(`answer_after_zero`).
-/

namespace CookingIsa

/-! ## The latest store -/

/-- The word at an address after stores in order: that of the last one there, or else zero. -/
def latestStore (stores : List (Word × Word)) (addr : Word) : Word :=
  match stores.reverse.find? fun e => e.1 = addr with
  | some e => e.2
  | none => 0#32

theorem latestStore_concat (stores : List (Word × Word)) (a w addr : Word) :
    latestStore (stores ++ [(a, w)]) addr = if addr = a then w else latestStore stores addr := by
  unfold latestStore
  rw [List.reverse_concat, List.find?_cons]
  by_cases h : addr = a
  · simp [h]
  · simp [h, Ne.symm h]

namespace Memory

/-! ## One access -/

/-- Why an address names no word of the bytes from `base` up to but without `base + size`. -/
def addressError? (base : Word) (size : Nat) (addr : Word) : Option AddressError :=
  if addr.toNat % 4 ≠ 0 then some (.misaligned addr)
  else if base.toNat ≤ addr.toNat ∧ addr.toNat + 4 ≤ base.toNat + size then none
  else some (.outOfRange addr)

variable {m m' : Memory} {base addr w : Word} {size offset : Nat} {stores : List (Word × Word)}

theorem locate_eq_error_iff {e : AddressError} :
    m.locate addr = .error e ↔ addressError? m.base m.size addr = some e := by
  unfold locate addressError?
  split_ifs <;> first | omega | simp

theorem locate_eq_ok_iff : m.locate addr = .ok offset ↔
    addressError? m.base m.size addr = none ∧ addr.toNat = m.base.toNat + offset := by
  unfold locate addressError?
  split_ifs <;> simp <;> omega

theorem mod_four_of_locate (h : m.locate addr = .ok offset) : addr.toNat % 4 = 0 := by
  unfold locate at h
  split_ifs at h with hmod
  omega

theorem store_eq_ok_iff : m.store addr w = .ok m' ↔
    ∃ offset, m.locate addr = .ok offset ∧ m.writeWord? offset w = some m' := by
  unfold store
  rcases m.locate addr with e | offset
  · simp
  · rcases hw : m.writeWord? offset w with _ | m₁ <;> simp [hw]

theorem range_of_writeWord? (h : m.writeWord? offset w = some m') :
    m'.base = m.base ∧ m'.size = m.size := by
  unfold writeWord? at h
  split_ifs at h
  cases h
  exact ⟨rfl, rfl⟩

theorem readWord?_of_writeWord?_ne {other : Nat} (h : m.writeWord? offset w = some m')
    (hapart : other + 4 ≤ offset ∨ offset + 4 ≤ other) :
    m'.readWord? other = m.readWord? other := by
  have hbytes := bytes_of_writeWord? h
  have hsame : ∀ k, k < 4 → m'.bytes (other + k) = m.bytes (other + k) := by
    intro k hk
    rw [hbytes, if_neg (by omega)]
  have hfirst : m'.bytes other = m.bytes other := hsame 0 (by omega)
  simp only [readWord?, (range_of_writeWord? h).2, hsame 3 (by omega), hsame 2 (by omega),
    hsame 1 (by omega), hfirst]

/-- The memory has a range of bytes, and at each address of a word there the word that was stored
last. -/
structure Holds (m : Memory) (base : Word) (size : Nat) (stores : List (Word × Word)) : Prop where
  base_eq : m.base = base
  size_eq : m.size = size
  readWord?_eq : ∀ addr offset, m.locate addr = .ok offset →
    m.readWord? offset = some (latestStore stores addr)

theorem holds_zero (base : Word) (size : Nat) : (zero base size).Holds base size [] where
  base_eq := rfl
  size_eq := rfl
  readWord?_eq addr offset h := by
    have hin : offset + 4 ≤ size := locate_add_le h
    simp only [readWord?, zero, hin, if_true]
    rfl

namespace Holds

theorem load_eq (h : m.Holds base size stores) (addr : Word) :
    m.load addr = match addressError? base size addr with
      | some e => .error (.address e)
      | none => .ok (latestStore stores addr) := by
  unfold load
  rcases hl : m.locate addr with e | offset
  · have he := locate_eq_error_iff.1 hl
    rw [h.base_eq, h.size_eq] at he
    simp [he]
  · obtain ⟨hnone, -⟩ := locate_eq_ok_iff.1 hl
    rw [h.base_eq, h.size_eq] at hnone
    simp [hnone, h.readWord?_eq addr offset hl]

theorem store_eq_error (h : m.Holds base size stores) {e : AddressError}
    (he : addressError? base size addr = some e) (w : Word) :
    m.store addr w = .error (.address e) := by
  have hl : m.locate addr = .error e := by rw [locate_eq_error_iff, h.base_eq, h.size_eq, he]
  simp [store, hl]

theorem exists_store_eq_ok (h : m.Holds base size stores)
    (hnone : addressError? base size addr = none) (w : Word) : ∃ m', m.store addr w = .ok m' := by
  rcases hl : m.locate addr with e | offset
  · have he := locate_eq_error_iff.1 hl
    rw [h.base_eq, h.size_eq, hnone] at he
    cases he
  · have hin := locate_add_le hl
    simp [store, hl, writeWord?, hin]

theorem store (h : m.Holds base size stores) (hs : m.store addr w = .ok m') :
    m'.Holds base size (stores ++ [(addr, w)]) := by
  obtain ⟨offset, hl, hw⟩ := store_eq_ok_iff.1 hs
  obtain ⟨hbase, hsize⟩ := range_of_writeWord? hw
  refine ⟨hbase.trans h.base_eq, hsize.trans h.size_eq, fun other k hk => ?_⟩
  -- An address is located by the range alone, so it is where it was before the store.
  have hk' : m.locate other = .ok k := by
    rwa [locate_eq_ok_iff, ← hbase, ← hsize, ← locate_eq_ok_iff]
  obtain ⟨-, haddr⟩ := locate_eq_ok_iff.1 hl
  obtain ⟨-, hother⟩ := locate_eq_ok_iff.1 hk'
  rw [latestStore_concat]
  split_ifs with hsame
  · obtain rfl : k = offset := by
      rw [hsame] at hother
      omega
    exact readWord?_of_writeWord? hw
  · -- Two multiples of four that differ are apart by the length of a word.
    have hne : other.toNat ≠ addr.toNat := fun e => hsame (BitVec.eq_of_toNat_eq e)
    have := mod_four_of_locate hl
    have := mod_four_of_locate hk'
    rw [readWord?_of_writeWord?_ne hw (by omega), h.readWord?_eq other k hk']

end Holds

end Memory

/-! ## Calls one after another -/

inductive Access where
  | load (addr : Word)
  | store (addr w : Word)
deriving DecidableEq, Repr

def Access.addr : Access → Word
  | load a => a
  | store a _ => a

namespace Memory

/-- What a call gives: the word that is loaded, or nothing more than that the store is done. -/
def answer (m : Memory) : Access → Except MemoryError (Option Word)
  | .load addr => (m.load addr).map some
  | .store addr w => (m.store addr w).map fun _ => none

/-- The memory behind a call. -/
def next (m : Memory) : Access → Memory
  | .load _ => m
  | .store addr w => match m.store addr w with
    | .ok m' => m'
    | .error _ => m

def after (m : Memory) (calls : List Access) : Memory := calls.foldl next m

/-- What a call stores, if it is a store and succeeds. -/
def stored? (m : Memory) : Access → Option (Word × Word)
  | .load _ => none
  | .store addr w => match m.store addr w with
    | .ok _ => some (addr, w)
    | .error _ => none

/-- The stores among calls that succeed, in order, each with its address and its word. -/
def stores (m : Memory) : List Access → List (Word × Word)
  | [] => []
  | call :: calls => (m.stored? call).toList ++ (m.next call).stores calls

variable {m : Memory} {base : Word} {size : Nat}

theorem Holds.next {before : List (Word × Word)} (h : m.Holds base size before) (call : Access) :
    (m.next call).Holds base size (before ++ (m.stored? call).toList) := by
  cases call with
  | load addr => simpa [Memory.next, stored?] using h
  | store addr w =>
    rcases hs : m.store addr w with e | m'
    · simpa [Memory.next, stored?, hs] using h
    · simpa [Memory.next, stored?, hs] using h.store hs

theorem Holds.after : ∀ (calls : List Access) {m : Memory} {before : List (Word × Word)},
    m.Holds base size before → (m.after calls).Holds base size (before ++ m.stores calls)
  | [], m, before, h => by simpa [Memory.after, stores] using h
  | call :: calls, m, before, h => by
    have ih := Holds.after calls (h.next call)
    simpa [Memory.after, stores] using ih

/-- After any calls on a memory that was zero, a call at an address that names no word is refused
for that address; any other store is done, and any other load gives the word of the last store at its
address that was done, or zero if there was none. Nothing but a store that is done changes the
memory. -/
theorem answer_after_zero (base : Word) (size : Nat) (calls : List Access) :
    let m := (zero base size).after calls
    (∀ addr, m.answer (.load addr) = match addressError? base size addr with
      | some e => .error (.address e)
      | none => .ok (some (latestStore ((zero base size).stores calls) addr))) ∧
    (∀ addr w, m.answer (.store addr w) = match addressError? base size addr with
      | some e => .error (.address e)
      | none => .ok none) ∧
    ∀ call, m.next call = m ∨ ∃ addr w, call = .store addr w ∧ m.answer call = .ok none := by
  have h : ((zero base size).after calls).Holds base size ((zero base size).stores calls) :=
    Holds.after calls (holds_zero base size)
  refine ⟨fun addr => ?_, fun addr w => ?_, fun call => ?_⟩
  · rw [answer, h.load_eq]
    rcases addressError? base size addr with _ | e <;> rfl
  · rcases he : addressError? base size addr with _ | e
    · obtain ⟨m', hm'⟩ := h.exists_store_eq_ok he w
      rw [answer, hm']
      rfl
    · rw [answer, h.store_eq_error he]
      rfl
  · cases call with
    | load addr => exact .inl rfl
    | store addr w =>
      rcases hs : ((zero base size).after calls).store addr w with e | m'
      · exact .inl (by simp [Memory.next, hs])
      · exact .inr ⟨addr, w, rfl, by simp [answer, hs, Except.map]⟩

end Memory

end CookingIsa
