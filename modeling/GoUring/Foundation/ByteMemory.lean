import Mathlib.Logic.Function.Basic
import GoUring.Foundation.LittleEndian

/-!
# Typed fields in byte memory

A memory is a byte at each address.  A `Codec` stores a value in a fixed number of bytes; codecs
compose to records (`pair`, `map`).  A `Layout` places arrays of typed cells, its *fields*, in
memory without overlap.

A program that reaches into such a memory with computed addresses sees it as one block of values
for each field, indexed by the offset into the field (`Layout.block`).  The laws say what a store
does to the blocks: the cell stored is updated (`block_store`), the other fields are as they were
(`block_store_of_ne`), and so is every byte that belongs to no field (`Layout.Keeps`).
-/

namespace ByteMemory

universe u v

/-- A byte at each address. -/
abbrev Memory := ℕ → UInt8

/-- The `n` bytes from an address on. -/
def read (m : Memory) (a n : ℕ) : List UInt8 := (List.range n).map fun i => m (a + i)

/-- Memory after bytes were written from an address on. -/
def write (m : Memory) (a : ℕ) (bytes : List UInt8) : Memory := fun b =>
  if a ≤ b then bytes[b - a]?.getD (m b) else m b

theorem write_add (m : Memory) (a : ℕ) {bytes : List UInt8} {i : ℕ} (lt : i < bytes.length) :
    write m a bytes (a + i) = bytes[i] := by
  rw [write, if_pos (Nat.le_add_right a i), Nat.add_sub_cancel_left,
    List.getElem?_eq_getElem lt, Option.getD_some]

theorem write_of_outside (m : Memory) {a b : ℕ} {bytes : List UInt8}
    (outside : b < a ∨ a + bytes.length ≤ b) : write m a bytes b = m b := by
  unfold write
  split
  · rw [List.getElem?_eq_none (by omega), Option.getD_none]
  · rfl

theorem read_write (m : Memory) (a : ℕ) (bytes : List UInt8) :
    read (write m a bytes) a bytes.length = bytes := by
  refine List.ext_getElem (by simp [read]) fun i _ lt => ?_
  simp only [read, List.getElem_map, List.getElem_range]
  exact write_add m a lt

/-- A write elsewhere is not seen. -/
theorem read_write_of_apart (m : Memory) {a b n : ℕ} {bytes : List UInt8}
    (apart : b + n ≤ a ∨ a + bytes.length ≤ b) :
    read (write m a bytes) b n = read m b n := by
  refine List.map_congr_left fun i mem => write_of_outside m ?_
  have lt := List.mem_range.mp mem
  omega

/-! ## Codecs -/

/-- How the values of a type are stored in `size` bytes. -/
structure Codec (α : Type u) where
  size : ℕ
  encode : α → List UInt8
  decode : List UInt8 → α
  length_encode : ∀ x, (encode x).length = size
  decode_encode : ∀ x, decode (encode x) = x

namespace Codec

variable {α : Type u} {β : Type v}

/-- A number of `width` bytes, least significant byte first. -/
def word (width : ℕ) (toNat : α → ℕ) (ofNat : ℕ → α) (fits : ∀ x, toNat x < 256 ^ width)
    (ofNat_toNat : ∀ x, ofNat (toNat x) = x) : Codec α where
  size := width
  encode x := LittleEndian.bytes width (toNat x)
  decode bytes := ofNat (LittleEndian.value bytes)
  length_encode _ := LittleEndian.length_bytes _ _
  decode_encode x := by
    rw [LittleEndian.value_bytes, Nat.mod_eq_of_lt (fits x), ofNat_toNat]

def uint8 : Codec UInt8 :=
  word 1 UInt8.toNat UInt8.ofNat UInt8.toNat_lt fun _ => UInt8.ofNat_toNat

def uint16 : Codec UInt16 :=
  word 2 UInt16.toNat UInt16.ofNat UInt16.toNat_lt fun _ => UInt16.ofNat_toNat

def uint32 : Codec UInt32 :=
  word 4 UInt32.toNat UInt32.ofNat UInt32.toNat_lt fun _ => UInt32.ofNat_toNat

def uint64 : Codec UInt64 :=
  word 8 UInt64.toNat UInt64.ofNat UInt64.toNat_lt fun _ => UInt64.ofNat_toNat

/-- One value after the other, without padding. -/
def pair (first : Codec α) (second : Codec β) : Codec (α × β) where
  size := first.size + second.size
  encode x := first.encode x.1 ++ second.encode x.2
  decode bytes := (first.decode (bytes.take first.size), second.decode (bytes.drop first.size))
  length_encode x := by
    rw [List.length_append, first.length_encode, second.length_encode]
  decode_encode x := by
    rw [List.take_left' (first.length_encode _), List.drop_left' (first.length_encode _),
      first.decode_encode, second.decode_encode]

/-- The same bytes for another type. -/
def map (codec : Codec α) (f : β → α) (g : α → β) (left : ∀ y, g (f y) = y) : Codec β where
  size := codec.size
  encode y := codec.encode (f y)
  decode bytes := g (codec.decode bytes)
  length_encode _ := codec.length_encode _
  decode_encode y := by rw [codec.decode_encode, left]

def int32 : Codec Int32 := uint32.map Int32.toUInt32 UInt32.toInt32 fun _ => rfl

/-- The value at an address. -/
def load (codec : Codec α) (m : Memory) (a : ℕ) : α := codec.decode (read m a codec.size)

/-- Memory after a value was stored at an address. -/
def store (codec : Codec α) (m : Memory) (a : ℕ) (x : α) : Memory := write m a (codec.encode x)

theorem load_store (codec : Codec α) (m : Memory) (a : ℕ) (x : α) :
    codec.load (codec.store m a x) a = x := by
  have bytes := read_write m a (codec.encode x)
  rw [codec.length_encode] at bytes
  rw [load, store, bytes, codec.decode_encode]

theorem load_store_of_apart (first : Codec α) (second : Codec β) (m : Memory) {a b : ℕ} (x : α)
    (apart : b + second.size ≤ a ∨ a + first.size ≤ b) :
    second.load (first.store m a x) b = second.load m b := by
  rw [load, store, read_write_of_apart m (by rwa [first.length_encode]), load]

end Codec

/-! ## Layouts -/

/-- Arrays of cells, placed in memory without overlap. -/
structure Layout (F : Type u) (T : F → Type v) where
  codec : ∀ f, Codec (T f)
  base : F → ℕ
  count : F → ℕ
  pos : ∀ f, 0 < (codec f).size
  apart : ∀ f g, f ≠ g → base f + count f * (codec f).size ≤ base g ∨
    base g + count g * (codec g).size ≤ base f

namespace Layout

variable {F : Type u} {T : F → Type v} (l : Layout F T)

/-- Where a cell is. -/
def addr (f : F) (i : ℕ) : ℕ := l.base f + i * (l.codec f).size

/-- The address belongs to a field. -/
def Within (a : ℕ) : Prop :=
  ∃ f, l.base f ≤ a ∧ a < l.base f + l.count f * (l.codec f).size

/-- Nothing outside the fields has changed. -/
def Keeps (m m' : Memory) : Prop := ∀ a, ¬ l.Within a → m' a = m a

def load (m : Memory) (f : F) (i : ℕ) : T f := (l.codec f).load m (l.addr f i)

def store (m : Memory) (f : F) (i : ℕ) (x : T f) : Memory := (l.codec f).store m (l.addr f i) x

/-- A field as a block of values indexed by the offset into it. -/
def block [∀ f, Inhabited (T f)] (m : Memory) (f : F) (offset : ℕ) : T f :=
  if offset % (l.codec f).size = 0 ∧ offset / (l.codec f).size < l.count f then
    (l.codec f).load m (l.base f + offset)
  else default

variable {l} {m m' m'' : Memory} {f g : F} {i j : ℕ}

@[refl] theorem Keeps.refl (m : Memory) : l.Keeps m m := fun _ _ => rfl

theorem Keeps.trans (first : l.Keeps m m') (second : l.Keeps m' m'') : l.Keeps m m'' :=
  fun a outside => (second a outside).trans (first a outside)

/-- No cell reaches beyond its field. -/
theorem addr_add_size_le (lt : i < l.count f) :
    l.addr f i + (l.codec f).size ≤ l.base f + l.count f * (l.codec f).size := by
  have le : (i + 1) * (l.codec f).size ≤ l.count f * (l.codec f).size :=
    Nat.mul_le_mul_right _ lt
  rw [Nat.succ_mul] at le
  rw [addr, Nat.add_assoc]
  exact Nat.add_le_add_left le _

theorem base_le_addr : l.base f ≤ l.addr f i := Nat.le_add_right _ _

theorem keeps_store (lt : i < l.count f) (x : T f) : l.Keeps m (l.store m f i x) := by
  intro a outside
  refine write_of_outside m ?_
  rw [(l.codec f).length_encode]
  have low : l.base f ≤ l.addr f i := base_le_addr
  have high := addr_add_size_le lt
  by_contra inside
  exact outside ⟨f, by omega, by omega⟩

/-- Cells of one field do not overlap. -/
theorem addr_apart (ne : j ≠ i) :
    l.addr f j + (l.codec f).size ≤ l.addr f i ∨
      l.addr f i + (l.codec f).size ≤ l.addr f j := by
  unfold addr
  rcases Nat.lt_or_gt_of_ne ne with lt | lt
  · have le : (j + 1) * (l.codec f).size ≤ i * (l.codec f).size := Nat.mul_le_mul_right _ lt
    rw [Nat.succ_mul] at le
    omega
  · have le : (i + 1) * (l.codec f).size ≤ j * (l.codec f).size := Nat.mul_le_mul_right _ lt
    rw [Nat.succ_mul] at le
    omega

/-- Cells of two fields do not overlap. -/
theorem addr_apart_of_ne (ne : g ≠ f) (inF : i < l.count f) (inG : j < l.count g) :
    l.addr g j + (l.codec g).size ≤ l.addr f i ∨
      l.addr f i + (l.codec f).size ≤ l.addr g j := by
  have lowF : l.base f ≤ l.addr f i := base_le_addr
  have lowG : l.base g ≤ l.addr g j := base_le_addr
  have highF := addr_add_size_le inF
  have highG := addr_add_size_le inG
  rcases l.apart g f ne with before | after
  · omega
  · omega

theorem load_store (x : T f) : l.load (l.store m f i x) f i = x := (l.codec f).load_store _ _ _

theorem load_store_of_ne (ne : g ≠ f) (inF : i < l.count f) (inG : j < l.count g) (x : T f) :
    l.load (l.store m f i x) g j = l.load m g j :=
  (l.codec f).load_store_of_apart (l.codec g) m x (addr_apart_of_ne ne inF inG)

section Blocks

variable [∀ f, Inhabited (T f)]

/-- The block at the offset of a cell. -/
theorem block_mul (m : Memory) (lt : i < l.count f) :
    l.block m f (i * (l.codec f).size) = l.load m f i := by
  rw [block, if_pos ⟨Nat.mul_mod_left _ _, by rwa [Nat.mul_div_cancel _ (l.pos f)]⟩]
  rfl

/-- Two memories that agree on the cells have the same block. -/
theorem block_congr (same : ∀ j < l.count f, l.load m' f j = l.load m f j) :
    l.block m' f = l.block m f := by
  funext offset
  unfold block
  split
  · next cell =>
    have place : l.base f + offset = l.addr f (offset / (l.codec f).size) := by
      rw [addr, Nat.div_mul_cancel (Nat.dvd_of_mod_eq_zero cell.1)]
    rw [place]
    exact same _ cell.2
  · rfl

theorem block_store_of_ne (ne : g ≠ f) (lt : i < l.count f) (x : T f) :
    l.block (l.store m f i x) g = l.block m g :=
  block_congr fun _ inG => load_store_of_ne ne lt inG x

/-- A store updates the block at the offset of its cell. -/
theorem block_store (lt : i < l.count f) (x : T f) :
    l.block (l.store m f i x) f =
      Function.update (l.block m f) (i * (l.codec f).size) x := by
  funext offset
  by_cases here : offset = i * (l.codec f).size
  · subst here
    rw [block_mul _ lt, load_store, Function.update_self]
  · rw [Function.update_of_ne here]
    unfold block
    split
    · next cell =>
      have place : offset = offset / (l.codec f).size * (l.codec f).size :=
        (Nat.div_mul_cancel (Nat.dvd_of_mod_eq_zero cell.1)).symm
      refine (l.codec f).load_store_of_apart (l.codec f) m x ?_
      have ne : offset / (l.codec f).size ≠ i := by
        rintro rfl
        exact here place
      have apart := @addr_apart F T l f i _ ne
      rw [addr, ← place] at apart
      exact apart
    · rfl

end Blocks

end Layout

end ByteMemory
