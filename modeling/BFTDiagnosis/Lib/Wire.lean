import Mathlib.Algebra.Group.Basic
import Mathlib.Data.List.SplitLengths
import BFTDiagnosis.Lib.Word

/-!
# Bytes on the wire

Two ways to put a byte string into a stream. `vec` writes its length as a little-endian 64-bit word before
it, as the default configuration of bincode does, so that values can follow one another. `framed` writes its
length in base 128, seven bits a byte, and `readFramed` refuses a length above a limit before it reads the
bytes. `chunks` cuts a string into pieces.
-/

namespace BFTDiagnosis.Wire

/-! ## Words of a fixed width -/

/-- The `width` lowest bytes of a number, least significant first. -/
def littleEndian : ℕ → ℕ → Bytes
  | 0, _ => []
  | width + 1, n => UInt8.ofNat (n % 256) :: littleEndian width (n / 256)

def ofLittleEndian : Bytes → ℕ
  | [] => 0
  | byte :: rest => byte.toNat + 256 * ofLittleEndian rest

@[simp] theorem length_littleEndian (width n : ℕ) : (littleEndian width n).length = width := by
  induction width generalizing n with
  | zero => rfl
  | succ width ih => rw [littleEndian, List.length_cons, ih]

theorem ofLittleEndian_littleEndian {width n : ℕ} (h : n < 256 ^ width) :
    ofLittleEndian (littleEndian width n) = n := by
  induction width generalizing n with
  | zero => exact (Nat.lt_one_iff.1 h).symm
  | succ width ih =>
    have hrest : n / 256 < 256 ^ width := Nat.div_lt_of_lt_mul (by rwa [pow_succ'] at h)
    rw [littleEndian, ofLittleEndian, ih hrest, UInt8.toNat_ofNat_of_lt' (Nat.mod_lt _ (by decide))]
    exact Nat.mod_add_div n 256

/-! ## Byte strings with a length of eight bytes -/

/-- A byte string after its length. -/
def vec (bytes : Bytes) : Bytes := littleEndian 8 bytes.length ++ bytes

/-- Read a byte string, and return it with what follows it. -/
def takeVec (stream : Bytes) : Option (Bytes × Bytes) :=
  if stream.length < 8 then none
  else
    let length := ofLittleEndian (stream.take 8)
    let rest := stream.drop 8
    if rest.length < length then none else some (rest.take length, rest.drop length)

@[simp] theorem length_vec (bytes : Bytes) : (vec bytes).length = 8 + bytes.length := by
  rw [vec, List.length_append, length_littleEndian]

theorem takeVec_vec_append {bytes : Bytes} (h : bytes.length < 2 ^ 64) (rest : Bytes) :
    takeVec (vec bytes ++ rest) = some (bytes, rest) := by
  have hlength : (littleEndian 8 bytes.length).length = 8 := length_littleEndian _ _
  have hstream : vec bytes ++ rest = littleEndian 8 bytes.length ++ (bytes ++ rest) := by
    rw [vec, List.append_assoc]
  rw [takeVec, hstream, List.take_left' hlength, List.drop_left' hlength,
    ofLittleEndian_littleEndian (by simpa using h), if_neg (by simp), if_neg (by simp),
    List.take_left' rfl, List.drop_left' rfl]

/-! ## Byte strings with a length in base 128 -/

/-- A number in base 128, least significant digit first; the highest bit says that more digits follow. -/
def varint (n : ℕ) : Bytes :=
  if n < 128 then [UInt8.ofNat n] else UInt8.ofNat (n % 128 + 128) :: varint (n / 128)
termination_by n

/-- Read a number in base 128, and return it with what follows it. -/
def takeVarint : Bytes → Option (ℕ × Bytes)
  | [] => none
  | byte :: rest =>
    if byte.toNat < 128 then some (byte.toNat, rest)
    else (takeVarint rest).map fun read ↦ (byte.toNat - 128 + 128 * read.1, read.2)

theorem takeVarint_varint_append (n : ℕ) (rest : Bytes) : takeVarint (varint n ++ rest) = some (n, rest) := by
  induction n using Nat.strongRecOn with
  | ind n ih =>
    rw [varint]
    split
    case isTrue hsmall =>
      have hbyte : (UInt8.ofNat n).toNat = n := UInt8.toNat_ofNat_of_lt' (by simp [UInt8.size]; omega)
      rw [List.singleton_append, takeVarint, hbyte, if_pos hsmall]
    case isFalse hlarge =>
      have hbyte : (UInt8.ofNat (n % 128 + 128)).toNat = n % 128 + 128 :=
        UInt8.toNat_ofNat_of_lt' (by simp [UInt8.size]; omega)
      rw [List.cons_append, takeVarint, hbyte, if_neg (by omega), ih (n / 128) (by omega), Option.map_some]
      exact congrArg some (Prod.ext (by simp only; omega) rfl)

/-- A packet after its length. -/
def framed (packet : Bytes) : Bytes := varint packet.length ++ packet

/-- Read a packet that is not longer than a limit. -/
def readFramed (stream : Bytes) (limit : ℕ) : Option Bytes := do
  let (length, rest) ← takeVarint stream
  if limit < length then none
  if rest.length < length then none
  return rest.take length

theorem readFramed_framed (packet : Bytes) (limit : ℕ) :
    readFramed (framed packet) limit = if packet.length ≤ limit then some packet else none := by
  rw [readFramed, framed, takeVarint_varint_append]
  by_cases hlimit : packet.length ≤ limit
  · simp [hlimit]
  · simp [hlimit, Nat.lt_of_not_le hlimit]

/-! ## Pieces of one length -/

section Chunks

variable {α : Type} {size count : ℕ} {list : List α}

/-- The pieces of a list, all of one length but for the last one. -/
def chunks (size : ℕ) (list : List α) : List (List α) :=
  (List.replicate ((list.length + size - 1) / size) size).splitLengths list

theorem flatten_splitLengths_eq_take (sizes : List ℕ) (list : List α) :
    (sizes.splitLengths list).flatten = list.take sizes.sum := by
  induction sizes generalizing list with
  | nil => rfl
  | cons size sizes ih =>
    rw [List.splitLengths_cons, List.flatten_cons, ih, List.sum_cons, List.take_add]

theorem chunks_eq_of_length (hsize : 0 < size) (h : list.length = size * count) :
    chunks size list = (List.replicate count size).splitLengths list := by
  have hcount : (list.length + size - 1) / size = count := by
    rw [h, Nat.add_sub_assoc hsize, Nat.mul_add_div hsize, Nat.div_eq_of_lt (Nat.sub_one_lt_of_lt hsize), Nat.add_zero]
  rw [chunks, hcount]

/-- A list of whole pieces has as many pieces. -/
theorem length_chunks (hsize : 0 < size) (h : list.length = size * count) : (chunks size list).length = count := by
  rw [chunks_eq_of_length hsize h, List.length_splitLengths, List.length_replicate]

/-- The first pieces are the beginning of the list. -/
theorem flatten_take_chunks (hsize : 0 < size) (h : list.length = size * count) {first : ℕ} (hfirst : first ≤ count) :
    ((chunks size list).take first).flatten = list.take (size * first) := by
  rw [chunks_eq_of_length hsize h, List.take_splitLength, List.take_replicate, flatten_splitLengths_eq_take,
    List.sum_replicate_nat, min_eq_left hfirst, Nat.mul_comm]

end Chunks

end BFTDiagnosis.Wire
