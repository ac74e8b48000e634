import Ark.Lib.Effect

/- Writing into byte buffers and slices of them. A slice shares its bytes with the
   buffer it is taken from, so what is written into `buf[i:]` is written into `buf`
   (`slicing`); a slice that begins past the end panics. `Puts op bytes` says what an
   operation does to a buffer of zeros; buffers are filled front to back, so a field is
   written behind what is there already (`Puts.slicing`). Buffers are as long as their
   capacity, as `make` leaves them. -/
namespace Ark.Lib.Buffer
open Effect

/-- A computation on a buffer. -/
abbrev BufferM (ε α : Type) := EStateM ε (List UInt8) α

/-- `make([]byte, n)`. -/
def zeros (n : Nat) : List UInt8 := List.replicate n 0

@[simp] theorem length_zeros (n : Nat) : (zeros n).length = n := List.length_replicate

theorem zeros_add (m n : Nat) : zeros (m + n) = zeros m ++ zeros n :=
  List.replicate_add m n 0

section
variable {ε ε' α : Type}

/-- `op(buf[i:])`; an error of `op` is seen through `f`. -/
def slicing (f : ε' → ε) (bounds : ε) (i : Nat) (op : BufferM ε' α) : BufferM ε α := fun buf =>
  if buf.length < i then .error bounds buf
  else
    match op (buf.drop i) with
    | .ok a part => .ok a (buf.take i ++ part)
    | .error e part => .error (f e) (buf.take i ++ part)

/-- `copy(buf[i:j], bytes)`, where `bytes` has `j - i` bytes. -/
def overwrite (bounds : ε) (i : Nat) (bytes : List UInt8) : BufferM ε Unit := fun buf =>
  if buf.length < i + bytes.length then .error bounds buf
  else .ok () (buf.take i ++ bytes ++ buf.drop (i + bytes.length))

/-- Where a buffer begins with enough zeros, `op` writes `bytes` and returns their number. -/
def Puts (op : BufferM ε Nat) (bytes : List UInt8) : Prop :=
  ∀ rest, op (zeros bytes.length ++ rest) = .ok bytes.length (bytes ++ rest)

/-- What `op` puts into an empty buffer, it puts behind other bytes. -/
theorem Puts.slicing {op : BufferM ε' Nat} {bytes : List UInt8} (h : Puts op bytes) (f : ε' → ε)
    (bounds : ε) {i : Nat} (pre : List UInt8) (hi : pre.length = i) (rest : List UInt8) :
    slicing f bounds i op (pre ++ (zeros bytes.length ++ rest)) =
      .ok bytes.length (pre ++ (bytes ++ rest)) := by
  have hlong : ¬ (pre ++ (zeros bytes.length ++ rest)).length < i := by
    rw [List.length_append]
    omega
  unfold Buffer.slicing
  rw [if_neg hlong, List.drop_left' hi, List.take_left' hi, h rest]

/-- Bytes that are there are overwritten, whatever they are. -/
theorem overwrite_append (bounds : ε) {i : Nat} (pre : List UInt8) (hi : pre.length = i)
    (old new rest : List UInt8) (hlen : old.length = new.length) :
    overwrite bounds i new (pre ++ (old ++ rest)) = .ok () (pre ++ (new ++ rest)) := by
  have hlong : ¬ (pre ++ (old ++ rest)).length < i + new.length := by
    rw [List.length_append, List.length_append]
    omega
  have hboth : (pre ++ old).length = i + new.length := by
    rw [List.length_append, hi, hlen]
  unfold overwrite
  rw [if_neg hlong, List.take_left' hi, ← List.append_assoc pre old, List.drop_left' hboth,
    List.append_assoc]

end
end Ark.Lib.Buffer
