import Ark.DistrClaim.CallData
import Ark.Lib.Buffer

/- The call data of `claimRewardsAndConvertCoin(address,uint32,string)` and what a call
   returns (`distrclaim.abi.go`).

   The codec of single words and strings is the library `go-abi`, a parameter (`GoAbi`)
   with what the generated code relies on (`GoAbi.Lawful`): into a buffer of zeros a value
   is written as the ABI has it, and it is read back from there, whatever comes after it.
   The encoder writes head and tail of a call, field by field, into slices of one buffer;
   of the word of the offset it writes the last eight bytes only. What it leaves in a
   buffer of zeros is the ABI's encoding (`encodeTo_puts`), and the decoder, which takes the
   tail to start behind the head, reads it back (`decode_words`).

   `EncodeTo` takes a buffer as long as its capacity. Where a buffer is too short for the
   library it panics in Go; no lawful library is asked to write there. -/
namespace Ark.DistrClaim
open Ark.Lib Ark.Lib.Buffer Ark.Lib.Effect Ark.Lib.Positional
open Ark.Gov (Fault)

/-- What the generated code uses of `go-abi`; decoders return the bytes they have read. -/
structure GoAbi where
  encodeAddress : EthAddress → BufferM String Nat
  encodeUint32 : UInt32 → BufferM String Nat
  encodeString : String → BufferM String Nat
  encodeUint256 : Int → BufferM String Nat
  sizeString : String → Nat
  decodeAddress : Bytes → Except String (EthAddress × Nat)
  decodeUint32 : Bytes → Except String (UInt32 × Nat)
  decodeSize : Bytes → Except String Nat
  decodeString : Bytes → Except String (String × Nat)
  decodeUint256 : Bytes → Except String (Int × Nat)
  /-- `abi.ErrInvalidOffsetForDynamicField`. -/
  errInvalidOffsetForDynamicField : String

/-- `abi.Pad32`. -/
def pad32 (n : Nat) : Nat := (n + 31) / 32 * 32

def utf8 (s : String) : Bytes := s.toUTF8.data.toList

/-- A string in ABI: the word of its length, then its bytes and zeros up to a whole word. -/
def stringWords (s : String) : Bytes :=
  bytes32 s.utf8ByteSize ++ (utf8 s ++ zeros (pad32 s.utf8ByteSize - s.utf8ByteSize))

/-- Strings of 2 GiB and more are out of reach of call data. -/
def Short (s : String) : Prop := s.utf8ByteSize < 2 ^ 31

structure GoAbi.Lawful (lib : GoAbi) : Prop where
  encodeAddress : ∀ addr, Puts (lib.encodeAddress addr) addr.leftPad32
  encodeUint32 : ∀ n, Puts (lib.encodeUint32 n) (bytes32 n.toNat)
  encodeString : ∀ s, Short s → Puts (lib.encodeString s) (stringWords s)
  encodeUint256 : ∀ n : Nat, n < 2 ^ 256 → Puts (lib.encodeUint256 n) (bytes32 n)
  encodeUint256_range : ∀ n buf k buf', lib.encodeUint256 n buf = .ok k buf' → 0 ≤ n ∧ n < 2 ^ 256
  sizeString : ∀ s, lib.sizeString s = (stringWords s).length
  decodeAddress : ∀ addr rest, lib.decodeAddress (addr.leftPad32 ++ rest) = .ok (addr, 32)
  decodeUint32 : ∀ (n : UInt32) rest, lib.decodeUint32 (bytes32 n.toNat ++ rest) = .ok (n, 32)
  decodeSize : ∀ n rest, n < 2 ^ 31 → lib.decodeSize (bytes32 n ++ rest) = .ok n
  decodeString : ∀ s rest, Short s →
    lib.decodeString (stringWords s ++ rest) = .ok (s, (stringWords s).length)
  decodeUint256 : ∀ n rest, n < 2 ^ 256 → lib.decodeUint256 (bytes32 n ++ rest) = .ok (n, 32)

/-- `io.ErrUnexpectedEOF`. -/
def errUnexpectedEOF : String := "unexpected EOF"

/-- A slice expression with a bound that the buffer does not have. -/
def outOfRange : Fault := .panic "slice bounds out of range"

/-- A computation on a buffer of `n` zeros, and the buffer it leaves. -/
def filled {ε α : Type} (op : BufferM ε α) (n : Nat) : Except ε Bytes :=
  match op (zeros n) with
  | .ok _ buf => .ok buf
  | .error e _ => .error e

theorem filled_puts {ε : Type} {op : BufferM ε Nat} {bytes : Bytes} (h : Puts op bytes) :
    filled op bytes.length = .ok bytes := by
  have hrun := h []
  rw [List.append_nil, List.append_nil] at hrun
  unfold filled
  rw [hrun]

/-! ## The call -/

/-- (0x) 8b c6 f0 13. -/
def claimRewardsAndConvertCoinSelector : Bytes := [0x8b, 0xc6, 0xf0, 0x13]

def claimRewardsAndConvertCoinID : UInt32 := 2345070611

def claimRewardsAndConvertCoinCallStaticSize : Nat := 96

namespace ClaimRewardsAndConvertCoinCall
variable (lib : GoAbi)

def encodedSize (t : ClaimRewardsAndConvertCoinCall) : Nat :=
  claimRewardsAndConvertCoinCallStaticSize + lib.sizeString t.denom

def encodeTo (value : ClaimRewardsAndConvertCoinCall) : BufferM Fault Nat := do
  let dynamicOffset := claimRewardsAndConvertCoinCallStaticSize
  let _ ← slicing .err outOfRange 0 (lib.encodeAddress value.delegator)
  let _ ← slicing .err outOfRange 32 (lib.encodeUint32 value.maxRetrieve)
  overwrite outOfRange (64 + 24) (bigEndian 8 dynamicOffset)
  let n ← slicing .err outOfRange dynamicOffset (lib.encodeString value.denom)
  return dynamicOffset + n

def encode (value : ClaimRewardsAndConvertCoinCall) : Except Fault Bytes :=
  filled (value.encodeTo lib) (value.encodedSize lib)

def encodeWithSelector (t : ClaimRewardsAndConvertCoinCall) : Except Fault Bytes :=
  filled (do
    overwrite outOfRange 0 claimRewardsAndConvertCoinSelector
    slicing id outOfRange 4 (t.encodeTo lib)) (4 + t.encodedSize lib)

def decode (data : Bytes) : Except String (ClaimRewardsAndConvertCoinCall × Nat) := do
  if data.length < 96 then throw errUnexpectedEOF
  let dynamicOffset := 96
  let (delegator, _) ← lib.decodeAddress data
  let (maxRetrieve, _) ← lib.decodeUint32 (data.drop 32)
  let offset ← lib.decodeSize (data.drop 64)
  if offset ≠ dynamicOffset then throw lib.errInvalidOffsetForDynamicField
  let (denom, n) ← lib.decodeString (data.drop dynamicOffset)
  return ({ delegator, maxRetrieve, denom }, dynamicOffset + n)

/-- A call in ABI: two words, the offset of the string, and the string behind the head. -/
def words (call : ClaimRewardsAndConvertCoinCall) : Bytes :=
  call.delegator.leftPad32 ++ (bytes32 call.maxRetrieve.toNat ++
    (bytes32 96 ++ stringWords call.denom))

variable {lib} (hlib : lib.Lawful) (call : ClaimRewardsAndConvertCoinCall)
  (hdenom : Short call.denom)

theorem length_words : call.words.length = 96 + (stringWords call.denom).length := by
  simp only [words, List.length_append, length_leftPad32, length_bytes32]
  omega

include hlib in
theorem encodedSize_eq : call.encodedSize lib = call.words.length := by
  rw [encodedSize, hlib.sizeString, length_words]
  rfl

/-- The word of the offset, of which the last eight bytes are written. -/
theorem offsetWord : bytes32 96 = zeros 24 ++ bigEndian 8 96 := by decide

include hlib hdenom in
/-- In a buffer of zeros the encoder leaves the call in ABI, and says how long it is. -/
theorem encodeTo_puts : Puts (call.encodeTo lib) call.words := by
  intro rest
  have hwords : call.words = call.delegator.leftPad32 ++ (bytes32 call.maxRetrieve.toNat ++
      (zeros 24 ++ (bigEndian 8 96 ++ stringWords call.denom))) := by
    rw [words, offsetWord, List.append_assoc]
  have hzeros : zeros call.words.length ++ rest = zeros 32 ++ (zeros 32 ++ (zeros 24 ++
      (zeros 8 ++ (zeros (stringWords call.denom).length ++ rest)))) := by
    have hhead : zeros 96 = zeros 32 ++ (zeros 32 ++ (zeros 24 ++ zeros 8)) := by decide
    rw [length_words, zeros_add, hhead]
    simp only [List.append_assoc]
  have hoffset : (call.delegator.leftPad32 ++ (bytes32 call.maxRetrieve.toNat ++
      zeros 24)).length = 64 + 24 := by
    simp [length_leftPad32, length_bytes32]
  have htail : (call.delegator.leftPad32 ++ (bytes32 call.maxRetrieve.toNat ++
      (zeros 24 ++ bigEndian 8 96))).length = 96 := by
    simp [length_leftPad32, length_bytes32, length_bigEndian]
  -- one field after the other, each behind what is written already
  have haddress (buf : Bytes) : slicing Fault.err outOfRange 0 (lib.encodeAddress call.delegator)
      (zeros 32 ++ buf) = .ok 32 (call.delegator.leftPad32 ++ buf) := by
    have h := (hlib.encodeAddress call.delegator).slicing Fault.err outOfRange [] rfl buf
    rwa [length_leftPad32] at h
  have huint32 (buf : Bytes) : slicing Fault.err outOfRange 32 (lib.encodeUint32 call.maxRetrieve)
      (call.delegator.leftPad32 ++ (zeros 32 ++ buf)) =
        .ok 32 (call.delegator.leftPad32 ++ (bytes32 call.maxRetrieve.toNat ++ buf)) := by
    have h := (hlib.encodeUint32 call.maxRetrieve).slicing Fault.err outOfRange _
      (length_leftPad32 call.delegator) buf
    rwa [length_bytes32] at h
  have hover := overwrite_append outOfRange _ hoffset (zeros 8) (bigEndian 8 96)
    (zeros (stringWords call.denom).length ++ rest) rfl
  have hstring := (hlib.encodeString call.denom hdenom).slicing Fault.err outOfRange _ htail rest
  simp only [List.append_assoc] at hover hstring
  rw [hzeros, hwords]
  unfold encodeTo
  rw [bind_eq_of_ok (haddress _), bind_eq_of_ok (huint32 _)]
  simp only [claimRewardsAndConvertCoinCallStaticSize]
  rw [bind_eq_of_ok hover, bind_eq_of_ok hstring]
  show EStateM.Result.ok _ _ = _
  rw [← hwords, length_words]
  simp only [hwords, List.append_assoc]

include hlib hdenom in
theorem encode_eq : call.encode lib = .ok call.words := by
  rw [encode, encodedSize_eq hlib]
  exact filled_puts (encodeTo_puts hlib call hdenom)

include hlib hdenom in
theorem encodeWithSelector_eq :
    call.encodeWithSelector lib = .ok (claimRewardsAndConvertCoinSelector ++ call.words) := by
  have hselector := overwrite_append outOfRange [] rfl (zeros 4)
    claimRewardsAndConvertCoinSelector (zeros call.words.length) rfl
  have hcall := (encodeTo_puts hlib call hdenom).slicing id outOfRange (i := 4)
    claimRewardsAndConvertCoinSelector rfl []
  simp only [List.nil_append, List.append_nil, List.length_nil] at hselector hcall
  rw [encodeWithSelector, encodedSize_eq hlib, filled, zeros_add, bind_eq_of_ok hselector, hcall]

include hlib hdenom in
/-- What is written is read back, whatever comes after it. -/
theorem decode_words (rest : Bytes) :
    decode lib (call.words ++ rest) = .ok (call, call.words.length) := by
  have hdata : call.words ++ rest = call.delegator.leftPad32 ++ (bytes32 call.maxRetrieve.toNat ++
      (bytes32 96 ++ (stringWords call.denom ++ rest))) := by
    simp only [words, List.append_assoc]
  have hlong : ¬ (call.words ++ rest).length < 96 := by
    rw [List.length_append, length_words]
    omega
  have hword := length_leftPad32 call.delegator
  have huint32 := length_bytes32 call.maxRetrieve.toNat
  have hoffset := length_bytes32 96
  have hdrop32 : (call.words ++ rest).drop 32 = bytes32 call.maxRetrieve.toNat ++
      (bytes32 96 ++ (stringWords call.denom ++ rest)) := by
    rw [hdata, List.drop_left' hword]
  have hdrop64 : (call.words ++ rest).drop 64 = bytes32 96 ++ (stringWords call.denom ++ rest) := by
    rw [show 64 = 32 + 32 from rfl, ← List.drop_drop, hdrop32, List.drop_left' huint32]
  have hdrop96 : (call.words ++ rest).drop 96 = stringWords call.denom ++ rest := by
    rw [show 96 = 64 + 32 from rfl, ← List.drop_drop, hdrop64, List.drop_left' hoffset]
  have haddress : lib.decodeAddress (call.words ++ rest) = .ok (call.delegator, 32) := by
    rw [hdata]
    exact hlib.decodeAddress call.delegator _
  unfold decode
  rw [if_neg hlong]
  simp only [hdrop32, hdrop64, hdrop96, haddress, hlib.decodeUint32, hlib.decodeSize 96 _ (by omega),
    hlib.decodeString call.denom rest hdenom, length_words]
  rfl

end ClaimRewardsAndConvertCoinCall

/-! ## What a call returns -/

structure ClaimRewardsAndConvertCoinReturn where
  amount : Int
  deriving DecidableEq

def claimRewardsAndConvertCoinReturnStaticSize : Nat := 32

namespace ClaimRewardsAndConvertCoinReturn
variable (lib : GoAbi)

def encodedSize (_ : ClaimRewardsAndConvertCoinReturn) : Nat :=
  claimRewardsAndConvertCoinReturnStaticSize

/-- `buf[0:]` is the whole buffer. -/
def encodeTo (value : ClaimRewardsAndConvertCoinReturn) : BufferM String Nat := do
  let _ ← lib.encodeUint256 value.amount
  return claimRewardsAndConvertCoinReturnStaticSize

def encode (value : ClaimRewardsAndConvertCoinReturn) : Except String Bytes :=
  filled (value.encodeTo lib) value.encodedSize

def decode (data : Bytes) : Except String (ClaimRewardsAndConvertCoinReturn × Nat) := do
  if data.length < 32 then throw errUnexpectedEOF
  let (amount, _) ← lib.decodeUint256 data
  return ({ amount }, 32)

variable {lib} (hlib : lib.Lawful)

include hlib in
/-- Amounts of 256 bits are encoded, and no others; what is encoded is read back. -/
theorem decode_encode {value : ClaimRewardsAndConvertCoinReturn} {out : Bytes}
    (h : value.encode lib = .ok out) :
    0 ≤ value.amount ∧ out = bytes32 value.amount.toNat ∧
      ∀ rest, decode lib (out ++ rest) = .ok (value, 32) := by
  have hrange : 0 ≤ value.amount ∧ value.amount < 2 ^ 256 := by
    unfold encode filled at h
    cases hrun : value.encodeTo lib (zeros value.encodedSize) with
    | error e buf => simp [hrun] at h
    | ok n buf =>
      obtain ⟨k, buf', hword, _⟩ := bind_ok.mp hrun
      exact hlib.encodeUint256_range _ _ _ _ hword
  obtain ⟨n, hn⟩ := Int.eq_ofNat_of_zero_le hrange.1
  have hlt : n < 2 ^ 256 := by omega
  have hputs : Puts (value.encodeTo lib) (bytes32 n) := by
    intro rest
    unfold encodeTo
    rw [hn, bind_eq_of_ok (hlib.encodeUint256 n hlt rest), length_bytes32]
    rfl
  have hout : out = bytes32 n := by
    have hfilled := filled_puts hputs
    rw [length_bytes32] at hfilled
    exact Except.ok.inj (h.symm.trans hfilled)
  refine ⟨hrange.1, ?_, fun rest => ?_⟩
  · rw [hout, hn]
    rfl
  · have hlong : ¬ (out ++ rest).length < 32 := by
      rw [List.length_append, hout, length_bytes32]
      omega
    unfold decode
    rw [if_neg hlong, hout]
    simp only [hlib.decodeUint256 n rest hlt]
    cases value
    simp only at hn
    rw [hn]
    rfl

end ClaimRewardsAndConvertCoinReturn

/-! ## A codec of words and strings -/

/-- A number of `w` bytes fills the end of its word. -/
theorem bytes32_eq {w n : Nat} (hw : w ≤ 32) (hn : n < 256 ^ w) :
    bytes32 n = zeros (32 - w) ++ bigEndian w n := by
  have hdigits : digits 256 (32 - w) 0 = List.replicate (32 - w) 0 := by
    rw [digits_eq_map, List.eq_replicate_iff]
    simp
  have hsplit : digits 256 32 n = digits 256 (32 - w) 0 ++ digits 256 w n := by
    have h := digits_add (b := 256) (32 - w) w n
    rwa [Nat.sub_add_cancel hw, Nat.div_eq_of_lt hn] at h
  rw [bytes32_eq_bigEndian, bigEndian, write, hsplit, List.map_append, hdigits, List.map_replicate]
  rfl

def errDirtyPadding : String := "dirty padding"

/-- The number in the first word. -/
def readWord (data : Bytes) : Except String Nat :=
  if data.length < 32 then .error errUnexpectedEOF else .ok (ofBigEndian (data.take 32))

/-- Encoders leave the padding of a buffer alone; decoders check it. -/
def goAbi : GoAbi where
  encodeAddress addr := do
    overwrite errUnexpectedEOF 12 addr.bytes
    return 32
  encodeUint32 n := do
    overwrite errUnexpectedEOF 28 (bigEndian 4 n.toNat)
    return 32
  encodeString s := do
    overwrite errUnexpectedEOF 24 (bigEndian 8 s.utf8ByteSize)
    overwrite errUnexpectedEOF 32 (utf8 s)
    return 32 + pad32 s.utf8ByteSize
  encodeUint256 n := do
    if n < 0 then throw "negative value"
    if n ≥ 2 ^ 256 then throw "integer too large"
    overwrite errUnexpectedEOF 0 (bytes32 n.toNat)
    return 32
  sizeString s := 32 + pad32 s.utf8ByteSize
  decodeAddress data :=
    if data.length < 32 then .error errUnexpectedEOF
    else
      match readAddressWord (data.take 32) with
      | some addr => .ok (addr, 32)
      | none => .error errDirtyPadding
  decodeUint32 data := do
    let n ← readWord data
    if n ≥ 2 ^ 32 then throw errDirtyPadding
    return (.ofNat n, 32)
  decodeSize data := do
    let n ← readWord data
    if n ≥ 2 ^ 63 then throw errDirtyPadding
    return n
  decodeString data := do
    let size ← readWord data
    let padded := pad32 size
    if data.length < 32 + padded then throw errUnexpectedEOF
    if slice data (32 + size) (32 + padded) ≠ zeros (padded - size) then throw errDirtyPadding
    -- bytes that are no UTF-8 are a string in Go; here there is none to return
    match String.fromUTF8? ⟨(slice data 32 (32 + size)).toArray⟩ with
    | some s => return (s, 32 + padded)
    | none => throw "no UTF-8"
  decodeUint256 data := do
    let n ← readWord data
    return (n, 32)
  errInvalidOffsetForDynamicField := "invalid offset for dynamic field"

theorem length_utf8 (s : String) : (utf8 s).length = s.utf8ByteSize := by simp [utf8]

theorem le_pad32 (n : Nat) : n ≤ pad32 n := by
  unfold pad32
  omega

theorem length_stringWords (s : String) : (stringWords s).length = 32 + pad32 s.utf8ByteSize := by
  have hpad := le_pad32 s.utf8ByteSize
  simp only [stringWords, List.length_append, length_bytes32, length_utf8, length_zeros]
  omega

theorem fromUTF8?_utf8 (s : String) : String.fromUTF8? ⟨(utf8 s).toArray⟩ = some s := by
  have hbytes : (⟨(utf8 s).toArray⟩ : ByteArray) = s.toByteArray := by simp [utf8]
  unfold String.fromUTF8?
  rw [hbytes, dif_pos s.isValidUTF8]
  rfl

theorem readWord_bytes32 {n : Nat} (hn : n < 2 ^ 256) (rest : Bytes) :
    readWord (bytes32 n ++ rest) = .ok n := by
  have hlong : ¬ (bytes32 n ++ rest).length < 32 := by
    rw [List.length_append, length_bytes32]
    omega
  rw [readWord, if_neg hlong, List.take_left' (length_bytes32 n), ofBigEndian_bytes32 hn]

theorem goAbi_decodeString (s : String) (rest : Bytes) (hs : Short s) :
    goAbi.decodeString (stringWords s ++ rest) = .ok (s, (stringWords s).length) := by
  have hpad := le_pad32 s.utf8ByteSize
  have hsize : s.utf8ByteSize < 2 ^ 256 := Nat.lt_trans hs (by decide)
  have hlong : ¬ (stringWords s ++ rest).length < 32 + pad32 s.utf8ByteSize := by
    rw [List.length_append, length_stringWords]
    omega
  have hbytes : (bytes32 s.utf8ByteSize ++ utf8 s).length = 32 + s.utf8ByteSize := by
    rw [List.length_append, length_bytes32, length_utf8]
  have hdata : stringWords s ++ rest = bytes32 s.utf8ByteSize ++ utf8 s ++
      (zeros (pad32 s.utf8ByteSize - s.utf8ByteSize) ++ rest) := by
    simp only [stringWords, List.append_assoc]
  have htext : slice (stringWords s ++ rest) 32 (32 + s.utf8ByteSize) = utf8 s := by
    rw [slice, hdata, List.take_left' hbytes, List.drop_left' (length_bytes32 _)]
  have hzeros : slice (stringWords s ++ rest) (32 + s.utf8ByteSize) (32 + pad32 s.utf8ByteSize) =
      zeros (pad32 s.utf8ByteSize - s.utf8ByteSize) := by
    rw [slice, List.take_left' (length_stringWords s), stringWords, ← List.append_assoc,
      List.drop_left' hbytes]
  have hword : readWord (stringWords s ++ rest) = .ok s.utf8ByteSize := by
    rw [stringWords, List.append_assoc]
    exact readWord_bytes32 hsize _
  show (readWord (stringWords s ++ rest) >>= _) = _
  rw [hword]
  simp only [bind, Except.bind]
  rw [if_neg hlong, htext, hzeros, fromUTF8?_utf8, length_stringWords, if_neg (not_not.mpr rfl)]
  rfl

/-- A number of `w` bytes is written into the end of a word of zeros. -/
theorem overwrite_word {w n : Nat} (hw : w ≤ 32) (hn : n < 256 ^ w) (rest : Bytes) :
    overwrite errUnexpectedEOF (32 - w) (bigEndian w n) (zeros 32 ++ rest) =
      .ok () (bytes32 n ++ rest) := by
  have hzeros : zeros 32 ++ rest = zeros (32 - w) ++ (zeros w ++ rest) := by
    rw [← List.append_assoc, ← zeros_add, Nat.sub_add_cancel hw]
  have hlen : (zeros w).length = (bigEndian w n).length := by
    rw [length_zeros, length_bigEndian]
  rw [hzeros, overwrite_append _ _ (length_zeros _) _ _ _ hlen, bytes32_eq hw hn,
    List.append_assoc]

theorem readAddressWord_take (addr : EthAddress) (rest : Bytes) :
    readAddressWord ((addr.leftPad32 ++ rest).take 32) = some addr := by
  rw [List.take_left' (length_leftPad32 addr), readAddressWord_leftPad32]

theorem goAbi_encodeString (s : String) (hs : Short s) :
    Puts (goAbi.encodeString s) (stringWords s) := by
  intro rest
  have hpad := le_pad32 s.utf8ByteSize
  have hsize : s.utf8ByteSize < 256 ^ 8 := Nat.lt_trans hs (by decide)
  have hzeros : zeros (stringWords s).length ++ rest = zeros 32 ++ (zeros s.utf8ByteSize ++
      (zeros (pad32 s.utf8ByteSize - s.utf8ByteSize) ++ rest)) := by
    rw [length_stringWords, zeros_add, ← Nat.add_sub_cancel' hpad, zeros_add]
    simp only [List.append_assoc, Nat.add_sub_cancel_left]
  have hlen : (zeros s.utf8ByteSize).length = (utf8 s).length := by
    rw [length_zeros, length_utf8]
  have hlength := overwrite_word (w := 8) (by decide) hsize (zeros s.utf8ByteSize ++
    (zeros (pad32 s.utf8ByteSize - s.utf8ByteSize) ++ rest))
  have htext := overwrite_append errUnexpectedEOF (bytes32 s.utf8ByteSize) (length_bytes32 _)
    (zeros s.utf8ByteSize) (utf8 s)
    (zeros (pad32 s.utf8ByteSize - s.utf8ByteSize) ++ rest) hlen
  rw [hzeros]
  unfold goAbi
  simp only
  rw [bind_eq_of_ok hlength, bind_eq_of_ok htext, length_stringWords]
  simp only [stringWords, List.append_assoc]
  rfl

theorem goAbi_encodeUint256 {n : Int} (hn : 0 ≤ n ∧ n < 2 ^ 256) (buf : Bytes) :
    goAbi.encodeUint256 n buf = (do
      overwrite errUnexpectedEOF 0 (bytes32 n.toNat)
      return 32 : BufferM String Nat) buf := by
  have hneg : ¬ n < 0 := by omega
  have hbig : ¬ n ≥ 2 ^ 256 := by omega
  unfold goAbi
  simp only
  rw [if_neg hneg, if_neg hbig]

theorem goAbi_lawful : goAbi.Lawful where
  encodeAddress addr rest := by
    have hzeros : zeros 32 ++ rest = zeros 12 ++ (zeros 20 ++ rest) := by
      rw [← List.append_assoc, ← zeros_add]
    have hlen : (zeros 20).length = addr.bytes.length := by rw [addr.length_eq, length_zeros]
    have hput := overwrite_append errUnexpectedEOF (zeros 12) (length_zeros 12) (zeros 20)
      addr.bytes rest hlen
    rw [length_leftPad32, hzeros]
    unfold goAbi
    simp only
    rw [bind_eq_of_ok hput, EthAddress.leftPad32, List.append_assoc]
    rfl
  encodeUint32 n rest := by
    have hput := overwrite_word (w := 4) (by decide) n.toNat_lt rest
    rw [length_bytes32]
    unfold goAbi
    simp only
    rw [bind_eq_of_ok hput]
    rfl
  encodeString := goAbi_encodeString
  encodeUint256 n hn rest := by
    have hput := overwrite_append errUnexpectedEOF [] rfl (zeros 32) (bytes32 n) rest
      (length_bytes32 n).symm
    rw [length_bytes32, goAbi_encodeUint256 (by omega)]
    exact bind_eq_of_ok hput
  encodeUint256_range n buf k buf' h := by
    by_contra hn
    unfold goAbi at h
    simp only at h
    by_cases hneg : n < 0
    · simp [hneg] at h
    · have hbig : n ≥ 2 ^ 256 := by omega
      rw [if_neg hneg, if_pos hbig] at h
      simp at h
  sizeString s := (length_stringWords s).symm
  decodeAddress addr rest := by
    have hlong : ¬ (addr.leftPad32 ++ rest).length < 32 := by
      rw [List.length_append, length_leftPad32]
      omega
    show (if (addr.leftPad32 ++ rest).length < 32 then _ else _) = _
    rw [if_neg hlong, readAddressWord_take]
  decodeUint32 n rest := by
    have hn := n.toNat_lt
    show (readWord (bytes32 n.toNat ++ rest) >>= _) = _
    rw [readWord_bytes32 (Nat.lt_trans hn (by decide))]
    simp only [bind, Except.bind]
    rw [if_neg (Nat.not_le.mpr hn), UInt32.ofNat_toNat]
    rfl
  decodeSize n rest hn := by
    show (readWord (bytes32 n ++ rest) >>= _) = _
    rw [readWord_bytes32 (Nat.lt_trans hn (by decide))]
    simp only [bind, Except.bind]
    rw [if_neg (by omega)]
    rfl
  decodeString := goAbi_decodeString
  decodeUint256 n rest hn := by
    show (readWord (bytes32 n ++ rest) >>= _) = _
    rw [readWord_bytes32 hn]
    rfl

end Ark.DistrClaim
