import Ark.DistrClaim
import Ark.Lib.Positional

/- The call data of `withdrawTo(address,uint256)` and the answer of `underlying()`.

   `erc20WrapperWithdrawToCallData` is compared with a reader of such call data
   (`readWithdrawToCallData`): selector, address word, amount word, nothing after them.
   What the encoder writes is read back as exactly what it was given, so no two calls
   share their data; and `decodeABIAddress32` inverts the address word of every address
   other than zero. -/
namespace Ark.DistrClaim
open Ark.Lib.Positional

/-- `data[i:j]`. -/
def slice (data : Bytes) (i j : Nat) : Bytes := (data.take j).drop i

/-- An address word: 12 zero bytes, then the address. -/
def readAddressWord (word : Bytes) : Option EthAddress :=
  if h : word.length = 32 ∧ slice word 0 12 = List.replicate 12 0 then
    some ⟨slice word 12 32, by simp [slice, h.1]⟩
  else none

/-- What a contract reads from the call data. -/
def readWithdrawToCallData (data : Bytes) : Option (EthAddress × Int) :=
  if data.length = 68 ∧ slice data 0 4 = selectorWithdrawToAddressUint256 then
    (readAddressWord (slice data 4 36)).map fun receiver =>
      (receiver, (ofBigEndian (slice data 36 68) : Int))
  else none

theorem bytes32_eq_bigEndian (n : Nat) : bytes32 n = bigEndian 32 n := by
  rw [bytes32, bigEndian, write, digits_eq_map, List.map_map]
  apply List.map_congr_left
  intro i _
  exact (UInt8.ofNat_mod_size).symm

/-! ## The words of a call -/

theorem length_leftPad32 (addr : EthAddress) : addr.leftPad32.length = 32 := by
  simp [EthAddress.leftPad32, addr.length_eq]

theorem length_bytes32 (n : Nat) : (bytes32 n).length = 32 := by simp [bytes32]

/-- Where the words of the call data stand. -/
theorem slice_words {a b c : Bytes} (ha : a.length = 4) (hb : b.length = 32) (hc : c.length = 32) :
    (a ++ b ++ c).length = 68 ∧ slice (a ++ b ++ c) 0 4 = a ∧ slice (a ++ b ++ c) 4 36 = b ∧
      slice (a ++ b ++ c) 36 68 = c := by
  have hab : (a ++ b).length = 36 := by simp [ha, hb]
  refine ⟨by simp [ha, hb, hc], ?_, ?_, ?_⟩
  · rw [slice, List.append_assoc, List.take_left' ha, List.drop_zero]
  · rw [slice, List.take_left' hab, List.drop_left' ha]
  · rw [slice, List.take_of_length_le (by simp [ha, hb, hc]), List.drop_left' hab]

theorem readAddressWord_leftPad32 (addr : EthAddress) :
    readAddressWord addr.leftPad32 = some addr := by
  have hpad : (List.replicate 12 0 : Bytes).length = 12 := List.length_replicate
  have hzero : slice addr.leftPad32 0 12 = List.replicate 12 0 := by
    rw [slice, EthAddress.leftPad32, List.take_left' hpad, List.drop_zero]
  have haddr : slice addr.leftPad32 12 32 = addr.bytes := by
    rw [slice, List.take_of_length_le (by simp [length_leftPad32]), EthAddress.leftPad32,
      List.drop_left' hpad]
  rw [readAddressWord, dif_pos ⟨length_leftPad32 addr, hzero⟩]
  congr 1
  cases addr
  simpa using haddr

theorem ofBigEndian_bytes32 {n : Nat} (hn : n < 2 ^ 256) : ofBigEndian (bytes32 n) = n := by
  rw [bytes32_eq_bigEndian]
  apply ofBigEndian_bigEndian
  exact hn

theorem withdrawToCallData_ok {receiver : EthAddress} {amountWad : Int} {data : Bytes} :
    erc20WrapperWithdrawToCallData receiver amountWad = .ok data ↔
      (0 < amountWad ∧ amountWad < 2 ^ 256) ∧
        data = selectorWithdrawToAddressUint256 ++ receiver.leftPad32 ++ bytes32 amountWad.toNat := by
  unfold erc20WrapperWithdrawToCallData
  split
  · simp; omega
  · split
    · simp; omega
    · simp [eq_comm]; omega

/-- The words of the call data, and the amount that the last one spells. -/
theorem callData_words {receiver : EthAddress} {amountWad : Int} {data : Bytes}
    (h : erc20WrapperWithdrawToCallData receiver amountWad = .ok data) :
    data.length = 68 ∧ slice data 0 4 = selectorWithdrawToAddressUint256 ∧
      slice data 4 36 = receiver.leftPad32 ∧
      (ofBigEndian (slice data 36 68) : Int) = amountWad := by
  obtain ⟨⟨hpos, hlt⟩, hdata⟩ := withdrawToCallData_ok.mp h
  obtain ⟨hlen, hselector, hword, hamount⟩ :=
    slice_words (a := selectorWithdrawToAddressUint256) rfl (length_leftPad32 receiver)
      (length_bytes32 amountWad.toNat)
  rw [← hdata] at hlen hselector hword hamount
  have hnat : amountWad.toNat < 2 ^ 256 := by omega
  refine ⟨hlen, hselector, hword, ?_⟩
  rw [hamount, ofBigEndian_bytes32 hnat, Int.toNat_of_nonneg (Int.le_of_lt hpos)]

theorem readWithdrawToCallData_encoded {receiver : EthAddress} {amountWad : Int} {data : Bytes}
    (h : erc20WrapperWithdrawToCallData receiver amountWad = .ok data) :
    readWithdrawToCallData data = some (receiver, amountWad) := by
  obtain ⟨hlen, hselector, hword, hamount⟩ := callData_words h
  rw [readWithdrawToCallData, if_pos ⟨hlen, hselector⟩, hword, hamount,
    readAddressWord_leftPad32, Option.map_some]

/-! ## The answer of `underlying()` -/

theorem ofBytes_of_length {bytes : Bytes} (h : bytes.length = 20) :
    EthAddress.ofBytes bytes = ⟨bytes, h⟩ := by
  simp [EthAddress.ofBytes, Sdk.bytesToAddress, h]

theorem zero_bytes : EthAddress.zero.bytes = List.replicate 20 0 := rfl

theorem decodeABIAddress32_ok {ret : Bytes} {addr : EthAddress} :
    decodeABIAddress32 ret = .ok addr ↔
      32 ≤ ret.length ∧ slice ret 12 32 ≠ List.replicate 20 0 ∧ addr.bytes = slice ret 12 32 := by
  unfold decodeABIAddress32
  split
  case isTrue hshort => simp; omega
  case isFalse hlong =>
    -- 20 bytes are there, so `BytesToAddress` neither crops nor pads
    have hlen : (slice ret 12 32).length = 20 := by simp [slice]; omega
    have hzero : (EthAddress.mk (slice ret 12 32) hlen = .zero) ↔
        slice ret 12 32 = List.replicate 20 0 := by
      rw [← zero_bytes, EthAddress.mk.injEq]
    have haddr : EthAddress.ofBytes ((ret.take 32).drop 12) = ⟨slice ret 12 32, hlen⟩ :=
      ofBytes_of_length hlen
    simp only [haddr]
    split
    case isTrue h => simp [hzero.mp h]
    case isFalse h =>
      have hne : slice ret 12 32 ≠ List.replicate 20 0 := by
        intro heq
        exact h (hzero.mpr heq)
      constructor
      · intro hok
        cases hok
        exact ⟨by omega, hne, rfl⟩
      · intro hbytes
        obtain ⟨_, _, hbytes⟩ := hbytes
        cases addr
        rw [Except.ok.injEq, EthAddress.mk.injEq]
        exact hbytes.symm

theorem decodeABIAddress32_leftPad32 {addr : EthAddress} (hne : addr ≠ .zero) (rest : Bytes) :
    decodeABIAddress32 (addr.leftPad32 ++ rest) = .ok addr := by
  have hpad : (List.replicate 12 0 : Bytes).length = 12 := List.length_replicate
  have hword : slice (addr.leftPad32 ++ rest) 12 32 = addr.bytes := by
    rw [slice, List.take_left' (length_leftPad32 addr), EthAddress.leftPad32, List.drop_left' hpad]
  rw [decodeABIAddress32_ok, hword]
  refine ⟨by simp [length_leftPad32], ?_, rfl⟩
  intro hzero
  apply hne
  cases addr
  exact EthAddress.mk.injEq .. ▸ hzero

/-! ## Faithfulness -/

/-- **The call data of `withdrawTo` is a faithful encoding.** It exists for the amounts that a
word holds, has 68 bytes, and a contract reads from it the address and the amount that were put
in; no other call has it. The answer of `underlying()` is the address in its first word, unless
that word is missing or its address is zero. -/
theorem callData_faithful :
    (∀ (receiver : EthAddress) (amountWad : Int),
      (∃ data, erc20WrapperWithdrawToCallData receiver amountWad = .ok data) ↔
        0 < amountWad ∧ amountWad < 2 ^ 256) ∧
    (∀ (receiver : EthAddress) (amountWad : Int) (data : Bytes),
      erc20WrapperWithdrawToCallData receiver amountWad = .ok data →
        data.length = 68 ∧ slice data 0 4 = selectorWithdrawToAddressUint256 ∧
        slice data 4 36 = List.replicate 12 0 ++ receiver.bytes ∧
        (ofBigEndian (slice data 36 68) : Int) = amountWad ∧
        readWithdrawToCallData data = some (receiver, amountWad)) ∧
    (∀ (receiver receiver' : EthAddress) (amountWad amountWad' : Int) (data : Bytes),
      erc20WrapperWithdrawToCallData receiver amountWad = .ok data →
        erc20WrapperWithdrawToCallData receiver' amountWad' = .ok data →
        receiver = receiver' ∧ amountWad = amountWad') ∧
    (∀ (ret : Bytes) (addr : EthAddress),
      decodeABIAddress32 ret = .ok addr ↔
        32 ≤ ret.length ∧ slice ret 12 32 ≠ List.replicate 20 0 ∧ addr.bytes = slice ret 12 32) ∧
    (∀ ret : Bytes, (∃ addr, decodeABIAddress32 ret = .ok addr) ↔
      32 ≤ ret.length ∧ slice ret 12 32 ≠ List.replicate 20 0) ∧
    (∀ (receiver : EthAddress) (amountWad : Int) (data : Bytes), receiver ≠ .zero →
      erc20WrapperWithdrawToCallData receiver amountWad = .ok data →
        decodeABIAddress32 (slice data 4 36) = .ok receiver) := by
  refine ⟨?_, ?_, ?_, ?_, ?_, ?_⟩
  · intro receiver amountWad
    constructor
    · intro h
      obtain ⟨data, hdata⟩ := h
      exact (withdrawToCallData_ok.mp hdata).1
    · intro hrange
      exact ⟨_, withdrawToCallData_ok.mpr ⟨hrange, rfl⟩⟩
  · intro receiver amountWad data h
    obtain ⟨hlen, hselector, hword, hamount⟩ := callData_words h
    exact ⟨hlen, hselector, hword, hamount, readWithdrawToCallData_encoded h⟩
  · intro receiver receiver' amountWad amountWad' data h h'
    have hread := readWithdrawToCallData_encoded h
    rw [readWithdrawToCallData_encoded h'] at hread
    cases hread
    exact ⟨rfl, rfl⟩
  · intro ret addr
    exact decodeABIAddress32_ok
  · intro ret
    constructor
    · intro h
      obtain ⟨addr, haddr⟩ := h
      exact ⟨(decodeABIAddress32_ok.mp haddr).1, (decodeABIAddress32_ok.mp haddr).2.1⟩
    · intro h
      have hlen : (slice ret 12 32).length = 20 := by
        simp [slice]
        omega
      exact ⟨⟨slice ret 12 32, hlen⟩, decodeABIAddress32_ok.mpr ⟨h.1, h.2, rfl⟩⟩
  · intro receiver amountWad data hne h
    have hword := (callData_words h).2.2.1
    have hdecode := decodeABIAddress32_leftPad32 hne []
    rwa [List.append_nil, ← hword] at hdecode

end Ark.DistrClaim
