import Mathlib.Data.Fintype.Basic
import Mathlib.Data.List.Basic

/- Bech32: bytes as text with a human-readable prefix and a checksum.

   Eight-bit bytes are regrouped into five-bit symbols, the last one filled up
   with zero bits; six checksum symbols follow, and each symbol is one character.
   A text is accepted when it is in one letter case throughout and its lower-case
   form is the encoding of what it holds, which checks prefix, checksum and
   filling at once.

   What is proved: every encoding is accepted, in lower and in upper case, and
   gives back the bytes (`decode_encode`, `decode_upper`); and an accepted text is,
   up to its case, the one encoding of its bytes (`decode_spells`). -/
namespace Ark.Lib.Bech32

abbrev Symbol := Fin 32

/-- The five lowest bits of a number. -/
def symbolOf (n : Nat) : Symbol := Fin.ofNat 32 n

theorem val_lt_of_mem {data : List Symbol} : ∀ v ∈ data.map Fin.val, v < 32 := by
  intro v hv
  obtain ⟨d, _, hd⟩ := List.mem_map.mp hv
  rw [← hd]
  exact d.isLt

theorem toNat_lt_of_mem {bytes : List UInt8} : ∀ v ∈ bytes.map UInt8.toNat, v < 256 := by
  intro v hv
  obtain ⟨b, _, hb⟩ := List.mem_map.mp hv
  rw [← hb]
  exact b.toNat_lt

def charset : List Char :=
  ['q', 'p', 'z', 'r', 'y', '9', 'x', '8', 'g', 'f', '2', 't', 'v', 'd', 'w', '0',
   's', '3', 'j', 'n', '5', '4', 'k', 'h', 'c', 'e', '6', 'm', 'u', 'a', '7', 'l']

def symbolChar (d : Symbol) : Char := charset.getD d.val 'q'

def charSymbol (c : Char) : Option Symbol :=
  (List.finRange 32).find? fun d => symbolChar d = c

/-! ## Checksum -/

def generator : List Nat := [0x3b6a57b2, 0x26508e6d, 0x1ea119fa, 0x3d4233dd, 0x2a1462b3]

def polymodStep (chk value : Nat) : Nat :=
  let top := chk >>> 25
  generator.zipIdx.foldl
    (fun c g => if (top >>> g.2) &&& 1 = 1 then c ^^^ g.1 else c)
    (((chk &&& 0x1ffffff) <<< 5) ^^^ value)

def polymod (values : List Nat) : Nat := values.foldl polymodStep 1

def hrpExpand (hrp : List Char) : List Nat :=
  hrp.map (·.toNat >>> 5) ++ 0 :: hrp.map (·.toNat &&& 31)

def checksum (hrp : List Char) (data : List Symbol) : List Symbol :=
  let values := hrpExpand hrp ++ data.map Fin.val ++ List.replicate 6 0
  let mod := polymod values ^^^ 1
  (List.range 6).map fun i => Fin.ofNat 32 (mod >>> (5 * (5 - i)))

/-! ## Regrouping -/

/-- The `width` lowest bits of a number, highest first. -/
def bits (width n : Nat) : List Bool := (List.range width).map fun i => n.testBit (width - 1 - i)

def ofBits (l : List Bool) : Nat := l.foldl (fun n b => 2 * n + b.toNat) 0

/-- Groups of five bits; the last one is filled up with zeros. -/
def toSymbols : List Bool → List Symbol
  | a :: b :: c :: d :: e :: rest => Fin.ofNat 32 (ofBits [a, b, c, d, e]) :: toSymbols rest
  | [a, b, c, d] => [Fin.ofNat 32 (ofBits [a, b, c, d, false])]
  | [a, b, c] => [Fin.ofNat 32 (ofBits [a, b, c, false, false])]
  | [a, b] => [Fin.ofNat 32 (ofBits [a, b, false, false, false])]
  | [a] => [Fin.ofNat 32 (ofBits [a, false, false, false, false])]
  | [] => []

/-- Groups of eight bits; bits that fill no group are dropped. -/
def toBytes : List Bool → List UInt8
  | a :: b :: c :: d :: e :: f :: g :: h :: rest =>
    UInt8.ofNat (ofBits [a, b, c, d, e, f, g, h]) :: toBytes rest
  | _ => []

def symbolBits (data : List Symbol) : List Bool := data.flatMap fun d => bits 5 d.val

def byteBits (bytes : List UInt8) : List Bool := bytes.flatMap fun b => bits 8 b.toNat

theorem bits_ofBits : ∀ a b c d e : Bool,
    bits 5 (Fin.ofNat 32 (ofBits [a, b, c, d, e]) : Symbol).val = [a, b, c, d, e] := by
  decide

theorem symbolBits_ofBits (a b c d e : Bool) :
    symbolBits [Fin.ofNat 32 (ofBits [a, b, c, d, e])] = [a, b, c, d, e] := by
  rw [symbolBits, List.flatMap_singleton, bits_ofBits]

/-- The symbols of a list of bits hold these bits, and fewer than five zeros after them. -/
theorem symbolBits_toSymbols (l : List Bool) :
    ∃ pad, pad.length < 5 ∧ symbolBits (toSymbols l) = l ++ pad := by
  fun_induction toSymbols l with
  | case1 a b c d e rest ih =>
    obtain ⟨pad, hlen, hpad⟩ := ih
    refine ⟨pad, hlen, ?_⟩
    unfold symbolBits at hpad ⊢
    rw [List.flatMap_cons, bits_ofBits, hpad]
    rfl
  | case2 a b c d => exact ⟨[false], by decide, symbolBits_ofBits a b c d false⟩
  | case3 a b c => exact ⟨[false, false], by decide, symbolBits_ofBits a b c false false⟩
  | case4 a b => exact ⟨[false, false, false], by decide, symbolBits_ofBits a b false false false⟩
  | case5 a =>
    exact ⟨[false, false, false, false], by decide, symbolBits_ofBits a false false false false⟩
  | case6 => exact ⟨[], by decide, rfl⟩

theorem toBytes_short {l : List Bool} (h : l.length < 8) : toBytes l = [] := by
  fun_cases toBytes l with
  | case1 => simp at h; omega
  | case2 => rfl

theorem ofBits_bits : ∀ n : Fin 256, ofBits (bits 8 n.val) = n.val := by
  decide +kernel

/-- The bytes of the bits of bytes, however few bits follow. -/
theorem toBytes_byteBits (bytes : List UInt8) {pad : List Bool} (h : pad.length < 8) :
    toBytes (byteBits bytes ++ pad) = bytes := by
  induction bytes with
  | nil => exact toBytes_short h
  | cons b bytes ih =>
    have hcons : byteBits (b :: bytes) ++ pad = bits 8 b.toNat ++ (byteBits bytes ++ pad) := by
      simp [byteBits]
    have hb : ofBits (bits 8 b.toNat) = b.toNat := ofBits_bits ⟨b.toNat, b.toNat_lt⟩
    calc toBytes (byteBits (b :: bytes) ++ pad)
        = toBytes (bits 8 b.toNat ++ (byteBits bytes ++ pad)) := by rw [hcons]
      _ = UInt8.ofNat (ofBits (bits 8 b.toNat)) :: toBytes (byteBits bytes ++ pad) := rfl
      _ = b :: bytes := by rw [hb, ih, UInt8.ofNat_toNat]

/-! ## Encoding and decoding -/

def encode (hrp : List Char) (bytes : List UInt8) : List Char :=
  let data := toSymbols (byteBits bytes)
  hrp ++ '1' :: (data ++ checksum hrp data).map symbolChar

/-- What follows the prefix and the separator, without the checksum, as bytes. -/
def payload (hrp text : List Char) : Option (List UInt8) :=
  ((text.drop (hrp.length + 1)).mapM charSymbol).map fun symbols =>
    toBytes (symbolBits (symbols.take (symbols.length - 6)))

def decode (hrp text : List Char) : Option (List UInt8) :=
  let lower := text.map Char.toLower
  if text = lower ∨ text = text.map Char.toUpper then
    (payload hrp lower).filter fun bytes => encode hrp bytes = lower
  else none

theorem charSymbol_symbolChar : ∀ d : Symbol, charSymbol (symbolChar d) = some d := by
  decide

theorem mapM_charSymbol (data : List Symbol) :
    (data.map symbolChar).mapM charSymbol = some data := by
  rw [List.mapM_map]
  induction data with
  | nil => rfl
  | cons d data ih =>
    rw [List.mapM_cons, ih]
    simp [charSymbol_symbolChar]

/-- What an encoding holds is what was encoded. -/
theorem payload_encode (hrp : List Char) (bytes : List UInt8) :
    payload hrp (encode hrp bytes) = some bytes := by
  obtain ⟨pad, hlen, hpad⟩ := symbolBits_toSymbols (byteBits bytes)
  have hdrop : (encode hrp bytes).drop (hrp.length + 1) =
      (toSymbols (byteBits bytes) ++ checksum hrp (toSymbols (byteBits bytes))).map symbolChar := by
    unfold encode
    rw [List.drop_append]
    simp
  have htake : ∀ data : List Symbol, (data ++ checksum hrp data).take
      ((data ++ checksum hrp data).length - 6) = data := by
    intro data
    have hsix : (checksum hrp data).length = 6 := by simp [checksum]
    rw [List.length_append, hsix, Nat.add_sub_cancel, List.take_left]
  unfold payload
  rw [hdrop, mapM_charSymbol, Option.map_some, htake, hpad, toBytes_byteBits bytes (by omega)]

theorem encode_injective {hrp : List Char} {a b : List UInt8} (h : encode hrp a = encode hrp b) :
    a = b := by
  have ha := payload_encode hrp a
  rw [h, payload_encode] at ha
  exact (Option.some.inj ha).symm

/-- A character that is its own lower case, also by way of its upper case. -/
def LowerCase (c : Char) : Prop :=
  c.toLower = c ∧ c.toUpper.toLower = c ∧ c.toUpper.toUpper = c.toUpper

instance (c : Char) : Decidable (LowerCase c) := inferInstanceAs (Decidable (_ ∧ _ ∧ _))

theorem symbolChar_lowerCase : ∀ d : Symbol, LowerCase (symbolChar d) := by
  decide

section Accepts
variable {hrp : List Char}

theorem encode_lowerCase (h : ∀ c ∈ hrp, LowerCase c) (bytes : List UInt8) :
    ∀ c ∈ encode hrp bytes, LowerCase c := by
  intro c hc
  unfold encode at hc
  rw [List.mem_append, List.mem_cons, List.mem_map] at hc
  rcases hc with hc | hc | ⟨d, _, hd⟩
  · exact h c hc
  · rw [hc]
    decide
  · rw [← hd]
    exact symbolChar_lowerCase d

theorem map_toLower {text : List Char} (h : ∀ c ∈ text, LowerCase c) :
    text.map Char.toLower = text := by
  calc text.map Char.toLower = text.map id := List.map_congr_left fun c hc => (h c hc).1
    _ = text := List.map_id text

theorem map_toUpper_toLower {text : List Char} (h : ∀ c ∈ text, LowerCase c) :
    (text.map Char.toUpper).map Char.toLower = text := by
  rw [List.map_map]
  calc text.map (Char.toLower ∘ Char.toUpper) = text.map id :=
        List.map_congr_left fun c hc => (h c hc).2.1
    _ = text := List.map_id text

theorem decode_encode (h : ∀ c ∈ hrp, LowerCase c) (bytes : List UInt8) :
    decode hrp (encode hrp bytes) = some bytes := by
  have hlower := map_toLower (encode_lowerCase h bytes)
  unfold decode
  simp only [hlower]
  rw [if_pos (.inl trivial), payload_encode]
  simp

theorem decode_upper (h : ∀ c ∈ hrp, LowerCase c) (bytes : List UInt8) :
    decode hrp ((encode hrp bytes).map Char.toUpper) = some bytes := by
  have hlower := map_toUpper_toLower (encode_lowerCase h bytes)
  have hupper : (encode hrp bytes).map Char.toUpper =
      ((encode hrp bytes).map Char.toUpper).map Char.toUpper := by
    rw [List.map_map]
    exact (List.map_congr_left fun c hc => (encode_lowerCase h bytes c hc).2.2).symm
  unfold decode
  simp only [hlower]
  rw [if_pos (.inr hupper), payload_encode]
  simp

/-- An accepted text is the encoding of its bytes, up to its case. -/
theorem decode_spells {text : List Char} {bytes : List UInt8} (h : decode hrp text = some bytes) :
    encode hrp bytes = text.map Char.toLower := by
  unfold decode at h
  simp only at h
  split at h
  · obtain ⟨_, hspells⟩ := Option.filter_eq_some_iff.mp h
    simpa using hspells
  · cases h

end Accepts
end Ark.Lib.Bech32
