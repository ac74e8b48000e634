import Ark.Lib.Bech32
import Ark.Lib.Positional

/- Regrouping the bits of a list of values, with an accumulator.

   `convertbits` shifts the values into one number and takes groups off its upper end
   as soon as there are bits enough. After any values the accumulator is their number in
   base `2 ^ frombits` and the groups taken are its digits in base `2 ^ tobits`, but for
   the bits that are pending (`foldl_regroup`). Where none are left pending, the groups
   are the digits of that number (`convertbits_eq_digits`), so the way back gives the
   values again (`convertbits_convertbits`), and bytes become the symbols of their bits
   (`toSymbols_byteBits`). -/
namespace Ark.Lib.Bech32
open Positional

/-- The state of the loop. -/
structure Regroup where
  acc : Nat
  bits : Nat
  ret : List Nat

/-- The inner loop; a round takes bits away, so their number is fuel enough. -/
def drain (tobits acc : Nat) : Nat → Nat → List Nat → Nat × List Nat
  | 0, bits, ret => (bits, ret)
  | fuel + 1, bits, ret =>
    if tobits ≤ bits then
      drain tobits acc fuel (bits - tobits)
        (ret ++ [(acc >>> (bits - tobits)) &&& ((1 <<< tobits) - 1)])
    else (bits, ret)

def regroup (frombits tobits : Nat) (s : Regroup) (value : Nat) : Regroup :=
  let acc := (s.acc <<< frombits) ||| value
  let bits := s.bits + frombits
  let out := drain tobits acc bits bits s.ret
  ⟨acc, out.1, out.2⟩

def convertbits (data : List Nat) (frombits tobits : Nat) (pad : Bool) : List Nat :=
  let s := data.foldl (regroup frombits tobits) ⟨0, 0, []⟩
  if pad ∧ s.bits ≠ 0 then
    s.ret ++ [(s.acc <<< (tobits - s.bits)) &&& ((1 <<< tobits) - 1)]
  else s.ret

section Loop
variable {frombits tobits : Nat} (hto : 0 < tobits)

include hto in
/-- The groups that are taken off are the next digits of the accumulator. -/
theorem drain_eq (acc : Nat) {fuel bits : Nat} (hfuel : bits ≤ fuel) (ret : List Nat) :
    drain tobits acc fuel bits ret = (bits % tobits,
      ret ++ digits (2 ^ tobits) (bits / tobits) (acc / 2 ^ (bits % tobits))) := by
  induction fuel generalizing bits ret with
  | zero =>
    have hbits : bits = 0 := by omega
    simp [hbits, drain, digits]
  | succ fuel ih =>
    rw [drain]
    split
    case isTrue hle =>
      have hmod : (bits - tobits) % tobits = bits % tobits := (Nat.mod_eq_sub_mod hle).symm
      have hdiv : bits / tobits = (bits - tobits) / tobits + 1 := Nat.div_eq_sub_div hto hle
      have hplace : bits % tobits + tobits * ((bits - tobits) / tobits) = bits - tobits := by
        rw [← hmod, Nat.mod_add_div]
      have hgroup : (acc >>> (bits - tobits)) &&& ((1 <<< tobits) - 1) =
          acc / 2 ^ (bits % tobits) / (2 ^ tobits) ^ ((bits - tobits) / tobits) % 2 ^ tobits := by
        rw [Nat.one_shiftLeft, Nat.and_two_pow_sub_one_eq_mod, Nat.shiftRight_eq_div_pow,
          Nat.div_div_eq_div_mul, ← Nat.pow_mul, ← Nat.pow_add, hplace]
      rw [ih (by omega), hmod, hdiv, digits_cons, hgroup, List.append_assoc]
      rfl
    case isFalse hlt =>
      have hlt : bits < tobits := by omega
      rw [Nat.mod_eq_of_lt hlt, Nat.div_eq_of_lt hlt, digits, List.append_nil]

include hto in
theorem foldl_regroup {data : List Nat} (hdata : ∀ v ∈ data, v < 2 ^ frombits) :
    data.foldl (regroup frombits tobits) ⟨0, 0, []⟩ =
      ⟨value (2 ^ frombits) data, frombits * data.length % tobits,
        digits (2 ^ tobits) (frombits * data.length / tobits)
          (value (2 ^ frombits) data / 2 ^ (frombits * data.length % tobits))⟩ := by
  induction data using List.reverseRecOn with
  | nil => simp [value, digits]
  | append_singleton data v ih =>
    have hv : v < 2 ^ frombits := hdata v (by simp)
    have hrest : ∀ x ∈ data, x < 2 ^ frombits := by
      intro x hx
      exact hdata x (List.mem_append_left _ hx)
    have hacc : (value (2 ^ frombits) data <<< frombits) ||| v =
        value (2 ^ frombits) (data ++ [v]) := by
      rw [value_append, ← Nat.shiftLeft_add_eq_or_of_lt hv, Nat.shiftLeft_eq, Nat.mul_comm]
    have hlen : frombits * (data ++ [v]).length = frombits * data.length + frombits := by
      rw [List.length_append, List.length_singleton, Nat.mul_add, Nat.mul_one]
    have hold := Nat.div_add_mod (frombits * data.length) tobits
    rw [List.foldl_append, ih hrest, List.foldl_cons, List.foldl_nil, regroup]
    simp only [hacc, hlen, drain_eq hto _ (Nat.le_refl _)]
    generalize frombits * data.length = n at hold
    have hmod : (n % tobits + frombits) % tobits = (n + frombits) % tobits := by
      rw [Nat.mod_add_mod]
    have hdiv : (n + frombits) / tobits = n / tobits + (n % tobits + frombits) / tobits := by
      calc (n + frombits) / tobits
          = (tobits * (n / tobits) + (n % tobits + frombits)) / tobits := by
            rw [← Nat.add_assoc, hold]
        _ = n / tobits + (n % tobits + frombits) / tobits := Nat.mul_add_div hto _ _
    have hplace : (n % tobits + frombits) % tobits +
        tobits * ((n % tobits + frombits) / tobits) = frombits + n % tobits := by
      rw [Nat.mod_add_div, Nat.add_comm]
    -- the digits taken before are the high digits of the longer number
    have hhigh : value (2 ^ frombits) (data ++ [v]) / 2 ^ ((n % tobits + frombits) % tobits) /
        (2 ^ tobits) ^ ((n % tobits + frombits) / tobits) =
          value (2 ^ frombits) data / 2 ^ (n % tobits) := by
      rw [Nat.div_div_eq_div_mul, ← Nat.pow_mul, ← Nat.pow_add, hplace, Nat.pow_add,
        ← Nat.div_div_eq_div_mul, value_append, Nat.mul_add_div (Nat.two_pow_pos frombits),
        Nat.div_eq_of_lt hv, Nat.add_zero]
    rw [← hhigh, ← digits_add, ← hdiv, hmod]

include hto in
/-- Where no bits are left over the groups are the digits of the whole number. -/
theorem convertbits_eq_digits {data : List Nat} (hdata : ∀ v ∈ data, v < 2 ^ frombits)
    (hdvd : tobits ∣ frombits * data.length) (pad : Bool) :
    convertbits data frombits tobits pad =
      digits (2 ^ tobits) (frombits * data.length / tobits) (value (2 ^ frombits) data) := by
  have hzero : frombits * data.length % tobits = 0 := Nat.mod_eq_zero_of_dvd hdvd
  simp [convertbits, foldl_regroup hto hdata, hzero]

end Loop

/-- Regrouping without remainder is undone by regrouping back. -/
theorem convertbits_convertbits {frombits tobits : Nat} (hfrom : 0 < frombits) (hto : 0 < tobits)
    {data : List Nat} (hdata : ∀ v ∈ data, v < 2 ^ frombits)
    (hdvd : tobits ∣ frombits * data.length) (pad pad' : Bool) :
    convertbits (convertbits data frombits tobits pad) tobits frombits pad' = data := by
  have hlen : tobits * (frombits * data.length / tobits) = frombits * data.length :=
    Nat.mul_div_cancel' hdvd
  have hfit : value (2 ^ frombits) data < (2 ^ tobits) ^ (frombits * data.length / tobits) := by
    rw [← Nat.pow_mul, hlen, Nat.pow_mul]
    exact value_lt hdata (Nat.two_pow_pos frombits)
  have hgroups : ∀ v ∈ convertbits data frombits tobits pad, v < 2 ^ tobits := by
    intro v hv
    rw [convertbits_eq_digits hto hdata hdvd] at hv
    exact lt_of_mem_digits (Nat.two_pow_pos tobits) hv
  have hback : (convertbits data frombits tobits pad).length = frombits * data.length / tobits := by
    rw [convertbits_eq_digits hto hdata hdvd, length_digits]
  rw [convertbits_eq_digits hfrom hgroups (by rw [hback, hlen]; exact Nat.dvd_mul_right _ _), hback,
    hlen, Nat.mul_div_cancel_left _ hfrom, convertbits_eq_digits hto hdata hdvd,
    value_digits_of_lt hfit, digits_value data hdata]

/-! ## The symbols of bytes -/

theorem foldl_bits (l : List Bool) (n : Nat) :
    l.foldl (fun n b => 2 * n + b.toNat) n = 2 ^ l.length * n + ofBits l := by
  induction l generalizing n with
  | nil => simp [ofBits]
  | cons b l ih =>
    have hhead : ofBits (b :: l) = 2 ^ l.length * (2 * 0 + b.toNat) + ofBits l := ih _
    rw [Nat.mul_zero, Nat.zero_add] at hhead
    rw [List.foldl_cons, ih, hhead, List.length_cons, Nat.pow_succ, Nat.mul_add, Nat.mul_assoc,
      Nat.add_assoc]

/-- Groups of bits spell the value of what they are the bits of. -/
theorem ofBits_flatMap {w : Nat} {ds : List Nat} (h : ∀ d ∈ ds, ofBits (bits w d) = d) :
    ofBits (ds.flatMap (bits w)) = value (2 ^ w) ds := by
  induction ds using List.reverseRecOn with
  | nil => rfl
  | append_singleton ds d ih =>
    have hrest : ∀ x ∈ ds, ofBits (bits w x) = x := by
      intro x hx
      exact h x (List.mem_append_left _ hx)
    have hlen : (bits w d).length = w := by simp [bits]
    rw [List.flatMap_append, List.flatMap_singleton, ofBits, List.foldl_append, foldl_bits, hlen,
      h d (by simp), value_append, ← ih hrest]
    rfl

theorem ofBits_bits_five : ∀ d : Symbol, ofBits (bits 5 d.val) = d.val := by
  decide

/-- The symbols of the bits of bytes are the bytes in groups of five bits. -/
theorem toSymbols_byteBits {bytes : List UInt8} (h : 5 ∣ 8 * bytes.length) (pad : Bool) :
    (toSymbols (byteBits bytes)).map Fin.val = convertbits (bytes.map UInt8.toNat) 8 5 pad := by
  obtain ⟨fill, hfill, hbits⟩ := symbolBits_toSymbols (byteBits bytes)
  have hsymbollen : (symbolBits (toSymbols (byteBits bytes))).length =
      5 * (toSymbols (byteBits bytes)).length := by
    simp [symbolBits, bits, Nat.mul_comm]
  have hbytelen : (byteBits bytes).length = 8 * bytes.length := by
    simp [byteBits, bits, Nat.mul_comm]
  have hlen : 8 * bytes.length / 5 = (toSymbols (byteBits bytes)).length := by
    rw [hbits, List.length_append, hbytelen] at hsymbollen
    omega
  have hnil : fill = [] := by
    rw [hbits, List.length_append, hbytelen] at hsymbollen
    exact List.eq_nil_of_length_eq_zero (by omega)
  have hvalue : value (2 ^ 8) (bytes.map UInt8.toNat) =
      value 32 ((toSymbols (byteBits bytes)).map Fin.val) := by
    calc value (2 ^ 8) (bytes.map UInt8.toNat)
        = ofBits ((bytes.map UInt8.toNat).flatMap (bits 8)) := by
          apply (ofBits_flatMap _).symm
          intro v hv
          exact ofBits_bits ⟨v, toNat_lt_of_mem v hv⟩
      _ = ofBits (byteBits bytes) := by rw [List.flatMap_map, byteBits]
      _ = ofBits (symbolBits (toSymbols (byteBits bytes))) := by
          rw [hbits, hnil, List.append_nil]
      _ = ofBits (((toSymbols (byteBits bytes)).map Fin.val).flatMap (bits 5)) := by
          rw [List.flatMap_map, symbolBits]
      _ = value (2 ^ 5) ((toSymbols (byteBits bytes)).map Fin.val) := by
          apply ofBits_flatMap
          intro v hv
          exact ofBits_bits_five ⟨v, val_lt_of_mem v hv⟩
  have hback := digits_value ((toSymbols (byteBits bytes)).map Fin.val) val_lt_of_mem
  rw [List.length_map] at hback
  rw [convertbits_eq_digits (by decide) toNat_lt_of_mem (by simpa using h), List.length_map, hlen, hvalue]
  exact hback.symm

end Ark.Lib.Bech32
