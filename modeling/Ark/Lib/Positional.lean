import Mathlib.Algebra.Group.Nat.Defs
import Mathlib.Data.List.Induction
import Mathlib.Order.Lattice

/- Numbers written in a fixed number of digits, the most significant first.

   `digits b w n` writes the `w` low digits of `n` in base `b`, and `value b` reads
   them back. Two numbers that fit the width compare as their digits do from left to
   right (`digits_lt_iff`), which is what makes such a text, or such bytes, usable as a
   sorted key. The order of lists is the lexicographic one of the library.

   `write` puts a digit down as a byte; big-endian words (`bigEndian`) and decimal
   numerals with leading zeros (`decimal`) are its two uses. -/
namespace Ark.Lib.Positional

def digits (b : Nat) : Nat → Nat → List Nat
  | 0, _ => []
  | w + 1, n => digits b w (n / b) ++ [n % b]

def value (b : Nat) (ds : List Nat) : Nat := ds.foldl (fun n d => b * n + d) 0

section Reading
variable {b : Nat}

@[simp] theorem length_digits (w n : Nat) : (digits b w n).length = w := by
  induction w generalizing n with
  | zero => rfl
  | succ w ih => simp [digits, ih]

theorem lt_of_mem_digits (hb : 0 < b) {w n d : Nat} (hd : d ∈ digits b w n) : d < b := by
  induction w generalizing n with
  | zero => cases hd
  | succ w ih =>
    rcases List.mem_append.mp hd with hd | hd
    · exact ih hd
    · rw [List.mem_singleton.mp hd]
      exact Nat.mod_lt n hb

theorem value_append (ds : List Nat) (d : Nat) : value b (ds ++ [d]) = b * value b ds + d := by
  simp [value]

theorem value_digits (w n : Nat) : value b (digits b w n) = n % b ^ w := by
  induction w generalizing n with
  | zero => simp [digits, value, Nat.mod_one]
  | succ w ih =>
    calc value b (digits b (w + 1) n)
        = b * (n / b % b ^ w) + n % b := by rw [digits, value_append, ih]
      _ = n % (b * b ^ w) := by rw [Nat.mod_mul, Nat.add_comm]
      _ = n % b ^ (w + 1) := by rw [Nat.pow_succ, Nat.mul_comm]

theorem value_digits_of_lt {w n : Nat} (hn : n < b ^ w) : value b (digits b w n) = n := by
  rw [value_digits, Nat.mod_eq_of_lt hn]

theorem digits_value (ds : List Nat) (hds : ∀ d ∈ ds, d < b) :
    digits b ds.length (value b ds) = ds := by
  induction ds using List.reverseRecOn with
  | nil => rfl
  | append_singleton ds d ih =>
    have hd : d < b := hds d (by simp)
    have hb : 0 < b := by omega
    have hdiv : (b * value b ds + d) / b = value b ds := by
      rw [Nat.mul_add_div hb, Nat.div_eq_of_lt hd, Nat.add_zero]
    have hmod : (b * value b ds + d) % b = d := by
      rw [Nat.mul_add_mod, Nat.mod_eq_of_lt hd]
    have hrest : digits b ds.length (value b ds) = ds := by
      apply ih
      intro x hx
      exact hds x (List.mem_append_left _ hx)
    rw [List.length_append, List.length_singleton, value_append, digits, hdiv, hmod, hrest]

theorem value_lt {ds : List Nat} (hds : ∀ d ∈ ds, d < b) (hb : 0 < b) :
    value b ds < b ^ ds.length := by
  rw [← digits_value ds hds, value_digits, length_digits]
  exact Nat.mod_lt _ (Nat.pow_pos hb)

/-- The digits, each by itself. -/
theorem digits_eq_map (w n : Nat) :
    digits b w n = (List.range w).reverse.map fun i => n / b ^ i % b := by
  induction w generalizing n with
  | zero => rfl
  | succ w ih =>
    rw [digits, ih, List.range_succ_eq_map, List.reverse_cons, List.map_append, ← List.map_reverse,
      List.map_map]
    congr 1
    · apply List.map_congr_left
      intro i _
      show n / b / b ^ i % b = n / b ^ (i + 1) % b
      rw [Nat.div_div_eq_div_mul, Nat.pow_succ, Nat.mul_comm]
    · simp

theorem digits_cons (w n : Nat) : digits b (w + 1) n = n / b ^ w % b :: digits b w n := by
  rw [digits_eq_map, digits_eq_map, List.range_succ, List.reverse_append]
  rfl

/-- The high digits and the low digits. -/
theorem digits_add (v w n : Nat) : digits b (v + w) n = digits b v (n / b ^ w) ++ digits b w n := by
  induction w generalizing n with
  | zero => simp [digits]
  | succ w ih =>
    rw [← Nat.add_assoc, digits, ih, digits, List.append_assoc, Nat.div_div_eq_div_mul,
      Nat.pow_succ, Nat.mul_comm]

theorem digits_injective {w m n : Nat} (hm : m < b ^ w) (hn : n < b ^ w)
    (h : digits b w m = digits b w n) : m = n := by
  rw [← value_digits_of_lt hm, h, value_digits_of_lt hn]

theorem value_cons (d : Nat) (ds : List Nat) :
    value b (d :: ds) = d * b ^ ds.length + value b ds := by
  induction ds using List.reverseRecOn with
  | nil => simp [value]
  | append_singleton ds x ih =>
    rw [← List.cons_append, value_append, value_append, ih, List.length_append,
      List.length_singleton, Nat.pow_succ, Nat.mul_add]
    have hpow : b * (d * b ^ ds.length) = d * (b ^ ds.length * b) := by
      rw [Nat.mul_left_comm, Nat.mul_comm b]
    omega

theorem pow_length_le_value {d : Nat} {ds : List Nat} (hd : 0 < d) :
    b ^ ds.length ≤ value b (d :: ds) := by
  rw [value_cons]
  have hmul : 1 * b ^ ds.length ≤ d * b ^ ds.length := Nat.mul_le_mul_right _ hd
  omega

theorem length_le_of_value_eq {d e : Nat} {ds es : List Nat} (he : 0 < e)
    (hds : ∀ x ∈ d :: ds, x < b) (h : value b (d :: ds) = value b (e :: es)) :
    es.length ≤ ds.length := by
  have hd : d < b := hds d List.mem_cons_self
  have hb : 0 < b := by omega
  have hlt : b ^ es.length < b ^ (ds.length + 1) := by
    calc b ^ es.length
        ≤ value b (e :: es) := pow_length_le_value he
      _ = value b (d :: ds) := h.symm
      _ < b ^ (ds.length + 1) := value_lt hds hb
  by_contra hlen
  have hle : b ^ (ds.length + 1) ≤ b ^ es.length := Nat.pow_le_pow_right hb (by omega)
  omega

/-- Numerals without leading zeros are as long as their values say. -/
theorem length_eq_of_value_eq {d e : Nat} {ds es : List Nat} (hd : 0 < d) (he : 0 < e)
    (hds : ∀ x ∈ d :: ds, x < b) (hes : ∀ x ∈ e :: es, x < b)
    (h : value b (d :: ds) = value b (e :: es)) : (d :: ds).length = (e :: es).length := by
  have hle := length_le_of_value_eq he hds h
  have hge := length_le_of_value_eq hd hes h.symm
  simp only [List.length_cons]
  omega

end Reading

/-! ## Order -/

section Order
variable {α β γ : Type} [LT α] [LT β]

/-- Texts that start with equally long fields compare field by field. -/
theorem append_lt_append_iff {a a' b b' : List α} (hlen : a.length = a'.length) :
    a ++ b < a' ++ b' ↔ a < a' ∨ a = a' ∧ b < b' := by
  induction a generalizing a' with
  | nil =>
    rw [List.length_nil] at hlen
    rw [List.eq_nil_of_length_eq_zero hlen.symm]
    simp
  | cons x a ih =>
    cases a' with
    | nil => simp at hlen
    | cons y a' =>
      have hlen : a.length = a'.length := by simpa using hlen
      have hrest := ih hlen
      simp only [List.cons_append, List.cons_lt_cons_iff, hrest, List.cons.injEq, and_or_left,
        or_assoc, and_assoc]

theorem map_lt_map_iff {f : α → β} {as bs : List α}
    (hf : ∀ a ∈ as, ∀ b ∈ bs, f a < f b ↔ a < b)
    (hinj : ∀ a ∈ as, ∀ b ∈ bs, f a = f b ↔ a = b) : as.map f < bs.map f ↔ as < bs := by
  induction as generalizing bs with
  | nil =>
    cases bs with
    | nil => simp
    | cons b bs => simp
  | cons a as ih =>
    cases bs with
    | nil => simp
    | cons b bs =>
      have hrest : as.map f < bs.map f ↔ as < bs := by
        apply ih
        · intro x hx y hy
          exact hf x (List.mem_cons_of_mem _ hx) y (List.mem_cons_of_mem _ hy)
        · intro x hx y hy
          exact hinj x (List.mem_cons_of_mem _ hx) y (List.mem_cons_of_mem _ hy)
      simp only [List.map_cons, List.cons_lt_cons_iff, hrest,
        hf a List.mem_cons_self b List.mem_cons_self,
        hinj a List.mem_cons_self b List.mem_cons_self]

/-- Where keys compare as what they stand for does, one key stands for one thing. -/
theorem eq_of_lt_iff [LinearOrder γ] {a a' : α} {c c' : γ} (hirrefl : ∀ x : α, ¬ x < x)
    (hlt : a < a' ↔ c < c') (hgt : a' < a ↔ c' < c) (h : a = a') : c = c' := by
  rw [h] at hlt hgt
  have hnlt : ¬ c < c' := mt hlt.mpr (hirrefl a')
  have hngt : ¬ c' < c := mt hgt.mpr (hirrefl a')
  exact le_antisymm (not_lt.mp hngt) (not_lt.mp hnlt)

end Order

theorem digits_lt_iff {b w m n : Nat} (hm : m < b ^ w) (hn : n < b ^ w) :
    digits b w m < digits b w n ↔ m < n := by
  induction w generalizing m n with
  | zero => simp [digits] at *; omega
  | succ w ih =>
    have hb : 0 < b := by
      rcases Nat.eq_zero_or_pos b with hb | hb
      · simp [hb] at hm
      · exact hb
    have hm' : m / b < b ^ w := by
      apply Nat.div_lt_of_lt_mul
      rwa [Nat.mul_comm, ← Nat.pow_succ]
    have hn' : n / b < b ^ w := by
      apply Nat.div_lt_of_lt_mul
      rwa [Nat.mul_comm, ← Nat.pow_succ]
    have heq : digits b w (m / b) = digits b w (n / b) ↔ m / b = n / b := by
      constructor
      · exact digits_injective hm' hn'
      · intro h
        rw [h]
    have hlast : [m % b] < [n % b] ↔ m % b < n % b := by
      simp [List.cons_lt_cons_iff]
    -- the high digits decide, and the last one where they are the same
    rw [digits, digits, append_lt_append_iff (by simp), ih hm' hn', heq, hlast]
    have hm0 := Nat.div_add_mod m b
    have hn0 := Nat.div_add_mod n b
    constructor
    · intro h
      rcases h with h | h
      · exact Nat.lt_of_div_lt_div h
      · rw [h.1] at hm0
        omega
    · intro h
      rcases Nat.lt_or_ge (m / b) (n / b) with hlt | hge
      · exact Or.inl hlt
      · have hle : m / b ≤ n / b := Nat.div_le_div_right (Nat.le_of_lt h)
        have hdiv : m / b = n / b := Nat.le_antisymm hle hge
        rw [hdiv] at hm0
        exact Or.inr ⟨hdiv, by omega⟩

/-! ## Digits as bytes -/

def write (f : Nat → UInt8) (b w n : Nat) : List UInt8 := (digits b w n).map f

/-- The bytes of the digits are in the order of the digits. -/
def Rising (f : Nat → UInt8) (b : Nat) : Prop := ∀ m n, m < b → n < b → (f m < f n ↔ m < n)

section Writing
variable {f : Nat → UInt8} {b w m n : Nat}

@[simp] theorem length_write : (write f b w n).length = w := by simp [write]

theorem Rising.injective (hf : Rising f b) (hm : m < b) (hn : n < b) (h : f m = f n) : m = n :=
  eq_of_lt_iff UInt8.lt_irrefl (hf m n hm hn) (hf n m hn hm) h

theorem write_lt_iff (hf : Rising f b) (hb : 0 < b) (hm : m < b ^ w) (hn : n < b ^ w) :
    write f b w m < write f b w n ↔ m < n := by
  calc write f b w m < write f b w n
      ↔ digits b w m < digits b w n := by
        apply map_lt_map_iff
        · intro x hx y hy
          exact hf x y (lt_of_mem_digits hb hx) (lt_of_mem_digits hb hy)
        · intro x hx y hy
          constructor
          · exact hf.injective (lt_of_mem_digits hb hx) (lt_of_mem_digits hb hy)
          · exact congrArg f
    _ ↔ m < n := digits_lt_iff hm hn

theorem write_injective (hf : Rising f b) (hb : 0 < b) (hm : m < b ^ w) (hn : n < b ^ w)
    (h : write f b w m = write f b w n) : m = n :=
  eq_of_lt_iff List.lt_irrefl (write_lt_iff hf hb hm hn) (write_lt_iff hf hb hn hm) h

end Writing

/-- The `w` low bytes of `n`. -/
def bigEndian (w n : Nat) : List UInt8 := write UInt8.ofNat 256 w n

def ofBigEndian (bytes : List UInt8) : Nat := value 256 (bytes.map UInt8.toNat)

/-- The `w` low decimal digits of `n`, in ASCII. -/
def decimal (w n : Nat) : List UInt8 := write (fun d => UInt8.ofNat (48 + d)) 10 w n

theorem rising_bigEndian : Rising UInt8.ofNat 256 := by
  intro m n hm hn
  rw [UInt8.lt_iff_toNat_lt, UInt8.toNat_ofNat_of_lt' hm, UInt8.toNat_ofNat_of_lt' hn]

theorem rising_decimal : Rising (fun d => UInt8.ofNat (48 + d)) 10 := by
  intro m n hm hn
  have hm' : 48 + m < 256 := by omega
  have hn' : 48 + n < 256 := by omega
  show UInt8.ofNat (48 + m) < UInt8.ofNat (48 + n) ↔ m < n
  rw [UInt8.lt_iff_toNat_lt, UInt8.toNat_ofNat_of_lt' hm', UInt8.toNat_ofNat_of_lt' hn']
  omega

theorem length_bigEndian (w n : Nat) : (bigEndian w n).length = w := length_write

theorem map_toNat_bigEndian (w n : Nat) : (bigEndian w n).map UInt8.toNat = digits 256 w n := by
  calc (bigEndian w n).map UInt8.toNat
      = (digits 256 w n).map fun d => (UInt8.ofNat d).toNat := List.map_map
    _ = (digits 256 w n).map id := by
        apply List.map_congr_left
        intro d hd
        have hlt : d < 256 := lt_of_mem_digits (by omega) hd
        exact UInt8.toNat_ofNat_of_lt' hlt
    _ = digits 256 w n := List.map_id _

theorem ofBigEndian_bigEndian {w n : Nat} (hn : n < 256 ^ w) :
    ofBigEndian (bigEndian w n) = n := by
  rw [ofBigEndian, map_toNat_bigEndian, value_digits_of_lt hn]

end Ark.Lib.Positional
