import Ark.CollectGentx.Reencoding
import Ark.Faucet.DailyCap
import Ark.Lib.Bech32.Regrouping

/- The keys of the faucet's quota, for any prefix.

   `HRP` is read from the environment; `normalizeAddressAt` has it as a parameter, and at
   the chain's own prefix it is `normalizeAddress` (`normalizeAddressAt_ark`), with the
   bits of the bytes regrouped by the script's own loop. The prefixes are those in small
   letters and digits that do not begin with a zero, short enough for a text of 90
   characters.

   The decoder that the keys are held against is the one of the genesis scripts, with the
   bound on the length that the standard has (`bip173Decode`).

   Both spellings of an account are normalised to one text, its key (`normalize_named`):
   the hex form is encoded, and the bech32 form is let through as it stands, which is
   the same text, since the decoder accepts the encoding of an account only. -/
namespace Ark.Faucet
open Ark.Lib Ark.Lib.Python Ark.Lib.Bech32 Ark.Sdk
open Ark.CollectGentx (Reencode.decode Reencode.encode Reencode.Hrp Reencode.decode_encode
  Reencode.decode_eq_some Reencode.encode_injective)

/-- What `BECH32_HRP` may be: the regular expression reads each character as itself, and no
address begins like one in hex. -/
structure PlainHrp (hrp : List Char) : Prop where
  ne : hrp ≠ []
  alnum : ∀ c ∈ hrp, isLowerAlnum c = true
  head_ne : hrp.head? ≠ some '0'
  short : hrp.length ≤ 51

/-- `bech32_encode(hrp, data)`; the values are below 32. -/
def bech32Encode (hrp : List Char) (data : List Nat) : List Char :=
  let data : List Symbol := data.map symbolOf
  hrp ++ '1' :: (data ++ checksum hrp data).map symbolChar

def ethHexToBech32At (hrp hexaddr : List Char) : List Char :=
  let raw := hexBytes (strip0x hexaddr)
  bech32Encode hrp (convertbits (raw.map UInt8.toNat) 8 5 true)

/-- `^HRP1[0-9a-z]{38}$`. -/
def matchesBech32At (hrp text : List Char) : Bool :=
  let data := text.drop (hrp ++ ['1']).length
  (hrp ++ ['1']).isPrefixOf text && data.length = 38 && data.all isLowerAlnum

def normalizeAddressAt (hrp : List Char) (raw : String) : Option String :=
  let raw := strip raw.toList
  if matches0x raw then some (.ofList (ethHexToBech32At hrp raw))
  else if matchesBech32At hrp raw then some (.ofList raw)
  else none

def bip173Decode (text : List Char) : Option (List Char × List Symbol) :=
  if text.length ≤ 90 then Reencode.decode text else none

/-- The text names the 20 bytes, in hex or in bech32. -/
inductive Names (hrp : List Char) (raw : String) (account : Address) : Prop
  | hex (length : account.length = 20) (text : matches0x (strip raw.toList) = true)
      (bytes : hexBytes (strip0x (strip raw.toList)) = account)
  | bech32 (length : account.length = 20) (data : List Symbol)
      (text : bip173Decode (strip raw.toList) = some (hrp, data))
      (bytes : convertbits (data.map Fin.val) 5 8 false = account.map UInt8.toNat)

/-! ## The key of an account -/

/-- The data part of an address. -/
def symbolsOf (account : Address) : List Symbol :=
  (convertbits (account.map UInt8.toNat) 8 5 true).map symbolOf

theorem map_symbolOf_val (data : List Symbol) : (data.map Fin.val).map symbolOf = data := by
  rw [List.map_map]
  calc data.map (symbolOf ∘ Fin.val) = data.map id := by
        apply List.map_congr_left
        intro d _
        exact Fin.ofNat_val_eq_self d
    _ = data := List.map_id data

/-- Twenty bytes are 32 symbols and nothing is left over. -/
theorem symbolsOf_val {account : Address} (h : account.length = 20) :
    (symbolsOf account).map Fin.val = convertbits (account.map UInt8.toNat) 8 5 true ∧
      (symbolsOf account).length = 32 := by
  have hdvd : 5 ∣ 8 * account.length := by
    rw [h]
    decide
  have hsymbols := toSymbols_byteBits hdvd true
  have hbytes : ∀ v ∈ account.map UInt8.toNat, v < 2 ^ 8 := toNat_lt_of_mem
  have hdigits := convertbits_eq_digits (by decide : 0 < 5) hbytes (by simpa using hdvd) true
  refine ⟨by rw [symbolsOf, ← hsymbols, map_symbolOf_val], ?_⟩
  rw [symbolsOf, hdigits, List.length_map, Positional.length_digits, List.length_map, h]

theorem bytes_symbolsOf {account : Address} (h : account.length = 20) :
    convertbits ((symbolsOf account).map Fin.val) 5 8 false = account.map UInt8.toNat := by
  rw [(symbolsOf_val h).1]
  apply convertbits_convertbits (by decide) (by decide) toNat_lt_of_mem
  rw [List.length_map, h]
  decide

theorem symbolsOf_bytes {account : Address} {data : List Symbol} (hlen : data.length = 32)
    (h : convertbits (data.map Fin.val) 5 8 false = account.map UInt8.toNat) :
    symbolsOf account = data := by
  have hdvd : 8 ∣ 5 * (data.map Fin.val).length := by
    rw [List.length_map, hlen]
    decide
  rw [symbolsOf, ← h, convertbits_convertbits (by decide) (by decide) val_lt_of_mem hdvd,
    map_symbolOf_val]

theorem symbolsOf_injective {a b : Address} (ha : a.length = 20) (hb : b.length = 20)
    (h : symbolsOf a = symbolsOf b) : a = b := by
  have hbytes := bytes_symbolsOf ha
  rw [h, bytes_symbolsOf hb] at hbytes
  exact (List.map_inj_right fun _ _ => UInt8.toNat_inj.mp).mp hbytes.symm

theorem ethHexToBech32At_eq (hrp hexaddr : List Char) :
    ethHexToBech32At hrp hexaddr =
      Reencode.encode hrp (symbolsOf (hexBytes (strip0x hexaddr))) := rfl

theorem hexBytes_length {digits : List Char} (h : ∀ c ∈ digits, (hexDigit c).isSome = true) :
    (hexBytes digits).length = digits.length / 2 := by
  fun_induction hexBytes digits with
  | case1 a b rest x y ha hb ih =>
    rw [List.length_cons, ih]
    · simp only [List.length_cons]
      omega
    · intro c hc
      exact h c (List.mem_cons_of_mem a (List.mem_cons_of_mem b hc))
  | case2 a b rest hno =>
    obtain ⟨x, hx⟩ := Option.isSome_iff_exists.mp (h a (by simp))
    obtain ⟨y, hy⟩ := Option.isSome_iff_exists.mp (h b (by simp))
    exact absurd hy (hno x y hx)
  | case3 digits hshort =>
    cases digits with
    | nil => rfl
    | cons a rest =>
      cases rest with
      | nil => simp
      | cons b rest => exact absurd rfl (hshort a b rest)

/-- What a text in hex names are 20 bytes. -/
theorem hexAccount_length {text : List Char} (h : matches0x text = true) :
    (hexBytes (strip0x text)).length = 20 := by
  unfold matches0x at h
  split at h
  case h_1 digits =>
    rw [Bool.and_eq_true, decide_eq_true_eq, List.all_eq_true] at h
    show (hexBytes digits).length = 20
    rw [hexBytes_length h.2, h.1]
  case h_2 => cases h

theorem normalizeAddressAt_ark (raw : String) :
    normalizeAddressAt bech32Prefix raw = normalizeAddress raw := by
  unfold normalizeAddressAt normalizeAddress
  simp only
  by_cases hhex : matches0x (strip raw.toList) = true
  case pos =>
    have hdvd : 5 ∣ 8 * (hexBytes (strip0x (strip raw.toList))).length := by
      rw [hexAccount_length hhex]
      decide
    have hdata : symbolsOf (hexBytes (strip0x (strip raw.toList))) =
        toSymbols (byteBits (hexBytes (strip0x (strip raw.toList)))) := by
      rw [symbolsOf, ← toSymbols_byteBits hdvd, map_symbolOf_val]
    rw [if_pos hhex, if_pos hhex, ethHexToBech32At_eq, hdata]
    rfl
  case neg =>
    rw [if_neg hhex, if_neg hhex]
    rfl

/-! ## Texts in the alphabet of the keys -/

section Prefix
variable {hrp : List Char} (hhrp : PlainHrp hrp)

include hhrp

theorem PlainHrp.alnum_append : ∀ c ∈ hrp ++ ['1'], isLowerAlnum c = true := by
  intro c hc
  rcases List.mem_append.mp hc with hc | hc
  · exact hhrp.alnum c hc
  · rw [List.mem_singleton.mp hc]
    decide

theorem PlainHrp.allowed : Reencode.Hrp hrp where
  ne := hhrp.ne
  printable c hc := by
    have hcases := of_decide_eq_true (hhrp.alnum c hc)
    simp only [Char.le_def, UInt32.le_iff_toNat_le] at hcases
    have h0 : ('0' : Char).val.toNat = 48 := rfl
    have h9 : ('9' : Char).val.toNat = 57 := rfl
    have ha : ('a' : Char).val.toNat = 97 := rfl
    have hz : ('z' : Char).val.toNat = 122 := rfl
    show 33 ≤ c.val.toNat ∧ c.val.toNat ≤ 126
    omega
  lower := by
    calc hrp.map Char.toLower = hrp.map id := by
          apply List.map_congr_left
          intro c hc
          exact isLowerAlnum_toLower (hhrp.alnum c hc)
      _ = hrp := List.map_id hrp

end Prefix

theorem isSpace_of_alnum {c : Char} (h : isLowerAlnum c = true) : isSpace c = false := by
  have h := of_decide_eq_true h
  apply decide_eq_false
  simp only [Char.le_def, UInt32.le_iff_toNat_le] at h
  have h0 : ('0' : Char).val.toNat = 48 := rfl
  have h9 : ('9' : Char).val.toNat = 57 := rfl
  have ha : ('a' : Char).val.toNat = 97 := rfl
  have hz : ('z' : Char).val.toNat = 122 := rfl
  show ¬ (_ ∨ _)
  have hn : c.toNat = c.val.toNat := rfl
  omega

theorem strip_of_no_space {text : List Char} (h : ∀ c ∈ text, isSpace c = false) :
    strip text = text := by
  have hdrop : ∀ l : List Char, (∀ c ∈ l, isSpace c = false) → l.dropWhile isSpace = l := by
    intro l hl
    cases l with
    | nil => rfl
    | cons c l => exact List.dropWhile_cons_of_neg (by rw [hl c List.mem_cons_self]; decide)
  have hrev : ∀ c ∈ text.reverse, isSpace c = false := by
    intro c hc
    exact h c (List.mem_reverse.mp hc)
  rw [strip, hdrop text h, hdrop _ hrev, List.reverse_reverse]

theorem matchesBech32At_iff {hrp text : List Char} :
    matchesBech32At hrp text = true ↔
      ∃ data, text = hrp ++ ['1'] ++ data ∧ data.length = 38 ∧ ∀ c ∈ data, isLowerAlnum c = true := by
  unfold matchesBech32At
  simp only [Bool.and_eq_true, decide_eq_true_eq, List.all_eq_true]
  constructor
  · intro h
    obtain ⟨⟨hhead, hlen⟩, hdata⟩ := h
    obtain ⟨data, hsplit⟩ := List.isPrefixOf_iff_prefix.mp hhead
    rw [← hsplit, List.drop_left] at hlen hdata
    exact ⟨data, hsplit.symm, hlen, hdata⟩
  · intro h
    obtain ⟨data, hsplit, hlen, hdata⟩ := h
    rw [hsplit, List.drop_left]
    exact ⟨⟨List.isPrefixOf_iff_prefix.mpr (List.prefix_append _ _), hlen⟩, hdata⟩

theorem symbolChar_alnum : ∀ d : Symbol, isLowerAlnum (symbolChar d) = true := by
  decide

/-- The key of an account has the shape of the regular expression. -/
theorem matches_encode {hrp : List Char} {account : Address} (h : account.length = 20) :
    matchesBech32At hrp (Reencode.encode hrp (symbolsOf account)) = true := by
  rw [matchesBech32At_iff]
  refine ⟨(symbolsOf account ++ checksum hrp (symbolsOf account)).map symbolChar, ?_, ?_, ?_⟩
  · rw [Reencode.encode, List.append_assoc]
    rfl
  · rw [List.length_map, List.length_append, (symbolsOf_val h).2, length_checksum]
  · intro c hc
    obtain ⟨d, _, hd⟩ := List.mem_map.mp hc
    rw [← hd]
    exact symbolChar_alnum d

theorem head_of_matches0x {text : List Char} (h : matches0x text = true) :
    text.head? = some '0' := by
  unfold matches0x at h
  split at h
  · rfl
  · cases h

section Normalize
variable {hrp : List Char} (hhrp : PlainHrp hrp)

include hhrp

theorem PlainHrp.head {rest : List Char} : (hrp ++ rest).head? ≠ some '0' := by
  rw [List.head?_append_of_ne_nil _ hhrp.ne]
  exact hhrp.head_ne

theorem alnum_of_matches {text : List Char} (h : matchesBech32At hrp text = true) :
    (∀ c ∈ text, isLowerAlnum c = true) ∧ matches0x text = false := by
  obtain ⟨data, hsplit, _, hdata⟩ := matchesBech32At_iff.mp h
  constructor
  · intro c hc
    rw [hsplit] at hc
    rcases List.mem_append.mp hc with hc | hc
    · exact hhrp.alnum_append c hc
    · exact hdata c hc
  · -- a hex address starts with '0', a prefix does not
    by_contra hhex
    have hzero := head_of_matches0x (Bool.not_eq_false _ ▸ hhex)
    rw [hsplit, List.append_assoc] at hzero
    exact hhrp.head hzero

omit hhrp in
/-- The results are texts that the second regular expression matches. -/
theorem matches_of_normalize {raw key : String} (h : normalizeAddressAt hrp raw = some key) :
    matchesBech32At hrp key.toList = true := by
  unfold normalizeAddressAt at h
  simp only at h
  split at h
  case isTrue hhex =>
    rw [← Option.some.inj h, String.toList_ofList, ethHexToBech32At_eq]
    exact matches_encode (hexAccount_length hhex)
  case isFalse =>
    split at h
    case isTrue hmatch =>
      rw [← Option.some.inj h, String.toList_ofList]
      exact hmatch
    case isFalse => cases h

theorem normalize_key {key : String} (h : matchesBech32At hrp key.toList = true) :
    normalizeAddressAt hrp key = some key := by
  obtain ⟨halnum, hhex⟩ := alnum_of_matches hhrp h
  have hstrip : strip key.toList = key.toList := by
    apply strip_of_no_space
    intro c hc
    exact isSpace_of_alnum (halnum c hc)
  simp only [normalizeAddressAt, hstrip, hhex, h]
  rw [if_neg Bool.false_ne_true, if_pos trivial, String.ofList_toList]

theorem decode_key {account : Address} (h : account.length = 20) :
    bip173Decode (Reencode.encode hrp (symbolsOf account)) = some (hrp, symbolsOf account) := by
  have hlen : (Reencode.encode hrp (symbolsOf account)).length ≤ 90 := by
    have hshort := hhrp.short
    simp [Reencode.encode, (symbolsOf_val h).2, length_checksum]
    omega
  rw [bip173Decode, if_pos hlen, Reencode.decode_encode hhrp.allowed]

/-- Whatever names an account is normalised to its key. -/
theorem normalize_named {raw key : String} {account : Address}
    (h : normalizeAddressAt hrp raw = some key) (hnames : Names hrp raw account) :
    key = .ofList (Reencode.encode hrp (symbolsOf account)) := by
  unfold normalizeAddressAt at h
  simp only at h
  cases hnames with
  | hex hlen hhex hbytes =>
    rw [if_pos hhex, ethHexToBech32At_eq, hbytes] at h
    exact (Option.some.inj h).symm
  | bech32 hlen data htext hbytes =>
    rw [bip173Decode] at htext
    split at htext
    case isFalse => cases htext
    obtain ⟨_, _, hlower⟩ := Reencode.decode_eq_some.mp htext
    have hnohex : matches0x (strip raw.toList) ≠ true := by
      intro hhex
      have hzero := congrArg (Option.map Char.toLower) (head_of_matches0x hhex)
      rw [← List.head?_map, hlower] at hzero
      exact hhrp.head hzero
    rw [if_neg hnohex] at h
    split at h
    case isFalse => cases h
    case isTrue hmatch =>
      have halnum := (alnum_of_matches hhrp hmatch).1
      have hsame : (strip raw.toList).map Char.toLower = strip raw.toList := by
        calc (strip raw.toList).map Char.toLower = (strip raw.toList).map id := by
              apply List.map_congr_left
              intro c hc
              exact isLowerAlnum_toLower (halnum c hc)
          _ = strip raw.toList := List.map_id _
      obtain ⟨rest, hsplit, hrest, _⟩ := matchesBech32At_iff.mp hmatch
      have hdatalen : data.length = 32 := by
        have hlens := congrArg List.length hlower
        rw [hsame, hsplit] at hlens
        simp [Reencode.encode, length_checksum, hrest] at hlens
        omega
      rw [symbolsOf_bytes hdatalen hbytes, ← hlower, hsame]
      exact (Option.some.inj h).symm

end Normalize

theorem key_injective {hrp : List Char} {a b : Address} (ha : a.length = 20) (hb : b.length = 20)
    (h : String.ofList (Reencode.encode hrp (symbolsOf a)) =
      String.ofList (Reencode.encode hrp (symbolsOf b))) : a = b :=
  symbolsOf_injective ha hb (Reencode.encode_injective (String.ofList_injective h))

theorem Names.length {hrp : List Char} {raw : String} {account : Address}
    (h : Names hrp raw account) : account.length = 20 := by
  cases h with
  | hex hlen _ _ => exact hlen
  | bech32 hlen _ _ _ => exact hlen

/-- **The keys are canonical names of accounts.** Two texts that are let through, each naming 20
bytes in hex or in bech32, get the same key exactly when they name the same bytes. The key of a
text in hex is the prefix, 32 symbols and a checksum of 6, which the decoder accepts and which
regroup to the bytes; and a key is normalised to itself. -/
theorem keys_canonical {hrp : List Char} (hhrp : PlainHrp hrp) :
    (∀ (raw raw' key key' : String) (account account' : Address),
      normalizeAddressAt hrp raw = some key → normalizeAddressAt hrp raw' = some key' →
      Names hrp raw account → Names hrp raw' account' → (key = key' ↔ account = account')) ∧
    (∀ (raw key : String), normalizeAddressAt hrp raw = some key →
      matches0x (strip raw.toList) = true →
      ∃ data : List Symbol, data.length = 32 ∧ (checksum hrp data).length = 6 ∧
        key.toList = hrp ++ '1' :: (data ++ checksum hrp data).map symbolChar ∧
        bip173Decode key.toList = some (hrp, data) ∧
        convertbits (data.map Fin.val) 5 8 false =
          (hexBytes (strip0x (strip raw.toList))).map UInt8.toNat) ∧
    (∀ (raw key : String), normalizeAddressAt hrp raw = some key →
      normalizeAddressAt hrp key = some key) := by
  refine ⟨?_, ?_, ?_⟩
  · intro raw raw' key key' account account' h h' hnames hnames'
    rw [normalize_named hhrp h hnames, normalize_named hhrp h' hnames']
    constructor
    · exact key_injective hnames.length hnames'.length
    · intro heq
      rw [heq]
  · intro raw key h hhex
    have hlen := hexAccount_length hhex
    have hkey := normalize_named hhrp h (Names.hex hlen hhex rfl)
    refine ⟨symbolsOf (hexBytes (strip0x (strip raw.toList))), (symbolsOf_val hlen).2,
      length_checksum _ _, ?_, ?_, bytes_symbolsOf hlen⟩
    · rw [hkey, String.toList_ofList]
      rfl
    · rw [hkey, String.toList_ofList]
      exact decode_key hhrp hlen
  · intro raw key h
    exact normalize_key hhrp (matches_of_normalize h)

theorem arkHrp : PlainHrp bech32Prefix where
  ne := by decide
  alnum := List.all_eq_true.mp (by decide)
  head_ne := by decide
  short := by decide

/-- An account in hex with capitals, and another one with its own key. -/
theorem keys_canonical_ark :
    ("ark14w46h2at4w46h2at4w46h2at4w46h2atv54ysa" = "ark1qqqqqqqqqqqqqqqqqqqqqqqqqqqqqqqp70mmm0" ↔
      (List.replicate 20 0xab : Address) = List.replicate 19 0 ++ [1]) ∧
    normalizeAddressAt bech32Prefix "ark14w46h2at4w46h2at4w46h2at4w46h2atv54ysa" =
      some "ark14w46h2at4w46h2at4w46h2at4w46h2atv54ysa" := by
  have hcapitals : normalizeAddressAt bech32Prefix "  0xABabABabABabABabABabABabABabABabABabABab\n" =
      some "ark14w46h2at4w46h2at4w46h2at4w46h2atv54ysa" := by decide +kernel
  have hkey : normalizeAddressAt bech32Prefix "ark1qqqqqqqqqqqqqqqqqqqqqqqqqqqqqqqp70mmm0" =
      some "ark1qqqqqqqqqqqqqqqqqqqqqqqqqqqqqqqp70mmm0" := by decide +kernel
  have hlen : (List.replicate 19 0 ++ [1] : Address).length = 20 := by decide
  refine ⟨(keys_canonical arkHrp).1 _ _ _ _ _ _ hcapitals hkey ?_ ?_,
    (keys_canonical arkHrp).2.2 _ _ hcapitals⟩
  · exact Names.hex (by decide) (by decide +kernel) (by decide +kernel)
  · exact Names.bech32 hlen (symbolsOf (List.replicate 19 0 ++ [1])) (by decide +kernel)
      (bytes_symbolsOf hlen)

end Ark.Faucet
