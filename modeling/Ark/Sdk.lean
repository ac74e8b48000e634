import Mathlib.Data.String.Basic
import Ark.Lib.Bech32

/- What the chain's own code uses of the SDK: registered errors, the texts of messages
   and of denoms, the two spellings of an account, transactions, and chains of ante
   decorators.

   An account is its bytes. Its text is parsed and printed by an `AddressCodec`,
   a parameter of everything that follows; `AddressCodec.Lawful` is what the code
   relies on, and `arkCodec` is Bech32 with the chain's prefix and address lengths.

   A decorator gets the handler that comes after it as `next`. Handlers run in a
   state (the stores), and like the Go functions return a context and an error.

   Correspondence (Go ↔ Lean):
     `errorsmod.Register`, `Wrap`, `IsOf`       ↔ `RootError`, `Err.wrap`, `Err.isOf`
     `ArkCoinDenomRegex`, `sdk.ValidateDenom`   ↔ `validateDenom`
     `sdk.AccAddressFromBech32`, `addr.String`  ↔ `AddressCodec`
     `tx.(authsigning.Tx)`, `tx.(sdk.FeeTx)`    ↔ the `Option` fields of `Tx`
     `msg.(*authz.MsgExec)`, `UnpackEthMsg`     ↔ `MsgTypes`
     `sdk.ChainAnteDecorators`                  ↔ `chainAnteDecorators` -/
namespace Ark.Sdk

/-! ## Errors -/

structure RootError where
  codespace : String
  code : Nat
  text : String
  deriving DecidableEq

def errTxDecode : RootError := ⟨"sdk", 2, "tx parse error"⟩
def errUnauthorized : RootError := ⟨"sdk", 4, "unauthorized"⟩
def errUnknownRequest : RootError := ⟨"sdk", 6, "unknown request"⟩
def errInvalidAddress : RootError := ⟨"sdk", 7, "invalid address"⟩
def errInvalidRequest : RootError := ⟨"sdk", 18, "invalid request"⟩
def errUnknownExtensionOptions : RootError := ⟨"sdk", 31, "unknown extension options"⟩

/-- An error: the registered error it wraps, if any, and its whole text. -/
structure Err where
  root : Option RootError
  text : String
  deriving DecidableEq

def Err.ofRoot (root : RootError) : Err := ⟨some root, root.text⟩

def Err.wrap (root : RootError) (description : String) : Err :=
  ⟨some root, description ++ ": " ++ root.text⟩

def Err.errorf (text : String) : Err := ⟨none, text⟩

def Err.isOf (e : Err) (root : RootError) : Bool := e.root = some root

/-! ## Texts -/

/-- The lower-case hex digits of a number, filled up with zeros in front. -/
def hexDigits (width n : Nat) : String :=
  let digits := Nat.toDigits 16 n
  String.ofList (List.replicate (width - digits.length) '0' ++ digits)

def quoteChar (isPrint : Char → Bool) (c : Char) : String :=
  -- the quote and the backslash
  if c.toNat = 34 ∨ c.toNat = 92 then String.ofList [Char.ofNat 92, c]
  else if isPrint c = true then String.ofList [c]
  else
    match c.toNat with
    | 7 => "\\a"
    | 8 => "\\b"
    | 9 => "\\t"
    | 10 => "\\n"
    | 11 => "\\v"
    | 12 => "\\f"
    | 13 => "\\r"
    | n =>
      if n < 32 ∨ n = 127 then "\\x" ++ hexDigits 2 n
      else if n < 65536 then "\\u" ++ hexDigits 4 n
      else "\\U" ++ hexDigits 8 n

/-- The verb `%q`. -/
def quote (isPrint : Char → Bool) (text : String) : String :=
  let mark := String.ofList [Char.ofNat 34]
  mark ++ String.join (text.toList.map (quoteChar isPrint)) ++ mark

/-- `sdk.ValidateDenom` under the chain's own regex (`ArkCoinDenomRegex`): a letter, and 1 to 127
letters, digits and separators after it. -/
def validateDenom (denom : String) : Bool :=
  match denom.toList with
  | [] => false
  | c :: cs => c.isAlpha && decide (1 ≤ cs.length ∧ cs.length ≤ 127) &&
      cs.all fun c => c.isAlphanum || c ∈ ['/', ':', '.', '_', '-']

/-- `sdk.Coin`: a denom and an amount. -/
abbrev Coin := String × Int

/-! ## Addresses -/

abbrev Address := List UInt8

structure AddressCodec where
  accAddressFromBech32 : String → Except Err Address
  /-- `AccAddress.String`. -/
  string : Address → String
  isHexAddress : String → Bool
  hexToAddress : String → Address
  /-- How `common.BytesToAddress` prints. -/
  hexText : Address → String

def hasHexAddressPrefix (account : String) : Bool :=
  "0x".toList.isPrefixOf account.toList || "0X".toList.isPrefixOf account.toList

namespace AddressCodec

/-- What the code relies on. -/
structure Lawful (codec : AddressCodec) : Prop where
  /-- An address that was parsed prints as a text that parses to it. -/
  parse_string : ∀ s a, codec.accAddressFromBech32 s = .ok a →
    codec.accAddressFromBech32 (codec.string a) = .ok a
  /-- No text that parses looks like a hex address. -/
  parse_noHex : ∀ s a, codec.accAddressFromBech32 s = .ok a → hasHexAddressPrefix s = false
  /-- So does the address of a hex text. -/
  hex_string : ∀ s, codec.isHexAddress s = true →
    codec.accAddressFromBech32 (codec.string (codec.hexToAddress s)) = .ok (codec.hexToAddress s)
  string_injective : ∀ a b, codec.string a = codec.string b → a = b

end AddressCodec

/-! ### The chain's codec -/

def bech32Prefix : List Char := ['a', 'r', 'k']

/-- `wasmtypes.VerifyAddressLen`: accounts have 20 bytes, contracts 32. -/
def verifyAddressLen (a : Address) : Bool := a.length = 20 ∨ a.length = 32

def parseAccAddress (text : List Char) : Except Err Address :=
  if text.all Char.isWhitespace then .error (.errorf "empty address string is not allowed")
  else
    match Lib.Bech32.decode bech32Prefix text with
    | none => .error (.errorf "decoding bech32 failed")
    | some a => if verifyAddressLen a then .ok a else .error (.ofRoot errInvalidAddress)

def printAccAddress (a : Address) : List Char :=
  if a = [] then [] else Lib.Bech32.encode bech32Prefix a

def hexDigit (c : Char) : Option Nat :=
  if c.isDigit then some (c.toNat - 48)
  else if 'a' ≤ c ∧ c ≤ 'f' then some (c.toNat - 87)
  else if 'A' ≤ c ∧ c ≤ 'F' then some (c.toNat - 55)
  else none

def has0xPrefix : List Char → Bool
  | '0' :: 'x' :: _ => true
  | '0' :: 'X' :: _ => true
  | _ => false

def strip0x (text : List Char) : List Char := if has0xPrefix text then text.drop 2 else text

/-- The bytes of pairs of hex digits, up to the first character that is none. -/
def hexBytes : List Char → List UInt8
  | a :: b :: rest =>
    match hexDigit a, hexDigit b with
    | some x, some y => UInt8.ofNat (16 * x + y) :: hexBytes rest
    | _, _ => []
  | _ => []

/-- The last 20 bytes, filled up with zeros in front. -/
def bytesToAddress (bytes : List UInt8) : Address :=
  List.replicate (20 - bytes.length) 0 ++ bytes.drop (bytes.length - 20)

def parseHexAddress (text : List Char) : Address :=
  let digits := strip0x text
  bytesToAddress (hexBytes (if digits.length % 2 = 1 then '0' :: digits else digits))

def printHexAddress (a : Address) : List Char :=
  '0' :: 'x' :: (bytesToAddress a).flatMap fun b =>
    [Nat.digitChar (b.toNat / 16), Nat.digitChar (b.toNat % 16)]

/-- Bech32 under the chain's prefix, and hex (printed without the letter case of EIP-55). -/
def arkCodec : AddressCodec where
  accAddressFromBech32 s := parseAccAddress s.toList
  string a := String.ofList (printAccAddress a)
  isHexAddress s := (strip0x s.toList).length = 40 ∧ (strip0x s.toList).all (hexDigit · |>.isSome)
  hexToAddress s := parseHexAddress s.toList
  hexText a := String.ofList (printHexAddress a)

theorem arkCodec_parse (s : String) :
    arkCodec.accAddressFromBech32 s = parseAccAddress s.toList := rfl

theorem arkCodec_string (a : Address) :
    arkCodec.string a = String.ofList (printAccAddress a) := rfl

theorem arkCodec_hexToAddress (s : String) :
    arkCodec.hexToAddress s = parseHexAddress s.toList := rfl

theorem bech32Prefix_lowerCase : ∀ c ∈ bech32Prefix, Lib.Bech32.LowerCase c := by
  unfold bech32Prefix
  rw [List.forall_mem_cons, List.forall_mem_cons, List.forall_mem_cons]
  exact ⟨by decide, by decide, by decide, nofun⟩

theorem parseAccAddress_ok {text : List Char} {a : Address} :
    parseAccAddress text = .ok a ↔
      text.all Char.isWhitespace = false ∧ Lib.Bech32.decode bech32Prefix text = some a ∧
        verifyAddressLen a = true := by
  unfold parseAccAddress
  cases hblank : text.all Char.isWhitespace with
  | true => simp
  | false =>
    cases hd : Lib.Bech32.decode bech32Prefix text with
    | none => simp
    | some b =>
      simp only [Bool.false_eq_true, if_false, true_and, Option.some.injEq]
      cases hv : verifyAddressLen b with
      | true =>
        simp only [if_true, Except.ok.injEq]
        constructor
        · intro h
          exact ⟨h, h ▸ hv⟩
        · intro h
          exact h.1
      | false =>
        simp only [Bool.false_eq_true, if_false]
        constructor
        · intro h
          cases h
        · intro h
          rw [← h.1, hv] at h
          exact absurd h.2 Bool.false_ne_true

/-- An address of a valid length parses from what it prints as. -/
theorem parseAccAddress_print {a : Address} (h : verifyAddressLen a = true) :
    parseAccAddress (printAccAddress a) = .ok a := by
  have hne : a ≠ [] := by
    intro he
    rw [he] at h
    exact absurd h (by decide)
  have hprint : printAccAddress a = Lib.Bech32.encode bech32Prefix a := if_neg hne
  rw [hprint, parseAccAddress_ok]
  refine ⟨?_, Lib.Bech32.decode_encode bech32Prefix_lowerCase a, h⟩
  rw [List.all_eq_false]
  exact ⟨'a', by simp [Lib.Bech32.encode, bech32Prefix], by decide⟩

theorem bytesToAddress_length (bytes : List UInt8) : (bytesToAddress bytes).length = 20 := by
  unfold bytesToAddress
  rw [List.length_append, List.length_replicate, List.length_drop]
  omega

theorem arkCodec_lawful : arkCodec.Lawful where
  parse_string s a h := by
    rw [arkCodec_parse, arkCodec_string, String.toList_ofList]
    exact parseAccAddress_print (parseAccAddress_ok.mp h).2.2
  parse_noHex s a h := by
    obtain ⟨_, hdecode, _⟩ := parseAccAddress_ok.mp h
    have hspells := Lib.Bech32.decode_spells hdecode
    have hhead : (s.toList.map Char.toLower).head? = some 'a' := by
      rw [← hspells]
      rfl
    unfold hasHexAddressPrefix
    cases htext : s.toList with
    | nil => rfl
    | cons c rest =>
      rw [htext] at hhead
      have hc : c ≠ '0' := by
        intro h0
        rw [h0, List.map_cons, List.head?_cons, Option.some.injEq] at hhead
        exact absurd hhead (by decide)
      simp [List.isPrefixOf, Ne.symm hc]
  hex_string s _ := by
    have hlen : verifyAddressLen (parseHexAddress s.toList) = true := by
      unfold verifyAddressLen parseHexAddress
      rw [bytesToAddress_length]
      decide
    rw [arkCodec_parse, arkCodec_string, arkCodec_hexToAddress, String.toList_ofList]
    exact parseAccAddress_print hlen
  string_injective a b h := by
    have hprint : printAccAddress a = printAccAddress b := String.ofList_injective h
    have hencode : ∀ c : Address, Lib.Bech32.encode bech32Prefix c ≠ [] := by
      intro c
      simp [Lib.Bech32.encode]
    unfold printAccAddress at hprint
    by_cases ha : a = []
    · by_cases hb : b = []
      · rw [ha, hb]
      · rw [if_pos ha, if_neg hb] at hprint
        exact absurd hprint.symm (hencode b)
    · by_cases hb : b = []
      · rw [if_neg ha, if_pos hb] at hprint
        exact absurd hprint (hencode a)
      · rw [if_neg ha, if_neg hb] at hprint
        exact Lib.Bech32.encode_injective hprint

/-! ## Transactions -/

/-- How the code looks into a message. -/
structure MsgTypes (Msg : Type) where
  /-- `GetMessages`, of an `authz.MsgExec`. -/
  msgExec : Msg → Option (Except Err (List Msg))
  getMsgV1Signers : Msg → Except Err (List Address)
  /-- `UnpackEthMsg`, and `GetFrom` of what it unpacks. -/
  unpackEthMsg : Msg → Except Err Address

/-- A transaction; the fields that are `none` belong to interfaces it does not have. -/
structure Tx (Msg : Type) where
  getMsgs : List Msg
  /-- `GetSigners`. -/
  sigTx : Option (Except Err (List Address))
  /-- `FeeGranter`, which may be nil. -/
  feeTx : Option (Option Address)
  /-- The type URLs of `GetExtensionOptions`. -/
  extensionOptionsTx : Option (List String)

structure Context (Rest : Type) where
  chainID : String
  rest : Rest

def Context.withChainID {Rest : Type} (ctx : Context Rest) (chainID : String) : Context Rest :=
  { ctx with chainID := chainID }

section Ante
variable {W Rest Msg : Type}

/-- A context and an error, and the stores. -/
abbrev AnteResult (W Rest : Type) := (Context Rest × Option Err) × W

abbrev AnteHandler (W Rest Msg : Type) := Context Rest → Tx Msg → Bool → W → AnteResult W Rest

/-- `AnteHandle`, with `next` as its last argument. -/
abbrev AnteDecorator (W Rest Msg : Type) :=
  Context Rest → Tx Msg → Bool → AnteHandler W Rest Msg → W → AnteResult W Rest

/-- The handler after the last decorator. -/
def terminator : AnteHandler W Rest Msg := fun ctx _ _ w => ((ctx, none), w)

/-- Each decorator wraps the ones further along. -/
def chainAnteDecorators : List (AnteDecorator W Rest Msg) → AnteHandler W Rest Msg
  | [] => terminator
  | d :: ds => fun ctx tx simulate => d ctx tx simulate (chainAnteDecorators ds)

/-- A handler lets a transaction through when it returns no error. -/
def AnteHandler.Passes (handler : AnteHandler W Rest Msg) (ctx : Context Rest) (tx : Tx Msg)
    (simulate : Bool) (w : W) : Prop := (handler ctx tx simulate w).1.2 = none

/-- A decorator lets a transaction through only by way of `next`, in a state that agrees on
`view` with the one it started in. -/
def AnteDecorator.PassesOn {V : Type} (view : W → V) (d : AnteDecorator W Rest Msg) : Prop :=
  ∀ ctx tx simulate next w, (d ctx tx simulate next w).1.2 = none →
    ∃ ctx' simulate' w', view w' = view w ∧ AnteHandler.Passes next ctx' tx simulate' w'

/-- Decorators that pass on lead to the rest of the chain. -/
theorem passes_after {V : Type} {view : W → V} {ds rest : List (AnteDecorator W Rest Msg)}
    (hds : ∀ d ∈ ds, AnteDecorator.PassesOn view d) {ctx : Context Rest} {tx : Tx Msg}
    {simulate : Bool} {w : W}
    (h : AnteHandler.Passes (chainAnteDecorators (ds ++ rest)) ctx tx simulate w) :
    ∃ ctx' simulate' w', view w' = view w ∧
      AnteHandler.Passes (chainAnteDecorators rest) ctx' tx simulate' w' := by
  induction ds generalizing ctx simulate w with
  | nil => exact ⟨ctx, simulate, w, rfl, h⟩
  | cons d ds ih =>
    obtain ⟨ctx₁, simulate₁, w₁, hview, h₁⟩ := hds d List.mem_cons_self ctx tx simulate _ w h
    obtain ⟨ctx₂, simulate₂, w₂, hview₂, h₂⟩ :=
      ih (fun d' hd' => hds d' (List.mem_cons_of_mem d hd')) h₁
    exact ⟨ctx₂, simulate₂, w₂, hview₂.trans hview, h₂⟩

end Ante
end Ark.Sdk
