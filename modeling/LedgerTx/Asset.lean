import LedgerTx.Account

namespace LedgerTx

/-! # Assets

The native asset, and credit that an account issues under a code of up to 4 or up to 12 characters.  In
listings a credit asset stands as `CODE:ISSUER`; its form is chosen by the length of the code, so a code
of at most four characters in the long form has no text that reads back. -/

/-! ## Codes -/

namespace AssetCode

/-- The longest code of the short form. -/
def shortLength : Nat := 4

/-- The longest code of the long form. -/
def longLength : Nat := 12

/-- A code without the zeros at its end. -/
def stripZeros (code : List UInt8) : List UInt8 :=
  (code.reverse.dropWhile (· == 0)).reverse

/-- A code as text; bytes that are no text show as U+FFFD. -/
def text (code : List UInt8) : String :=
  String.ofList (Utf8.decodeLossy (stripZeros code))

/-- Whether a code of the long form reads back as one of the short form. -/
def isShort (code : List UInt8) : Bool :=
  (Utf8.encode (text code)).length ≤ shortLength

/-- Accepts codes of 1 to 12 letters and digits. -/
def check (code : String) : Except ArgumentError Unit := do
  let length := (Utf8.encode code).length
  if length = 0 ∨ longLength < length then throw (.assetCodeLength length)
  if !code.toList.all Char.isAlphanum then throw (.assetCodeCharacters code)

end AssetCode

/-- The code of an asset, without its issuer. -/
inductive AssetCode where
  | short (code : FixedBytes 4)
  | long (code : FixedBytes 12)
deriving DecidableEq

namespace AssetCode

/-- The code of a text, in the short form if it has at most four characters. -/
def ofText (code : String) : Except ArgumentError AssetCode := do
  check code
  let bytes := Utf8.encode code
  if bytes.length ≤ shortLength then return .short (.ofListPadded 4 bytes)
  else return .long (.ofListPadded 12 bytes)

/-- The text of a code. -/
def toText : AssetCode → String
  | .short code => text code.toList
  | .long code => text code.toList

/-- Whether the length of the text chooses the form that the code has. -/
def matchesForm : AssetCode → Bool
  | .short _ => true
  | .long code => !isShort code.toList

end AssetCode

/-! ## Kinds of assets -/

/-- The kinds of assets. -/
inductive AssetKind where
  | native
  | credit4
  | credit12
  | poolShare
deriving DecidableEq

instance : Enumeration AssetKind where
  title := "AssetType"
  all := [.native, .credit4, .credit12, .poolShare]
  number
    | .native => 0
    | .credit4 => 1
    | .credit12 => 2
    | .poolShare => 3
  name
    | .native => "ASSET_TYPE_NATIVE"
    | .credit4 => "ASSET_TYPE_CREDIT_ALPHANUM4"
    | .credit12 => "ASSET_TYPE_CREDIT_ALPHANUM12"
    | .poolShare => "ASSET_TYPE_POOL_SHARE"

namespace AssetCode

/-- The arms of the union of codes. -/
inductive Arm where
  | short
  | long

/-- The kind of asset that a code belongs to. -/
def Arm.kind : Arm → AssetKind
  | .short => .credit4
  | .long => .credit12

/-- The arm for a kind of asset. -/
def Arm.ofKind? : AssetKind → Option Arm
  | .credit4 => some .short
  | .credit12 => some .long
  | _ => none

/-- What an arm holds. -/
def Arm.Payload : Arm → Type
  | .short => FixedBytes 4
  | .long => FixedBytes 12

/-- A code as an arm and its bytes. -/
def view : Bijection AssetCode (Sigma Arm.Payload) where
  forth
    | .short code => ⟨.short, code⟩
    | .long code => ⟨.long, code⟩
  back
    | ⟨.short, code⟩ => .short code
    | ⟨.long, code⟩ => .long code
  back_forth c := by cases c <;> rfl
  forth_back := fun ⟨k, b⟩ => by cases k <;> rfl

/-- On the wire, a kind of asset and the bytes of the code. -/
def codec : Codec AssetCode :=
  .map view <| .sigma (.arms "AssetCode" Arm.kind Arm.ofKind?) fun
    | .short => .fixed 4
    | .long => .fixed 12

/-- Codes on the wire and, where the form can be told from the text, in listings. -/
def layout : Layout AssetCode :=
  ⟨codec, .line
    (fun code => if code.matchesForm then .ok code.toText.toList else .error .shortLongCode)
    fun token _ => (ofText (String.ofList token)).mapError fun e => .value (.argument e)⟩

end AssetCode

/-! ## Assets -/

/-- Credit that an account issues under a code of `n` bytes. -/
structure CreditAsset (n : Nat) where
  code : FixedBytes n
  issuer : AccountId
deriving DecidableEq

/-- On the wire, the code and then the issuer. -/
def CreditAsset.codec (n : Nat) : Codec (CreditAsset n) :=
  Codec.map ⟨fun c => (c.code, c.issuer), fun v => ⟨v.1, v.2⟩, fun _ => rfl, fun _ => rfl⟩
    (.pair (.fixed n) AccountId.codec)

/-- An asset that can be paid. -/
inductive Asset where
  | native
  | credit4 (credit : CreditAsset 4)
  | credit12 (credit : CreditAsset 12)
deriving DecidableEq

namespace Asset

/-- The arms of the union. -/
inductive Arm where
  | native
  | credit4
  | credit12

/-- The kind of asset in an arm. -/
def Arm.kind : Arm → AssetKind
  | .native => .native
  | .credit4 => .credit4
  | .credit12 => .credit12

/-- The arm for a kind of asset. -/
def Arm.ofKind? : AssetKind → Option Arm
  | .native => some .native
  | .credit4 => some .credit4
  | .credit12 => some .credit12
  | .poolShare => none

/-- What an arm holds. -/
def Arm.Payload : Arm → Type
  | .native => Unit
  | .credit4 => CreditAsset 4
  | .credit12 => CreditAsset 12

/-- An asset as an arm and what the arm holds. -/
def view : Bijection Asset (Sigma Arm.Payload) where
  forth
    | .native => ⟨.native, ()⟩
    | .credit4 credit => ⟨.credit4, credit⟩
    | .credit12 credit => ⟨.credit12, credit⟩
  back
    | ⟨.native, ()⟩ => .native
    | ⟨.credit4, credit⟩ => .credit4 credit
    | ⟨.credit12, credit⟩ => .credit12 credit
  back_forth a := by cases a <;> rfl
  forth_back := fun ⟨k, b⟩ => by cases k <;> rfl

/-- On the wire, a kind of asset and the credit. -/
def codec : Codec Asset :=
  .map view <| .sigma (.arms "Asset" Arm.kind Arm.ofKind?) fun
    | .native => .unit
    | .credit4 => CreditAsset.codec 4
    | .credit12 => CreditAsset.codec 12

/-- The kind of an asset. -/
def kind : Asset → AssetKind
  | .native => .native
  | .credit4 _ => .credit4
  | .credit12 _ => .credit12

/-- The credit that an account issues under a code, in the short form if the code is short. -/
def ofCode (code : String) (issuer : AccountId) : Except ArgumentError Asset := do
  match ← AssetCode.ofText code with
  | .short code => return .credit4 ⟨code, issuer⟩
  | .long code => return .credit12 ⟨code, issuer⟩

/-- Whether the length of the code chooses the form that the asset has. -/
def codeMatchesForm : Asset → Bool
  | .credit12 credit => !AssetCode.isShort credit.code.toList
  | _ => true

/-- The text of credit. -/
def creditText {n : Nat} (credit : CreditAsset n) : String :=
  AssetCode.text credit.code.toList ++ ":" ++ credit.issuer.address

/-- The text of an asset: `XLM` or `CODE:ISSUER`. -/
def canonical : Asset → String
  | .native => "XLM"
  | .credit4 credit => creditText credit
  | .credit12 credit => creditText credit

/-- The asset of a text; `native` is another name of the native asset.  The issuer is read before the
code. -/
def ofCanonical (text : String) : Except ValueError Asset :=
  if text = "XLM" ∨ text = "native" then .ok .native
  else
    match text.toList.span (· != ':') with
    | (_, []) => .error (.argument (.notAsset text))
    -- only the first colon divides, and an issuer with another one is refused
    | (code, _ :: issuer) => do
      let issuer ← AccountId.ofAddress (String.ofList issuer)
      ofCode (String.ofList code) issuer

/-- Assets in listings; one whose form can not be told from its text is not written. -/
def form : Form Asset :=
  .line
    (fun asset =>
      if asset.codeMatchesForm then .ok asset.canonical.toList else .error .shortLongCode)
    fun token _ => (ofCanonical (String.ofList token)).mapError .value

/-- Assets on the wire and, by their texts, in listings. -/
def layout : Layout Asset :=
  ⟨codec, form⟩

end Asset

/-! ## Trust lines -/

/-- What a line of trust holds: an asset, or a share in a pool that `π` describes. -/
inductive TrustLine (π : Type) where
  | asset (asset : Asset)
  | poolShare (pool : π)

namespace TrustLine

variable {π : Type}

/-- What a line of some kind holds. -/
def Payload (π : Type) : AssetKind → Type
  | .native => Unit
  | .credit4 => CreditAsset 4
  | .credit12 => CreditAsset 12
  | .poolShare => π

/-- A line as a kind of asset and what that kind holds. -/
def view (π : Type) : Bijection (TrustLine π) (Sigma (Payload π)) where
  forth
    | .asset .native => ⟨.native, ()⟩
    | .asset (.credit4 credit) => ⟨.credit4, credit⟩
    | .asset (.credit12 credit) => ⟨.credit12, credit⟩
    | .poolShare pool => ⟨.poolShare, pool⟩
  back
    | ⟨.native, ()⟩ => .asset .native
    | ⟨.credit4, credit⟩ => .asset (.credit4 credit)
    | ⟨.credit12, credit⟩ => .asset (.credit12 credit)
    | ⟨.poolShare, pool⟩ => .poolShare pool
  back_forth
    | .asset .native => rfl
    | .asset (.credit4 _) => rfl
    | .asset (.credit12 _) => rfl
    | .poolShare _ => rfl
  forth_back := fun ⟨k, b⟩ => by cases k <;> rfl

/-- On the wire, a kind of asset, and the credit or the pool. -/
def codec (pool : Codec π) : Codec (TrustLine π) :=
  .map (view π) <| .sigma (.constant AssetKind) fun
    | .native => .unit
    | .credit4 => CreditAsset.codec 4
    | .credit12 => CreditAsset.codec 12
    | .poolShare => pool

end TrustLine

/-! ## Lines that are held -/

/-- A line that an account holds; a pool is known by its id. -/
abbrev TrustLineAsset := TrustLine Bytes32

namespace TrustLineAsset

/-- Reads the text of an asset, or 64 hexadecimal digits as the id of a pool. -/
def ofText (text : String) : Except ValueError TrustLineAsset :=
  if (Utf8.encode text).length = 64 ∧ !text.toList.contains ':' then
    match Hex.decode text.toList with
    | .ok id => .ok (.poolShare (.ofListPadded 32 id))
    | .error fault => .error (.argument (.poolId fault))
  else do
    return .asset (← Asset.ofCanonical text)

/-- Lines in listings: the text of an asset, or the id of a pool in hexadecimal. -/
def form : Form TrustLineAsset :=
  .line
    (fun
      | .asset asset =>
        if asset.codeMatchesForm then .ok asset.canonical.toList else .error .shortLongCode
      | .poolShare id => .ok (Hex.encode id.toList))
    fun token _ => (ofText (String.ofList token)).mapError .value

/-- Lines on the wire and in listings. -/
def layout : Layout TrustLineAsset :=
  ⟨TrustLine.codec (.fixed 32), form⟩

end TrustLineAsset

/-! ## Lines that are asked for -/

/-- The kinds of liquidity pools. -/
inductive PoolKind where
  | constantProduct
deriving DecidableEq

instance : Enumeration PoolKind where
  title := "LiquidityPoolType"
  all := [.constantProduct]
  number | .constantProduct => 0
  name | .constantProduct => "LIQUIDITY_POOL_CONSTANT_PRODUCT"

/-- A liquidity pool of two assets, with its fee in hundredths of a percent. -/
structure PoolParameters where
  assetA : Asset
  assetB : Asset
  fee : Int32

/-- The kind of the pool, the assets and the fee. -/
def PoolParameters.layout : Layout PoolParameters :=
  .map ⟨fun p => (.constantProduct, p.assetA, p.assetB, p.fee), fun v => ⟨v.2.1, v.2.2.1, v.2.2.2⟩,
    fun _ => rfl, fun ⟨.constantProduct, _⟩ => rfl⟩ <|
    .field "type" (.constant PoolKind) <|
    .under "constantProduct" <|
      .field "assetA" Asset.layout <|
      .field "assetB" Asset.layout <|
      .under "fee" .int32

/-- A line that an account asks for; a pool is described in full. -/
abbrev ChangeTrustAsset := TrustLine PoolParameters

namespace ChangeTrustAsset

/-- The mark of a line in parts, which says that the line is a share in a pool. -/
def poolShareMark : Form Unit :=
  .arms (fun _ => AssetKind.poolShare) (fun k => if k = .poolShare then some () else none)
    fun _ => .poolShareOnly

/-- A line as an asset or a pool. -/
def view : Bijection ChangeTrustAsset (Asset ⊕ (Unit × PoolParameters)) where
  forth
    | .asset asset => .inl asset
    | .poolShare pool => .inr ((), pool)
  back
    | .inl asset => .asset asset
    | .inr ((), pool) => .poolShare pool
  back_forth l := by cases l <;> rfl
  forth_back l := by cases l <;> rfl

/-- Lines in listings: the text of an asset on one line, or a pool in parts. -/
def form : Form ChangeTrustAsset :=
  .map view <| .either Asset.form "type" <|
    .pair (poolShareMark.under "type") (PoolParameters.layout.form.under "liquidityPool")

/-- Lines on the wire and in listings. -/
def layout : Layout ChangeTrustAsset :=
  ⟨TrustLine.codec PoolParameters.layout.wire, form⟩

end ChangeTrustAsset

/-! ## Prices -/

/-- A price as a fraction. -/
structure Price where
  n : Int32
  d : Int32

/-- The numerator and then the denominator. -/
def Price.layout : Layout Price :=
  .map ⟨fun p => (p.n, p.d), fun v => ⟨v.1, v.2⟩, fun _ => rfl, fun _ => rfl⟩ <|
    .field "n" .int32 <|
    .under "d" .int32

end LedgerTx
