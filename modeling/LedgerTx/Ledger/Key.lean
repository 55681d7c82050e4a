import LedgerTx.Asset
import LedgerTx.Contract.Value

namespace LedgerTx

/-! # Ledger keys

A ledger key names an entry of the ledger.  Kinds of entries grow with the protocol: on the wire an
unknown kind is read as the key of an account, an unknown durability as persistent, and an unknown kind
of body as the extension of an expiration, unless the rules ask for known kinds only. -/

/-! ## Claimable balances -/

/-- The kinds of ids of claimable balances. -/
inductive BalanceIdKind where
  | v0
deriving DecidableEq

instance : Enumeration BalanceIdKind where
  title := "ClaimableBalanceIdType"
  all := [.v0]
  number | .v0 => 0
  name | .v0 => "CLAIMABLE_BALANCE_ID_TYPE_V0"

/-- The id of a claimable balance. -/
structure BalanceId where
  hash : Bytes32

/-- The kind of the id and the hash. -/
def BalanceId.layout : Layout BalanceId :=
  .map ⟨fun b => (.v0, b.hash), fun v => ⟨v.2⟩, fun _ => rfl, fun ⟨.v0, _⟩ => rfl⟩ <|
    .field "type" (.constant BalanceIdKind) <|
    .under "v0" (.fixed 32)

/-! ## Settings -/

namespace ConfigSetting

/-- The ids of settings that have a name. -/
def names : List (Int32 × String) := [
  (0, "CONFIG_SETTING_CONTRACT_MAX_SIZE_BYTES"),
  (1, "CONFIG_SETTING_CONTRACT_COMPUTE_V0"),
  (2, "CONFIG_SETTING_CONTRACT_LEDGER_COST_V0"),
  (3, "CONFIG_SETTING_CONTRACT_HISTORICAL_DATA_V0"),
  (4, "CONFIG_SETTING_CONTRACT_META_DATA_V0"),
  (5, "CONFIG_SETTING_CONTRACT_BANDWIDTH_V0"),
  (6, "CONFIG_SETTING_CONTRACT_COST_PARAMS_CPU_INSTRUCTIONS"),
  (7, "CONFIG_SETTING_CONTRACT_COST_PARAMS_MEMORY_BYTES"),
  (8, "CONFIG_SETTING_CONTRACT_DATA_KEY_SIZE_BYTES"),
  (9, "CONFIG_SETTING_CONTRACT_DATA_ENTRY_SIZE_BYTES"),
  (10, "CONFIG_SETTING_STATE_EXPIRATION"),
  (11, "CONFIG_SETTING_CONTRACT_EXECUTION_LANES"),
  (12, "CONFIG_SETTING_BUCKETLIST_SIZE_WINDOW")]

/-- The name of a setting. -/
def name? (id : Int32) : Option String :=
  (names.find? fun entry => entry.1 == id).map (·.2)

/-- The id of a setting by its name, or by its number in decimal. -/
def ofText? (text : String) : Option Int32 :=
  match names.find? fun entry => entry.2 == text with
  | some entry => some entry.1
  | none => Decimal.int32? text.toList

/-- The name of a setting, or its number where it has none. -/
def text (id : Int32) : String :=
  (name? id).getD (String.ofList (Decimal.ofInt id.toInt))

/-- The id of a setting; every number is an id. -/
def layout : Layout Int32 :=
  ⟨.int32, .named text ofText?⟩

end ConfigSetting

/-! ## Keys -/

/-- How long contract data lives. -/
inductive Durability where
  | temporary
  | persistent
deriving DecidableEq

instance : Enumeration Durability where
  title := "ContractDataDurability"
  all := [.temporary, .persistent]
  number
    | .temporary => 0
    | .persistent => 1
  name
    | .temporary => "TEMPORARY"
    | .persistent => "PERSISTENT"

/-- What a contract's entry holds. -/
inductive BodyKind where
  | dataEntry
  | expirationExtension
deriving DecidableEq

instance : Enumeration BodyKind where
  title := "ContractEntryBodyType"
  all := [.dataEntry, .expirationExtension]
  number
    | .dataEntry => 0
    | .expirationExtension => 1
  name
    | .dataEntry => "DATA_ENTRY"
    | .expirationExtension => "EXPIRATION_EXTENSION"

/-- A durability; unknown ones count as persistent. -/
def Durability.layout : Layout Durability :=
  .openConstant (Enumeration.title Durability) .persistent

/-- A kind of body; unknown ones count as extensions of the expiration. -/
def BodyKind.layout : Layout BodyKind :=
  .openConstant (Enumeration.title BodyKind) .expirationExtension

/-- The kinds of ledger entries. -/
inductive LedgerKeyKind where
  | account
  | trustLine
  | offer
  | data
  | claimableBalance
  | liquidityPool
  | contractData
  | contractCode
  | configSetting
deriving DecidableEq

instance : Enumeration LedgerKeyKind where
  title := "LedgerEntryType"
  all := [.account, .trustLine, .offer, .data, .claimableBalance, .liquidityPool, .contractData,
    .contractCode, .configSetting]
  number
    | .account => 0
    | .trustLine => 1
    | .offer => 2
    | .data => 3
    | .claimableBalance => 4
    | .liquidityPool => 5
    | .contractData => 6
    | .contractCode => 7
    | .configSetting => 8
  name
    | .account => "ACCOUNT"
    | .trustLine => "TRUSTLINE"
    | .offer => "OFFER"
    | .data => "DATA"
    | .claimableBalance => "CLAIMABLE_BALANCE"
    | .liquidityPool => "LIQUIDITY_POOL"
    | .contractData => "CONTRACT_DATA"
    | .contractCode => "CONTRACT_CODE"
    | .configSetting => "CONFIG_SETTING"

/-- The key of an entry of the ledger. -/
inductive LedgerKey where
  | account (id : AccountId)
  | trustLine (owner : AccountId) (asset : TrustLineAsset)
  | offer (seller : AccountId) (offerId : Int64)
  | data (owner : AccountId) (name : String)
  | claimableBalance (id : BalanceId)
  | liquidityPool (id : Bytes32)
  | contractData (contract : Contract.Address) (key : Contract.Value) (durability : Durability)
      (body : BodyKind)
  | contractCode (hash : Bytes32) (body : BodyKind)
  | configSetting (id : Int32)

/-- The longest name of an account's data entry. -/
def maxDataName : Nat := 64

namespace LedgerKey

/-- What a key of some kind holds. -/
def Payload : LedgerKeyKind → Type
  | .account => AccountId
  | .trustLine => AccountId × TrustLineAsset
  | .offer => AccountId × Int64
  | .data => AccountId × String
  | .claimableBalance => BalanceId
  | .liquidityPool => Bytes32
  | .contractData => Contract.Address × Contract.Value × Durability × BodyKind
  | .contractCode => Bytes32 × BodyKind
  | .configSetting => Int32

/-- A key as its kind and what that kind holds. -/
def view : Bijection LedgerKey (Sigma Payload) where
  forth
    | .account id => ⟨.account, id⟩
    | .trustLine owner asset => ⟨.trustLine, (owner, asset)⟩
    | .offer seller offerId => ⟨.offer, (seller, offerId)⟩
    | .data owner name => ⟨.data, (owner, name)⟩
    | .claimableBalance id => ⟨.claimableBalance, id⟩
    | .liquidityPool id => ⟨.liquidityPool, id⟩
    | .contractData contract key durability body =>
      ⟨.contractData, (contract, key, durability, body)⟩
    | .contractCode hash body => ⟨.contractCode, (hash, body)⟩
    | .configSetting id => ⟨.configSetting, id⟩
  back
    | ⟨.account, id⟩ => .account id
    | ⟨.trustLine, (owner, asset)⟩ => .trustLine owner asset
    | ⟨.offer, (seller, offerId)⟩ => .offer seller offerId
    | ⟨.data, (owner, name)⟩ => .data owner name
    | ⟨.claimableBalance, id⟩ => .claimableBalance id
    | ⟨.liquidityPool, id⟩ => .liquidityPool id
    | ⟨.contractData, (contract, key, durability, body)⟩ =>
      .contractData contract key durability body
    | ⟨.contractCode, (hash, body)⟩ => .contractCode hash body
    | ⟨.configSetting, id⟩ => .configSetting id
  back_forth k := by cases k <;> rfl
  forth_back := fun ⟨k, b⟩ => by cases k <;> rfl

/-- The kind of a key. -/
def kind (key : LedgerKey) : LedgerKeyKind :=
  (view.forth key).1

/-- The kind of the key and what that kind holds. -/
def layout : Layout LedgerKey :=
  .map view <| .sigma (.under "type" (.openConstant "LedgerKey" LedgerKeyKind.account)) fun
    | .account => .under "account" (.under "accountID" AccountId.layout)
    | .trustLine => .under "trustLine" <|
        .field "accountID" AccountId.layout <|
        .under "asset" TrustLineAsset.layout
    | .offer => .under "offer" <|
        .field "sellerID" AccountId.layout <|
        .under "offerID" .int64
    | .data => .under "data" <|
        .field "accountID" AccountId.layout <|
        .under "dataName" (.text maxDataName)
    | .claimableBalance => .under "claimableBalance" (.under "balanceID" BalanceId.layout)
    | .liquidityPool => .under "liquidityPool" (.under "liquidityPoolID" (.fixed 32))
    | .contractData => .under "contractData" <|
        .field "contract" Contract.Address.layout <|
        .field "key" Contract.Value.layout <|
        .field "durability" Durability.layout <|
        .under "bodyType" BodyKind.layout
    | .contractCode => .under "contractCode" <|
        .field "hash" (.fixed 32) <|
        .under "bodyType" BodyKind.layout
    | .configSetting => .under "configSetting" (.under "configSettingID" ConfigSetting.layout)

end LedgerKey

end LedgerTx
