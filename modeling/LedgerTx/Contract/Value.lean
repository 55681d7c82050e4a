import LedgerTx.Account

namespace LedgerTx

/-! # Contract values

The values that contracts take, store and return.  A vector or map may be absent, which differs from an
empty one. -/

namespace Contract

/-! ## Errors, addresses and executables -/

/-- The categories of contract errors. -/
inductive ErrorKind where
  | contract
  | wasmVm
  | context
  | storage
  | object
  | crypto
  | events
  | budget
  | value
  | auth
deriving DecidableEq

instance : Enumeration ErrorKind where
  title := "ScErrorType"
  all := [.contract, .wasmVm, .context, .storage, .object, .crypto, .events, .budget, .value, .auth]
  number
    | .contract => 0
    | .wasmVm => 1
    | .context => 2
    | .storage => 3
    | .object => 4
    | .crypto => 5
    | .events => 6
    | .budget => 7
    | .value => 8
    | .auth => 9
  name
    | .contract => "SCE_CONTRACT"
    | .wasmVm => "SCE_WASM_VM"
    | .context => "SCE_CONTEXT"
    | .storage => "SCE_STORAGE"
    | .object => "SCE_OBJECT"
    | .crypto => "SCE_CRYPTO"
    | .events => "SCE_EVENTS"
    | .budget => "SCE_BUDGET"
    | .value => "SCE_VALUE"
    | .auth => "SCE_AUTH"

/-- An error of a contract: its category and a code. -/
structure Error where
  kind : ErrorKind
  code : Int32

/-- The category and then the code. -/
def Error.layout : Layout Error :=
  .map ⟨fun e => (e.kind, e.code), fun v => ⟨v.1, v.2⟩, fun _ => rfl, fun _ => rfl⟩ <|
    .field "type" (.constant ErrorKind) <|
    .under "code" .int32

/-- The kinds of addresses. -/
inductive AddressKind where
  | account
  | contract
deriving DecidableEq

instance : Enumeration AddressKind where
  title := "ScAddressType"
  all := [.account, .contract]
  number
    | .account => 0
    | .contract => 1
  name
    | .account => "SC_ADDRESS_TYPE_ACCOUNT"
    | .contract => "SC_ADDRESS_TYPE_CONTRACT"

/-- Who a contract deals with: an account, or a contract by its id. -/
inductive Address where
  | account (id : AccountId)
  | contract (id : Bytes32)

namespace Address

/-- What an address of some kind holds. -/
def Payload : AddressKind → Type
  | .account => AccountId
  | .contract => Bytes32

/-- An address as its kind and what that kind holds. -/
def view : Bijection Address (Sigma Payload) where
  forth
    | .account id => ⟨.account, id⟩
    | .contract id => ⟨.contract, id⟩
  back
    | ⟨.account, id⟩ => .account id
    | ⟨.contract, id⟩ => .contract id
  back_forth a := by cases a <;> rfl
  forth_back := fun ⟨k, b⟩ => by cases k <;> rfl

/-- The kind of an address. -/
def kind (address : Address) : AddressKind :=
  (view.forth address).1

/-- A contract's id, in listings as its strkey. -/
def contractId : Layout Bytes32 :=
  ⟨.fixed 32, .parsed (fun id => Strkey.encode .contract id.toList) fun text =>
    Strkey.decodeKey .contract text⟩

/-- The kind of the address, and the account or the contract. -/
def layout : Layout Address :=
  .map view <| .sigma (.under "type" (.constant AddressKind)) fun
    | .account => .under "accountId" AccountId.layout
    | .contract => .under "contractId" contractId

end Address

/-- The kinds of executables. -/
inductive ExecutableKind where
  | wasm
  | token
deriving DecidableEq

instance : Enumeration ExecutableKind where
  title := "ContractExecutableType"
  all := [.wasm, .token]
  number
    | .wasm => 0
    | .token => 1
  name
    | .wasm => "CONTRACT_EXECUTABLE_WASM"
    | .token => "CONTRACT_EXECUTABLE_TOKEN"

/-- What a contract runs: code of that hash, or the built-in token. -/
inductive Executable where
  | wasm (hash : Bytes32)
  | token

namespace Executable

/-- What an executable of some kind holds. -/
def Payload : ExecutableKind → Type
  | .wasm => Bytes32
  | .token => Unit

/-- An executable as its kind and what that kind holds. -/
def view : Bijection Executable (Sigma Payload) where
  forth
    | .wasm hash => ⟨.wasm, hash⟩
    | .token => ⟨.token, ()⟩
  back
    | ⟨.wasm, hash⟩ => .wasm hash
    | ⟨.token, ()⟩ => .token
  back_forth e := by cases e <;> rfl
  forth_back := fun ⟨k, b⟩ => by cases k <;> rfl

/-- The kind of the executable and the hash of its code. -/
def layout : Layout Executable :=
  .map view <| .sigma (.under "type" (.constant ExecutableKind)) fun
    | .wasm => .under "wasm_hash" (.fixed 32)
    | .token => .unit

end Executable

/-! ## Wide numbers -/

/-- An unsigned number of 128 bits in two halves. -/
structure UInt128 where
  hi : UInt64
  lo : UInt64
deriving DecidableEq

/-- A signed number of 128 bits in two halves. -/
structure Int128 where
  hi : Int64
  lo : UInt64
deriving DecidableEq

/-- An unsigned number of 256 bits in four quarters. -/
structure UInt256 where
  hiHi : UInt64
  hiLo : UInt64
  loHi : UInt64
  loLo : UInt64

/-- A signed number of 256 bits in four quarters. -/
structure Int256 where
  hiHi : Int64
  hiLo : UInt64
  loHi : UInt64
  loLo : UInt64

/-- The number that the halves make up. -/
def UInt128.toNat (v : UInt128) : Nat :=
  v.hi.toNat * UInt64.size + v.lo.toNat

/-- The halves of a number below `2 ^ 128`. -/
def UInt128.ofNat (n : Nat) : UInt128 :=
  ⟨UInt64.ofNat (n / UInt64.size), UInt64.ofNat n⟩

/-- The number that the halves make up. -/
def Int128.toInt (v : Int128) : Int :=
  v.hi.toInt * UInt64.size + v.lo.toNat

/-- The halves of a number from `-2 ^ 127` to below `2 ^ 127`; the high half is rounded down. -/
def Int128.ofInt (i : Int) : Int128 :=
  ⟨Int64.ofInt (i / UInt64.size), UInt64.ofNat (i % UInt64.size).toNat⟩

/-- The high half and then the low half. -/
def UInt128.layout : Layout UInt128 :=
  .map ⟨fun v => (v.hi, v.lo), fun v => ⟨v.1, v.2⟩, fun _ => rfl, fun _ => rfl⟩ <|
    .field "hi" .uint64 <|
    .under "lo" .uint64

/-- The high half and then the low half. -/
def Int128.layout : Layout Int128 :=
  .map ⟨fun v => (v.hi, v.lo), fun v => ⟨v.1, v.2⟩, fun _ => rfl, fun _ => rfl⟩ <|
    .field "hi" .int64 <|
    .under "lo" .uint64

/-- The quarters, highest first. -/
def UInt256.layout : Layout UInt256 :=
  .map ⟨fun v => (v.hiHi, v.hiLo, v.loHi, v.loLo), fun v => ⟨v.1, v.2.1, v.2.2.1, v.2.2.2⟩,
    fun _ => rfl, fun _ => rfl⟩ <|
    .field "hi_hi" .uint64 <|
    .field "hi_lo" .uint64 <|
    .field "lo_hi" .uint64 <|
    .under "lo_lo" .uint64

/-- The quarters, highest first. -/
def Int256.layout : Layout Int256 :=
  .map ⟨fun v => (v.hiHi, v.hiLo, v.loHi, v.loLo), fun v => ⟨v.1, v.2.1, v.2.2.1, v.2.2.2⟩,
    fun _ => rfl, fun _ => rfl⟩ <|
    .field "hi_hi" .int64 <|
    .field "hi_lo" .uint64 <|
    .field "lo_hi" .uint64 <|
    .under "lo_lo" .uint64

/-! ## Values -/

/-- The kinds of contract values. -/
inductive ValueKind where
  | bool
  | void
  | error
  | uint32
  | int32
  | uint64
  | int64
  | timepoint
  | duration
  | uint128
  | int128
  | uint256
  | int256
  | bytes
  | string
  | symbol
  | vec
  | map
  | address
  | contractInstance
  | instanceKey
  | nonceKey
deriving DecidableEq

instance : Enumeration ValueKind where
  title := "ScValType"
  all := [.bool, .void, .error, .uint32, .int32, .uint64, .int64, .timepoint, .duration, .uint128,
    .int128, .uint256, .int256, .bytes, .string, .symbol, .vec, .map, .address, .contractInstance,
    .instanceKey, .nonceKey]
  number
    | .bool => 0
    | .void => 1
    | .error => 2
    | .uint32 => 3
    | .int32 => 4
    | .uint64 => 5
    | .int64 => 6
    | .timepoint => 7
    | .duration => 8
    | .uint128 => 9
    | .int128 => 10
    | .uint256 => 11
    | .int256 => 12
    | .bytes => 13
    | .string => 14
    | .symbol => 15
    | .vec => 16
    | .map => 17
    | .address => 18
    | .contractInstance => 19
    | .instanceKey => 20
    | .nonceKey => 21
  name
    | .bool => "SCV_BOOL"
    | .void => "SCV_VOID"
    | .error => "SCV_ERROR"
    | .uint32 => "SCV_U32"
    | .int32 => "SCV_I32"
    | .uint64 => "SCV_U64"
    | .int64 => "SCV_I64"
    | .timepoint => "SCV_TIMEPOINT"
    | .duration => "SCV_DURATION"
    | .uint128 => "SCV_U128"
    | .int128 => "SCV_I128"
    | .uint256 => "SCV_U256"
    | .int256 => "SCV_I256"
    | .bytes => "SCV_BYTES"
    | .string => "SCV_STRING"
    | .symbol => "SCV_SYMBOL"
    | .vec => "SCV_VEC"
    | .map => "SCV_MAP"
    | .address => "SCV_ADDRESS"
    | .contractInstance => "SCV_CONTRACT_INSTANCE"
    | .instanceKey => "SCV_LEDGER_KEY_CONTRACT_INSTANCE"
    | .nonceKey => "SCV_LEDGER_KEY_NONCE"

/-- A key and a value of a map. -/
structure Entry (ν : Type) where
  key : ν
  val : ν

/-- A contract's executable and its storage. -/
structure Instance (ν : Type) where
  executable : Executable
  storage : Option (List (Entry ν))

/-- A contract value. -/
inductive Value where
  | bool (b : Bool)
  | void
  | error (e : Error)
  | uint32 (v : UInt32)
  | int32 (v : Int32)
  | uint64 (v : UInt64)
  | int64 (v : Int64)
  | timepoint (v : UInt64)
  | duration (v : UInt64)
  | uint128 (v : UInt128)
  | int128 (v : Int128)
  | uint256 (v : UInt256)
  | int256 (v : Int256)
  | bytes (v : List UInt8)
  | string (v : String)
  | symbol (v : String)
  | vec (items : Option (List Value))
  | map (entries : Option (List (Entry Value)))
  | address (a : Address)
  | contractInstance (i : Instance Value)
  /-- The ledger key of a contract's instance. -/
  | instanceKey
  /-- The ledger key of a nonce. -/
  | nonceKey (nonce : Int64)

namespace Value

/-- What a value of some kind holds. -/
def Payload : ValueKind → Type
  | .bool => Bool
  | .void => Unit
  | .error => Error
  | .uint32 => UInt32
  | .int32 => Int32
  | .uint64 => UInt64
  | .int64 => Int64
  | .timepoint => UInt64
  | .duration => UInt64
  | .uint128 => UInt128
  | .int128 => Int128
  | .uint256 => UInt256
  | .int256 => Int256
  | .bytes => List UInt8
  | .string => String
  | .symbol => String
  | .vec => Option (List Value)
  | .map => Option (List (Entry Value))
  | .address => Address
  | .contractInstance => Instance Value
  | .instanceKey => Unit
  | .nonceKey => Int64

/-- A value as its kind and what that kind holds. -/
def view : Bijection Value (Sigma Payload) where
  forth
    | .bool b => ⟨.bool, b⟩
    | .void => ⟨.void, ()⟩
    | .error e => ⟨.error, e⟩
    | .uint32 v => ⟨.uint32, v⟩
    | .int32 v => ⟨.int32, v⟩
    | .uint64 v => ⟨.uint64, v⟩
    | .int64 v => ⟨.int64, v⟩
    | .timepoint v => ⟨.timepoint, v⟩
    | .duration v => ⟨.duration, v⟩
    | .uint128 v => ⟨.uint128, v⟩
    | .int128 v => ⟨.int128, v⟩
    | .uint256 v => ⟨.uint256, v⟩
    | .int256 v => ⟨.int256, v⟩
    | .bytes v => ⟨.bytes, v⟩
    | .string v => ⟨.string, v⟩
    | .symbol v => ⟨.symbol, v⟩
    | .vec items => ⟨.vec, items⟩
    | .map entries => ⟨.map, entries⟩
    | .address a => ⟨.address, a⟩
    | .contractInstance i => ⟨.contractInstance, i⟩
    | .instanceKey => ⟨.instanceKey, ()⟩
    | .nonceKey nonce => ⟨.nonceKey, nonce⟩
  back
    | ⟨.bool, b⟩ => .bool b
    | ⟨.void, ()⟩ => .void
    | ⟨.error, e⟩ => .error e
    | ⟨.uint32, v⟩ => .uint32 v
    | ⟨.int32, v⟩ => .int32 v
    | ⟨.uint64, v⟩ => .uint64 v
    | ⟨.int64, v⟩ => .int64 v
    | ⟨.timepoint, v⟩ => .timepoint v
    | ⟨.duration, v⟩ => .duration v
    | ⟨.uint128, v⟩ => .uint128 v
    | ⟨.int128, v⟩ => .int128 v
    | ⟨.uint256, v⟩ => .uint256 v
    | ⟨.int256, v⟩ => .int256 v
    | ⟨.bytes, v⟩ => .bytes v
    | ⟨.string, v⟩ => .string v
    | ⟨.symbol, v⟩ => .symbol v
    | ⟨.vec, items⟩ => .vec items
    | ⟨.map, entries⟩ => .map entries
    | ⟨.address, a⟩ => .address a
    | ⟨.contractInstance, i⟩ => .contractInstance i
    | ⟨.instanceKey, ()⟩ => .instanceKey
    | ⟨.nonceKey, nonce⟩ => .nonceKey nonce
  back_forth v := by cases v <;> rfl
  forth_back := fun ⟨k, b⟩ => by cases k <;> rfl

/-- The kind of a value. -/
def kind (value : Value) : ValueKind :=
  (view.forth value).1

mutual

/-- How many levels of values a value has. -/
def depth : Value → Nat
  | .vec (some items) => depthOfItems items + 1
  | .map (some entries) => depthOfEntries entries + 1
  | .contractInstance ⟨_, some entries⟩ => depthOfEntries entries + 1
  | _ => 1

/-- The greatest depth of values in a list. -/
def depthOfItems : List Value → Nat
  | [] => 0
  | item :: items => max item.depth (depthOfItems items)

/-- The greatest depth of keys and values in a list of entries. -/
def depthOfEntries : List (Entry Value) → Nat
  | [] => 0
  | ⟨key, val⟩ :: entries => max (max key.depth val.depth) (depthOfEntries entries)

end

/-- The longest symbol. -/
def maxSymbol : Nat := 32

end Value

/-- A key and then its value, when `value` lays out both. -/
def Entry.layout {ν : Type} (value : Layout ν) : Layout (Entry ν) :=
  .map ⟨fun e => (e.key, e.val), fun v => ⟨v.1, v.2⟩, fun _ => rfl, fun _ => rfl⟩ <|
    .field "key" value <|
    .under "val" value

/-- The executable and then the storage, when `value` lays out the values in it. -/
def Instance.layout {ν : Type} (value : Layout ν) : Layout (Instance ν) :=
  .map ⟨fun i => (i.executable, i.storage), fun v => ⟨v.1, v.2⟩, fun _ => rfl, fun _ => rfl⟩ <|
    .field "executable" Executable.layout <|
    .under "storage" (.option (.list Layout.unbounded (Entry.layout value)))

namespace Value

/-- The layout of what values hold, when `value` lays out the values inside them. -/
def payload (value : Layout Value) : (kind : ValueKind) → Layout (Payload kind)
  | .bool => .under "b" .bool
  | .void => .unit
  | .error => .under "error" Error.layout
  | .uint32 => .under "u32" .uint32
  | .int32 => .under "i32" .int32
  | .uint64 => .under "u64" .uint64
  | .int64 => .under "i64" .int64
  | .timepoint => .under "timepoint" .uint64
  | .duration => .under "duration" .uint64
  | .uint128 => .under "u128" UInt128.layout
  | .int128 => .under "i128" Int128.layout
  | .uint256 => .under "u256" UInt256.layout
  | .int256 => .under "i256" Int256.layout
  | .bytes => .under "bytes" (.bytes Layout.unbounded)
  | .string => .under "str" (.text Layout.unbounded)
  | .symbol => .under "sym" (.symbol maxSymbol)
  | .vec => .under "vec" (.option (.list Layout.unbounded value))
  | .map => .under "map" (.option (.list Layout.unbounded (Entry.layout value)))
  | .address => .under "address" Address.layout
  | .contractInstance => .under "instance" (Instance.layout value)
  | .instanceKey => .unit
  | .nonceKey => .under "nonce_key" (.under "nonce" .int64)

/-- The layout of values, when `value` lays out the values inside them. -/
def step (value : Layout Value) : Layout Value :=
  .map view (.sigma (.under "type" (.constant ValueKind)) (payload value))

/-- The kind of the value and what that kind holds. -/
def layout : Layout Value :=
  .recursive depth step

end Value

end Contract

end LedgerTx
