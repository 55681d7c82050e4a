import LedgerTx.Asset
import LedgerTx.Contract.Value

namespace LedgerTx.Contract

/-! # Contract calls

What the host is asked to do, and the trees of calls that an account or a contract authorizes. -/

/-! ## Creating contracts -/

/-- The kinds of sources of contract ids. -/
inductive IdSourceKind where
  | fromAddress
  | fromAsset
deriving DecidableEq

instance : Enumeration IdSourceKind where
  title := "ContractIdPreimageType"
  all := [.fromAddress, .fromAsset]
  number
    | .fromAddress => 0
    | .fromAsset => 1
  name
    | .fromAddress => "CONTRACT_ID_PREIMAGE_FROM_ADDRESS"
    | .fromAsset => "CONTRACT_ID_PREIMAGE_FROM_ASSET"

/-- What a contract's id is made from: who deploys it and a salt, or the asset that it wraps. -/
inductive IdSource where
  | fromAddress (address : Address) (salt : Bytes32)
  | fromAsset (asset : Asset)

namespace IdSource

/-- What a source of some kind holds. -/
def Payload : IdSourceKind → Type
  | .fromAddress => Address × Bytes32
  | .fromAsset => Asset

/-- A source as its kind and what that kind holds. -/
def view : Bijection IdSource (Sigma Payload) where
  forth
    | .fromAddress address salt => ⟨.fromAddress, (address, salt)⟩
    | .fromAsset asset => ⟨.fromAsset, asset⟩
  back
    | ⟨.fromAddress, (address, salt)⟩ => .fromAddress address salt
    | ⟨.fromAsset, asset⟩ => .fromAsset asset
  back_forth s := by cases s <;> rfl
  forth_back := fun ⟨k, b⟩ => by cases k <;> rfl

/-- The kind of the source, and the address and the salt or the asset. -/
def layout : Layout IdSource :=
  .map view <| .sigma (.under "type" (.constant IdSourceKind)) fun
    | .fromAddress => .under "fromAddress" <|
        .field "address" Address.layout <|
        .under "salt" (.fixed 32)
    | .fromAsset => .under "fromAsset" Asset.layout

end IdSource

/-- A contract to be created: where its id comes from and what it runs. -/
structure Creation where
  source : IdSource
  executable : Executable

/-- The source of the id and then the executable. -/
def Creation.layout : Layout Creation :=
  .map ⟨fun c => (c.source, c.executable), fun v => ⟨v.1, v.2⟩, fun _ => rfl, fun _ => rfl⟩ <|
    .field "contractIDPreimage" IdSource.layout <|
    .under "executable" Executable.layout

/-! ## Host functions -/

/-- The kinds of host functions. -/
inductive HostFunctionKind where
  | invoke
  | create
  | upload
deriving DecidableEq

instance : Enumeration HostFunctionKind where
  title := "HostFunctionType"
  all := [.invoke, .create, .upload]
  number
    | .invoke => 0
    | .create => 1
    | .upload => 2
  name
    | .invoke => "HOST_FUNCTION_TYPE_INVOKE_CONTRACT"
    | .create => "HOST_FUNCTION_TYPE_CREATE_CONTRACT"
    | .upload => "HOST_FUNCTION_TYPE_UPLOAD_CONTRACT_WASM"

/-- What the host is asked to do. -/
inductive HostFunction where
  /-- Call a contract: its address, a symbol for the function, and the arguments. -/
  | invoke (args : List Value)
  | create (creation : Creation)
  /-- Store code that contracts can run. -/
  | upload (code : List UInt8)

namespace HostFunction

/-- What a host function of some kind holds. -/
def Payload : HostFunctionKind → Type
  | .invoke => List Value
  | .create => Creation
  | .upload => List UInt8

/-- A host function as its kind and what that kind holds. -/
def view : Bijection HostFunction (Sigma Payload) where
  forth
    | .invoke args => ⟨.invoke, args⟩
    | .create creation => ⟨.create, creation⟩
    | .upload code => ⟨.upload, code⟩
  back
    | ⟨.invoke, args⟩ => .invoke args
    | ⟨.create, creation⟩ => .create creation
    | ⟨.upload, code⟩ => .upload code
  back_forth f := by cases f <;> rfl
  forth_back := fun ⟨k, b⟩ => by cases k <;> rfl

/-- The kind of a host function. -/
def kind (function : HostFunction) : HostFunctionKind :=
  (view.forth function).1

/-- The kind of the function and what that kind holds. -/
def layout : Layout HostFunction :=
  .map view <| .sigma (.under "type" (.constant HostFunctionKind)) fun
    | .invoke => .under "invokeContract" (.list Layout.unbounded Value.layout)
    | .create => .under "createContract" Creation.layout
    | .upload => .under "wasm" (.bytes Layout.unbounded)

/-- The call of a contract's function. -/
def call (contract : Address) (function : String) (args : List Value) : HostFunction :=
  .invoke (.address contract :: .symbol function :: args)

end HostFunction

/-! ## Authorized calls -/

/-- The kinds of authorized functions. -/
inductive FunctionKind where
  | contract
  | create
deriving DecidableEq

instance : Enumeration FunctionKind where
  title := "SorobanAuthorizedFunctionType"
  all := [.contract, .create]
  number
    | .contract => 0
    | .create => 1
  name
    | .contract => "SOROBAN_AUTHORIZED_FUNCTION_TYPE_CONTRACT_FN"
    | .create => "SOROBAN_AUTHORIZED_FUNCTION_TYPE_CREATE_CONTRACT_HOST_FN"

/-- A call of a contract's function. -/
structure FunctionCall where
  contract : Address
  name : String
  args : List Value

/-- The contract, the function's name and the arguments. -/
def FunctionCall.layout : Layout FunctionCall :=
  .map ⟨fun f => (f.contract, f.name, f.args), fun v => ⟨v.1, v.2.1, v.2.2⟩,
    fun _ => rfl, fun _ => rfl⟩ <|
    .field "contractAddress" Address.layout <|
    .field "functionName" (.symbol Value.maxSymbol) <|
    .under "args" (.list Layout.unbounded Value.layout)

/-- A function that may be authorized. -/
inductive Function where
  | contract (call : FunctionCall)
  | create (creation : Creation)

namespace Function

/-- What a function of some kind holds. -/
def Payload : FunctionKind → Type
  | .contract => FunctionCall
  | .create => Creation

/-- A function as its kind and what that kind holds. -/
def view : Bijection Function (Sigma Payload) where
  forth
    | .contract call => ⟨.contract, call⟩
    | .create creation => ⟨.create, creation⟩
  back
    | ⟨.contract, call⟩ => .contract call
    | ⟨.create, creation⟩ => .create creation
  back_forth f := by cases f <;> rfl
  forth_back := fun ⟨k, b⟩ => by cases k <;> rfl

/-- The kind of the function and what that kind holds. -/
def layout : Layout Function :=
  .map view <| .sigma (.under "type" (.constant FunctionKind)) fun
    | .contract => .under "contractFn" FunctionCall.layout
    | .create => .under "createContractHostFn" Creation.layout

end Function

/-- A tree of calls: a function and the calls that it makes. -/
inductive Invocation where
  | node (function : Function) (calls : List Invocation)

namespace Invocation

/-- A tree as its root and the trees below. -/
def view : Bijection Invocation (Function × List Invocation) where
  forth | .node function calls => (function, calls)
  back | (function, calls) => .node function calls
  back_forth t := by cases t; rfl
  forth_back _ := rfl

mutual

/-- How many levels of calls a tree has. -/
def depth : Invocation → Nat
  | .node _ calls => depthOfCalls calls + 1

/-- The greatest depth of trees in a list. -/
def depthOfCalls : List Invocation → Nat
  | [] => 0
  | call :: calls => max call.depth (depthOfCalls calls)

end

/-- The layout of trees, when `call` lays out the trees below the root. -/
def step (call : Layout Invocation) : Layout Invocation :=
  .map view <|
    .field "function" Function.layout <|
    .under "subInvocations" (.list Layout.unbounded call)

/-- The function at the root and then the trees below. -/
def layout : Layout Invocation :=
  .recursive depth step

end Invocation

end LedgerTx.Contract
