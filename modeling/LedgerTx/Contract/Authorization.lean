import LedgerTx.Contract.Invocation

namespace LedgerTx.Contract

/-! # Authorizations

An authorization lets a tree of calls act for an address.  The source account of the transaction
authorizes by signing the transaction, other addresses by a signature of their own. -/

/-- The kinds of credentials. -/
inductive CredentialsKind where
  | sourceAccount
  | address
deriving DecidableEq

instance : Enumeration CredentialsKind where
  title := "SorobanCredentialsType"
  all := [.sourceAccount, .address]
  number
    | .sourceAccount => 0
    | .address => 1
  name
    | .sourceAccount => "SOROBAN_CREDENTIALS_SOURCE_ACCOUNT"
    | .address => "SOROBAN_CREDENTIALS_ADDRESS"

/-- The credentials of an address: a number used once, the last ledger at which the signature holds, and
the signature as contract values. -/
structure AddressCredentials where
  address : Address
  nonce : Int64
  expirationLedger : UInt32
  signatureArgs : List Value

/-- The address, the nonce, the expiration and the signature. -/
def AddressCredentials.layout : Layout AddressCredentials :=
  .map ⟨fun c => (c.address, c.nonce, c.expirationLedger, c.signatureArgs),
    fun v => ⟨v.1, v.2.1, v.2.2.1, v.2.2.2⟩, fun _ => rfl, fun _ => rfl⟩ <|
    .field "address" Address.layout <|
    .field "nonce" .int64 <|
    .field "signatureExpirationLedger" .uint32 <|
    .under "signatureArgs" (.list Layout.unbounded Value.layout)

/-- Who authorizes. -/
inductive Credentials where
  | sourceAccount
  | address (credentials : AddressCredentials)

namespace Credentials

/-- What credentials of some kind hold. -/
def Payload : CredentialsKind → Type
  | .sourceAccount => Unit
  | .address => AddressCredentials

/-- Credentials as their kind and what that kind holds. -/
def view : Bijection Credentials (Sigma Payload) where
  forth
    | .sourceAccount => ⟨.sourceAccount, ()⟩
    | .address credentials => ⟨.address, credentials⟩
  back
    | ⟨.sourceAccount, ()⟩ => .sourceAccount
    | ⟨.address, credentials⟩ => .address credentials
  back_forth c := by cases c <;> rfl
  forth_back := fun ⟨k, b⟩ => by cases k <;> rfl

/-- The kind of the credentials and what that kind holds. -/
def layout : Layout Credentials :=
  .map view <| .sigma (.under "type" (.constant CredentialsKind)) fun
    | .sourceAccount => .unit
    | .address => .under "address" AddressCredentials.layout

end Credentials

/-- A tree of calls and who authorizes it. -/
structure Authorization where
  credentials : Credentials
  root : Invocation

/-- The credentials and then the tree. -/
def Authorization.layout : Layout Authorization :=
  .map ⟨fun a => (a.credentials, a.root), fun v => ⟨v.1, v.2⟩, fun _ => rfl, fun _ => rfl⟩ <|
    .field "credentials" Credentials.layout <|
    .under "rootInvocation" Invocation.layout

/-- The host function that an operation calls and what is authorized for it. -/
structure HostCall where
  function : HostFunction
  auth : List Authorization

/-- The function and then the authorizations. -/
def HostCall.layout : Layout HostCall :=
  .map ⟨fun c => (c.function, c.auth), fun v => ⟨v.1, v.2⟩, fun _ => rfl, fun _ => rfl⟩ <|
    .field "hostFunction" HostFunction.layout <|
    .under "auth" (.list Layout.unbounded Authorization.layout)

end LedgerTx.Contract
