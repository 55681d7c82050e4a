import LedgerTx.Ledger.Key

namespace LedgerTx

/-! # Sponsorship of reserves -/

/-- Begins to pay the reserves of another account. -/
structure BeginSponsoring where
  sponsored : AccountId

/-- The account. -/
def BeginSponsoring.layout : Layout BeginSponsoring :=
  .map ⟨fun o => o.sponsored, fun v => ⟨v⟩, fun _ => rfl, fun _ => rfl⟩ <|
    .under "sponsoredID" AccountId.layout

/-- What a sponsorship that ends was for. -/
inductive RevokeKind where
  | ledgerEntry
  | signer
deriving DecidableEq

instance : Enumeration RevokeKind where
  title := "RevokeSponsorshipType"
  all := [.ledgerEntry, .signer]
  number
    | .ledgerEntry => 0
    | .signer => 1
  name
    | .ledgerEntry => "REVOKE_SPONSORSHIP_LEDGER_ENTRY"
    | .signer => "REVOKE_SPONSORSHIP_SIGNER"

/-- Ends the sponsorship of a ledger entry, or of a signer of an account. -/
inductive RevokeSponsorship where
  | ledgerEntry (key : LedgerKey)
  | signer (account : AccountId) (key : SignerKey)

namespace RevokeSponsorship

/-- What an end of sponsorship of some kind holds. -/
def Payload : RevokeKind → Type
  | .ledgerEntry => LedgerKey
  | .signer => AccountId × SignerKey

/-- An end of sponsorship as its kind and what that kind holds. -/
def view : Bijection RevokeSponsorship (Sigma Payload) where
  forth
    | .ledgerEntry key => ⟨.ledgerEntry, key⟩
    | .signer account key => ⟨.signer, (account, key)⟩
  back
    | ⟨.ledgerEntry, key⟩ => .ledgerEntry key
    | ⟨.signer, (account, key)⟩ => .signer account key
  back_forth o := by cases o <;> rfl
  forth_back := fun ⟨k, b⟩ => by cases k <;> rfl

/-- The kind of the sponsorship and what that kind holds. -/
def layout : Layout RevokeSponsorship :=
  .map view <| .sigma (.under "type" (.constant RevokeKind)) fun
    | .ledgerEntry => .under "ledgerKey" LedgerKey.layout
    | .signer => .under "signer" <|
        .field "accountID" AccountId.layout <|
        .under "signerKey" SignerKey.layout

end RevokeSponsorship

end LedgerTx
