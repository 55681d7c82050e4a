import LedgerTx.Contract.Approval
import LedgerTx.Json.Text
import LedgerTx.Schema.Constants
import LedgerTx.Schema.Types
import LedgerTx.Session
import LedgerTx.Proofs.Wire.Decoder
import LedgerTx.Proofs.Wire.Reads
import LedgerTx.Proofs.Wire.Composed
import LedgerTx.Proofs.Wire.Looser
import LedgerTx.Proofs.Front
import LedgerTx.Proofs.Wire.Local
import LedgerTx.Proofs.Wire.Aligned
import LedgerTx.Proofs.Wire.Repeated
import LedgerTx.Proofs.Text.Blank
import LedgerTx.Proofs.Text.Decimal
import LedgerTx.Proofs.Bytes.Ascii
import LedgerTx.Proofs.Bytes.Hex
import LedgerTx.Proofs.Bytes.Slice
import LedgerTx.Proofs.Text.Quoted
import LedgerTx.Proofs.Text.Size
import LedgerTx.Proofs.Amount.Numeral
import LedgerTx.Proofs.Amount.Parse
import LedgerTx.Proofs.Amount.Comment
import LedgerTx.Proofs.Bytes.Bits
import LedgerTx.Proofs.Strkey.Base32
import LedgerTx.Proofs.Strkey.Spelling
import LedgerTx.Proofs.Strkey.Flow
import LedgerTx.Proofs.Strkey.Basic
import LedgerTx.Proofs.Strkey.Canonical
import LedgerTx.Proofs.Strkey.Checksum
import LedgerTx.Proofs.Strkey.Typo
import LedgerTx.Proofs.Listing.Path
import LedgerTx.Proofs.Listing.Token
import LedgerTx.Proofs.Listing.Entries
import LedgerTx.Proofs.Listing.Short
import LedgerTx.Proofs.Listing.Distinct
import LedgerTx.Proofs.Listing.Alike
import LedgerTx.Proofs.Listing.Taken
import LedgerTx.Proofs.Listing.Decorated
import LedgerTx.Proofs.Listing.Run
import LedgerTx.Proofs.Layout.ReadsBack
import LedgerTx.Proofs.Layout.Forgets
import LedgerTx.Proofs.Layout.Levels
import LedgerTx.Proofs.Layout.Either
import LedgerTx.Proofs.Layout.Admits
import LedgerTx.Proofs.Layout.Composed
import LedgerTx.Proofs.Layout.Agree
import LedgerTx.Proofs.Layout.Run
import LedgerTx.Proofs.Layout.Nests
import LedgerTx.Proofs.Layout.Recursive
import LedgerTx.Proofs.Layout.Orderly
import LedgerTx.Proofs.Listing.Delimited
import LedgerTx.Proofs.Account
import LedgerTx.Proofs.Strkey.Address
import LedgerTx.Proofs.Asset
import LedgerTx.Proofs.Asset.Named
import LedgerTx.Proofs.Parts.Basic
import LedgerTx.Proofs.Parts.Asset
import LedgerTx.Proofs.Parts.Contract
import LedgerTx.Proofs.Parts.Ledger
import LedgerTx.Proofs.Parts.Operation
import LedgerTx.Proofs.Parts.Transaction
import LedgerTx.Proofs.Orderly.Asset
import LedgerTx.Proofs.Orderly.Contract
import LedgerTx.Proofs.Orderly.Operation
import LedgerTx.Proofs.Orderly.Transaction
import LedgerTx.Proofs.Transaction.Text
import LedgerTx.Proofs.Transaction.Lines
import LedgerTx.Proofs.Transaction.Decorated
import LedgerTx.Proofs.Transaction.Normal
import LedgerTx.Proofs.Schema.Types
import LedgerTx.Proofs.Schema.Local
import LedgerTx.Proofs.Schema.Advance
import LedgerTx.Proofs.Schema.Listed
import LedgerTx.Proofs.Bytes.Base64
import LedgerTx.Proofs.Call
import LedgerTx.Proofs.Transaction.Build
import LedgerTx.Proofs.Transaction.Edit
import LedgerTx.Proofs.Transaction.Envelope
import LedgerTx.Proofs.Transaction.Fee
import LedgerTx.Proofs.Transaction.FeeBump
import LedgerTx.Proofs.Transaction.Legacy
import LedgerTx.Proofs.Transaction.Limits
import LedgerTx.Proofs.Transaction.Log
import LedgerTx.Proofs.Transaction.Payload
import LedgerTx.Proofs.Transaction.Reached
import LedgerTx.Proofs.Transaction.Soroban
import LedgerTx.Proofs.Transaction.Apart
import LedgerTx.Proofs.Intent.Build
import LedgerTx.Proofs.Intent.Regrouped
import LedgerTx.Proofs.Json.Record
import LedgerTx.Proofs.Json.Respelled
import LedgerTx.Proofs.Json.Text
import LedgerTx.Proofs.Intent.Json
import LedgerTx.Proofs.Contract.Approval
