import LedgerTx.Bytes.Utf8
import LedgerTx.Hash.Sha256

namespace LedgerTx

/-! # Networks

A network is known by its passphrase, and its id is the hash of that. -/

/-- A network of ledgers. -/
structure Network where
  passphrase : String
deriving DecidableEq

namespace Network

/-- The id that every hash covers. -/
def id (network : Network) : Bytes32 :=
  Sha256.hash (Utf8.encode network.passphrase)

/-- The main network. -/
def mainNet : Network := ⟨"Public Global Stellar Network ; September 2015"⟩

/-- The network for tests. -/
def testNet : Network := ⟨"Test SDF Network ; September 2015"⟩

/-- The network for tests of what is to come. -/
def futureNet : Network := ⟨"Test SDF Future Network ; October 2022"⟩

/-- A network of one node. -/
def standalone : Network := ⟨"Standalone Network ; February 2017"⟩

/-- The networks that have a name. -/
def known : List (String × Network) := [
  ("public", mainNet),
  ("testnet", testNet),
  ("futurenet", futureNet),
  ("standalone", standalone)]

/-- The network of a name. -/
def ofName? (name : String) : Option Network :=
  known.lookup name

/-- Whether a network has a name. -/
def isKnown (network : Network) : Bool :=
  known.any fun entry => entry.2 == network

end Network

end LedgerTx
