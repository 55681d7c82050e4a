import LedgerTx.Asset

namespace LedgerTx

/-! # Offers and liquidity pools -/

/-- Offers to sell an amount; offer number 0 makes a new offer. -/
structure ManageSellOffer where
  selling : Asset
  buying : Asset
  amount : Int64
  price : Price
  offerId : Int64

/-- The assets, the amount, the price and the offer. -/
def ManageSellOffer.layout : Layout ManageSellOffer :=
  .map ⟨fun o => (o.selling, o.buying, o.amount, o.price, o.offerId),
    fun v => ⟨v.1, v.2.1, v.2.2.1, v.2.2.2.1, v.2.2.2.2⟩, fun _ => rfl, fun _ => rfl⟩ <|
    .field "selling" Asset.layout <|
    .field "buying" Asset.layout <|
    .field "amount" .amount <|
    .field "price" Price.layout <|
    .under "offerID" .int64

/-- Offers to buy an amount; offer number 0 makes a new offer. -/
structure ManageBuyOffer where
  selling : Asset
  buying : Asset
  buyAmount : Int64
  price : Price
  offerId : Int64

/-- The assets, the amount, the price and the offer. -/
def ManageBuyOffer.layout : Layout ManageBuyOffer :=
  .map ⟨fun o => (o.selling, o.buying, o.buyAmount, o.price, o.offerId),
    fun v => ⟨v.1, v.2.1, v.2.2.1, v.2.2.2.1, v.2.2.2.2⟩, fun _ => rfl, fun _ => rfl⟩ <|
    .field "selling" Asset.layout <|
    .field "buying" Asset.layout <|
    .field "buyAmount" .amount <|
    .field "price" Price.layout <|
    .under "offerID" .int64

/-- Offers to sell an amount without taking offers of the same price. -/
structure CreatePassiveOffer where
  selling : Asset
  buying : Asset
  amount : Int64
  price : Price

/-- The assets, the amount and the price. -/
def CreatePassiveOffer.layout : Layout CreatePassiveOffer :=
  .map ⟨fun o => (o.selling, o.buying, o.amount, o.price),
    fun v => ⟨v.1, v.2.1, v.2.2.1, v.2.2.2⟩, fun _ => rfl, fun _ => rfl⟩ <|
    .field "selling" Asset.layout <|
    .field "buying" Asset.layout <|
    .field "amount" .amount <|
    .under "price" Price.layout

/-- Puts assets into a pool. -/
structure PoolDeposit where
  pool : Bytes32
  maxAmountA : Int64
  maxAmountB : Int64
  minPrice : Price
  maxPrice : Price

/-- The pool, the amounts and the prices. -/
def PoolDeposit.layout : Layout PoolDeposit :=
  .map ⟨fun o => (o.pool, o.maxAmountA, o.maxAmountB, o.minPrice, o.maxPrice),
    fun v => ⟨v.1, v.2.1, v.2.2.1, v.2.2.2.1, v.2.2.2.2⟩, fun _ => rfl, fun _ => rfl⟩ <|
    .field "liquidityPoolID" (.fixed 32) <|
    .field "maxAmountA" .amount <|
    .field "maxAmountB" .amount <|
    .field "minPrice" Price.layout <|
    .under "maxPrice" Price.layout

/-- Takes assets out of a pool. -/
structure PoolWithdraw where
  pool : Bytes32
  amount : Int64
  minAmountA : Int64
  minAmountB : Int64

/-- The pool and the amounts. -/
def PoolWithdraw.layout : Layout PoolWithdraw :=
  .map ⟨fun o => (o.pool, o.amount, o.minAmountA, o.minAmountB),
    fun v => ⟨v.1, v.2.1, v.2.2.1, v.2.2.2⟩, fun _ => rfl, fun _ => rfl⟩ <|
    .field "liquidityPoolID" (.fixed 32) <|
    .field "amount" .amount <|
    .field "minAmountA" .amount <|
    .under "minAmountB" .amount

end LedgerTx
