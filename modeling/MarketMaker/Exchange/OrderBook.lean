import MarketMaker.Foundation.F64

/-!
# Order books

The local copy of the exchange's book: levels by price, the best one first on each side.
-/

namespace MarketMaker

variable {F : Type}

structure Level (F : Type) where
  price : F
  size : F
  deriving DecidableEq

/-- A level as the exchange sends it, price and size as text. -/
structure OrderbookItem where
  price : String
  size : String
  deriving DecidableEq

/-- `none` is the panic on a text that is no number. -/
def Level.fromItem [F64 F] (src : OrderbookItem) : Option (Level F) :=
  (F64.fromStr src.price).bind fun price ↦
    (F64.fromStr src.size).map fun size ↦ { price, size }

/-- Bids are sorted by descending and asks by ascending price. -/
structure OrderBook (F : Type) where
  bids : List (Level F)
  asks : List (Level F)
  ts : UInt64
  cts : UInt64
  deriving DecidableEq

def OrderBook.default : OrderBook F := { bids := [], asks := [], ts := 0, cts := 0 }

def sampleOrderBook (cts : UInt64) : OrderBook ℚ :=
  { bids := [{ price := 567 / 1000, size := 300 }]
    asks := [{ price := 568 / 1000, size := 100 }]
    ts := cts
    cts }

def sampleMarketAt (cts : UInt64) (bid bidSize ask askSize : ℚ) : OrderBook ℚ :=
  { bids := [{ price := bid, size := bidSize }]
    asks := [{ price := ask, size := askSize }]
    ts := cts
    cts }

end MarketMaker
