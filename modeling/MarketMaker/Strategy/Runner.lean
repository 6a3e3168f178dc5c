import MarketMaker.Exchange.Order
import MarketMaker.Exchange.OrderBook

/-!
# The strategy runner

The strategy is a parameter with a state of its own.  The runner reads the inventory from a queue of
capacity one, in which a new value replaces the old one, and falls back on the value it used last.
-/

namespace MarketMaker

variable {σ F : Type}

def strategyIntervalMs : UInt64 := 1000

/-- `execute` of the trait: the strategy with its state, the book and the inventory. -/
abbrev Strategy (σ F : Type) := σ → OrderBook F → F → σ × List (OrderBuilder F)

/-- The orders the strategy issues, in whatever state it is and whatever it is shown. -/
def Strategy.Issues (execute : Strategy σ F) (order : OrderBuilder F) : Prop :=
  ∃ strategy orderBook inventory, order ∈ (execute strategy orderBook inventory).2

/-- `ArrayQueue` with capacity one. -/
abbrev InventoryQueue (F : Type) := Option F

def InventoryQueue.forcePush (_queue : InventoryQueue F) (inventory : F) : InventoryQueue F :=
  some inventory

/-- The value taken and the queue after it. -/
def InventoryQueue.pop (queue : InventoryQueue F) : Option F × InventoryQueue F := (queue, none)

/-- `inventory` is the variable of `cycle`, `none` before its first statement. -/
structure StrategyRunner (σ F : Type) where
  strategy : σ
  inventory : Option F

namespace StrategyRunner

def new (strategy : σ) : StrategyRunner σ F := { strategy, inventory := none }

/-- The first statement of `cycle`. -/
def start [OfScientific F] (runner : StrategyRunner σ F) (queue : InventoryQueue F) :
    StrategyRunner σ F × InventoryQueue F :=
  let (popped, queue) := queue.pop
  ({ runner with inventory := some (popped.getD 0.0) }, queue)

/-- One iteration of `cycle` from the value of its variable, with the inventory passed to `execute`
and the orders sent. -/
def iterate (execute : Strategy σ F) (runner : StrategyRunner σ F) (inventory : F)
    (queue : InventoryQueue F) (orderBook : OrderBook F) :
    (StrategyRunner σ F × InventoryQueue F) × F × List (OrderBuilder F) :=
  let (popped, queue) := queue.pop
  let inventory := popped.getD inventory
  let (strategy, orders) := execute runner.strategy orderBook inventory
  (({ strategy, inventory := some inventory }, queue), inventory, orders)

end StrategyRunner

end MarketMaker
