import MarketMaker.Exchange.Order
import Mathlib.Tactic.Linarith

/-!
# Inventory and average entry price

`Metrics.update` folds one execution into the inventory and the average entry price.  The net
inventory loses the fee of every buy; the gross inventory does not, so the two drift apart.  The
case split of the code follows the net inventory, its weights and its reset test the gross one.
-/

namespace MarketMaker

variable {F : Type}

/-- `grossInventory` is the inventory before subtracting buy fees: it starts at the net inventory
and is not reset when the position is closed. -/
structure Metrics (F : Type) where
  netInventory : F
  grossInventory : F
  averageEntryPrice : F
  deriving DecidableEq

namespace Metrics

def new (netInventory averageEntryPrice : F) : Metrics F :=
  { netInventory, grossInventory := netInventory, averageEntryPrice }

def inventory (metrics : Metrics F) : F := metrics.netInventory

variable [F64 F] [Add F] [Sub F] [Mul F] [Div F] [LT F] [DecidableLT F] [BEq F] [OfScientific F]

def newGrossInventory (metrics : Metrics F) (execQty : F) : OrderSide → F
  | .buy => metrics.grossInventory + execQty
  | .sell => metrics.grossInventory - execQty

/-- The fee of a buy is paid in the base asset, that of a sell in the quote asset. -/
def newNetInventory (metrics : Metrics F) (execQty execFee : F) : OrderSide → F
  | .buy => metrics.netInventory + execQty - execFee
  | .sell => metrics.netInventory - execQty

/-- The execution is on the side of the position, so the average is recalculated. -/
def sameSide (metrics : Metrics F) (orderSide : OrderSide) : Bool :=
  (F64.isSignPositive metrics.netInventory && orderSide == .buy) ||
    (F64.isSignNegative metrics.netInventory && orderSide == .sell)

def newAverageEntryPrice (metrics : Metrics F) (execPrice execQty execFee : F)
    (orderSide : OrderSide) : F :=
  if F64.abs metrics.netInventory < 1e-8 then
    -- a new position is opened
    execPrice
  else if metrics.sameSide orderSide then
    let newValue := execQty * execPrice
    let oldValue := F64.abs metrics.grossInventory * metrics.averageEntryPrice
    let totalValue := newValue + oldValue
    totalValue / F64.abs (metrics.newGrossInventory execQty orderSide)
  else if F64.abs (metrics.newGrossInventory execQty orderSide) < 1e-8 then
    -- the existing position is closed
    0.0
  else
    let crossedZero := F64.signum metrics.netInventory !=
      F64.signum (metrics.newNetInventory execQty execFee orderSide)
    if crossedZero then execPrice else metrics.averageEntryPrice

def update (metrics : Metrics F) (execPrice execQty execFee : F) (orderSide : OrderSide) :
    Metrics F :=
  { grossInventory := metrics.newGrossInventory execQty orderSide
    netInventory := metrics.newNetInventory execQty execFee orderSide
    averageEntryPrice := metrics.newAverageEntryPrice execPrice execQty execFee orderSide }

def execute (metrics : Metrics F) (order : OrderExecution F) : Metrics F :=
  metrics.update order.execPrice order.execQty order.execFee order.orderSide

/-! ## The exact reading -/

theorem sameSide_rat {metrics : Metrics ℚ} {orderSide : OrderSide} :
    metrics.sameSide orderSide ↔
      0 ≤ metrics.netInventory ∧ orderSide = .buy ∨
        metrics.netInventory < 0 ∧ orderSide = .sell := by
  simp [sameSide]

/-- The five cases of the average entry price over exact rationals. -/
theorem newAverageEntryPrice_rat (metrics : Metrics ℚ) (execPrice execQty execFee : ℚ)
    (orderSide : OrderSide) :
    metrics.newAverageEntryPrice execPrice execQty execFee orderSide =
      if |metrics.netInventory| < 1e-8 then execPrice
      else if metrics.sameSide orderSide then
        (execQty * execPrice + |metrics.grossInventory| * metrics.averageEntryPrice) /
          |metrics.newGrossInventory execQty orderSide|
      else if |metrics.newGrossInventory execQty orderSide| < 1e-8 then 0
      else if metrics.netInventory < 0 ↔
          metrics.newNetInventory execQty execFee orderSide < 0 then metrics.averageEntryPrice
      else execPrice := by
  have hzero : (0.0 : ℚ) = 0 := by norm_num
  simp only [newAverageEntryPrice, F64.abs_rat, hzero, bne_iff_ne, F64.signum_ne_rat, ite_not]

theorem execute_buy {metrics : Metrics ℚ} {order : OrderExecution ℚ}
    (hside : order.orderSide = .buy) :
    (metrics.execute order).inventory = metrics.inventory + order.execQty - order.execFee := by
  simp [execute, update, inventory, newNetInventory, hside]

theorem execute_sell {metrics : Metrics ℚ} {order : OrderExecution ℚ}
    (hside : order.orderSide = .sell) :
    (metrics.execute order).inventory = metrics.inventory - order.execQty := by
  simp [execute, update, inventory, newNetInventory, hside]

end Metrics

end MarketMaker
