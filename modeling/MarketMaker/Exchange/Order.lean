import MarketMaker.Foundation.F64

/-!
# Orders and the messages about them

The data that the strategy, the order management system and the exchange hand to each other.
A price travels as text towards the exchange (`OrderBuilder`, `OrderAmendedBuilder`) and as a
number in everything that is stored or comes back.
-/

namespace MarketMaker

inductive OrderSide
  | buy
  | sell
  deriving DecidableEq, Repr

inductive OrderType
  | market
  | limit
  deriving DecidableEq, Repr

/-- `submitted` is the local status of an order that was sent and not answered yet; the other
statuses are the exchange's. -/
inductive OrderStatus
  | submitted
  | new
  | partiallyFilled
  | untriggered
  | rejected
  | partiallyFilledCanceled
  | filled
  | cancelled
  | triggered
  | deactivated
  deriving DecidableEq, Repr

namespace OrderStatus

def isOpen : OrderStatus → Bool
  | submitted | new | partiallyFilled | untriggered => true
  | _ => false

def isClosed (status : OrderStatus) : Bool := !status.isOpen

theorem ne_submitted_of_isClosed {status : OrderStatus} (hclosed : status.isClosed) :
    status ≠ submitted := by
  rintro rfl
  simp [isClosed, isOpen] at hclosed

end OrderStatus

variable {F : Type}

structure OrderBuilder (F : Type) where
  symbol : String
  side : OrderSide
  orderType : OrderType
  qty : F
  price : String
  deriving DecidableEq

/-- A stored order.  `filledPrice` is the average price of its executions, `none` being NaN. -/
structure Order (F : Type) where
  orderLinkId : UInt64
  orderStatus : OrderStatus
  symbol : String
  side : OrderSide
  orderType : OrderType
  qty : F
  price : F
  filledQty : F
  filledPrice : Option F
  updatedTime : UInt64
  deriving DecidableEq

/-- A request to change the price, the quantity or both of an open order. -/
structure OrderAmendedBuilder (F : Type) where
  symbol : String
  orderLinkId : UInt64
  qty : F
  price : String
  newPrice : Bool
  newQty : Bool
  deriving DecidableEq

/-- A message of the exchange's order topic. -/
structure OrderUpdate (F : Type) where
  orderLinkId : UInt64
  orderStatus : OrderStatus
  qty : F
  price : F
  filledQty : F
  filledPrice : Option F
  updatedTime : UInt64
  deriving DecidableEq

/-- A message of the exchange's execution topic. -/
structure OrderExecution (F : Type) where
  orderLinkId : UInt64
  orderId : String
  orderPrice : F
  orderSide : OrderSide
  execId : String
  execTs : UInt64
  execPrice : F
  execFee : F
  execQty : F
  remainingQty : F
  deriving DecidableEq

/-- What reaches the order management system from the exchange side.  `submissionFailed` comes
from the gateway when the HTTP outcome of a submission is a rejection or unknown. -/
inductive OrderEvent (F : Type)
  | orderUpdate (order : OrderUpdate F)
  | executionUpdate (order : OrderExecution F)
  | submissionFailed (orderLinkId : UInt64)
  deriving DecidableEq

def OrderEvent.orderLinkId : OrderEvent F → UInt64
  | .orderUpdate order => order.orderLinkId
  | .executionUpdate order => order.orderLinkId
  | .submissionFailed orderLinkId => orderLinkId

def executions (events : List (OrderEvent F)) : List (OrderExecution F) :=
  events.filterMap fun
    | .executionUpdate execution => some execution
    | .orderUpdate _ | .submissionFailed _ => none

@[simp]
theorem executions_append (first second : List (OrderEvent F)) :
    executions (first ++ second) = executions first ++ executions second :=
  List.filterMap_append

def OrderEvent.execution : OrderEvent F → Option (OrderExecution F)
  | .executionUpdate execution => some execution
  | .orderUpdate _ | .submissionFailed _ => none

theorem executions_eq (events : List (OrderEvent F)) :
    executions events = events.filterMap OrderEvent.execution := rfl

/-- The order stored for a builder under its link id; `none` is the panic on an unparseable
price. -/
def OrderBuilder.build [F64 F] [OfScientific F] (order : OrderBuilder F) (orderLinkId : UInt64) :
    Option (Order F) :=
  (F64.fromStr order.price).map fun price ↦
    { orderLinkId
      orderStatus := .submitted
      symbol := order.symbol
      side := order.side
      orderType := order.orderType
      qty := order.qty
      price
      filledQty := 0.0
      filledPrice := none
      updatedTime := 0 }

/-- Everything `build` fixes about the stored order, apart from its price. -/
theorem OrderBuilder.build_eq_some [F64 F] [OfScientific F] {builder : OrderBuilder F}
    {orderLinkId : UInt64} {order : Order F} (hbuild : builder.build orderLinkId = some order) :
    order.orderLinkId = orderLinkId ∧ order.orderStatus = .submitted ∧
      order.symbol = builder.symbol ∧ order.side = builder.side ∧
      order.orderType = builder.orderType ∧ order.qty = builder.qty ∧
      F64.fromStr builder.price = some order.price ∧ order.updatedTime = 0 := by
  obtain ⟨price, hprice, rfl⟩ := Option.map_eq_some_iff.mp hbuild
  exact ⟨rfl, rfl, rfl, rfl, rfl, rfl, hprice, rfl⟩

/-- Copy the exchange's view of an order over the stored one; the identity of the order (link id,
symbol, side, type) is not part of a message. -/
def Order.copyUpdate (oldOrder : Order F) (order : OrderUpdate F) : Order F :=
  { oldOrder with
    price := order.price
    qty := order.qty
    orderStatus := order.orderStatus
    filledPrice := order.filledPrice
    filledQty := order.filledQty
    updatedTime := order.updatedTime }

/-! ## Sample messages -/

def sampleBuy : OrderBuilder ℚ :=
  { symbol := "ADAUSDT", side := .buy, orderType := .limit, qty := 25, price := "0.567" }

def sampleAcknowledgement : OrderUpdate ℚ :=
  { orderLinkId := 90, orderStatus := .new, qty := 25, price := 567 / 1000, filledQty := 0
    filledPrice := none, updatedTime := 1 }

def sampleFilled : OrderUpdate ℚ :=
  { sampleAcknowledgement with
    orderStatus := .filled, filledQty := 25, filledPrice := some (567 / 1000), updatedTime := 2 }

def sampleExecution : OrderExecution ℚ :=
  { orderLinkId := 90, orderId := "order-1", orderPrice := 567 / 1000, orderSide := .buy
    execId := "exec-1", execTs := 2, execPrice := 567 / 1000, execFee := 1 / 10, execQty := 25
    remainingQty := 0 }

end MarketMaker
