import MarketMaker.Exchange.OrderBook
import MarketMaker.Foundation.Keyed
import MarketMaker.Foundation.SortedMap
import MarketMaker.Foundation.U64
import MarketMaker.Oms.System

/-!
# The simulated exchange

The exchange of the offline test: orders rest under their link ids until a book crosses them, and
are then filled whole at their own price.  An order that crosses the current book is refused as a
maker order: a submission with a failure event, an amendment silently.  What the exchange has to
say waits in a queue until the runner drains it.
-/

namespace MarketMaker

variable {F : Type}

structure CurrentBook (F : Type) where
  bestBid : F
  bestAsk : F
  cts : UInt64
  deriving DecidableEq

/-- `none` is the panic on an empty side. -/
def CurrentBook.ofOrderBook (orderBook : OrderBook F) : Option (CurrentBook F) :=
  orderBook.bids.head?.bind fun bestBid ↦ orderBook.asks.head?.map fun bestAsk ↦
    { bestBid := bestBid.price, bestAsk := bestAsk.price, cts := orderBook.cts }

def CurrentBook.isCrossedBy [LE F] [DecidableLE F] (currentBook : CurrentBook F)
    (order : OrderBuilder F) (price : F) : Bool :=
  match order.side with
  | .buy => decide (price ≥ currentBook.bestAsk)
  | .sell => decide (price ≤ currentBook.bestBid)

/-- `none` is the panic on a price that is no number. -/
def orderPrice [F64 F] (order : OrderBuilder F) : Option F := F64.fromStr order.price

/-- What an acknowledgement says about a resting order. -/
def restingUpdate [OfScientific F] (orderLinkId : UInt64) (order : OrderBuilder F) (price : F)
    (updatedTime : UInt64) : OrderUpdate F :=
  { orderLinkId, orderStatus := .new, qty := order.qty, price, filledQty := 0.0
    filledPrice := none, updatedTime }

def newOrderAcknowledgement [OfScientific F] (orderLinkId : UInt64) (order : OrderBuilder F)
    (price : F) (updatedTime : UInt64) : OrderEvent F :=
  .orderUpdate (restingUpdate orderLinkId order price updatedTime)

structure TimedSubmission (F : Type) where
  cts : UInt64
  orderLinkId : UInt64
  order : OrderBuilder F
  deriving DecidableEq

structure TimedAmendment (F : Type) where
  cts : UInt64
  amendment : OrderAmendedBuilder F
  deriving DecidableEq

/-- The first three fields and the last are logs that only a test reads. -/
structure SimulatedExchange (F : Type) where
  submittedOrders : List (TimedSubmission F)
  amendmentRequests : List (TimedAmendment F)
  rejectedAmendments : List (OrderAmendedBuilder F)
  openOrders : Finmap fun _ : UInt64 ↦ OrderBuilder F
  pendingEvents : List (OrderEvent F)
  nextExecutionId : UInt64
  currentBook : Option (CurrentBook F)
  repaidCoins : List String

def makerFeeRate [OfScientific F] : F := 0.001

namespace SimulatedExchange

def default : SimulatedExchange F :=
  { submittedOrders := []
    amendmentRequests := []
    rejectedAmendments := []
    openOrders := ∅
    pendingEvents := []
    nextExecutionId := 1
    currentBook := none
    repaidCoins := [] }

def drainEvents (exchange : SimulatedExchange F) : List (OrderEvent F) × SimulatedExchange F :=
  (exchange.pendingEvents, { exchange with pendingEvents := [] })

def repayLiability (exchange : SimulatedExchange F) (coin : String) : SimulatedExchange F :=
  { exchange with repaidCoins := exchange.repaidCoins ++ [coin] }

/-- Every open order has a price that is a number. -/
def Priced [F64 F] (exchange : SimulatedExchange F) : Prop :=
  ∀ id order, exchange.openOrders.lookup id = some order → (orderPrice order).isSome

variable {exchange : SimulatedExchange F} {currentBook : CurrentBook F} {order : OrderBuilder F}
  {orderLinkId : UInt64} {price : F}

/-! ## Filling -/

section Fill

variable [F64 F] [Mul F] [OfScientific F]

/-- The fee of a buy is paid in the base asset, that of a sell in the quote asset. -/
def execFee (order : OrderBuilder F) (execPrice : F) : F :=
  match order.side with
  | .buy => order.qty * makerFeeRate
  | .sell => order.qty * execPrice * makerFeeRate

def fillExecution (orderLinkId : UInt64) (order : OrderBuilder F) (execPrice : F)
    (executionId cts : UInt64) : OrderExecution F :=
  { orderLinkId
    orderId := "sim-order-" ++ toString orderLinkId
    orderPrice := execPrice
    orderSide := order.side
    execId := "sim-execution-" ++ toString executionId
    execTs := cts
    execPrice
    execFee := execFee order execPrice
    execQty := order.qty
    remainingQty := 0.0 }

def fillUpdate (orderLinkId : UInt64) (order : OrderBuilder F) (execPrice : F) (cts : UInt64) :
    OrderUpdate F :=
  { orderLinkId, orderStatus := .filled, qty := order.qty, price := execPrice
    filledQty := order.qty, filledPrice := some execPrice, updatedTime := cts }

def fillEvents (orderLinkId : UInt64) (order : OrderBuilder F) (execPrice : F)
    (executionId cts : UInt64) : List (OrderEvent F) :=
  [.executionUpdate (fillExecution orderLinkId order execPrice executionId cts),
    .orderUpdate (fillUpdate orderLinkId order execPrice cts)]

/-- Take a matching order out and fill it; `none` is a panic. -/
def fillOrder (cts : UInt64) (exchange : SimulatedExchange F) (orderLinkId : UInt64) :
    Option (SimulatedExchange F) :=
  (exchange.openOrders.lookup orderLinkId).bind fun order ↦
    (orderPrice order).bind fun execPrice ↦
      (checkedAdd exchange.nextExecutionId 1).map fun nextExecutionId ↦
        { exchange with
          openOrders := exchange.openOrders.erase orderLinkId
          nextExecutionId
          pendingEvents := exchange.pendingEvents ++
            fillEvents orderLinkId order execPrice exchange.nextExecutionId cts }

/-- A matching order leaves the book with its two events. -/
theorem fillOrder_eq_some {cts : UInt64}
    (horder : exchange.openOrders.lookup orderLinkId = some order)
    (hprice : orderPrice order = some price) (hids : exchange.nextExecutionId.toNat + 1 < 2 ^ 64) :
    ∃ next, exchange.fillOrder cts orderLinkId = some next ∧
      next.currentBook = exchange.currentBook ∧
      next.nextExecutionId = exchange.nextExecutionId + 1 ∧
      next.openOrders = exchange.openOrders.erase orderLinkId ∧
      next.pendingEvents = exchange.pendingEvents ++
        fillEvents orderLinkId order price exchange.nextExecutionId cts := by
  have hadd : checkedAdd exchange.nextExecutionId 1 = some (exchange.nextExecutionId + 1) :=
    if_pos hids
  simp [fillOrder, horder, hprice, hadd]

end Fill

/-! ## Matching -/

section Matching

variable [F64 F] [LE F] [DecidableLE F]

/-- The link id of an entry that the book crosses; `none` is the panic on its price. -/
def crossedId (currentBook : CurrentBook F) (entry : UInt64 × OrderBuilder F) :
    Option (Option UInt64) :=
  (orderPrice entry.2).map fun price ↦
    if currentBook.isCrossedBy entry.2 price then some entry.1 else none

/-- The link ids of the open orders that the book crosses, in ascending order. -/
def matchingOrderIds (exchange : SimulatedExchange F) (currentBook : CurrentBook F) :
    Option (List UInt64) :=
  ((SortedMap.entries exchange.openOrders).mapM (crossedId currentBook)).map List.reduceOption

theorem crossedId_eq_some {entry : UInt64 × OrderBuilder F} {id : UInt64} :
    crossedId currentBook entry = some (some id) ↔ entry.1 = id ∧
      ∃ price, orderPrice entry.2 = some price ∧ currentBook.isCrossedBy entry.2 price := by
  cases hprice : orderPrice entry.2 with
  | none => simp [crossedId, hprice]
  | some price => simp [crossedId, hprice, and_comm]

/-- Each matching id belongs to an open order that the book crosses, and is listed once. -/
theorem matchingOrderIds_eq_some (hprices : exchange.Priced) (currentBook : CurrentBook F) :
    ∃ ids, exchange.matchingOrderIds currentBook = some ids ∧ ids.Nodup ∧ ∀ id, id ∈ ids ↔
      ∃ order price, exchange.openOrders.lookup id = some order ∧ orderPrice order = some price ∧
        currentBook.isCrossedBy order price := by
  have hsome : ∀ entry ∈ SortedMap.entries exchange.openOrders,
      (crossedId currentBook entry).isSome := by
    intro entry hentry
    rw [crossedId, Option.isSome_map]
    exact hprices entry.1 entry.2 (SortedMap.mem_entries.mp hentry)
  have hmem : ∀ entry id, id ∈ (crossedId currentBook entry).join ↔
      crossedId currentBook entry = some (some id) := by
    intro entry id
    rw [Option.mem_def, Option.join_eq_some_iff]
  have hids : exchange.matchingOrderIds currentBook = some
      ((SortedMap.entries exchange.openOrders).filterMap fun entry ↦
        (crossedId currentBook entry).join) := by
    rw [matchingOrderIds, Keyed.mapM_eq_filterMap hsome, Option.map_some]
    exact congrArg some List.filterMap_filterMap
  refine ⟨_, hids, ?_, fun id ↦ ?_⟩
  · rw [List.Nodup, List.pairwise_filterMap]
    apply (List.pairwise_map.mp (SortedMap.nodup_entries exchange.openOrders)).imp
    intro first second hne id hid id' hid'
    rw [← (crossedId_eq_some.mp ((hmem first id).mp hid)).1,
      ← (crossedId_eq_some.mp ((hmem second id').mp hid')).1]
    exact hne
  · rw [List.mem_filterMap]
    constructor
    · intro hentry
      obtain ⟨entry, hentry, hid⟩ := hentry
      obtain ⟨rfl, price, hprice, hcross⟩ := crossedId_eq_some.mp ((hmem entry id).mp hid)
      exact ⟨entry.2, price, SortedMap.mem_entries.mp hentry, hprice, hcross⟩
    · intro horder
      obtain ⟨order, price, hlookup, hprice, hcross⟩ := horder
      exact ⟨(id, order), SortedMap.mem_entries.mpr hlookup,
        (hmem _ id).mpr (crossedId_eq_some.mpr ⟨rfl, price, hprice, hcross⟩)⟩

end Matching

/-! ## Requests -/

section Requests

variable [F64 F] [LE F] [DecidableLE F] [OfScientific F]

/-- `none` is the panic on a missing book or a price that is no number. -/
def submitOrder (exchange : SimulatedExchange F) (order : OrderBuilder F)
    (orderLinkId : UInt64) : Option (SimulatedExchange F) :=
  exchange.currentBook.bind fun currentBook ↦
    (orderPrice order).map fun price ↦
      let submission : TimedSubmission F := { cts := currentBook.cts, orderLinkId, order }
      let exchange :=
        { exchange with submittedOrders := exchange.submittedOrders ++ [submission] }
      if currentBook.isCrossedBy order price then
        { exchange with
          pendingEvents := exchange.pendingEvents ++ [.submissionFailed orderLinkId] }
      else
        { exchange with
          openOrders := exchange.openOrders.insert orderLinkId order
          pendingEvents := exchange.pendingEvents ++
            [newOrderAcknowledgement orderLinkId order price currentBook.cts] }

def amended (existingOrder : OrderBuilder F) (amendment : OrderAmendedBuilder F) :
    OrderBuilder F :=
  { existingOrder with
    price := if amendment.newPrice then amendment.price else existingOrder.price
    qty := if amendment.newQty then amendment.qty else existingOrder.qty }

/-- An amendment of an order that is not open is dropped, one that crosses the book is logged and
dropped. -/
def amendOrder (exchange : SimulatedExchange F) (amendment : OrderAmendedBuilder F) :
    Option (SimulatedExchange F) :=
  exchange.currentBook.bind fun currentBook ↦
    let request : TimedAmendment F := { cts := currentBook.cts, amendment }
    let exchange :=
      { exchange with amendmentRequests := exchange.amendmentRequests ++ [request] }
    match exchange.openOrders.lookup amendment.orderLinkId with
    | none => some exchange
    | some existingOrder =>
      let amendedOrder := amended existingOrder amendment
      (orderPrice amendedOrder).map fun price ↦
        if currentBook.isCrossedBy amendedOrder price then
          { exchange with rejectedAmendments := exchange.rejectedAmendments ++ [amendment] }
        else
          { exchange with
            openOrders := exchange.openOrders.insert amendment.orderLinkId amendedOrder
            pendingEvents := exchange.pendingEvents ++
              [newOrderAcknowledgement amendment.orderLinkId amendedOrder price
                currentBook.cts] }

/-- A submission is refused with a failure event, or rests and is acknowledged. -/
theorem submitOrder_cases (hbook : exchange.currentBook = some currentBook)
    (hprice : orderPrice order = some price) (orderLinkId : UInt64) :
    ∃ next, exchange.submitOrder order orderLinkId = some next ∧
      next.currentBook = exchange.currentBook ∧
      next.nextExecutionId = exchange.nextExecutionId ∧
      (next.openOrders = exchange.openOrders ∧
          next.pendingEvents = exchange.pendingEvents ++ [.submissionFailed orderLinkId] ∨
        next.openOrders = exchange.openOrders.insert orderLinkId order ∧
          next.pendingEvents = exchange.pendingEvents ++
            [newOrderAcknowledgement orderLinkId order price currentBook.cts]) := by
  simp only [submitOrder, hbook, hprice, Option.bind_some, Option.map_some, Option.some.injEq,
    exists_eq_left']
  split_ifs
  · exact ⟨rfl, rfl, .inl ⟨rfl, rfl⟩⟩
  · exact ⟨rfl, rfl, .inr ⟨rfl, rfl⟩⟩

/-- An amendment is dropped, or the amended order rests and is acknowledged. -/
theorem amendOrder_cases {amendment : OrderAmendedBuilder F}
    (hbook : exchange.currentBook = some currentBook) (hprices : exchange.Priced)
    (hprice : (F64.fromStr amendment.price : Option F).isSome) :
    ∃ next, exchange.amendOrder amendment = some next ∧
      next.currentBook = exchange.currentBook ∧
      next.nextExecutionId = exchange.nextExecutionId ∧
      (next.openOrders = exchange.openOrders ∧ next.pendingEvents = exchange.pendingEvents ∨
        ∃ existingOrder price,
          exchange.openOrders.lookup amendment.orderLinkId = some existingOrder ∧
          orderPrice (amended existingOrder amendment) = some price ∧
          next.openOrders = exchange.openOrders.insert amendment.orderLinkId
            (amended existingOrder amendment) ∧
          next.pendingEvents = exchange.pendingEvents ++
            [newOrderAcknowledgement amendment.orderLinkId (amended existingOrder amendment) price
              currentBook.cts]) := by
  cases hexisting : exchange.openOrders.lookup amendment.orderLinkId with
  | none => simp [amendOrder, hbook, hexisting]
  | some existingOrder =>
    have hsome : (orderPrice (amended existingOrder amendment)).isSome := by
      cases hnew : amendment.newPrice with
      | false => simpa [orderPrice, amended, hnew] using hprices _ _ hexisting
      | true => simpa [orderPrice, amended, hnew] using hprice
    obtain ⟨price, hamended⟩ := Option.isSome_iff_exists.mp hsome
    simp only [amendOrder, hbook, hexisting, hamended, Option.bind_some, Option.map_some,
      Option.some.injEq, exists_eq_left']
    split_ifs
    · exact ⟨rfl, rfl, .inl ⟨rfl, rfl⟩⟩
    · exact ⟨rfl, rfl, .inr ⟨existingOrder, price, rfl, hamended, rfl, rfl⟩⟩

end Requests

variable [F64 F] [Mul F] [LE F] [DecidableLE F] [OfScientific F]

def matchOrders (exchange : SimulatedExchange F) (orderBook : OrderBook F) :
    Option (SimulatedExchange F) :=
  (CurrentBook.ofOrderBook orderBook).bind fun currentBook ↦
    let exchange := { exchange with currentBook := some currentBook }
    (exchange.matchingOrderIds currentBook).bind fun matchingOrderIds ↦
      matchingOrderIds.foldlM (fillOrder orderBook.cts) exchange

/-- The exchange behind the calls of the order management system; a pushed inventory goes to the
strategy. -/
def perform (exchange : SimulatedExchange F) : Effect F → Option (SimulatedExchange F)
  | .submitOrder order orderLinkId => exchange.submitOrder order orderLinkId
  | .amendOrder order => exchange.amendOrder order
  | .repayLiability coin => some (exchange.repayLiability coin)
  | .forcePush _ => some exchange

end SimulatedExchange

end MarketMaker
