import MarketMaker.Exchange.PrivateWs
import MarketMaker.Foundation.FixedPoint
import MarketMaker.Offline.Agreement

/-!
# What the simulated exchange could send

The simulated exchange queues events where the exchange sends messages.  Every event of a fill and
every acknowledgement is the content of a message of the private stream, since its numbers have
texts as soon as the sizes of the orders have: prices are texts already, and a fee is a product of
such numbers.  Only a refused submission is announced by the gateway instead.
-/

namespace MarketMaker

open F64.Decimal (Written)

/-- The event is converted from an entry of the private stream. -/
inductive OrderEvent.Streamed : OrderEvent ℚ → Prop
  | order {entry : BybitOrder} {event} (hentry : OrderEvent.fromOrder entry = some event) :
      Streamed event
  | execution {entry : Execution} {event} (hentry : OrderEvent.fromExecution entry = some event) :
      Streamed event

/-- An update with numbers that have texts. -/
theorem OrderUpdate.streamed {update : OrderUpdate ℚ} {avgPrice : String} (orderStatus : String)
    (hstatus : OrderStatus.fromStr orderStatus = some update.orderStatus)
    (hqty : Written update.qty) (hprice : Written update.price) (hfilled : Written update.filledQty)
    (havgPrice : F64.fromStr avgPrice = update.filledPrice) :
    OrderEvent.Streamed (.orderUpdate update) := by
  obtain ⟨qty, hqty⟩ := hqty
  obtain ⟨price, hprice⟩ := hprice
  obtain ⟨cumExecQty, hfilled⟩ := hfilled
  have hentry : OrderEvent.fromOrder
      { orderLinkId := toString update.orderLinkId, orderStatus, qty, price, cumExecQty, avgPrice
        updatedTime := toString update.updatedTime } = some (.orderUpdate update) := by
    simp only [OrderEvent.fromOrder, u64FromStr_toString, hstatus, havgPrice]
    simp [F64.fromStr, hqty, hprice, hfilled]
  exact .order hentry

/-- An execution with numbers that have texts. -/
theorem OrderExecution.streamed {fill : OrderExecution ℚ} (horderPrice : Written fill.orderPrice)
    (hprice : Written fill.execPrice) (hfee : Written fill.execFee) (hqty : Written fill.execQty)
    (hremaining : Written fill.remainingQty) :
    OrderEvent.Streamed (.executionUpdate fill) := by
  obtain ⟨orderPrice, horderPrice⟩ := horderPrice
  obtain ⟨execPrice, hprice⟩ := hprice
  obtain ⟨execFee, hfee⟩ := hfee
  obtain ⟨execQty, hqty⟩ := hqty
  obtain ⟨leavesQty, hremaining⟩ := hremaining
  obtain ⟨side, hside⟩ : ∃ side, OrderSide.fromStr side = some fill.orderSide := by
    cases fill.orderSide with
    | buy => exact ⟨"Buy", rfl⟩
    | sell => exact ⟨"Sell", rfl⟩
  have hentry : OrderEvent.fromExecution
      { orderId := fill.orderId, side, orderPrice, orderLinkId := toString fill.orderLinkId
        execId := fill.execId, execTime := toString fill.execTs, execQty, execPrice, execFee
        leavesQty } = some (.executionUpdate fill) := by
    simp only [OrderEvent.fromExecution, u64FromStr_toString, hside]
    simp [F64.fromStr, horderPrice, hprice, hfee, hqty, hremaining]
  exact .execution hentry

/-- The message with this entry alone sends the event to the order management system, and an
execution to the recorder as well. -/
theorem OrderEvent.Streamed.exists_response {event : OrderEvent ℚ} (hstreamed : event.Streamed) :
    ∃ response : PrivateResponse,
      (event.execution = none ∧ PrivateWebSocket.sends response = [(.oms, some event)]) ∨
      (∃ fill, event = .executionUpdate fill) ∧
        PrivateWebSocket.sends response = [(.oms, some event), (.recorder, some event)] := by
  have hempty : u64FromStr "" = none := by decide +kernel
  cases hstreamed with
  | @order entry _ hentry =>
    have hid : entry.orderLinkId ≠ "" := by
      intro hid
      simp [OrderEvent.fromOrder, hid, hempty] at hentry
    refine ⟨.order [entry], .inl ⟨?_, ?_⟩⟩
    · simp only [OrderEvent.fromOrder, Option.bind_eq_bind, Option.bind_eq_some_iff] at hentry
      obtain ⟨_, -, _, -, _, -, _, -, _, -, _, -, heq⟩ := hentry
      obtain rfl := Option.some.inj heq
      rfl
    · simp [PrivateWebSocket.sends, PrivateWebSocket.entrySends, hid, hentry]
  | @execution entry _ hentry =>
    have hid : entry.orderLinkId ≠ "" := by
      intro hid
      simp [OrderEvent.fromExecution, hid, hempty] at hentry
    refine ⟨.execution [entry], .inr ⟨?_, ?_⟩⟩
    · simp only [OrderEvent.fromExecution, Option.bind_eq_bind, Option.bind_eq_some_iff] at hentry
      obtain ⟨_, -, _, -, _, -, _, -, _, -, _, -, _, -, heq⟩ := hentry
      exact ⟨_, (Option.some.inj heq).symm⟩
    · simp [PrivateWebSocket.sends, PrivateWebSocket.entrySends, hid, hentry]

namespace SimulatedExchange

variable {exchange next : SimulatedExchange ℚ} {order : OrderBuilder ℚ} {id cts : UInt64}
  {price : ℚ}

theorem written_of_orderPrice (hprice : orderPrice order = some price) : Written price :=
  ⟨order.price, hprice⟩

theorem written_zero : Written 0.0 := ⟨"0", by decide +kernel⟩

theorem written_execFee (hqty : Written order.qty) (hprice : Written price) :
    Written (execFee order price) := by
  have hrate : Written (makerFeeRate : ℚ) := ⟨"0.001", by decide +kernel⟩
  unfold execFee
  cases order.side with
  | buy => exact hqty.mul hrate
  | sell => exact (hqty.mul hprice).mul hrate

/-- Both events of a fill. -/
theorem streamed_fillEvents (hqty : Written order.qty) (hprice : orderPrice order = some price)
    (executionId : UInt64) :
    ∀ event ∈ fillEvents id order price executionId cts, event.Streamed := by
  have hwritten := written_of_orderPrice hprice
  intro event hmem
  simp only [fillEvents, List.mem_cons, List.not_mem_nil, or_false] at hmem
  rcases hmem with rfl | rfl
  · exact OrderExecution.streamed hwritten hwritten (written_execFee hqty hwritten) hqty
      written_zero
  · exact OrderUpdate.streamed "Filled" rfl hqty hwritten hqty hprice

theorem streamed_acknowledgement (hqty : Written order.qty)
    (hprice : orderPrice order = some price) :
    (newOrderAcknowledgement id order price cts).Streamed := by
  have hnone : (F64.fromStr "" : Option ℚ) = none := by decide +kernel
  exact OrderUpdate.streamed "New" rfl hqty (written_of_orderPrice hprice)
    written_zero hnone

/-- The sizes of the resting orders have texts. -/
def SizesWritten (exchange : SimulatedExchange ℚ) : Prop :=
  ∀ id order, exchange.openOrders.lookup id = some order → Written order.qty

theorem SizesWritten.insert (hsizes : exchange.SizesWritten) (hqty : Written order.qty)
    (hopen : next.openOrders = exchange.openOrders.insert id order) : next.SizesWritten := by
  intro other resting hlookup
  rw [hopen] at hlookup
  by_cases hother : other = id
  · rw [hother, Finmap.lookup_insert] at hlookup
    exact Option.some.inj hlookup ▸ hqty
  · rw [Finmap.lookup_insert_of_ne _ hother] at hlookup
    exact hsizes other resting hlookup

theorem SizesWritten.erase (hsizes : exchange.SizesWritten)
    (hopen : next.openOrders = exchange.openOrders.erase id) : next.SizesWritten := by
  intro other resting hlookup
  rw [hopen] at hlookup
  exact hsizes other resting (OpenOrders.lookup_of_erase hlookup).2

/-! ## Matching -/

theorem SizesWritten.fillOrder (hsizes : exchange.SizesWritten)
    (hstreamed : ∀ event ∈ exchange.pendingEvents, event.Streamed)
    (hfill : exchange.fillOrder cts id = some next) :
    next.SizesWritten ∧ ∀ event ∈ next.pendingEvents, event.Streamed := by
  obtain ⟨order, horder, hfill⟩ := Option.bind_eq_some_iff.mp hfill
  obtain ⟨price, hprice, hfill⟩ := Option.bind_eq_some_iff.mp hfill
  obtain ⟨nextId, -, rfl⟩ := Option.map_eq_some_iff.mp hfill
  refine ⟨hsizes.erase rfl, fun event hmem ↦ ?_⟩
  rcases List.mem_append.mp hmem with hmem | hmem
  · exact hstreamed event hmem
  · exact streamed_fillEvents (hsizes id order horder) hprice _ event hmem

/-- What a book lets the exchange queue could all be sent. -/
theorem SizesWritten.matchOrders {orderBook : OrderBook ℚ} (hsizes : exchange.SizesWritten)
    (hdrained : exchange.pendingEvents = []) (hmatch : exchange.matchOrders orderBook = some next) :
    next.SizesWritten ∧ ∀ event ∈ next.pendingEvents, event.Streamed := by
  obtain ⟨currentBook, -, hmatch⟩ := Option.bind_eq_some_iff.mp hmatch
  obtain ⟨ids, -, hmatch⟩ := Option.bind_eq_some_iff.mp hmatch
  apply Machine.foldlM_invariant (motive := fun current : SimulatedExchange ℚ ↦
    current.SizesWritten ∧ ∀ event ∈ current.pendingEvents, event.Streamed) _ _ hmatch
  · intro current id next hcurrent hfill
    exact hcurrent.1.fillOrder hcurrent.2 hfill
  · exact ⟨hsizes, by simp [hdrained]⟩

/-! ## Requests -/

/-- What is queued since could all be sent. -/
def Sends (exchange next : SimulatedExchange ℚ) : Prop :=
  ∃ events : List (OrderEvent ℚ), (∀ event ∈ events, event.Streamed) ∧
    next.pendingEvents = exchange.pendingEvents ++ events

theorem Sends.nothing (hpending : next.pendingEvents = exchange.pendingEvents) :
    exchange.Sends next := ⟨[], by simp, by simp [hpending]⟩

theorem Sends.event {event : OrderEvent ℚ} (hstreamed : event.Streamed)
    (hpending : next.pendingEvents = exchange.pendingEvents ++ [event]) : exchange.Sends next :=
  ⟨[event], by simpa using hstreamed, hpending⟩

/-- A submission is announced as failed, or acknowledged by an event that could be sent. -/
theorem SizesWritten.submitOrder (hsizes : exchange.SizesWritten) (hqty : Written order.qty)
    (hsubmit : exchange.submitOrder order id = some next) :
    next.SizesWritten ∧ (next.pendingEvents = exchange.pendingEvents ++ [.submissionFailed id] ∨
      exchange.Sends next) := by
  obtain ⟨currentBook, hbook, hrest⟩ := Option.bind_eq_some_iff.mp hsubmit
  obtain ⟨price, hprice, -⟩ := Option.map_eq_some_iff.mp hrest
  obtain ⟨other, hother, -, -, hcase⟩ := submitOrder_cases hbook hprice id
  obtain rfl := Option.some.inj (hother.symm.trans hsubmit)
  obtain ⟨hopen, hpending⟩ | ⟨hopen, hpending⟩ := hcase
  · exact ⟨fun other resting hlookup ↦ hsizes other resting (hopen ▸ hlookup), .inl hpending⟩
  · refine ⟨hsizes.insert hqty hopen, .inr ?_⟩
    exact Sends.event (streamed_acknowledgement hqty hprice) hpending

/-- An amendment is dropped or acknowledged by an event that could be sent. -/
theorem SizesWritten.amendOrder {amendment : OrderAmendedBuilder ℚ} (hsizes : exchange.SizesWritten)
    (hqty : Written amendment.qty) (hamend : exchange.amendOrder amendment = some next) :
    next.SizesWritten ∧ exchange.Sends next := by
  obtain ⟨currentBook, -, hamend⟩ := Option.bind_eq_some_iff.mp hamend
  dsimp only at hamend
  split at hamend
  · obtain rfl := Option.some.inj hamend
    exact ⟨hsizes, Sends.nothing rfl⟩
  · rename_i existingOrder hexisting
    obtain ⟨price, hprice, rfl⟩ := Option.map_eq_some_iff.mp hamend
    have hamended : Written (amended existingOrder amendment).qty := by
      unfold amended
      dsimp only
      split_ifs
      · exact hqty
      · exact hsizes _ existingOrder hexisting
    split_ifs
    · exact ⟨hsizes, Sends.nothing rfl⟩
    · refine ⟨hsizes.insert hamended rfl, ?_⟩
      exact Sends.event (streamed_acknowledgement hamended hprice) rfl

end SimulatedExchange

end MarketMaker
