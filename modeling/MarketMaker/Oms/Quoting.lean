import MarketMaker.Exchange.OrderBody
import MarketMaker.Oms.Responses

/-!
# From a wish to a standing quote

The decision of the risk manager, the optional fields of an amendment and the copy of the
acknowledgement fit together: one acknowledged command makes the first open order of the side stand
at the wanted price and quantity, whatever was stored, and then the same wish leads to no command.
-/

namespace MarketMaker

/-- The order that a command of the gateway is about. -/
def Effect.target {F : Type} : Effect F → Option UInt64
  | .submitOrder _ orderLinkId => some orderLinkId
  | .amendOrder order => some order.orderLinkId
  | _ => none

namespace OrderManagementSystem

/-- The request of a command asks for this price and this quantity of a stored order: those in its
body, and those stored where the body of an amendment has none. -/
inductive Requests (stored : Order ℚ) : Effect ℚ → ℚ → ℚ → Prop
  | submission {order orderLinkId body price}
      (hbody : OrderHandler.submitOrderBody order orderLinkId = .ok body)
      (hprice : F64.fromStr body.price = some price) :
      Requests stored (.submitOrder order orderLinkId) price body.qty
  | amendment {order body price} (hbody : OrderHandler.amendOrderBody order = .ok body)
      (hprice : ∀ text, body.price = some text → F64.fromStr text = some price)
      (hkept : body.price = none → price = stored.price) :
      Requests stored (.amendOrder order) price (body.qty.getD stored.qty)

/-- A message of the order topic that acknowledges a command: the order is new, its price and
quantity are those requested, and the message is not older than what is stored. -/
structure Acknowledges (oms : OrderManagementSystem ℚ) (command : Effect ℚ)
    (update : OrderUpdate ℚ) : Prop where
  target : command.target = some update.orderLinkId
  status : update.orderStatus = .new
  stored : ∃ stored, oms.order update.orderLinkId = some stored ∧
    ¬update.updatedTime < stored.updatedTime ∧
    Requests stored command update.price update.qty

variable {oms : OrderManagementSystem ℚ} {initial : UInt64} {stored : Order ℚ}
  {orderBuilder : OrderBuilder ℚ} {price : ℚ}

/-- The same wish again leads to no command and leaves the state as it is. -/
theorem forwardOrders_of_quoted (hprice : F64.fromStr orderBuilder.price = some price)
    (hquoted : RiskManager.Quoted oms.orders orderBuilder price) :
    oms.forwardOrders orderBuilder RiskManager.evaluateOrder = some (oms, []) := by
  rw [forwardOrders, RiskManager.evaluateOrder_of_quoted hprice hquoted]
  rfl

theorem cycle_of_quoted (hprice : F64.fromStr orderBuilder.price = some price)
    (hquoted : RiskManager.Quoted oms.orders orderBuilder price) (n : ℕ) :
    oms.cycle (List.replicate n (.forward RiskManager.evaluateOrder orderBuilder)) =
      some (oms, List.replicate n []) :=
  Machine.run_replicate (forwardOrders_of_quoted hprice hquoted) n

/-- The acknowledgement of a command about the first open order of a side is written to it. -/
theorem getExistingOrder_handleOrderUpdate (hindexed : oms.Indexed initial)
    (hlength : oms.orders.length ≤ 2 ^ 64) {side : OrderSide}
    (hexisting : RiskManager.getExistingOrder oms.orders side = some stored)
    {update : OrderUpdate ℚ} (hid : update.orderLinkId = stored.orderLinkId)
    (hrecent : ¬update.updatedTime < stored.updatedTime) (hopen : update.orderStatus.isOpen) :
    RiskManager.getExistingOrder (oms.handleOrderUpdate update).orders side =
      some (stored.copyUpdate update) := by
  obtain ⟨slabId, hslab, hset⟩ := RiskManager.getExistingOrder_set hexisting
  have hlookup : oms.idMap.lookup update.orderLinkId = some slabId := by
    rw [hid, hindexed.orderLinkId slabId stored hslab]
    exact hindexed.lookup_linkId hlength (List.getElem?_eq_some_iff.mp hslab).1
  rw [handleOrderUpdate, hlookup]
  simp only [hslab, hrecent, if_false]
  exact hset _ hopen (RiskManager.mem_of_getExistingOrder hexisting).2.2

theorem requests_submission_iff {orderLinkId : UInt64}
    (hprice : F64.fromStr orderBuilder.price = some price) (hpositive : 0 < price)
    (hqty : 0 < orderBuilder.qty) {price' qty' : ℚ} :
    Requests stored (.submitOrder orderBuilder orderLinkId) price' qty' ↔
      price' = price ∧ qty' = orderBuilder.qty := by
  constructor
  · intro hrequests
    cases hrequests with
    | submission hbody hprice' =>
      obtain ⟨-, -, hbodyQty, hbodyPrice⟩ := OrderHandler.submitOrderBody_eq_ok hbody
      rw [hbodyPrice, hprice] at hprice'
      exact ⟨(Option.some.inj hprice').symm, hbodyQty⟩
  · rintro ⟨rfl, rfl⟩
    obtain ⟨body, hbody⟩ := OrderHandler.exists_submitOrderBody_iff.mpr
      ⟨hqty, price', hprice, hpositive⟩
    obtain ⟨-, -, hbodyQty, hbodyPrice⟩ := OrderHandler.submitOrderBody_eq_ok hbody
    rw [← hbodyQty]
    exact .submission hbody (hbodyPrice ▸ hprice)

/-- A field that an amendment leaves out has the wanted value already. -/
theorem requests_amendment_iff (hprice : F64.fromStr orderBuilder.price = some price)
    (hpositive : 0 < price) (hqty : 0 < orderBuilder.qty) {price' qty' : ℚ} :
    Requests stored (.amendOrder (RiskManager.amendment orderBuilder price stored)) price' qty' ↔
      price' = price ∧ qty' = orderBuilder.qty := by
  -- The quantity after an acknowledgement, for every body that is built.
  have hbodyQty : ∀ {body},
      OrderHandler.amendOrderBody (RiskManager.amendment orderBuilder price stored) = .ok body →
      body.qty.getD stored.qty = orderBuilder.qty := by
    intro body hbody
    obtain ⟨-, -, hfield, -⟩ := OrderHandler.amendOrderBody_eq_ok hbody
    rw [hfield]
    split_ifs with hnew
    · rfl
    · rw [RiskManager.amendment_newQty_iff, not_not] at hnew
      exact hnew.symm
  constructor
  · intro hrequests
    cases hrequests with
    | amendment hbody hprice' hkept =>
      obtain ⟨-, -, -, hfield⟩ := OrderHandler.amendOrderBody_eq_ok hbody
      refine ⟨?_, hbodyQty hbody⟩
      split_ifs at hfield with hnew
      · exact (Option.some.inj (hprice.symm.trans (hprice' _ hfield))).symm
      · rw [RiskManager.amendment_newPrice_iff, not_not] at hnew
        rw [hkept hfield, hnew]
  · rintro ⟨rfl, rfl⟩
    have hbuilt : ∃ body, OrderHandler.amendOrderBody
        (RiskManager.amendment orderBuilder price' stored) = .ok body :=
      OrderHandler.exists_amendOrderBody_iff.mpr
        ⟨fun _ ↦ hqty, fun _ ↦ ⟨price', hprice, hpositive⟩⟩
    obtain ⟨body, hbody⟩ := hbuilt
    obtain ⟨-, -, -, hfield⟩ := OrderHandler.amendOrderBody_eq_ok hbody
    rw [← hbodyQty hbody]
    apply Requests.amendment hbody
    · intro text htext
      split_ifs at hfield with hnew
      · obtain rfl := Option.some.inj (hfield.symm.trans htext)
        exact hprice
      · cases hfield.symm.trans htext
    · intro hnone
      split_ifs at hfield with hnew
      · cases hfield.symm.trans hnone
      · rw [RiskManager.amendment_newPrice_iff, not_not] at hnew
        exact hnew

/-- A command about the first open order of the side that asks for the wanted price and quantity
can be acknowledged, and every acknowledgement makes the order stand as wanted for good. -/
theorem quoted_of_acknowledges (hindexed : oms.Indexed initial)
    (hlength : oms.orders.length ≤ 2 ^ 64)
    (hexisting : RiskManager.getExistingOrder oms.orders orderBuilder.side = some stored)
    (hprice : F64.fromStr orderBuilder.price = some price) {command : Effect ℚ}
    (htarget : command.target = some stored.orderLinkId)
    (hrequests : ∀ price' qty', Requests stored command price' qty' ↔
      price' = price ∧ qty' = orderBuilder.qty) :
    (∃ update, oms.Acknowledges command update) ∧
      ∀ update, oms.Acknowledges command update →
        RiskManager.Quoted (oms.handleOrderUpdate update).orders orderBuilder price ∧
        ∀ n, (oms.handleOrderUpdate update).cycle
          (List.replicate n (.forward RiskManager.evaluateOrder orderBuilder)) =
            some (oms.handleOrderUpdate update, List.replicate n []) := by
  have hstored : oms.order stored.orderLinkId = some stored :=
    (mem_orders_iff hindexed hlength).mp (RiskManager.mem_of_getExistingOrder hexisting).1
  constructor
  · refine ⟨{ orderLinkId := stored.orderLinkId, orderStatus := .new, qty := orderBuilder.qty
              price, filledQty := 0, filledPrice := none, updatedTime := stored.updatedTime },
      htarget, rfl, stored, hstored, UInt64.lt_irrefl _, (hrequests _ _).mpr ⟨rfl, rfl⟩⟩
  · rintro update ⟨htarget', hstatus, other, hother, hrecent, hasked⟩
    have hid : update.orderLinkId = stored.orderLinkId :=
      Option.some.inj (htarget'.symm.trans htarget)
    rw [hid, hstored] at hother
    obtain rfl := Option.some.inj hother
    obtain ⟨hupdatePrice, hupdateQty⟩ := (hrequests _ _).mp hasked
    have hquoted : RiskManager.Quoted (oms.handleOrderUpdate update).orders orderBuilder price :=
      ⟨_, getExistingOrder_handleOrderUpdate hindexed hlength hexisting hid hrecent
        (by rw [hstatus]; rfl), hupdatePrice, hupdateQty⟩
    exact ⟨hquoted, cycle_of_quoted hprice hquoted⟩

/-- What a wish does that is not held back: it is submitted and stored, it stands already, or the
first open order of its side is amended. -/
theorem forwardOrders_of_not_held (hindexed : oms.Indexed initial)
    (hheld : ¬RiskManager.Held oms.orders orderBuilder.side oms.inventory)
    (hprice : F64.fromStr orderBuilder.price = some price) :
    (∃ stored, oms.forwardOrders orderBuilder RiskManager.evaluateOrder =
        some (oms.store stored, [.submitOrder orderBuilder stored.orderLinkId]) ∧
      (oms.store stored).Indexed initial ∧
      RiskManager.getExistingOrder (oms.store stored).orders orderBuilder.side = some stored) ∨
    (RiskManager.Quoted oms.orders orderBuilder price ∧
      oms.forwardOrders orderBuilder RiskManager.evaluateOrder = some (oms, [])) ∨
    ∃ stored, RiskManager.getExistingOrder oms.orders orderBuilder.side = some stored ∧
      oms.forwardOrders orderBuilder RiskManager.evaluateOrder =
        some (oms, [.amendOrder (RiskManager.amendment orderBuilder price stored)]) := by
  obtain ⟨hnone, heval⟩ | ⟨hquoted, heval⟩ | ⟨stored, hexisting, heval⟩ :=
    RiskManager.evaluateOrder_of_not_held hheld hprice oms.averageEntryPrice
  · left
    obtain ⟨stored, hbuild⟩ : ∃ stored, orderBuilder.build oms.idGenerator = some stored := by
      simp [OrderBuilder.build, hprice]
    obtain ⟨hid, hstatus, -, hside, -⟩ := OrderBuilder.build_eq_some hbuild
    refine ⟨stored, ?_, hindexed.store hid, ?_⟩
    · unfold inventory averageEntryPrice at heval
      rw [forwardOrders, heval, hid]
      simp [insertNewOrder, hbuild]
    · rw [orders_store, RiskManager.getExistingOrder_append _ (by rw [hstatus]; rfl), hnone, hside]
      simp
  · exact .inr (.inl ⟨hquoted, forwardOrders_of_quoted hprice hquoted⟩)
  · refine .inr (.inr ⟨stored, hexisting, ?_⟩)
    unfold inventory averageEntryPrice at heval
    rw [forwardOrders, heval]
    rfl

variable {config : OmsConfig ℚ} {inputs : List (OmsInput ℚ)} {outputs : List (List (Effect ℚ))}

/-- In every reachable state an unhindered wish leads to at most one command, an amendment being of
a stored open order of its side that was answered.  The command can be acknowledged, and once it is
the first open order of the side stands at the wanted price and quantity, so that the wish repeated
any number of times leads to no command and leaves the state as it is. -/
theorem quote_converges (hrun : (new config).1.cycle inputs = some (oms, outputs))
    (hkeys : oms.orders.length < 2 ^ 64) (hprice : F64.fromStr orderBuilder.price = some price)
    (hpositive : 0 < price) (hqty : 0 < orderBuilder.qty)
    (hmax : ¬(oms.inventory ≥ maxInventory ∧ orderBuilder.side = .buy))
    (hmin : ¬(oms.inventory ≤ minInventory ∧ orderBuilder.side = .sell))
    (hanswered : ∀ stored, RiskManager.getExistingOrder oms.orders orderBuilder.side = some stored →
      stored.orderStatus ≠ .submitted) :
    ∃ next commands, oms.forwardOrders orderBuilder RiskManager.evaluateOrder =
        some (next, commands) ∧
      commands.length ≤ 1 ∧
      (∀ order, .amendOrder order ∈ commands →
        ∃ stored, oms.order order.orderLinkId = some stored ∧ stored.orderStatus.isOpen ∧
          stored.side = orderBuilder.side ∧ stored.orderStatus ≠ .submitted) ∧
      (commands = [] → RiskManager.Quoted next.orders orderBuilder price) ∧
      ∀ command ∈ commands, (∃ update, next.Acknowledges command update) ∧
        ∀ update, next.Acknowledges command update →
          RiskManager.Quoted (next.handleOrderUpdate update).orders orderBuilder price ∧
          ∀ n, (next.handleOrderUpdate update).cycle
            (List.replicate n (.forward RiskManager.evaluateOrder orderBuilder)) =
              some (next.handleOrderUpdate update, List.replicate n []) := by
  have hindexed := indexed_of_cycle hrun
  have hheld : ¬RiskManager.Held oms.orders orderBuilder.side oms.inventory := by
    rintro (hblocked | hblocked | ⟨stored, hexisting, hsubmitted⟩)
    · exact hmax hblocked
    · exact hmin hblocked
    · exact hanswered stored hexisting hsubmitted
  obtain ⟨stored, hforward, hindexed', hexisting⟩ | ⟨hquoted, hforward⟩ |
      ⟨stored, hexisting, hforward⟩ :=
    forwardOrders_of_not_held hindexed hheld hprice
  · have hlength : (oms.store stored).orders.length ≤ 2 ^ 64 := by
      rw [orders_store, List.length_append, List.length_singleton]
      omega
    refine ⟨_, _, hforward, by simp, by simp, by simp, ?_⟩
    intro command hcommand
    obtain rfl := List.mem_singleton.mp hcommand
    exact quoted_of_acknowledges hindexed' hlength hexisting hprice rfl
      fun _ _ ↦ requests_submission_iff hprice hpositive hqty
  · exact ⟨oms, [], hforward, by simp, by simp, fun _ ↦ hquoted, by simp⟩
  · obtain ⟨hmem, hopen, hside⟩ := RiskManager.mem_of_getExistingOrder hexisting
    refine ⟨_, _, hforward, by simp, ?_, by simp, ?_⟩
    · intro order horder
      obtain rfl := Effect.amendOrder.inj (List.mem_singleton.mp horder)
      exact ⟨stored, (mem_orders_iff hindexed hkeys.le).mp hmem, hopen, hside,
        hanswered stored hexisting⟩
    · intro command hcommand
      obtain rfl := List.mem_singleton.mp hcommand
      exact quoted_of_acknowledges hindexed hkeys.le hexisting hprice rfl
        fun _ _ ↦ requests_amendment_iff hprice hpositive hqty

/-- A buy acknowledged at 0.5 is taken to 0.567. -/
theorem quote_converges_sample :
    ∃ oms outputs next commands, (new sampleConfig).1.cycle
        [.forward RiskManager.evaluateOrder { sampleBuy with price := "0.5" },
          .event (.orderUpdate { sampleAcknowledgement with price := 1 / 2 })] =
        some (oms, outputs) ∧
      oms.forwardOrders sampleBuy RiskManager.evaluateOrder = some (next, commands) ∧
      commands.length ≤ 1 ∧ ∀ command ∈ commands, ∃ update, next.Acknowledges command update ∧
        RiskManager.Quoted (next.handleOrderUpdate update).orders sampleBuy (567 / 1000) := by
  have hstate : ((new sampleConfig).1.cycle
      [.forward RiskManager.evaluateOrder { sampleBuy with price := "0.5" },
        .event (.orderUpdate { sampleAcknowledgement with price := 1 / 2 })]).map (fun result ↦
      (result.1.orders.length, result.1.inventory,
        (RiskManager.getExistingOrder result.1.orders .buy).map Order.orderStatus)) =
      some (1, 0, some .new) := by decide +kernel
  obtain ⟨⟨oms, outputs⟩, hrun, hfacts⟩ := Option.map_eq_some_iff.mp hstate
  simp only [Prod.mk.injEq] at hfacts
  obtain ⟨hlength, hinventory, hstatus⟩ := hfacts
  have hprice : F64.fromStr sampleBuy.price = some (567 / 1000 : ℚ) := by decide +kernel
  have hanswered : ∀ stored, RiskManager.getExistingOrder oms.orders sampleBuy.side = some stored →
      stored.orderStatus ≠ .submitted := by
    intro stored hexisting
    change RiskManager.getExistingOrder oms.orders .buy = some stored at hexisting
    rw [hexisting] at hstatus
    simp [Option.some.inj hstatus]
  obtain ⟨next, commands, hforward, hcount, -, -, hall⟩ := quote_converges hrun (by omega) hprice
    (by norm_num) (by norm_num [sampleBuy]) (by norm_num [hinventory])
    (by norm_num [hinventory]) hanswered
  refine ⟨oms, outputs, next, commands, hrun, hforward, hcount, ?_⟩
  intro command hcommand
  obtain ⟨⟨update, hupdate⟩, hquoted⟩ := hall command hcommand
  exact ⟨update, hupdate, (hquoted update hupdate).1⟩

end OrderManagementSystem

end MarketMaker
