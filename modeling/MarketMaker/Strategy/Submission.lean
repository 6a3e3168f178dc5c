import MarketMaker.Exchange.OrderBody
import MarketMaker.Oms.Risk
import MarketMaker.Strategy.Quotes

/-!
# Quotes at the gateway

What the risk manager sends on for a quote passes the checks of the request body unless a price
that is not positive is sent.  A sell quote is always positive.  A buy quote is not once the skew
takes it to half a tick or less: the clamp of the strategy keeps it below the ask only, and the
inventory limit stops it from 500 on.
-/

namespace MarketMaker

/-- The gateway builds the body of the request; a submission comes under any link id. -/
def Outcome.Accepted : Outcome ℚ → Prop
  | .newOrder order =>
      ∀ orderLinkId, ∃ body, OrderHandler.submitOrderBody order orderLinkId = .ok body
  | .amendOrder order => ∃ body, OrderHandler.amendOrderBody order = .ok body
  | .doNothing => True

namespace RiskManager

/-- The risk manager sends the price of an order: no limit blocks it, and the open order of its
side, if there is one, is acknowledged and stands at another price. -/
def SendsPrice (orders : List (Order ℚ)) (side : OrderSide) (price inventory : ℚ) : Prop :=
  ¬(inventory ≥ maxInventory ∧ side = .buy) ∧ ¬(inventory ≤ minInventory ∧ side = .sell) ∧
    ∀ existingOrder, getExistingOrder orders side = some existingOrder →
      existingOrder.orderStatus ≠ .submitted ∧ price ≠ existingOrder.price

theorem sendsPrice_iff {orders : List (Order ℚ)} {side : OrderSide} {price inventory : ℚ} :
    SendsPrice orders side price inventory ↔ ¬Held orders side inventory ∧
      ∀ existingOrder, getExistingOrder orders side = some existingOrder →
        price ≠ existingOrder.price := by
  simp only [SendsPrice, Held, not_or, not_exists, not_and, forall_and, and_assoc]

/-- An order of positive quantity passes the gateway exactly if its price is positive or not
sent. -/
theorem accepted_iff {newOrder : OrderBuilder ℚ} {price : ℚ} (hqty : 0 < newOrder.qty)
    (hprice : F64.fromStr newOrder.price = some price) (orders : List (Order ℚ))
    (inventory averageEntryPrice : ℚ) :
    (∀ outcome, evaluateOrder orders newOrder inventory averageEntryPrice = some outcome →
        outcome.Accepted) ↔
      (SendsPrice orders newOrder.side price inventory → 0 < price) := by
  have hpositive : OrderHandler.PositivePrice newOrder.price ↔ 0 < price := by
    simp [OrderHandler.PositivePrice, hprice]
  rw [sendsPrice_iff]
  by_cases hheld : Held orders newOrder.side inventory
  · rw [evaluateOrder_of_held hheld (by simp [hprice])]
    simp [Outcome.Accepted, hheld]
  obtain ⟨hnone, heval⟩ | ⟨⟨existingOrder, hexisting, rfl, -⟩, heval⟩ |
      ⟨existingOrder, hexisting, heval⟩ :=
    evaluateOrder_of_not_held hheld hprice averageEntryPrice
  · rw [heval]
    simp [Outcome.Accepted, OrderHandler.exists_submitOrderBody_iff, hqty, hpositive, hheld, hnone]
  · rw [heval]
    simp [Outcome.Accepted, hexisting]
  · rw [heval]
    simp only [Option.some.injEq, forall_eq', Outcome.Accepted,
      OrderHandler.exists_amendOrderBody_iff, amendment_newPrice_iff]
    simp [amendment, hqty, hpositive, hheld, hexisting]

end RiskManager

/-! ## Quotes of the strategy -/

theorem quotedBid_pos_iff {ask : ℤ} (hask : 1 < ask) (ticks : ℚ) :
    0 < quotedBid ask ticks ↔ 1 / 2 < ticks := by
  have haskTicks : (1 : ℚ) < ask := by exact_mod_cast hask
  unfold quotedBid
  split_ifs with hclamped
  · refine iff_of_true (by omega) ?_
    linarith
  · rw [lt_roundHalfEven_iff]
    simp

/-- Half a tick or less is below the ask, so that the price is not clamped. -/
theorem quotedBid_of_le {ask : ℤ} (hask : 1 < ask) {ticks : ℚ} (hticks : ticks ≤ 1 / 2) :
    quotedBid ask ticks = roundHalfEven ticks := by
  have haskTicks : (1 : ℚ) < ask := by exact_mod_cast hask
  rw [quotedBid, if_neg]
  linarith

theorem quotedAsk_pos {bid : ℤ} (hbid : 0 < bid) (ticks : ℚ) : 0 < quotedAsk bid ticks := by
  have hbidTicks : (1 : ℚ) ≤ bid := by exact_mod_cast hbid
  unfold quotedAsk
  split_ifs with hclamped
  · omega
  · rw [lt_roundHalfEven_iff]
    left
    push_cast
    linarith

/-- The risk manager sends the price of a buy quote that is not positive: in ticks the micro price
less a hundredth of the inventory is at most 5/2, the inventory is below its limit, and no open buy
order is unanswered or stands at the rounded price already. -/
def SendsNonpositiveBid (places : ℕ) (orders : List (Order ℚ)) (mid inventory : ℚ) : Prop :=
  100 * (mid - 5 / 2) ≤ inventory ∧ inventory < 500 ∧
    ∀ existingOrder, RiskManager.getExistingOrder orders .buy = some existingOrder →
      existingOrder.orderStatus ≠ .submitted ∧
        existingOrder.price ≠ roundHalfEven (mid - inventory / 100 - 2) / 10 ^ places

theorem sendsNonpositiveBid_iff {places : ℕ} {orders : List (Order ℚ)} {ask : ℤ} (hask : 1 < ask)
    (mid inventory : ℚ) :
    SendsNonpositiveBid places orders mid inventory ↔
      ¬(RiskManager.SendsPrice orders .buy
        ((quotedBid ask (mid - inventory / 100 - 2) : ℚ) / 10 ^ places) inventory →
          0 < (quotedBid ask (mid - inventory / 100 - 2) : ℚ) / 10 ^ places) := by
  have hunit : (0 : ℚ) < 10 ^ places := by positivity
  have hpositive : 0 < (quotedBid ask (mid - inventory / 100 - 2) : ℚ) / 10 ^ places ↔
      ¬100 * (mid - 5 / 2) ≤ inventory := by
    rw [div_pos_iff_of_pos_right hunit, Int.cast_pos, quotedBid_pos_iff hask, not_le,
      sub_right_comm, lt_skewed_iff, sub_sub, show (2 : ℚ) + 1 / 2 = 5 / 2 by norm_num]
  rw [Classical.not_imp, hpositive, not_not, and_comm, SendsNonpositiveBid]
  apply and_congr_right
  intro hlow
  rw [quotedBid_of_le hask (by linarith), RiskManager.SendsPrice]
  simp [eq_comm]

namespace SimpleStrategy

variable {orderBook : OrderBook ℚ} {firstBid firstAsk : Level ℚ} {bid ask : ℤ}
  {strategy : SimpleStrategy ℚ}

/-- Everything sent for the quotes of the strategy passes the checks of the gateway exactly when no
buy price that is not positive is sent. -/
theorem quotes_accepted_iff (hsize : 0 < strategy.size)
    (htick : strategy.instrumentInfo.DecimalTick)
    (hbook : OnTicks strategy.instrumentInfo.decimalPlaces orderBook firstBid firstAsk bid ask)
    (slab : List (Order ℚ)) (inventory averageEntryPrice : ℚ) :
    (∀ orders, strategy.execute orderBook inventory = .ok orders → ∀ order ∈ orders, ∀ outcome,
        RiskManager.evaluateOrder slab order inventory averageEntryPrice = some outcome →
        outcome.Accepted) ↔
      ¬SendsNonpositiveBid strategy.instrumentInfo.decimalPlaces slab
        (midTicks firstBid firstAsk bid ask) inventory := by
  have hask : 1 < ask := by
    have hbid := hbook.positive
    have hspread := hbook.spread
    omega
  have hunit : (0 : ℚ) < 10 ^ strategy.instrumentInfo.decimalPlaces := by positivity
  have hbuy := RiskManager.accepted_iff hsize (parse_bid htick hbook inventory) slab inventory
    averageEntryPrice
  have hsell := RiskManager.accepted_iff hsize (parse_ask htick hbook inventory) slab inventory
    averageEntryPrice
  rw [sendsNonpositiveBid_iff hask, not_not]
  constructor
  · intro haccepted
    exact hbuy.mp fun outcome ↦ haccepted _ (hbook.execute inventory) _ (by simp) outcome
  · intro hpositive orders hexecute order hmem
    obtain rfl := Except.ok.inj (hexecute.symm.trans (hbook.execute inventory))
    simp only [List.mem_cons, List.not_mem_nil, or_false] at hmem
    rcases hmem with rfl | rfl
    · exact hbuy.mpr hpositive
    · refine hsell.mpr fun _ ↦ div_pos ?_ hunit
      exact_mod_cast quotedAsk_pos hbook.positive _

/-- A short position of 200 takes the buy quote into the book. -/
theorem quotes_accepted_sample :
    ∃ orders, sampleStrategy.execute sampleNarrowBook (-200) = .ok orders ∧ ∀ order ∈ orders,
      ∀ outcome, RiskManager.evaluateOrder [] order (-200) 0 = some outcome →
        outcome.Accepted := by
  have hmid : midTicks { price := 1, size := 1 } { price := 2, size := 1 } 1 2 = 3 / 2 := by
    norm_num [midTicks]
  obtain ⟨orders, hexecute⟩ :
      ∃ orders, sampleStrategy.execute sampleNarrowBook (-200) = .ok orders :=
    ⟨_, onTicks_sampleNarrowBook.execute (-200)⟩
  refine ⟨orders, hexecute, (quotes_accepted_iff (by norm_num [sampleStrategy])
    decimalTick_sampleStrategy onTicks_sampleNarrowBook [] (-200) 0).mpr ?_ _ hexecute⟩
  rw [hmid]
  norm_num [SendsNonpositiveBid]

/-- Without a position the buy quote at the prices 1 and 2 is half a tick below zero, and no body is
built for it. -/
theorem not_quotes_accepted :
    ¬∀ (strategy : SimpleStrategy ℚ) (orderBook : OrderBook ℚ) (firstBid firstAsk : Level ℚ)
      (bid ask : ℤ) (slab : List (Order ℚ)) (inventory averageEntryPrice : ℚ), 0 < strategy.size →
      strategy.instrumentInfo.DecimalTick →
      OnTicks strategy.instrumentInfo.decimalPlaces orderBook firstBid firstAsk bid ask →
      ∀ orders, strategy.execute orderBook inventory = .ok orders → ∀ order ∈ orders, ∀ outcome,
        RiskManager.evaluateOrder slab order inventory averageEntryPrice = some outcome →
        outcome.Accepted := by
  intro hclaim
  have hprices : (sampleStrategy.execute sampleNarrowBook 0).toOption.map
      (List.map OrderBuilder.price) = some ["-0", "4"] := by decide +kernel
  obtain ⟨orders, hexecute, hprices⟩ := Option.map_eq_some_iff.mp hprices
  obtain ⟨buy, hbuy, hprice⟩ : ∃ buy ∈ orders, buy.price = "-0" := by
    rw [← List.mem_map, hprices]
    simp
  have hzero : (F64.fromStr "-0" : Option ℚ) = some 0 := by decide +kernel
  have hdecision : RiskManager.evaluateOrder [] buy 0 0 = some (.newOrder buy) := by
    norm_num [RiskManager.evaluateOrder, RiskManager.getExistingOrder, hprice, hzero]
  obtain ⟨body, hbody⟩ := hclaim sampleStrategy sampleNarrowBook _ _ 1 2 [] 0 0
    (by norm_num [sampleStrategy]) decimalTick_sampleStrategy onTicks_sampleNarrowBook orders
    (eq_ok_of_toOption hexecute) buy hbuy _ hdecision 0
  obtain ⟨-, ⟨priceValue, hread, hpositive⟩, -⟩ := OrderHandler.submitOrderBody_eq_ok hbody
  rw [hprice, hzero] at hread
  obtain rfl := Option.some.inj hread
  exact lt_irrefl _ hpositive

end SimpleStrategy

end MarketMaker
