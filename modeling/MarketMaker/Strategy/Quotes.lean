import MarketMaker.Strategy.Simple
import Mathlib.Tactic.FieldSimp

/-!
# Quotes in ticks

On an instrument whose tick is the unit of its last decimal, a book with prices on ticks and a
quote price are numbers of ticks: the price that the order carries is the clamped price or the
computed price rounded to whole ticks.  The computed price may lie inside the book and its rounded
value on the other side of it, which happens in one window of inventories for each side.
-/

namespace MarketMaker

/-- The tick is the unit of the last decimal. -/
def InstrumentInfo.DecimalTick (info : InstrumentInfo ℚ) : Prop :=
  info.tickSize = 1 / 10 ^ info.decimalPlaces

namespace InstrumentInfo.DecimalTick

variable {info : InstrumentInfo ℚ}

theorem pos (htick : info.DecimalTick) : 0 < info.tickSize := by
  rw [htick]
  positivity

theorem div_tick (htick : info.DecimalTick) {price ticks : ℚ}
    (hprice : price = ticks / 10 ^ info.decimalPlaces) : price / info.tickSize = ticks := by
  rw [hprice, htick, div_div_div_cancel_right₀ (by positivity), div_one]

end InstrumentInfo.DecimalTick

/-- The top of a book that the strategy quotes against. -/
structure Quotable (orderBook : OrderBook ℚ) (firstBid firstAsk : Level ℚ) : Prop where
  bids : orderBook.bids.head? = some firstBid
  asks : orderBook.asks.head? = some firstAsk
  validBid : ¬SimpleStrategy.invalid firstBid
  validAsk : ¬SimpleStrategy.invalid firstAsk

theorem Quotable.execute {orderBook : OrderBook ℚ} {firstBid firstAsk : Level ℚ}
    (hbook : Quotable orderBook firstBid firstAsk) (strategy : SimpleStrategy ℚ) (inventory : ℚ) :
    strategy.execute orderBook inventory =
      .ok [strategy.quote .buy (strategy.bidPrice firstBid firstAsk inventory),
        strategy.quote .sell (strategy.askPrice firstBid firstAsk inventory)] := by
  obtain ⟨firstBid', firstAsk', hbid, hask, -, -, heq⟩ | ⟨-, hnone⟩ :=
    strategy.execute_rat orderBook inventory
  · obtain rfl := Option.some.inj (hbook.bids.symm.trans hbid)
    obtain rfl := Option.some.inj (hbook.asks.symm.trans hask)
    exact heq
  · exact absurd ⟨firstBid, firstAsk, hbook.bids, hbook.asks, hbook.validBid, hbook.validAsk⟩ hnone

/-- The top of the book in ticks: positive prices with bid below ask, and positive sizes. -/
structure OnTicks (places : ℕ) (orderBook : OrderBook ℚ) (firstBid firstAsk : Level ℚ)
    (bid ask : ℤ) : Prop where
  bids : orderBook.bids.head? = some firstBid
  asks : orderBook.asks.head? = some firstAsk
  bidPrice : firstBid.price = bid / 10 ^ places
  askPrice : firstAsk.price = ask / 10 ^ places
  positive : 0 < bid
  spread : bid < ask
  bidSize : 0 < firstBid.size
  askSize : 0 < firstAsk.size

/-- The micro price in ticks. -/
def midTicks (firstBid firstAsk : Level ℚ) (bid ask : ℤ) : ℚ :=
  (bid * firstBid.size + ask * firstAsk.size) / (firstBid.size + firstAsk.size)

/-- The ticks of the buy price before the rounding: a computed price that crosses is put one tick
inside the book. -/
def clampedBid (ask ticks : ℚ) : ℚ := if ask ≤ ticks then ask - 1 else ticks

def clampedAsk (bid ticks : ℚ) : ℚ := if ticks ≤ bid then bid + 1 else ticks

def quotedBid (ask : ℤ) (ticks : ℚ) : ℤ := if ask ≤ ticks then ask - 1 else roundHalfEven ticks

def quotedAsk (bid : ℤ) (ticks : ℚ) : ℤ := if ticks ≤ bid then bid + 1 else roundHalfEven ticks

theorem F64.fixedValue_div (places : ℕ) (ticks : ℚ) :
    F64.fixedValue places (ticks / 10 ^ places) = roundHalfEven ticks / 10 ^ places := by
  rw [fixedValue, div_mul_cancel₀ ticks (by positivity)]

theorem InstrumentInfo.DecimalTick.fixedValue_mul {info : InstrumentInfo ℚ}
    (htick : info.DecimalTick) (ticks : ℚ) :
    F64.fixedValue info.decimalPlaces (ticks * info.tickSize) =
      roundHalfEven ticks / 10 ^ info.decimalPlaces := by
  rw [htick, mul_one_div, F64.fixedValue_div]

namespace OnTicks

variable {places : ℕ} {orderBook : OrderBook ℚ} {firstBid firstAsk : Level ℚ} {bid ask : ℤ}
  {strategy : SimpleStrategy ℚ}

theorem microPrice (hbook : OnTicks places orderBook firstBid firstAsk bid ask) :
    SimpleStrategy.microPrice firstBid firstAsk =
      midTicks firstBid firstAsk bid ask / 10 ^ places := by
  have hsizes : firstBid.size + firstAsk.size ≠ 0 :=
    (add_pos hbook.bidSize hbook.askSize).ne'
  rw [SimpleStrategy.microPrice, midTicks, hbook.bidPrice, hbook.askPrice]
  field_simp

theorem quotable (hbook : OnTicks places orderBook firstBid firstAsk bid ask) :
    Quotable orderBook firstBid firstAsk := by
  have hbid : (0 : ℚ) < bid := by exact_mod_cast hbook.positive
  have hask : (0 : ℚ) < ask := by exact_mod_cast hbook.positive.trans hbook.spread
  refine ⟨hbook.bids, hbook.asks, ?_, ?_⟩
  · rw [SimpleStrategy.invalid_rat, not_not, hbook.bidPrice]
    exact ⟨by positivity, hbook.bidSize⟩
  · rw [SimpleStrategy.invalid_rat, not_not, hbook.askPrice]
    exact ⟨by positivity, hbook.askSize⟩

theorem execute (hbook : OnTicks places orderBook firstBid firstAsk bid ask) (inventory : ℚ) :
    strategy.execute orderBook inventory =
      .ok [strategy.quote .buy (strategy.bidPrice firstBid firstAsk inventory),
        strategy.quote .sell (strategy.askPrice firstBid firstAsk inventory)] :=
  hbook.quotable.execute strategy inventory

end OnTicks

namespace SimpleStrategy

variable {orderBook : OrderBook ℚ} {firstBid firstAsk : Level ℚ} {bid ask : ℤ}
  {strategy : SimpleStrategy ℚ}

/-- The buy price in ticks, on a book that need not have its prices on ticks. -/
theorem bidPrice_eq_mul (htick : 0 < strategy.instrumentInfo.tickSize)
    (firstBid firstAsk : Level ℚ) (inventory : ℚ) :
    strategy.bidPrice firstBid firstAsk inventory =
      clampedBid (firstAsk.price / strategy.instrumentInfo.tickSize)
        (microPrice firstBid firstAsk / strategy.instrumentInfo.tickSize - inventory / 100 - 2) *
          strategy.instrumentInfo.tickSize := by
  have hcomputed : strategy.reservationPrice firstBid firstAsk inventory -
      baseSpread * strategy.instrumentInfo.tickSize =
        (microPrice firstBid firstAsk / strategy.instrumentInfo.tickSize - inventory / 100 - 2) *
          strategy.instrumentInfo.tickSize := by
    rw [sub_mul, sub_mul, div_mul_cancel₀ _ htick.ne', reservationPrice, skewFactor_rat,
      baseSpread_rat, mul_one_div]
  simp only [bidPrice, clampedBid, hcomputed, ge_iff_le, div_le_iff₀ htick]
  split_ifs
  · rw [sub_mul, div_mul_cancel₀ _ htick.ne', one_mul]
  · rfl

/-- The sell price in ticks, on a book that need not have its prices on ticks. -/
theorem askPrice_eq_mul (htick : 0 < strategy.instrumentInfo.tickSize)
    (firstBid firstAsk : Level ℚ) (inventory : ℚ) :
    strategy.askPrice firstBid firstAsk inventory =
      clampedAsk (firstBid.price / strategy.instrumentInfo.tickSize)
        (microPrice firstBid firstAsk / strategy.instrumentInfo.tickSize - inventory / 100 + 2) *
          strategy.instrumentInfo.tickSize := by
  have hcomputed : strategy.reservationPrice firstBid firstAsk inventory +
      baseSpread * strategy.instrumentInfo.tickSize =
        (microPrice firstBid firstAsk / strategy.instrumentInfo.tickSize - inventory / 100 + 2) *
          strategy.instrumentInfo.tickSize := by
    rw [add_mul, sub_mul, div_mul_cancel₀ _ htick.ne', reservationPrice, skewFactor_rat,
      baseSpread_rat, mul_one_div]
  simp only [askPrice, clampedAsk, hcomputed, le_div_iff₀ htick]
  split_ifs
  · rw [add_mul, div_mul_cancel₀ _ htick.ne', one_mul]
  · rfl

theorem bidPrice_ticks (htick : strategy.instrumentInfo.DecimalTick)
    (hbook : OnTicks strategy.instrumentInfo.decimalPlaces orderBook firstBid firstAsk bid ask)
    (inventory : ℚ) :
    strategy.bidPrice firstBid firstAsk inventory =
      (if (ask : ℚ) ≤ midTicks firstBid firstAsk bid ask - inventory / 100 - 2
        then ((ask - 1 : ℤ) : ℚ) else midTicks firstBid firstAsk bid ask - inventory / 100 - 2) /
        10 ^ strategy.instrumentInfo.decimalPlaces := by
  rw [bidPrice_eq_mul htick.pos, htick.div_tick hbook.askPrice, htick.div_tick hbook.microPrice,
    htick, mul_one_div, clampedBid]
  push_cast
  rfl

theorem askPrice_ticks (htick : strategy.instrumentInfo.DecimalTick)
    (hbook : OnTicks strategy.instrumentInfo.decimalPlaces orderBook firstBid firstAsk bid ask)
    (inventory : ℚ) :
    strategy.askPrice firstBid firstAsk inventory =
      (if midTicks firstBid firstAsk bid ask - inventory / 100 + 2 ≤ bid
        then ((bid + 1 : ℤ) : ℚ) else midTicks firstBid firstAsk bid ask - inventory / 100 + 2) /
        10 ^ strategy.instrumentInfo.decimalPlaces := by
  rw [askPrice_eq_mul htick.pos, htick.div_tick hbook.bidPrice, htick.div_tick hbook.microPrice,
    htick, mul_one_div, clampedAsk]
  push_cast
  rfl

/-- A quote carries its price rounded to the decimals of the instrument. -/
theorem parse_quote (strategy : SimpleStrategy ℚ) (side : OrderSide) (price : ℚ) :
    F64.fromStr (strategy.quote side price).price =
      some (F64.fixedValue strategy.instrumentInfo.decimalPlaces price) :=
  F64.parse_formatFixed _ _

/-- A quote at whole ticks or at a computed number of ticks carries whole ticks. -/
theorem parse_quote_ticks (strategy : SimpleStrategy ℚ) (side : OrderSide) (clamped : Prop)
    [Decidable clamped] (inside : ℤ) (ticks : ℚ) :
    F64.fromStr (strategy.quote side ((if clamped then (inside : ℚ) else ticks) /
        10 ^ strategy.instrumentInfo.decimalPlaces)).price =
      some (((if clamped then inside else roundHalfEven ticks : ℤ) : ℚ) /
        10 ^ strategy.instrumentInfo.decimalPlaces) := by
  rw [parse_quote, F64.fixedValue_div]
  split_ifs
  · rw [roundHalfEven_intCast]
  · rfl

/-- The price that the buy order carries. -/
theorem parse_bid (htick : strategy.instrumentInfo.DecimalTick)
    (hbook : OnTicks strategy.instrumentInfo.decimalPlaces orderBook firstBid firstAsk bid ask)
    (inventory : ℚ) :
    F64.fromStr (strategy.quote .buy (strategy.bidPrice firstBid firstAsk inventory)).price =
      some ((quotedBid ask (midTicks firstBid firstAsk bid ask - inventory / 100 - 2) : ℚ) /
        10 ^ strategy.instrumentInfo.decimalPlaces) := by
  rw [bidPrice_ticks htick hbook, parse_quote_ticks, quotedBid]

/-- The price that the sell order carries. -/
theorem parse_ask (htick : strategy.instrumentInfo.DecimalTick)
    (hbook : OnTicks strategy.instrumentInfo.decimalPlaces orderBook firstBid firstAsk bid ask)
    (inventory : ℚ) :
    F64.fromStr (strategy.quote .sell (strategy.askPrice firstBid firstAsk inventory)).price =
      some ((quotedAsk bid (midTicks firstBid firstAsk bid ask - inventory / 100 + 2) : ℚ) /
        10 ^ strategy.instrumentInfo.decimalPlaces) := by
  rw [askPrice_ticks htick hbook, parse_quote_ticks, quotedAsk]

end SimpleStrategy

/-! ## Crossing the book -/

section Skewed

variable (price mid inventory : ℚ)

/-- A skewed price is above a price as long as the inventory is below a bound. -/
theorem lt_skewed_iff : price < mid - inventory / 100 ↔ inventory < 100 * (mid - price) := by
  rw [lt_sub_comm, div_lt_iff₀' (by norm_num)]

theorem le_skewed_iff : price ≤ mid - inventory / 100 ↔ inventory ≤ 100 * (mid - price) := by
  rw [le_sub_comm, div_le_iff₀' (by norm_num)]

theorem skewed_lt_iff : mid - inventory / 100 < price ↔ 100 * (mid - price) < inventory := by
  rw [← not_le, le_skewed_iff, not_le]

theorem skewed_le_iff : mid - inventory / 100 ≤ price ↔ 100 * (mid - price) ≤ inventory := by
  rw [← not_lt, lt_skewed_iff, not_lt]

theorem skewed_eq_iff : mid - inventory / 100 = price ↔ inventory = 100 * (mid - price) := by
  rw [le_antisymm_iff, skewed_le_iff, le_skewed_iff, and_comm, ← le_antisymm_iff]

end Skewed

/-- The buy quote is computed below the ask and rounded onto it. -/
def BuyCrosses (ask : ℤ) (mid inventory : ℚ) : Prop :=
  100 * (mid - 2 - ask) < inventory ∧
    (inventory < 100 * (mid - 2 - ask) + 50 ∨
      inventory = 100 * (mid - 2 - ask) + 50 ∧ Even ask)

/-- The sell quote is computed above the bid and rounded onto it. -/
def SellCrosses (bid : ℤ) (mid inventory : ℚ) : Prop :=
  inventory < 100 * (mid + 2 - bid) ∧
    (100 * (mid + 2 - bid) - 50 < inventory ∨
      inventory = 100 * (mid + 2 - bid) - 50 ∧ Even bid)

theorem quotedBid_lt_iff (ask : ℤ) (mid inventory : ℚ) :
    quotedBid ask (mid - inventory / 100 - 2) < ask ↔ ¬BuyCrosses ask mid inventory := by
  have hthreshold : 100 * (mid - 2 - (((ask - 1 : ℤ) : ℚ) + 1 / 2)) =
      100 * (mid - 2 - ask) + 50 := by
    push_cast
    ring
  rw [sub_right_comm]
  unfold quotedBid BuyCrosses
  split_ifs with hclamped <;> rw [le_skewed_iff] at hclamped
  · refine iff_of_true (by omega) ?_
    exact fun hcrosses ↦ hclamped.not_gt hcrosses.1
  · rw [← not_le, not_iff_not, ← Int.sub_one_lt_iff, lt_roundHalfEven_iff, Int.even_sub_one,
      not_not, lt_skewed_iff, skewed_eq_iff, hthreshold, and_iff_right (not_le.mp hclamped)]

theorem lt_quotedAsk_iff (bid : ℤ) (mid inventory : ℚ) :
    bid < quotedAsk bid (mid - inventory / 100 + 2) ↔ ¬SellCrosses bid mid inventory := by
  have hthreshold : 100 * (mid + 2 - ((bid : ℚ) + 1 / 2)) = 100 * (mid + 2 - bid) - 50 := by ring
  rw [sub_add_eq_add_sub]
  unfold quotedAsk SellCrosses
  split_ifs with hclamped <;> rw [skewed_le_iff] at hclamped
  · refine iff_of_true (by omega) ?_
    exact fun hcrosses ↦ hclamped.not_gt hcrosses.1
  · rw [← not_le, not_iff_not, roundHalfEven_le_iff, skewed_lt_iff, skewed_eq_iff, hthreshold,
      and_iff_right (not_le.mp hclamped)]

namespace SimpleStrategy

variable {orderBook : OrderBook ℚ} {firstBid firstAsk : Level ℚ} {bid ask : ℤ}
  {strategy : SimpleStrategy ℚ}

/-- Both quotes stay on their side of the book exactly when the inventory is outside the windows
in which rounding takes them across. -/
theorem quotes_do_not_cross_iff (htick : strategy.instrumentInfo.DecimalTick)
    (hbook : OnTicks strategy.instrumentInfo.decimalPlaces orderBook firstBid firstAsk bid ask)
    (inventory : ℚ) :
    ∃ (buy sell : OrderBuilder ℚ) (buyPrice sellPrice : ℚ),
      strategy.execute orderBook inventory = .ok [buy, sell] ∧
      buy.side = .buy ∧ F64.fromStr buy.price = some buyPrice ∧
      sell.side = .sell ∧ F64.fromStr sell.price = some sellPrice ∧
      (buyPrice < firstAsk.price ∧ firstBid.price < sellPrice ↔
        ¬BuyCrosses ask (midTicks firstBid firstAsk bid ask) inventory ∧
          ¬SellCrosses bid (midTicks firstBid firstAsk bid ask) inventory) := by
  have hunit : (0 : ℚ) < 10 ^ strategy.instrumentInfo.decimalPlaces := by positivity
  refine ⟨_, _, _, _, hbook.execute inventory, rfl, parse_bid htick hbook inventory, rfl,
    parse_ask htick hbook inventory, ?_⟩
  rw [hbook.askPrice, hbook.bidPrice, div_lt_div_iff_of_pos_right hunit,
    div_lt_div_iff_of_pos_right hunit, Int.cast_lt, Int.cast_lt, quotedBid_lt_iff,
    lt_quotedAsk_iff]

/-! ## A short position -/

def sampleStrategy : SimpleStrategy ℚ :=
  { size := 25
    instrumentInfo :=
      { symbol := "ADAUSDT", baseCoin := "ADA", quoteCoin := "USDT", basePrecision := 1 / 100
        quotePrecision := 1 / 1000000, tickSize := 1, decimalPlaces := 0 } }

/-- Equal sizes at the prices 1 and 2. -/
def sampleNarrowBook : OrderBook ℚ :=
  { bids := [{ price := 1, size := 1 }], asks := [{ price := 2, size := 1 }], ts := 0, cts := 0 }

theorem onTicks_sampleNarrowBook :
    OnTicks sampleStrategy.instrumentInfo.decimalPlaces sampleNarrowBook { price := 1, size := 1 }
      { price := 2, size := 1 } 1 2 := by
  constructor <;> first | rfl | norm_num [sampleStrategy]

theorem decimalTick_sampleStrategy : sampleStrategy.instrumentInfo.DecimalTick := by
  norm_num [InstrumentInfo.DecimalTick, sampleStrategy]

theorem quotes_do_not_cross_sample :
    ∃ (buy sell : OrderBuilder ℚ) (buyPrice sellPrice : ℚ),
      sampleStrategy.execute sampleNarrowBook 0 = .ok [buy, sell] ∧
      buy.side = .buy ∧ F64.fromStr buy.price = some buyPrice ∧
      sell.side = .sell ∧ F64.fromStr sell.price = some sellPrice ∧
      buyPrice < 2 ∧ 1 < sellPrice := by
  have hmid : midTicks { price := 1, size := 1 } { price := 2, size := 1 } 1 2 = 3 / 2 := by
    norm_num [midTicks]
  obtain ⟨buy, sell, buyPrice, sellPrice, hexecute, hbuy, hbuyPrice, hsell, hsellPrice, hiff⟩ :=
    quotes_do_not_cross_iff decimalTick_sampleStrategy onTicks_sampleNarrowBook 0
  refine ⟨buy, sell, buyPrice, sellPrice, hexecute, hbuy, hbuyPrice, hsell, hsellPrice,
    hiff.mpr ?_⟩
  rw [hmid]
  norm_num [BuyCrosses, SellCrosses]

/-- A short position of 220 takes the buy price to 1.7 ticks, which is rounded onto the ask. -/
theorem not_quotes_do_not_cross :
    ¬∀ (strategy : SimpleStrategy ℚ) (orderBook : OrderBook ℚ) (firstBid firstAsk : Level ℚ)
      (bid ask : ℤ) (inventory : ℚ), strategy.instrumentInfo.DecimalTick →
      OnTicks strategy.instrumentInfo.decimalPlaces orderBook firstBid firstAsk bid ask →
      ∃ (buy sell : OrderBuilder ℚ) (buyPrice sellPrice : ℚ),
        strategy.execute orderBook inventory = .ok [buy, sell] ∧
        buy.side = .buy ∧ F64.fromStr buy.price = some buyPrice ∧
        sell.side = .sell ∧ F64.fromStr sell.price = some sellPrice ∧
        buyPrice < firstAsk.price ∧ firstBid.price < sellPrice := by
  intro hclaim
  obtain ⟨buy, sell, buyPrice, sellPrice, hexecute, -, hbuy, -, -, hbelow, -⟩ :=
    hclaim sampleStrategy sampleNarrowBook _ _ 1 2 (-220) decimalTick_sampleStrategy
      onTicks_sampleNarrowBook
  have horders : (sampleStrategy.execute sampleNarrowBook (-220)).toOption.map
      (List.map OrderBuilder.price) = some ["2", "6"] := by decide +kernel
  rw [hexecute] at horders
  obtain ⟨hprice, -⟩ : buy.price = "2" ∧ sell.price = "6" := by
    simpa [Except.toOption] using horders
  have htwo : (F64.fromStr "2" : Option ℚ) = some 2 := by decide +kernel
  rw [hprice, htwo] at hbuy
  obtain rfl := Option.some.inj hbuy
  exact lt_irrefl _ hbelow

end SimpleStrategy

end MarketMaker
