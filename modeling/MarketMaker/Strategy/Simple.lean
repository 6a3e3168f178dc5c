import MarketMaker.Exchange.Market
import MarketMaker.Exchange.Order
import MarketMaker.Exchange.OrderBook

/-!
# The simple strategy

Two quotes around a reservation price: the micro price of the top of the book, shifted against the
inventory.  A quote that would cross the book is put one tick inside it.  The clamp looks at the
computed price; the order carries that price formatted with the instrument's decimals.
-/

namespace MarketMaker

variable {F : Type}

structure SimpleStrategy (F : Type) where
  size : F
  instrumentInfo : InstrumentInfo F
  deriving DecidableEq

namespace SimpleStrategy

def baseSpread [OfScientific F] : F := 2.0

def skewFactor [OfScientific F] : F := 0.01

@[simp]
theorem baseSpread_rat : (baseSpread : ℚ) = 2 := by norm_num [baseSpread]

@[simp]
theorem skewFactor_rat : (skewFactor : ℚ) = 1 / 100 := by norm_num [skewFactor]

def new [F64Format F] [LT F] [DecidableLT F] [OfScientific F] (size : F)
    (instrumentInfo : InstrumentInfo F) : Except Panic (SimpleStrategy F) := do
  assertThat (F64Format.isFinite size ∧ size > 0.0)
    "Order size must be finite and greater than zero."
  return { size, instrumentInfo }

theorem new_eq_ok [F64Format F] [LT F] [DecidableLT F] [OfScientific F] {size : F}
    {instrumentInfo : InstrumentInfo F} {strategy : SimpleStrategy F}
    (hnew : SimpleStrategy.new size instrumentInfo = .ok strategy) :
    strategy = { size, instrumentInfo } ∧ size > 0.0 := by
  simp only [SimpleStrategy.new, bind_eq_ok, assertThat_eq_ok] at hnew
  obtain ⟨_, hsize, heq⟩ := hnew
  exact ⟨(Except.ok.inj heq).symm, hsize.2⟩

/-- The mean of the top prices, each weighted with its own size. -/
def microPrice [Add F] [Mul F] [Div F] (firstBid firstAsk : Level F) : F :=
  (firstBid.price * firstBid.size + firstAsk.price * firstAsk.size) /
    (firstBid.size + firstAsk.size)

section Prices

variable [Add F] [Sub F] [Mul F] [Div F] [LE F] [DecidableLE F] [OfScientific F]

def reservationPrice (strategy : SimpleStrategy F) (firstBid firstAsk : Level F) (inventory : F) :
    F :=
  microPrice firstBid firstAsk - inventory * skewFactor * strategy.instrumentInfo.tickSize

def bidPrice (strategy : SimpleStrategy F) (firstBid firstAsk : Level F) (inventory : F) : F :=
  let precision := strategy.instrumentInfo.tickSize
  let bidPrice := strategy.reservationPrice firstBid firstAsk inventory - baseSpread * precision
  if bidPrice ≥ firstAsk.price then firstAsk.price - precision else bidPrice

def askPrice (strategy : SimpleStrategy F) (firstBid firstAsk : Level F) (inventory : F) : F :=
  let precision := strategy.instrumentInfo.tickSize
  let askPrice := strategy.reservationPrice firstBid firstAsk inventory + baseSpread * precision
  if askPrice ≤ firstBid.price then firstBid.price + precision else askPrice

end Prices

def quote [F64Format F] (strategy : SimpleStrategy F) (side : OrderSide) (price : F) :
    OrderBuilder F :=
  { symbol := strategy.instrumentInfo.symbol
    side
    orderType := .limit
    qty := strategy.size
    price := F64Format.formatFixed strategy.instrumentInfo.decimalPlaces price }

variable [F64Format F] [Add F] [Sub F] [Mul F] [Div F] [LE F] [DecidableLE F] [OfScientific F]

def computeOrders (strategy : SimpleStrategy F) (orderBook : OrderBook F) (inventory : F) :
    Except Panic (List (OrderBuilder F)) := do
  let firstBid ← unwrap orderBook.bids.head?
  let firstAsk ← unwrap orderBook.asks.head?
  return [strategy.quote .buy (strategy.bidPrice firstBid firstAsk inventory),
    strategy.quote .sell (strategy.askPrice firstBid firstAsk inventory)]

/-- A top level that the strategy does not quote against. -/
def invalid (level : Level F) : Prop :=
  ¬F64Format.isFinite level.price ∨ level.price ≤ 0.0 ∨ ¬F64Format.isFinite level.size ∨
    level.size ≤ 0.0

instance (level : Level F) : Decidable (invalid level) :=
  inferInstanceAs (Decidable (_ ∨ _ ∨ _ ∨ _))

def execute (strategy : SimpleStrategy F) (orderBook : OrderBook F) (inventory : F) :
    Except Panic (List (OrderBuilder F)) := do
  assertThat (F64Format.isFinite inventory) "Inventory must be finite."
  match orderBook.bids.head?, orderBook.asks.head? with
  | some firstBid, some firstAsk =>
    if invalid firstBid ∨ invalid firstAsk then return []
    else strategy.computeOrders orderBook inventory
  | _, _ => return []

/-- Every order issued is a quote. -/
theorem exists_quote {strategy : SimpleStrategy F} {orderBook : OrderBook F} {inventory : F}
    {orders : List (OrderBuilder F)} (hexecute : strategy.execute orderBook inventory = .ok orders)
    {order : OrderBuilder F} (hmem : order ∈ orders) :
    ∃ side price, order = strategy.quote side price := by
  simp only [execute, bind_eq_ok] at hexecute
  obtain ⟨_, -, hexecute⟩ := hexecute
  split at hexecute
  · split_ifs at hexecute
    · obtain rfl := Except.ok.inj hexecute
      cases hmem
    · simp only [computeOrders, bind_eq_ok] at hexecute
      obtain ⟨_, -, _, -, heq⟩ := hexecute
      obtain rfl := Except.ok.inj heq
      obtain rfl | rfl := List.mem_pair.mp hmem <;> exact ⟨_, _, rfl⟩
  · obtain rfl := Except.ok.inj hexecute
    cases hmem

/-! ## The exact reading -/

theorem invalid_rat (level : Level ℚ) : invalid level ↔ ¬(0 < level.price ∧ 0 < level.size) := by
  have hzero : (0.0 : ℚ) = 0 := by norm_num
  simp only [invalid, F64Format.isFinite, hzero, not_true_eq_false, false_or, not_and_or, not_lt]

/-- Both quotes are issued for a book with valid top levels, and none for any other book. -/
theorem execute_rat (strategy : SimpleStrategy ℚ) (orderBook : OrderBook ℚ) (inventory : ℚ) :
    (∃ firstBid firstAsk, orderBook.bids.head? = some firstBid ∧
      orderBook.asks.head? = some firstAsk ∧ ¬invalid firstBid ∧ ¬invalid firstAsk ∧
      strategy.execute orderBook inventory =
        .ok [strategy.quote .buy (strategy.bidPrice firstBid firstAsk inventory),
          strategy.quote .sell (strategy.askPrice firstBid firstAsk inventory)]) ∨
    strategy.execute orderBook inventory = .ok [] ∧
      ¬∃ firstBid firstAsk, orderBook.bids.head? = some firstBid ∧
        orderBook.asks.head? = some firstAsk ∧ ¬invalid firstBid ∧ ¬invalid firstAsk := by
  have hfinite : assertThat (F64Format.isFinite inventory) "Inventory must be finite." =
    Except.ok () := rfl
  unfold execute
  rw [hfinite]
  cases hbids : orderBook.bids.head? with
  | none => exact .inr ⟨rfl, by simp⟩
  | some firstBid =>
    cases hasks : orderBook.asks.head? with
    | none => exact .inr ⟨rfl, by simp⟩
    | some firstAsk =>
      by_cases hinvalid : invalid firstBid ∨ invalid firstAsk
      · right
        simp only [hinvalid, if_true]
        refine ⟨rfl, ?_⟩
        rintro ⟨_, _, hbid, hask, hvalid⟩
        obtain rfl := Option.some.inj hbid
        obtain rfl := Option.some.inj hask
        exact hinvalid.elim hvalid.1 hvalid.2
      · left
        rw [not_or] at hinvalid
        refine ⟨firstBid, firstAsk, rfl, rfl, hinvalid.1, hinvalid.2, ?_⟩
        simp only [hinvalid.1, hinvalid.2, or_self, if_false, computeOrders, hbids, hasks]
        rfl

end SimpleStrategy

end MarketMaker
