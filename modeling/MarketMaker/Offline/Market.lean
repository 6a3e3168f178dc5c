import MarketMaker.Offline.Executions
import MarketMaker.Offline.Turns
import MarketMaker.Oms.Inventory
import MarketMaker.Oms.Sides

/-!
# The offline market, over exact rationals

The order management system and the exchange agree after every drain: on the open orders one to
one, and on the inventory, which is what the exchange's executions add up to.  If all orders have
one size, the limits of the risk manager bound the inventory up to that size: a resting order was
below its limit when it was submitted, only its own fill can move the inventory further that way,
and no second order rests beside it.
-/

namespace MarketMaker

variable {σ : Type}

/-! ## The limits -/

/-- Orders of one size rest only while the inventory is inside the limit of their side, and the
inventory exceeds a limit by less than one order. -/
structure WithinLimits (size : ℚ) (metrics : Metrics ℚ) (openOrders : OpenOrders ℚ) : Prop where
  qty : ∀ id order, openOrders.lookup id = some order → order.qty = size
  buy : ∀ id order, openOrders.lookup id = some order → order.side = .buy →
    metrics.inventory < 500
  sell : ∀ id order, openOrders.lookup id = some order → order.side = .sell →
    -500 < metrics.inventory
  upper : metrics.inventory < 500 + size
  lower : -500 - size < metrics.inventory

namespace WithinLimits

variable {size : ℚ} {metrics : Metrics ℚ} {openOrders : OpenOrders ℚ} {id : UInt64}
  {order : OrderBuilder ℚ}

theorem fill (hsize : 0 < size) (hlimits : WithinLimits size metrics openOrders)
    (hone : openOrders.OnePerSide) (horder : openOrders.lookup id = some order) (price : ℚ)
    (executionId cts : UInt64) :
    WithinLimits size
      (metrics.execute (SimulatedExchange.fillExecution id order price executionId cts))
      (openOrders.erase id) := by
  have hqty := hlimits.qty id order horder
  have hupper := hlimits.upper
  have hlower := hlimits.lower
  -- what rests after the fill rested before, on the other side
  have hother : ∀ other order', (openOrders.erase id).lookup other = some order' →
      openOrders.lookup other = some order' ∧ order'.side ≠ order.side := by
    intro other order' hlookup
    obtain ⟨hne, hbefore⟩ := OpenOrders.lookup_of_erase hlookup
    exact ⟨hbefore, fun hside ↦ hne (hone other id order' order hbefore horder hside)⟩
  cases hside : order.side with
  | buy =>
    have hbelow := hlimits.buy id order horder hside
    have hinventory : (metrics.execute
        (SimulatedExchange.fillExecution id order price executionId cts)).inventory =
          metrics.inventory + size - size * (1 / 1000) := by
      have hfee : SimulatedExchange.execFee order price = size * (1 / 1000) := by
        norm_num [SimulatedExchange.execFee, hside, hqty, makerFeeRate]
      rw [Metrics.execute_buy hside, ← hfee, ← hqty]
      rfl
    constructor
    · exact fun other order' hlookup ↦ hlimits.qty other order' (hother other order' hlookup).1
    · intro other order' hlookup hbuy
      exact absurd (hbuy.trans hside.symm) (hother other order' hlookup).2
    · intro other order' hlookup hsell
      have habove := hlimits.sell other order' (hother other order' hlookup).1 hsell
      rw [hinventory]
      linarith
    · rw [hinventory]
      linarith
    · rw [hinventory]
      linarith
  | sell =>
    have habove := hlimits.sell id order horder hside
    have hinventory : (metrics.execute
        (SimulatedExchange.fillExecution id order price executionId cts)).inventory =
          metrics.inventory - size := by
      rw [Metrics.execute_sell hside, ← hqty]
      rfl
    constructor
    · exact fun other order' hlookup ↦ hlimits.qty other order' (hother other order' hlookup).1
    · intro other order' hlookup hbuy
      have hbelow := hlimits.buy other order' (hother other order' hlookup).1 hbuy
      rw [hinventory]
      linarith
    · intro other order' hlookup hsell
      exact absurd (hsell.trans hside.symm) (hother other order' hlookup).2
    · rw [hinventory]
      linarith
    · rw [hinventory]
      linarith

/-- A new order of the size that met the limit of its side. -/
theorem submit (hlimits : WithinLimits size metrics openOrders) (hqty : order.qty = size)
    (hmax : ¬(metrics.inventory ≥ maxInventory ∧ order.side = .buy))
    (hmin : ¬(metrics.inventory ≤ minInventory ∧ order.side = .sell)) (id : UInt64) :
    WithinLimits size metrics (openOrders.insert id order) := by
  rw [maxInventory_rat] at hmax
  rw [minInventory_rat] at hmin
  have hresting : ∀ other order', (openOrders.insert id order).lookup other = some order' →
      order' = order ∨ openOrders.lookup other = some order' := by
    intro other order' hlookup
    by_cases hother : other = id
    · rw [hother, Finmap.lookup_insert] at hlookup
      exact .inl (Option.some.inj hlookup).symm
    · rw [Finmap.lookup_insert_of_ne _ hother] at hlookup
      exact .inr hlookup
  refine ⟨?_, ?_, ?_, hlimits.upper, hlimits.lower⟩
  · intro other order' hlookup
    obtain rfl | hlookup := hresting other order' hlookup
    · exact hqty
    · exact hlimits.qty other order' hlookup
  · intro other order' hlookup hside
    obtain rfl | hlookup := hresting other order' hlookup
    · exact not_le.mp fun hle ↦ hmax ⟨hle, hside⟩
    · exact hlimits.buy other order' hlookup hside
  · intro other order' hlookup hside
    obtain rfl | hlookup := hresting other order' hlookup
    · exact not_le.mp fun hle ↦ hmin ⟨hle, hside⟩
    · exact hlimits.sell other order' hlookup hside

/-- An amendment keeps the side and the size. -/
theorem amend (hlimits : WithinLimits size metrics openOrders)
    (horder : openOrders.lookup id = some order) {amendment : OrderAmendedBuilder ℚ}
    (hqty : amendment.qty = size) :
    WithinLimits size metrics
      (openOrders.insert id (SimulatedExchange.amended order amendment)) := by
  apply hlimits.submit
  · rw [SimulatedExchange.amended, hqty, hlimits.qty id order horder]
    exact ite_self size
  · rw [maxInventory_rat]
    exact fun hblocked ↦ not_le.mpr (hlimits.buy id order horder hblocked.2) hblocked.1
  · rw [minInventory_rat]
    exact fun hblocked ↦ not_le.mpr (hlimits.sell id order horder hblocked.2) hblocked.1

theorem new (hsize : 0 < size) : WithinLimits size (Metrics.new 0.0 0.0) ∅ := by
  have hinventory : (Metrics.new 0.0 0.0 : Metrics ℚ).inventory = 0 := by
    norm_num [Metrics.new, Metrics.inventory]
  refine ⟨?_, ?_, ?_, ?_, ?_⟩
  · simp
  · simp
  · simp
  · rw [hinventory]
    linarith
  · rw [hinventory]
    linarith

end WithinLimits

/-! ## The agreement -/

/-- Orders of one size. -/
def Strategy.Uniform (execute : Strategy σ ℚ) (size : ℚ) : Prop :=
  ∀ order, execute.Issues order → order.qty = size

theorem kept_withinLimits (execute : Strategy σ ℚ) :
    Kept execute.Issues fun metrics openOrders ↦ ∀ size, 0 < size → execute.Uniform size →
      WithinLimits size metrics openOrders where
  fill _ _ _ _ price executionId cts hsafe hone horder size hsize huniform :=
    (hsafe size hsize huniform).fill hsize hone horder price executionId cts
  submit _ _ id order hsafe hissues hmax hmin size hsize huniform :=
    (hsafe size hsize huniform).submit (huniform order hissues) hmax hmin id
  amend _ _ _ _ order _ hsafe horder hissues hqty size hsize huniform :=
    (hsafe size hsize huniform).amend horder (hqty.trans (huniform order hissues))

namespace OfflineRunner

/-- What the order management system and the exchange agree on: the open orders one to one, every
submission answered, one open order on each side, and the inventory, which is what the executions
processed add up to.  These are all that the exchange issued. -/
structure Agrees (runner : OfflineRunner σ ℚ) : Prop where
  drained : runner.simulatedExchange.pendingEvents = []
  stored : ∀ stored ∈ runner.oms.openOrders, ∃ order,
    runner.simulatedExchange.openOrders.lookup stored.orderLinkId = some order ∧
      stored.Mirrors order
  resting : ∀ id order, runner.simulatedExchange.openOrders.lookup id = some order →
    ∃ stored ∈ runner.oms.openOrders, stored.orderLinkId = id ∧ stored.Mirrors order
  distinct : (runner.oms.openOrders.map Order.orderLinkId).Nodup
  answered : ∀ stored ∈ runner.oms.orders, stored.orderStatus ≠ .submitted
  oneOpenPerSide : runner.oms.OneOpenPerSide
  inventory : runner.oms.inventory =
    bought (executions runner.processedEvents) - sold (executions runner.processedEvents)
  issued : runner.Counted

theorem Settled.agrees {safe : Metrics ℚ → OpenOrders ℚ → Prop} {runner : OfflineRunner σ ℚ}
    (hsettled : Settled safe runner) (hcounted : runner.Counted) : runner.Agrees := by
  have hlinked := hsettled.linked
  have hlength : runner.oms.orders.length ≤ 2 ^ 64 := by
    have hroom := hsettled.room
    have hlimit := submissionLimit_lt runner.lastStrategyCts
    omega
  constructor
  · exact hsettled.drained
  · intro stored hmem
    obtain ⟨hmem, hopen⟩ := List.mem_filter.mp hmem
    exact hlinked.exists_resting hlength hmem hopen
  · intro id order horder
    obtain ⟨stored, hstored, hstatus, hmirrors⟩ := hlinked.exists_order horder
    have hid := OrderManagementSystem.orderLinkId_of_order hlinked.indexed hstored
    have hmem := (OrderManagementSystem.mem_orders_iff hlinked.indexed hlength).mpr (hid ▸ hstored)
    refine ⟨stored, List.mem_filter.mpr ⟨hmem, ?_⟩, hid, hmirrors⟩
    simp [hstatus, OrderStatus.isOpen]
  · exact Keyed.nodup_filter (OrderManagementSystem.nodup_orderLinkId hlinked.indexed hlength) _
  · intro stored hmem
    exact hlinked.ne_submitted hlength hmem
  · intro side
    apply Keyed.length_le_one
      (Keyed.nodup_filter (OrderManagementSystem.nodup_orderLinkId hlinked.indexed hlength) _)
    intro first hfirst second hsecond
    simp only [List.mem_filter, Bool.and_eq_true, beq_iff_eq] at hfirst hsecond
    obtain ⟨order, horder, hmirrors⟩ := hlinked.exists_resting hlength hfirst.1 hfirst.2.1
    obtain ⟨order', horder', hmirrors'⟩ := hlinked.exists_resting hlength hsecond.1 hsecond.2.1
    apply hlinked.onePerSide _ _ order order' horder horder'
    rw [← hmirrors.side, ← hmirrors'.side, ← hfirst.2.2, ← hsecond.2.2]
  · have hzero : (Metrics.new 0.0 0.0 : Metrics ℚ).inventory = 0 := by
      norm_num [Metrics.new, Metrics.inventory]
    have hledger := congrArg Metrics.inventory hsettled.ledger
    rw [inventory_foldl, hzero, zero_add] at hledger
    exact hledger
  · exact hcounted

/-- For every strategy whose prices are numbers and every market whose books have two sides and do
not go back in time, the loop does not abort, and after every drain, one or two for each book, the
order management system and the exchange agree; orders of one size keep the inventory within one
order of the limits. -/
theorem closed_loop_agreement (execute : Strategy σ ℚ) (strategy : σ)
    (hprices : ∀ order, execute.Issues order → (F64.fromStr order.price : Option ℚ).isSome)
    {orderBooks : List (OrderBook ℚ)}
    (hsides : ∀ orderBook ∈ orderBooks, orderBook.bids ≠ [] ∧ orderBook.asks ≠ [])
    (hcts : orderBooks.Pairwise fun earlier later ↦ earlier.cts ≤ later.cts) :
    ∃ final outputs, run execute (new strategy) orderBooks = some (final, outputs) ∧
      outputs.length = orderBooks.length ∧ (∀ drains ∈ outputs, drains.length ∈ [1, 2]) ∧
      ∀ drained ∈ outputs.flatten, drained.Agrees ∧
        ∀ size, 0 < size → execute.Uniform size →
          -500 - size < drained.oms.inventory ∧ drained.oms.inventory < 500 + size := by
  obtain ⟨final, outputs, hrun, hsettled⟩ := run_settled (kept_withinLimits execute)
    (fun order hissues ↦ ⟨hissues, hprices order hissues⟩)
    (fun size hsize _ ↦ WithinLimits.new hsize) strategy hsides hcts
  obtain ⟨hlength, hdrains⟩ := drains_of_run hrun
  obtain ⟨-, hcounted⟩ := counted_of_run hrun
  refine ⟨final, outputs, hrun, hlength, hdrains,
    fun drained hmem ↦ ⟨(hsettled drained hmem).agrees (hcounted drained hmem), ?_⟩⟩
  intro size hsize huniform
  have hlimits := (hsettled drained hmem).safe size hsize huniform
  exact ⟨hlimits.lower, hlimits.upper⟩

def sampleStrategy : Strategy Unit ℚ := fun state _ _ ↦ (state, [sampleBuy])

/-- The buy rests in the first book and is filled in the second. -/
def sampleMarket : List (OrderBook ℚ) :=
  [sampleOrderBook 1, { sampleOrderBook 2 with asks := [{ price := 566 / 1000, size := 100 }] }]

theorem closed_loop_agreement_sample :
    ∃ final outputs, run sampleStrategy (new ()) sampleMarket = some (final, outputs) ∧
      outputs.map List.length = [2, 1] ∧ (executions final.processedEvents).length = 1 ∧
      ∀ drained ∈ outputs.flatten, drained.Agrees ∧ drained.oms.inventory < 525 := by
  have honly : ∀ order, sampleStrategy.Issues order → order = sampleBuy := by
    intro order hissues
    obtain ⟨state, orderBook, inventory, hmem⟩ := hissues
    exact List.mem_singleton.mp hmem
  have hprices : ∀ order, sampleStrategy.Issues order →
      (F64.fromStr order.price : Option ℚ).isSome := by
    intro order hissues
    rw [honly order hissues]
    decide +kernel
  have hsides : ∀ orderBook ∈ sampleMarket, orderBook.bids ≠ [] ∧ orderBook.asks ≠ [] := by
    simp [sampleMarket, sampleOrderBook]
  have hcts : sampleMarket.Pairwise fun earlier later ↦ earlier.cts ≤ later.cts := by
    simp [sampleMarket, sampleOrderBook]
  obtain ⟨final, outputs, hrun, -, -, hdrained⟩ :=
    closed_loop_agreement sampleStrategy () hprices hsides hcts
  have hsample : (run sampleStrategy (new ()) sampleMarket).map (fun result ↦
      (result.2.map List.length, (executions result.1.processedEvents).length)) =
        some ([2, 1], 1) := by
    decide +kernel
  rw [hrun, Option.map_some, Option.some.injEq, Prod.mk.injEq] at hsample
  obtain ⟨hdrains, hfilled⟩ := hsample
  refine ⟨final, outputs, hrun, hdrains, hfilled,
    fun drained hmem ↦ ⟨(hdrained drained hmem).1, ?_⟩⟩
  have hbounded := (hdrained drained hmem).2 25 (by norm_num) fun order hissues ↦
    congrArg OrderBuilder.qty (honly order hissues)
  linarith

example : (run sampleStrategy (new ()) sampleMarket).map (fun result ↦
    (result.1.oms.inventory, result.1.processedEvents.length)) = some (24975 / 1000, 3) := by
  decide +kernel

end OfflineRunner

end MarketMaker
