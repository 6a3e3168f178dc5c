import MarketMaker.Cli.Recording
import MarketMaker.Cli.Start
import MarketMaker.Recorder.BookFeed
import MarketMaker.Strategy.Submission

/-!
# No thread panics

A panic ends the bot, so the threads rest on what the exchange promises: answers and messages that
can be read, books with two sides, known codes, and prices that leave room for the skew.  While the
promises are kept, a thread that stands before a step can take it, in every state that any
interleaving reaches.

Numbers are exact here, so that a quantity is always finite.
-/

namespace MarketMaker

/-! ## Promises -/

/-- An execution ten seconds after which the clock still fits. -/
def OrderEvent.Timely (event : OrderEvent ℚ) : Prop :=
  ∀ execution, event = .executionUpdate execution → execution.execTs.toNat + 10000 < 2 ^ 64

def OrderBook.TwoSided (orderBook : OrderBook ℚ) : Prop :=
  orderBook.bids ≠ [] ∧ orderBook.asks ≠ []

/-- Every entry with a link id can be converted, and executions are timely. -/
def PrivateResponse.Promised (response : PrivateResponse) : Prop :=
  ∀ send ∈ (PrivateWebSocket.sends response : List (PrivateSend ℚ)),
    ∃ event, send.2 = some event ∧ event.Timely

theorem OrderEvent.timely_iff {event : OrderEvent ℚ} :
    event.Timely ↔ ∀ execution ∈ executions [event], execution.execTs.toNat + 10000 < 2 ^ 64 := by
  cases event <;> simp [Timely, executions]

instance (event : OrderEvent ℚ) : Decidable event.Timely :=
  decidable_of_iff' _ OrderEvent.timely_iff

theorem PrivateResponse.promised_iff {response : PrivateResponse} :
    response.Promised ↔ ∀ send ∈ (PrivateWebSocket.sends response : List (PrivateSend ℚ)),
      send.2.any fun event ↦ decide event.Timely := by
  simp only [Promised, Option.any_eq_true, decide_eq_true_eq]

instance (response : PrivateResponse) : Decidable response.Promised :=
  decidable_of_iff' _ PrivateResponse.promised_iff

namespace Threads

/-- Both quotes of the current book and inventory are positive as texts. -/
def QuotesPositive (threads : Threads ℚ) : Prop :=
  ∀ strategy, threads.strategy = some strategy → ∀ inventory,
    strategy.runner.inventory = some inventory → ∀ firstBid firstAsk,
      Quotable threads.orderBook firstBid firstAsk → ∀ price,
        (price = strategy.runner.strategy.bidPrice firstBid firstAsk inventory ∨
          price = strategy.runner.strategy.askPrice firstBid firstAsk inventory) →
        0 < F64.fixedValue strategy.runner.strategy.instrumentInfo.decimalPlaces price

theorem quotesPositive_iff {threads : Threads ℚ} :
    threads.QuotesPositive ↔ ∀ strategy ∈ threads.strategy, ∀ inventory ∈ strategy.runner.inventory,
      ∀ firstBid ∈ threads.orderBook.bids.head?, ∀ firstAsk ∈ threads.orderBook.asks.head?,
        ¬SimpleStrategy.invalid firstBid → ¬SimpleStrategy.invalid firstAsk →
          ∀ price ∈ [strategy.runner.strategy.bidPrice firstBid firstAsk inventory,
            strategy.runner.strategy.askPrice firstBid firstAsk inventory],
            0 < F64.fixedValue strategy.runner.strategy.instrumentInfo.decimalPlaces price := by
  constructor
  · intro hpositive strategy hstrategy inventory hinventory firstBid hbid firstAsk hask hvalidBid
      hvalidAsk price hprice
    exact hpositive strategy hstrategy inventory hinventory firstBid firstAsk
      ⟨hbid, hask, hvalidBid, hvalidAsk⟩ price (by simpa using hprice)
  · intro hall strategy hstrategy inventory hinventory firstBid firstAsk hbook price hprice
    exact hall strategy hstrategy inventory hinventory firstBid hbook.bids firstAsk hbook.asks
      hbook.validBid hbook.validAsk price (by simpa using hprice)

instance (threads : Threads ℚ) : Decidable threads.QuotesPositive :=
  decidable_of_iff' _ quotesPositive_iff

/-- What the exchange and the market promise at a step. -/
def Promised (threads : Threads ℚ) : ThreadStep ℚ → Prop
  | .publicResponse response => response.Parses ℚ ∧ threads.publicWs.KeepsSides response
  | .privateResponse response => response.Promised
  | .constructOms walletBalance recentTrade nowMicros =>
    (∃ coins : List (String × ℚ), Wallet.Lists walletBalance coins ∧ (coins.map Prod.fst).Nodup ∧
      ((coins.lookup threads.config.coin).getD 0 = 0 ∨
        ∃ price : ℚ, Trades.Shows recentTrade price)) ∧ nowMicros < 2 ^ 64
  | .answer _ result => ∀ url content, result = .text url (some content) →
    content.retCode ∈ OrderHandler.knownCodes
  | .constructStrategy instrumentsInfo => ∃ instrumentInfo : InstrumentInfo ℚ,
    processInstrumentInfoResponse threads.config.symbol instrumentsInfo = .ok instrumentInfo
  | .execute => threads.QuotesPositive
  | _ => True

/-- The thread of the step stands where the step begins. -/
def Ready (threads : Threads ℚ) : ThreadStep ℚ → Prop
  | .publicResponse _ => threads.publications = []
  | .publicSend => threads.publications ≠ []
  | .privateResponse _ => threads.privateSends = some []
  | .privateSend => ∃ send rest, threads.privateSends = some (send :: rest)
  | .privateReturn => threads.privateSends = some []
  | .constructOms _ _ _ => threads.oms = none
  | .takeOrder => threads.oms.isSome ∧ threads.strategyOrders ≠ []
  | .takeEvent => threads.oms.isSome ∧ threads.orderEvents ≠ []
  | .answer index _ => index < threads.requests.length
  | .constructStrategy _ => threads.strategy = none
  | .startStrategy => ∃ strategy, threads.strategy = some strategy ∧
    strategy.runner.inventory = none
  | .pollInventory => ∃ strategy, threads.strategy = some strategy ∧ strategy.polled = false ∧
    strategy.runner.inventory.isSome
  | .execute => ∃ strategy, threads.strategy = some strategy ∧ strategy.polled = true ∧
    strategy.runner.inventory.isSome
  | .pollOrderBook => threads.recorderPhase = .polling
  | .receiveEvent => threads.recorderPhase = .receiving

/-- What is on its way between the threads can be worked off. -/
structure Sound (threads : Threads ℚ) : Prop where
  orders : ∀ order ∈ threads.strategyOrders,
    0 < order.qty ∧ OrderHandler.PositivePrice order.price
  size : ∀ strategy, threads.strategy = some strategy → 0 < strategy.runner.strategy.size
  sends : ∀ sends, threads.privateSends = some sends → ∀ send ∈ sends,
    ∃ event, send.2 = some event ∧ event.Timely
  events : ∀ event ∈ threads.recorderEvents, event.Timely
  publications : ∀ orderBook, .forcePush orderBook ∈ threads.publications → orderBook.TwoSided
  orderBook : ∀ orderBook, threads.orderBookQueue = some orderBook → orderBook.TwoSided
  recorder : threads.recorder.Reachable

variable {threads next : Threads ℚ} {move : ThreadStep ℚ} {log : List (Activity ℚ)}

theorem sound_new (config : AppConfig ℚ) : (new config).Sound where
  orders := by simp [new]
  size := by simp [new]
  sends := by simp [new]
  events := by simp [new]
  publications := by simp [new]
  orderBook := by simp [new]
  recorder := ⟨[], [], rfl, by simp⟩

/-- A timely event or a book leads the recorder to another of its states. -/
theorem reachable_step {engine next : MarkoutEngine ℚ} (hreachable : engine.Reachable)
    {input : MarkoutInput ℚ} {markouts : List (CompletedMarkout ℚ)}
    (hstep : engine.step input = some (next, markouts))
    (htimely : ∀ execution, input = .updateTrades execution →
      execution.execTs.toNat + 10000 < 2 ^ 64) : next.Reachable := by
  obtain ⟨inputs, outputs, hrun, hfills⟩ := hreachable
  refine ⟨inputs ++ [input], outputs ++ [markouts], Machine.run_concat hrun hstep, ?_⟩
  intro execution hmem
  rcases List.mem_append.mp hmem with hmem | hmem
  · exact hfills execution hmem
  · exact htimely execution (List.mem_singleton.mp hmem).symm

/-- The orders of an execution are positive when its quotes are. -/
theorem QuotesPositive.orders (hpositive : threads.QuotesPositive) {strategy : StrategyThread ℚ}
    {inventory : ℚ} {orders : List (OrderBuilder ℚ)} (hstrategy : threads.strategy = some strategy)
    (hsize : 0 < strategy.runner.strategy.size)
    (hinventory : strategy.runner.inventory = some inventory)
    (horders : strategy.runner.strategy.execute threads.orderBook inventory = .ok orders) :
    ∀ order ∈ orders, 0 < order.qty ∧ OrderHandler.PositivePrice order.price := by
  obtain ⟨firstBid, firstAsk, hbid, hask, hvalidBid, hvalidAsk, hexecute⟩ | ⟨hnone, -⟩ :=
    strategy.runner.strategy.execute_rat threads.orderBook inventory
  · have hprice := hpositive strategy hstrategy inventory hinventory firstBid firstAsk
      ⟨hbid, hask, hvalidBid, hvalidAsk⟩
    obtain rfl := Except.ok.inj (hexecute.symm.trans horders)
    have hquote : ∀ side price, 0 < F64.fixedValue
        strategy.runner.strategy.instrumentInfo.decimalPlaces price →
        0 < (strategy.runner.strategy.quote side price).qty ∧
          OrderHandler.PositivePrice (strategy.runner.strategy.quote side price).price := by
      intro side price hvalue
      exact ⟨hsize, _, SimpleStrategy.parse_quote _ side price, hvalue⟩
    intro order hmem
    simp only [List.mem_cons, List.not_mem_nil, or_false] at hmem
    rcases hmem with rfl | rfl
    · exact hquote .buy _ (hprice _ (.inl rfl))
    · exact hquote .sell _ (hprice _ (.inr rfl))
  · obtain rfl := Except.ok.inj (hnone.symm.trans horders)
    simp

/-- A promised step keeps everything on its way workable. -/
theorem Sound.after (hsound : threads.Sound) (hpromised : threads.Promised move)
    (htransition : threads.Transition move next log) : next.Sound := by
  cases htransition with
  | publicResponse hidle hprocess =>
    obtain ⟨hparses, hkeeps⟩ := hpromised
    obtain ⟨webSocket, hnext, hsides⟩ :=
      threads.publicWs.processOrderbookResponse_sides hparses
    obtain ⟨rfl, rfl⟩ := Prod.mk.inj (Option.some.inj (hprocess.symm.trans hnext))
    refine { hsound with publications := ?_ }
    intro orderBook hmem
    obtain rfl : orderBook = _ := by simpa using hmem
    exact hsides.mpr hkeeps
  | publish hnext =>
    refine { hsound with publications := ?_ }
    intro orderBook hmem
    exact hsound.publications orderBook (hnext ▸ List.mem_cons_of_mem _ hmem)
  | push hnext =>
    refine { hsound with publications := ?_, orderBook := ?_ }
    · intro orderBook hmem
      exact hsound.publications orderBook (hnext ▸ List.mem_cons_of_mem _ hmem)
    · intro orderBook hsome
      obtain rfl := Option.some.inj hsome
      exact hsound.publications _ (hnext ▸ List.mem_cons_self ..)
  | privateResponse =>
    refine { hsound with sends := ?_ }
    intro sends hsends send hmem
    obtain rfl := Option.some.inj hsends
    exact hpromised send hmem
  | sendToOms hnext =>
    refine { hsound with sends := ?_ }
    intro sends hsends send hmem
    obtain rfl := Option.some.inj hsends
    exact hsound.sends _ hnext send (List.mem_cons_of_mem _ hmem)
  | sendToRecorder hnext =>
    refine { hsound with sends := ?_, events := ?_ }
    · intro sends hsends send hmem
      obtain rfl := Option.some.inj hsends
      exact hsound.sends _ hnext send (List.mem_cons_of_mem _ hmem)
    · intro event hmem
      rcases List.mem_append.mp hmem with hmem | hmem
      · exact hsound.events event hmem
      · obtain rfl := List.mem_singleton.mp hmem
        obtain ⟨other, hother, htimely⟩ := hsound.sends _ hnext _ (List.mem_cons_self ..)
        exact Option.some.inj hother ▸ htimely
  | privateReturn => exact { hsound with sends := by simp }
  | takeOrder _ hnext =>
    refine { hsound with orders := ?_ }
    intro order hmem
    exact hsound.orders order (hnext ▸ List.mem_cons_of_mem _ hmem)
  | constructStrategy _ hstrategy =>
    refine { hsound with size := ?_ }
    intro strategy hsome
    obtain rfl := Option.some.inj hsome
    simp only [simpleStrategy, bind_eq_ok] at hstrategy
    obtain ⟨instrumentInfo, -, hnew⟩ := hstrategy
    obtain ⟨rfl, hsize⟩ := SimpleStrategy.new_eq_ok hnew
    have hzero : (0.0 : ℚ) = 0 := by norm_num
    rwa [hzero] at hsize
  | @startStrategy before hstrategy =>
    refine { hsound with size := ?_ }
    intro strategy hsome
    obtain rfl := Option.some.inj hsome
    exact hsound.size before hstrategy
  | @pollInventory before _ hstrategy =>
    refine { hsound with size := ?_ }
    intro strategy hsome
    obtain rfl := Option.some.inj hsome
    exact hsound.size before hstrategy
  | @execute before _ _ hstrategy _ hinventory horders =>
    refine { hsound with size := ?_, orders := ?_ }
    · intro order hmem
      rcases List.mem_append.mp hmem with hmem | hmem
      · exact hsound.orders order hmem
      · have hsize := hsound.size before hstrategy
        exact hpromised.orders hstrategy hsize hinventory horders order hmem
    · intro strategy hsome
      obtain rfl := Option.some.inj hsome
      exact hsound.size before hstrategy
  | pollOrderBook _ _ hprocess =>
    have hstep : threads.recorder.step (.processOrderBook _) = some (_, _) := hprocess
    exact { hsound with
      orderBook := by simp
      recorder := reachable_step hsound.recorder hstep (by simp) }
  | @receiveEvent event _ _ hnext =>
    refine { hsound with events := ?_, recorder := ?_ }
    · intro event hmem
      exact hsound.events event (hnext ▸ List.mem_cons_of_mem _ hmem)
    · have htimely : event.Timely := hsound.events event (hnext ▸ List.mem_cons_self ..)
      cases event with
      | orderUpdate | submissionFailed => exact hsound.recorder
      | executionUpdate execution =>
        have hstep : threads.recorder.step (.updateTrades execution) =
            some (threads.recorder.updateTrades execution, []) := rfl
        apply reachable_step hsound.recorder hstep
        intro other hother
        rw [← MarkoutInput.updateTrades.inj hother]
        exact htimely execution rfl
  | _ => exact { hsound with }

/-! ## Progress -/

/-- The gateway builds the request of a call that was decided for a positive order. -/
theorem exists_dispatch_forward (oms : OrderManagementSystem ℚ) {order : OrderBuilder ℚ}
    (hqty : 0 < order.qty) (hprice : OrderHandler.PositivePrice order.price) :
    ∃ next effects requests, oms.step (.forward RiskManager.evaluateOrder order) =
      some (next, effects) ∧ effects.mapM OrderHandler.dispatch = .ok requests := by
  obtain ⟨price, hparsed, hpositive⟩ := hprice
  obtain ⟨outcome, houtcome⟩ := Option.isSome_iff_exists.mp
    (RiskManager.evaluateOrder_isSome (by rw [hparsed]; rfl) oms.orders oms.metrics.inventory
      oms.metrics.averageEntryPrice)
  have haccepted : outcome.Accepted :=
    (RiskManager.accepted_iff hqty hparsed oms.orders oms.metrics.inventory
      oms.metrics.averageEntryPrice).mpr (fun _ ↦ hpositive) outcome houtcome
  simp only [OrderManagementSystem.step, OrderManagementSystem.forwardOrders, houtcome,
    Option.bind_some]
  cases outcome with
  | newOrder other =>
    obtain hnone | ⟨hsame, -⟩ | ⟨_, _, -, -, -, hamend⟩ := RiskManager.evaluateOrder_cases houtcome
    · cases hnone
    · obtain rfl := Outcome.newOrder.inj hsame
      obtain ⟨body, hbody⟩ := haccepted oms.idGenerator
      obtain ⟨stored, hbuild⟩ : ∃ stored, other.build oms.idGenerator = some stored := by
        rw [OrderBuilder.build, hparsed]
        exact ⟨_, rfl⟩
      refine ⟨oms.store stored, [.submitOrder other oms.idGenerator],
        [some (.submit oms.idGenerator body)], ?_, ?_⟩
      · simp only [OrderManagementSystem.insertNewOrder, hbuild, Option.map_some]
      · simp only [List.mapM_cons, List.mapM_nil, OrderHandler.dispatch, hbody, Except.map]
        rfl
    · cases hamend
  | amendOrder amended =>
    obtain ⟨body, hbody⟩ := haccepted
    refine ⟨_, _, [some (.amend amended.orderLinkId body)], rfl, ?_⟩
    simp only [List.mapM_cons, List.mapM_nil, OrderHandler.dispatch, hbody, Except.map]
    rfl
  | doNothing => exact ⟨_, _, [], rfl, rfl⟩

/-- Calls for an event carry nothing that is checked. -/
theorem exists_dispatch_event (oms : OrderManagementSystem ℚ) (event : OrderEvent ℚ) :
    ∃ next effects requests, oms.step (.event event) = some (next, effects) ∧
      effects.mapM OrderHandler.dispatch = .ok requests := by
  obtain ⟨next, effects, hstep⟩ : ∃ next effects, oms.step (.event event) = some (next, effects) :=
    ⟨_, _, rfl⟩
  refine ⟨next, effects, ?_⟩
  cases OrderManagementSystem.transition_of_step hstep with
  | update | failure | discard => exact ⟨[], hstep, rfl⟩
  | execution =>
    unfold OrderManagementSystem.settlement at hstep ⊢
    split_ifs at hstep ⊢
    · exact ⟨[some .repay, none], hstep, rfl⟩
    · exact ⟨[none], hstep, rfl⟩

/-- A turn whose calls the gateway accepts. -/
theorem turn_isSome {oms after : OrderManagementSystem ℚ} {input : OmsInput ℚ}
    {effects : List (Effect ℚ)} {requests : List (Option (Request ℚ))}
    (hturn : oms.step input = some (after, effects))
    (hrequests : effects.mapM OrderHandler.dispatch = .ok requests) :
    (threads.turn oms input).isSome := by
  simp only [turn, hturn, Option.bind_some, hrequests]
  rfl

/-- While the promises are kept, a thread that stands before a step can take it. -/
theorem Sound.step (hsound : threads.Sound) (hsize : 0 < threads.config.orderSize)
    (hpromised : threads.Promised move) (hready : threads.Ready move) :
    (threads.step move).isSome := by
  cases move with
  | publicResponse response =>
    obtain ⟨hparses, -⟩ := hpromised
    obtain ⟨webSocket, hnext, -⟩ := threads.publicWs.processOrderbookResponse_sides hparses
    have hidle : threads.publications = [] := hready
    simp only [Threads.step, hidle, hnext]
    rfl
  | publicSend =>
    cases hnext : threads.publications with
    | nil => exact absurd hnext hready
    | cons publication rest => simp [Threads.step, hnext]
  | privateResponse response | privateReturn =>
    have hidle : threads.privateSends = some [] := hready
    simp [Threads.step, hidle]
  | privateSend =>
    obtain ⟨⟨receiver, event⟩, rest, hnext⟩ := hready
    obtain ⟨event, rfl, -⟩ := hsound.sends _ hnext _ (List.mem_cons_self ..)
    simp [Threads.step, hnext]
  | constructOms walletBalance recentTrade nowMicros =>
    have hnone : threads.oms = none := hready
    obtain ⟨⟨coins, hlists, hnodup, hlast⟩, hfits⟩ := hpromised
    obtain ⟨average, haverage⟩ : ∃ average : ℚ,
        if (coins.lookup threads.config.coin).getD 0.0 == 0.0 then average = 0.0
        else Trades.Shows recentTrade average := by
      have hzero : (0.0 : ℚ) = 0 := by norm_num
      rw [hzero]
      split_ifs with hflat
      · exact ⟨0, rfl⟩
      · rw [beq_iff_eq] at hflat
        exact hlast.resolve_left hflat
    have hconfig : omsConfig threads.config walletBalance recentTrade nowMicros = .ok
        { coin := threads.config.coin, inventory := (coins.lookup threads.config.coin).getD 0.0
          avgEntryPrice := average, initialOrderLinkId := UInt64.ofNat nowMicros } :=
      StartsFrom.omsConfig_eq ⟨⟨coins, hlists, hnodup, rfl⟩, haverage, hfits, rfl, rfl⟩
    simp only [Threads.step, hnone, hconfig]
    rfl
  | takeOrder =>
    obtain ⟨homs, hnext⟩ := hready
    obtain ⟨oms, homs⟩ := Option.isSome_iff_exists.mp homs
    cases horders : threads.strategyOrders with
    | nil => exact absurd horders hnext
    | cons order rest =>
      obtain ⟨hqty, hprice⟩ := hsound.orders order (horders ▸ List.mem_cons_self ..)
      obtain ⟨_, _, _, hturn, hrequests⟩ := exists_dispatch_forward oms hqty hprice
      simp only [Threads.step, homs, horders, Option.bind_some]
      exact turn_isSome hturn hrequests
  | takeEvent =>
    obtain ⟨homs, hnext⟩ := hready
    obtain ⟨oms, homs⟩ := Option.isSome_iff_exists.mp homs
    cases hevents : threads.orderEvents with
    | nil => exact absurd hevents hnext
    | cons event rest =>
      obtain ⟨_, _, _, hturn, hrequests⟩ := exists_dispatch_event oms event
      simp only [Threads.step, homs, hevents, Option.bind_some]
      exact turn_isSome hturn hrequests
  | answer index result =>
    have hlt : index < threads.requests.length := hready
    obtain ⟨outcome, houtcome⟩ : ∃ outcome, OrderHandler.sendRequest result = .ok outcome := by
      unfold OrderHandler.sendRequest
      split
      · exact ⟨_, rfl⟩
      · exact ⟨_, rfl⟩
      · exact ⟨_, rfl⟩
      · exact ⟨_, rfl⟩
      · exact OrderHandler.exists_classifyResponse_iff.mpr (hpromised _ _ rfl)
    simp only [Threads.step, List.getElem?_eq_getElem hlt, Option.bind_some, Threads.complete,
      Request.complete, houtcome]
    rfl
  | constructStrategy instrumentsInfo =>
    have hnone : threads.strategy = none := hready
    obtain ⟨instrumentInfo, hinfo⟩ := hpromised
    have hzero : (0.0 : ℚ) = 0 := by norm_num
    have hnew : simpleStrategy threads.config instrumentsInfo =
        .ok { size := threads.config.orderSize, instrumentInfo } := by
      simp only [simpleStrategy, hinfo, bind_eq_ok, SimpleStrategy.new, assertThat_eq_ok]
      refine ⟨instrumentInfo, rfl, (), ⟨rfl, ?_⟩, rfl⟩
      rw [hzero]
      exact hsize
    simp only [Threads.step, hnone, hnew]
    rfl
  | startStrategy =>
    obtain ⟨strategy, hstrategy, hinventory⟩ := hready
    simp [Threads.step, hstrategy, hinventory]
  | pollInventory =>
    obtain ⟨strategy, hstrategy, hpolled, hinventory⟩ := hready
    simp [Threads.step, hstrategy, hpolled, hinventory]
  | execute =>
    obtain ⟨strategy, hstrategy, hpolled, hinventory⟩ := hready
    obtain ⟨inventory, hinventory⟩ := Option.isSome_iff_exists.mp hinventory
    have hexecute : ∃ orders,
        strategy.runner.strategy.execute threads.orderBook inventory = .ok orders := by
      obtain ⟨_, _, -, -, -, -, hquotes⟩ | ⟨hnone, -⟩ :=
        strategy.runner.strategy.execute_rat threads.orderBook inventory
      · exact ⟨_, hquotes⟩
      · exact ⟨_, hnone⟩
    obtain ⟨orders, horders⟩ := hexecute
    simp only [Threads.step, hstrategy, hpolled, hinventory, Option.bind_some, if_true,
      Threads.execute, horders]
    rfl
  | pollOrderBook =>
    have hphase : threads.recorderPhase = .polling := hready
    rw [Threads.step, if_pos hphase, Threads.pollOrderBook]
    cases hqueue : threads.orderBookQueue with
    | none => rfl
    | some orderBook =>
      rw [Option.isSome_map]
      exact MarkoutEngine.processed_iff.mpr (hsound.orderBook orderBook hqueue) _ hsound.recorder
  | receiveEvent =>
    have hphase : threads.recorderPhase = .receiving := hready
    rw [Threads.step, if_pos hphase]
    rfl

theorem ready_of_step (hstep : threads.step move = some (next, log)) : threads.Ready move := by
  cases transition_of_step hstep with
  | takeOrder homs hnext | takeEvent homs hnext => simp [Ready, homs, hnext]
  | answer hrequest => exact (List.getElem?_eq_some_iff.mp hrequest).1
  | publish hnext | push hnext => simp [Ready, hnext]
  | sendToOms hnext | sendToRecorder hnext => exact ⟨_, _, hnext⟩
  | startStrategy hstrategy hinventory => exact ⟨_, hstrategy, hinventory⟩
  | pollInventory hstrategy hpolled hinventory | execute hstrategy hpolled hinventory =>
    exact ⟨_, hstrategy, hpolled, by rw [hinventory]; rfl⟩
  | publicResponse hidle | privateResponse hidle | privateReturn hidle => exact hidle
  | constructOms hnone | constructStrategy hnone => exact hnone
  | pollEmpty hphase | pollOrderBook hphase | receiveEvent hphase | timeout hphase
  | disconnect hphase => exact hphase

variable {config : AppConfig ℚ} {steps : List (ThreadStep ℚ)}

/-- Promised steps lead from a sound state to a sound one. -/
theorem Sound.of_run {final : Threads ℚ} {condition : Threads ℚ → ThreadStep ℚ →
    List (ThreadStep ℚ) → Prop} (hsound : threads.Sound)
    (hpromised : ∀ current move rest, condition current move rest → current.Promised move)
    (hrun : run threads steps = some (final, log))
    (halong : Machine.Along Threads.step condition threads steps) : final.Sound := by
  obtain ⟨⟨last, outputs⟩, hsteps, heq⟩ := Option.map_eq_some_iff.mp hrun
  obtain ⟨rfl, -⟩ := Prod.mk.inj heq
  rw [← List.append_nil steps] at halong
  apply Machine.run_invariant_along (motive := fun current _ ↦ current.Sound) _ hsound halong hsteps
  intro current move rest next output hcurrent hmove hstep
  exact hcurrent.after (hpromised current move rest hmove) (transition_of_step hstep)

theorem sound_of_run (hrun : run (new config) steps = some (threads, log))
    (hpromised : Machine.Along Threads.step (fun current move _ ↦ current.Promised move)
      (new config) steps) : threads.Sound :=
  (sound_new config).of_run (fun _ _ _ hmove ↦ hmove) hrun hpromised

/-- In every state that an interleaving reaches while the promises are kept, a promised step is
taken exactly if its thread stands before it: no thread panics. -/
theorem no_thread_panics (hsize : 0 < config.orderSize)
    (hrun : run (new config) steps = some (threads, log))
    (hpromised : Machine.Along Threads.step (fun current move _ ↦ current.Promised move)
      (new config) steps) (hmove : threads.Promised move) :
    (threads.step move).isSome ↔ threads.Ready move := by
  constructor
  · intro hstep
    obtain ⟨⟨next, output⟩, hstep⟩ := Option.isSome_iff_exists.mp hstep
    exact ready_of_step hstep
  · intro hready
    rw [← config_of_run hrun] at hsize
    exact (sound_of_run hrun hpromised).step hsize hmove hready

/-- The sample run up to the point where one submission is on its way, the failure of the other one
has been taken, and a fill is queued for both of its receivers. -/
def sampleWork : List (ThreadStep ℚ) := sampleSteps.take 15

theorem quotesPositive_sampleWork {middle : Threads ℚ} {first rest : List (ThreadStep ℚ)}
    {front : List (List (Activity ℚ))} (hsplit : sampleWork = first ++ .execute :: rest)
    (hrun : Machine.run step (new sampleConfig) first = some (middle, front)) :
    middle.QuotesPositive := by
  have hbefore : .execute ∉ sampleSteps.take 6 := by simp [sampleSteps]
  have hafter : .execute ∉ sampleWork.drop 7 := by simp [sampleWork, sampleSteps]
  have hpoint : sampleSteps.take 6 ++ .execute :: sampleWork.drop 7 = first ++ .execute :: rest :=
    hsplit
  obtain ⟨rfl, -, -⟩ := (List.append_cons_inj_of_notMem hbefore hafter).mp hpoint
  have hpositive : (Machine.run step (new sampleConfig) (sampleSteps.take 6)).any fun result ↦
      decide result.1.QuotesPositive := by
    decide +kernel
  rw [hrun] at hpositive
  exact of_decide_eq_true hpositive

/-- The promises are kept along the sample run. -/
theorem along_sampleWork : Machine.Along Threads.step
    (fun current move _ ↦ current.Promised move) (new sampleConfig) sampleWork := by
  apply Machine.along_of_reached
  intro first move rest middle front hsplit hrun
  have hmem : move ∈ sampleWork := by simp [hsplit]
  have hplay : run (new sampleConfig) first = some (middle, front.flatten) := by
    rw [run, Machine.play, hrun]
    rfl
  have hconfig := config_of_run hplay
  cases move with
  | execute => exact quotesPositive_sampleWork hsplit hrun
  | publicResponse response =>
    obtain rfl : response = PublicWebSocket.sampleSnapshot := by
      simpa [sampleWork, sampleSteps] using hmem
    have hsnapshot : PublicWebSocket.sampleSnapshot.isSnapshot = true := by decide +kernel
    refine ⟨PublicWebSocket.valid_sampleSnapshot.parses, ?_⟩
    rw [PublicWebSocket.KeepsSides, if_pos hsnapshot]
    simp [PublicWebSocket.sampleSnapshot]
  | privateResponse response =>
    obtain rfl : response = .execution [sampleFill] := by
      simpa [sampleWork, sampleSteps] using hmem
    have hpromised : (PrivateResponse.execution [sampleFill]).Promised := by decide +kernel
    exact hpromised
  | constructOms walletBalance recentTrade nowMicros =>
    obtain ⟨rfl, rfl, rfl⟩ : walletBalance = sampleBalance ∧ recentTrade = .null ∧
        nowMicros = 90 := by
      simpa [sampleWork, sampleSteps] using hmem
    have hbalance : Wallet.Lists sampleBalance [("ADA", (0 : ℚ))] :=
      ⟨by decide +kernel, _, _, rfl, rfl, eq_ok_of_toOption (by decide +kernel)⟩
    exact ⟨⟨_, hbalance, by simp, .inl (by rw [hconfig]; rfl)⟩, by norm_num⟩
  | answer index result =>
    obtain ⟨-, rfl⟩ : index = 1 ∧ result = .transportError := by
      simpa [sampleWork, sampleSteps] using hmem
    intro url content hresult
    cases hresult
  | constructStrategy instrumentsInfo =>
    obtain rfl : instrumentsInfo = SimpleStrategy.sampleInstrumentInfo "0.01" := by
      simpa [sampleWork, sampleSteps] using hmem
    have hinfo : (processInstrumentInfoResponse "ADAUSDT"
        (SimpleStrategy.sampleInstrumentInfo "0.01") :
          Except Panic (InstrumentInfo ℚ)).toOption.isSome := by
      decide +kernel
    obtain ⟨info, hinfo⟩ := Option.isSome_iff_exists.mp hinfo
    rw [Promised, hconfig]
    exact ⟨info, eq_ok_of_toOption hinfo⟩
  | _ => trivial

/-- After the sample run a request is under way and an event is queued, and it can be taken. -/
theorem no_thread_panics_sample : ∃ threads log,
    run (new sampleConfig) sampleWork = some (threads, log) ∧ threads.requests.length = 1 ∧
    threads.orderEvents.length = 1 ∧ (threads.step .takeEvent).isSome := by
  have hsample : (run (new sampleConfig) sampleWork).any fun result ↦
      result.1.oms.isSome && decide (result.1.requests.length = 1) &&
        decide (result.1.orderEvents.length = 1) := by
    decide +kernel
  obtain ⟨⟨threads, log⟩, hrun, hfacts⟩ := (Option.any_eq_true ..).mp hsample
  simp only [Bool.and_eq_true, decide_eq_true_eq] at hfacts
  obtain ⟨⟨homs, hrequests⟩, hevents⟩ := hfacts
  have hready : threads.Ready .takeEvent := ⟨homs, List.ne_nil_of_length_pos (by omega)⟩
  have hstep : (threads.step .takeEvent).isSome ↔ threads.Ready .takeEvent :=
    no_thread_panics (by norm_num [sampleConfig]) hrun along_sampleWork trivial
  exact ⟨threads, log, hrun, hrequests, hevents, hstep.mpr hready⟩

end Threads

end MarketMaker
