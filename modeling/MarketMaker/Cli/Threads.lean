import MarketMaker.Configuration.AppConfig
import MarketMaker.Exchange.Gateway
import MarketMaker.Exchange.PrivateWs
import MarketMaker.Exchange.PublicWs
import MarketMaker.Exchange.Wallet
import MarketMaker.Foundation.Channel
import MarketMaker.Recorder.Markout
import MarketMaker.Strategy.Inventory
import MarketMaker.Strategy.Simple

/-!
# The threads of the bot

`run` starts five threads and connects them: unbounded queues carry the orders of the strategy to
the order management system, the events of the private stream and of the gateway to the order
management system, and the events of the private stream to the recorder; queues of one slot carry
the inventory to the strategy and the order books to the recorder; a triple buffer shows the
strategy the book published last.  The gateway adds a task for each request whose answer is awaited.

`Threads.step` is one atomic step of one thread.  A message of a stream is received in one step and
what it sends is sent in steps of their own, and an iteration of the strategy takes the inventory in
one step and reads the book in another, so that every order of these accesses is a run.  What comes
from outside, the messages and the answers, is arbitrary.  A step is `none` when its thread cannot
take it or when it panics; the release profile aborts the process on a panic.
-/

namespace MarketMaker

variable {F : Type}

/-- The loop of the strategy thread; `polled` says that the inventory of this iteration was taken
and the book was not read yet. -/
structure StrategyThread (F : Type) where
  runner : StrategyRunner (SimpleStrategy F) F
  polled : Bool

/-- Where the loop of the recorder stands: before its access to the book queue, before its access to
the event queue, or behind its return. -/
inductive RecorderPhase
  | polling
  | receiving
  | returned
  deriving DecidableEq

/-- The threads and the channels between them.  `publications` and `privateSends` are the sends of
the current message that are still to be made; the private stream is `none` once its client has
returned.  The order management system and the strategy are `none` before their construction. -/
structure Threads (F : Type) where
  config : AppConfig F
  publicWs : PublicWebSocket F
  publications : List (Publication F)
  privateSends : Option (List (PrivateSend F))
  orderBook : OrderBook F
  orderBookQueue : Option (OrderBook F)
  strategyOrders : List (OrderBuilder F)
  orderEvents : List (OrderEvent F)
  recorderEvents : List (OrderEvent F)
  inventoryQueue : InventoryQueue F
  strategy : Option (StrategyThread F)
  oms : Option (OrderManagementSystem F)
  requests : List (Request F)
  recorder : MarkoutEngine F
  recorderPhase : RecorderPhase

/-- The atomic steps, with what comes from outside. -/
inductive ThreadStep (F : Type)
  | publicResponse (response : BasePublicResponse)
  | publicSend
  | privateResponse (response : PrivateResponse)
  | privateSend
  | privateReturn
  | constructOms (walletBalance recentTrade : Value) (nowMicros : ℕ)
  | takeOrder
  | takeEvent
  | answer (index : ℕ) (result : HttpResult)
  | constructStrategy (instrumentsInfo : Value)
  | startStrategy
  | pollInventory
  | execute
  | pollOrderBook
  | receiveEvent

/-- What a step does, as the log has it. -/
inductive Activity (F : Type)
  | received (response : BasePublicResponse)
  | published (orderBook : OrderBook F)
  | pushed (orderBook : OrderBook F)
  | toOms (event : OrderEvent F)
  | toRecorder (event : OrderEvent F)
  | constructed (omsConfig : OmsConfig F)
  | turn (input : OmsInput F) (effects : List (Effect F)) (requests : List (Request F))
  | answered (request : Request F) (outcome : RequestOutcome) (events : List (OrderEvent F))
  | polled (inventory : F)
  | executed (strategy : SimpleStrategy F) (orderBook : OrderBook F) (inventory : F)
      (orders : List (OrderBuilder F))
  | processed (orderBook : OrderBook F) (markouts : List (CompletedMarkout F))
  | handled (event : OrderEvent F)

namespace Threads

def new (config : AppConfig F) : Threads F :=
  { config
    publicWs := PublicWebSocket.new
    publications := []
    privateSends := some []
    orderBook := OrderBook.default
    orderBookQueue := none
    strategyOrders := []
    orderEvents := []
    recorderEvents := []
    inventoryQueue := none
    strategy := none
    oms := none
    requests := []
    recorder := MarkoutEngine.new
    recorderPhase := .polling }

/-- A publication: the triple buffer has one reader, the strategy, and the queue one, the
recorder. -/
def publish (threads : Threads F) (rest : List (Publication F)) :
    Publication F → Threads F × List (Activity F)
  | .publish orderBook =>
    ({ threads with publications := rest, orderBook }, [.published orderBook])
  | .forcePush orderBook =>
    ({ threads with publications := rest, orderBookQueue := some orderBook }, [.pushed orderBook])

def deliver (threads : Threads F) (rest : List (PrivateSend F)) (event : OrderEvent F) :
    Receiver → Threads F × List (Activity F)
  | .oms => ({ threads with
      privateSends := some rest, orderEvents := threads.orderEvents ++ [event] }, [.toOms event])
  | .recorder => ({ threads with
      privateSends := some rest, recorderEvents := threads.recorderEvents ++ [event] },
      [.toRecorder event])

/-- The receive of the recorder with its timeout; it returns once the queue is empty and can receive
nothing any more. -/
def receiveEvent (threads : Threads F) : Threads F × List (Activity F) :=
  match threads.recorderEvents with
  | event :: rest =>
    ({ threads with
        recorderEvents := rest
        recorder := threads.recorder.register event
        recorderPhase := .polling }, [.handled event])
  | [] => ({ threads with
      recorderPhase := if threads.privateSends.isNone then .returned else .polling }, [])

section Construction

variable [F64 F] [F64Format F] [LT F] [DecidableLT F] [BEq F] [OfScientific F]

/-- The last price stands in for the entry price of a position. -/
def avgEntryPrice (config : AppConfig F) (inventory : F) (recentTrade : Value) : Except Panic F :=
  let trades : Trades F := { symbol := config.symbol, lastPrice := 0.0 }
  if inventory == 0.0 then .ok 0.0
  else (trades.processResponse recentTrade).map Trades.lastPrice

/-- Microseconds of the clock as the first link id. -/
def nextOrderLinkId (nowMicros : ℕ) : Except Panic UInt64 :=
  unwrap (if nowMicros < 2 ^ 64 then some (UInt64.ofNat nowMicros) else none)

def omsConfig (config : AppConfig F) (walletBalance recentTrade : Value) (nowMicros : ℕ) :
    Except Panic (OmsConfig F) := do
  let wallet : Wallet F ← Wallet.empty.processResponse walletBalance
  let inventory := (wallet.coins.lookup config.coin).getD 0.0
  let avgEntryPrice ← avgEntryPrice config inventory recentTrade
  let initialOrderLinkId ← nextOrderLinkId nowMicros
  return { coin := config.coin, inventory, avgEntryPrice, initialOrderLinkId }

def simpleStrategy (config : AppConfig F) (instrumentsInfo : Value) :
    Except Panic (SimpleStrategy F) := do
  let instrumentInfo ← processInstrumentInfoResponse config.symbol instrumentsInfo
  SimpleStrategy.new config.orderSize instrumentInfo

end Construction

variable [F64 F] [F64Format F] [Add F] [Sub F] [Mul F] [Div F] [Neg F] [LT F] [DecidableLT F]
  [LE F] [DecidableLE F] [BEq F] [DecidableEq F] [OfScientific F]

/-- A turn of the order management system on an input it took.  The gateway checks the bodies during
the turn and leaves the requests to their tasks. -/
def turn (threads : Threads F) (oms : OrderManagementSystem F) (input : OmsInput F) :
    Option (Threads F × List (Activity F)) :=
  (oms.step input).bind fun (next, effects) ↦
    (effects.mapM OrderHandler.dispatch).toOption.map fun requests ↦
      ({ threads with
          oms := some next
          inventoryQueue := threads.inventoryQueue.receive effects
          requests := threads.requests ++ requests.reduceOption },
        [.turn input effects requests.reduceOption])

/-- The task of a request ends with its answer. -/
def complete (threads : Threads F) (index : ℕ) (request : Request F) (result : HttpResult) :
    Option (Threads F × List (Activity F)) :=
  (request.complete result).toOption.map fun (outcome, events) ↦
    ({ threads with
        requests := threads.requests.eraseIdx index
        orderEvents := threads.orderEvents ++ events },
      [.answered request outcome events])

def startStrategy (threads : Threads F) (strategy : StrategyThread F) :
    Threads F × List (Activity F) :=
  let (runner, inventoryQueue) := strategy.runner.start threads.inventoryQueue
  ({ threads with inventoryQueue, strategy := some { strategy with runner } }, [])

/-- The first half of an iteration: the inventory is taken from the queue or kept. -/
def pollInventory (threads : Threads F) (strategy : StrategyThread F) (inventory : F) :
    Threads F × List (Activity F) :=
  let (popped, inventoryQueue) := threads.inventoryQueue.pop
  let inventory := popped.getD inventory
  ({ threads with
      inventoryQueue
      strategy := some
        { runner := { strategy.runner with inventory := some inventory }, polled := true } },
    [.polled inventory])

/-- The second half of an iteration: the book is read and the orders are sent. -/
def execute (threads : Threads F) (strategy : StrategyThread F) (inventory : F) :
    Option (Threads F × List (Activity F)) :=
  (strategy.runner.strategy.execute threads.orderBook inventory).toOption.map fun orders ↦
    ({ threads with
        strategyOrders := threads.strategyOrders ++ orders
        strategy := some { strategy with polled := false } },
      [.executed strategy.runner.strategy threads.orderBook inventory orders])

def pollOrderBook (threads : Threads F) : Option (Threads F × List (Activity F)) :=
  match threads.orderBookQueue with
  | none => some ({ threads with recorderPhase := .receiving }, [])
  | some orderBook => (threads.recorder.processOrderBook orderBook).map fun (recorder, markouts) ↦
      ({ threads with orderBookQueue := none, recorder, recorderPhase := .receiving },
        [.processed orderBook markouts])

def step (threads : Threads F) : ThreadStep F → Option (Threads F × List (Activity F))
  | .publicResponse response => match threads.publications with
    | [] => (threads.publicWs.processOrderbookResponse response).map fun (publicWs, publications) ↦
        ({ threads with publicWs, publications }, [.received response])
    | _ :: _ => none
  | .publicSend => match threads.publications with
    | [] => none
    | publication :: rest => some (threads.publish rest publication)
  | .privateResponse response => match threads.privateSends with
    | some [] => some ({ threads with privateSends := some (PrivateWebSocket.sends response) }, [])
    | _ => none
  | .privateSend => match threads.privateSends with
    | some ((receiver, some event) :: rest) => some (threads.deliver rest event receiver)
    | _ => none
  | .privateReturn => match threads.privateSends with
    | some [] => some ({ threads with privateSends := none }, [])
    | _ => none
  | .constructOms walletBalance recentTrade nowMicros => match threads.oms with
    | some _ => none
    | none => (omsConfig threads.config walletBalance recentTrade nowMicros).toOption.map
        fun omsConfig ↦
          let (oms, effects) := OrderManagementSystem.new omsConfig
          ({ threads with
              oms := some oms, inventoryQueue := threads.inventoryQueue.receive effects },
            [.constructed omsConfig])
  | .takeOrder => threads.oms.bind fun oms ↦ match threads.strategyOrders with
    | [] => none
    | order :: rest => { threads with strategyOrders := rest }.turn oms
        (.forward RiskManager.evaluateOrder order)
  | .takeEvent => threads.oms.bind fun oms ↦ match threads.orderEvents with
    | [] => none
    | event :: rest => { threads with orderEvents := rest }.turn oms (.event event)
  | .answer index result => (threads.requests[index]?).bind fun request ↦
      threads.complete index request result
  | .constructStrategy instrumentsInfo => match threads.strategy with
    | some _ => none
    | none => (simpleStrategy threads.config instrumentsInfo).toOption.map fun strategy ↦
        ({ threads with
            strategy := some { runner := StrategyRunner.new strategy, polled := false } }, [])
  | .startStrategy => threads.strategy.bind fun strategy ↦ match strategy.runner.inventory with
    | some _ => none
    | none => some (threads.startStrategy strategy)
  | .pollInventory => threads.strategy.bind fun strategy ↦
      if strategy.polled then none
      else strategy.runner.inventory.map fun inventory ↦ threads.pollInventory strategy inventory
  | .execute => threads.strategy.bind fun strategy ↦
      if strategy.polled then strategy.runner.inventory.bind fun inventory ↦
        threads.execute strategy inventory
      else none
  | .pollOrderBook => if threads.recorderPhase = .polling then threads.pollOrderBook else none
  | .receiveEvent =>
      if threads.recorderPhase = .receiving then some threads.receiveEvent else none

/-- The steps of all threads in any order. -/
abbrev run (threads : Threads F) (steps : List (ThreadStep F)) :
    Option (Threads F × List (Activity F)) :=
  Machine.play step threads steps

/-! ## What a step can do -/

inductive Transition (threads : Threads F) :
    ThreadStep F → Threads F → List (Activity F) → Prop
  | publicResponse {response publicWs publications} (hidle : threads.publications = [])
      (hprocess : threads.publicWs.processOrderbookResponse response =
        some (publicWs, publications)) :
      Transition threads (.publicResponse response) { threads with publicWs, publications }
        [.received response]
  | publish {orderBook rest} (hnext : threads.publications = .publish orderBook :: rest) :
      Transition threads .publicSend { threads with publications := rest, orderBook }
        [.published orderBook]
  | push {orderBook rest} (hnext : threads.publications = .forcePush orderBook :: rest) :
      Transition threads .publicSend
        { threads with publications := rest, orderBookQueue := some orderBook } [.pushed orderBook]
  | privateResponse {response} (hidle : threads.privateSends = some []) :
      Transition threads (.privateResponse response)
        { threads with privateSends := some (PrivateWebSocket.sends response) } []
  | sendToOms {event rest} (hnext : threads.privateSends = some ((.oms, some event) :: rest)) :
      Transition threads .privateSend
        { threads with
          privateSends := some rest, orderEvents := threads.orderEvents ++ [event] }
        [.toOms event]
  | sendToRecorder {event rest}
      (hnext : threads.privateSends = some ((.recorder, some event) :: rest)) :
      Transition threads .privateSend
        { threads with
          privateSends := some rest, recorderEvents := threads.recorderEvents ++ [event] }
        [.toRecorder event]
  | privateReturn (hidle : threads.privateSends = some []) :
      Transition threads .privateReturn { threads with privateSends := none } []
  | constructOms {walletBalance recentTrade nowMicros config} (hnone : threads.oms = none)
      (hconfig : omsConfig threads.config walletBalance recentTrade nowMicros = .ok config) :
      Transition threads (.constructOms walletBalance recentTrade nowMicros)
        { threads with
          oms := some (OrderManagementSystem.new config).1
          inventoryQueue := some config.inventory }
        [.constructed config]
  | takeOrder {oms order rest next effects requests} (homs : threads.oms = some oms)
      (hnext : threads.strategyOrders = order :: rest)
      (hturn : oms.step (.forward RiskManager.evaluateOrder order) = some (next, effects))
      (hrequests : effects.mapM OrderHandler.dispatch = .ok requests) :
      Transition threads .takeOrder
        { threads with
          strategyOrders := rest
          oms := some next
          inventoryQueue := threads.inventoryQueue.receive effects
          requests := threads.requests ++ requests.reduceOption }
        [.turn (.forward RiskManager.evaluateOrder order) effects requests.reduceOption]
  | takeEvent {oms event rest next effects requests} (homs : threads.oms = some oms)
      (hnext : threads.orderEvents = event :: rest)
      (hturn : oms.step (.event event) = some (next, effects))
      (hrequests : effects.mapM OrderHandler.dispatch = .ok requests) :
      Transition threads .takeEvent
        { threads with
          orderEvents := rest
          oms := some next
          inventoryQueue := threads.inventoryQueue.receive effects
          requests := threads.requests ++ requests.reduceOption }
        [.turn (.event event) effects requests.reduceOption]
  | answer {index request result outcome events}
      (hrequest : threads.requests[index]? = some request)
      (hanswer : request.complete result = .ok (outcome, events)) :
      Transition threads (.answer index result)
        { threads with
          requests := threads.requests.eraseIdx index
          orderEvents := threads.orderEvents ++ events }
        [.answered request outcome events]
  | constructStrategy {instrumentsInfo strategy} (hnone : threads.strategy = none)
      (hstrategy : simpleStrategy threads.config instrumentsInfo = .ok strategy) :
      Transition threads (.constructStrategy instrumentsInfo)
        { threads with
          strategy := some { runner := StrategyRunner.new strategy, polled := false } } []
  | startStrategy {strategy} (hstrategy : threads.strategy = some strategy)
      (hinventory : strategy.runner.inventory = none) :
      Transition threads .startStrategy
        { threads with
          inventoryQueue := none
          strategy := some
            { strategy with
              runner :=
                { strategy.runner with inventory := some (threads.inventoryQueue.getD 0.0) } } } []
  | pollInventory {strategy inventory} (hstrategy : threads.strategy = some strategy)
      (hpolled : strategy.polled = false)
      (hinventory : strategy.runner.inventory = some inventory) :
      Transition threads .pollInventory
        { threads with
          inventoryQueue := none
          strategy := some
            { runner :=
                { strategy.runner with inventory := some (threads.inventoryQueue.getD inventory) }
              polled := true } }
        [.polled (threads.inventoryQueue.getD inventory)]
  | execute {strategy inventory orders} (hstrategy : threads.strategy = some strategy)
      (hpolled : strategy.polled = true) (hinventory : strategy.runner.inventory = some inventory)
      (horders : strategy.runner.strategy.execute threads.orderBook inventory = .ok orders) :
      Transition threads .execute
        { threads with
          strategyOrders := threads.strategyOrders ++ orders
          strategy := some { strategy with polled := false } }
        [.executed strategy.runner.strategy threads.orderBook inventory orders]
  | pollEmpty (hphase : threads.recorderPhase = .polling) (hempty : threads.orderBookQueue = none) :
      Transition threads .pollOrderBook { threads with recorderPhase := .receiving } []
  | pollOrderBook {orderBook recorder markouts} (hphase : threads.recorderPhase = .polling)
      (hfull : threads.orderBookQueue = some orderBook)
      (hprocess : threads.recorder.processOrderBook orderBook = some (recorder, markouts)) :
      Transition threads .pollOrderBook
        { threads with orderBookQueue := none, recorder, recorderPhase := .receiving }
        [.processed orderBook markouts]
  | receiveEvent {event rest} (hphase : threads.recorderPhase = .receiving)
      (hnext : threads.recorderEvents = event :: rest) :
      Transition threads .receiveEvent
        { threads with
          recorderEvents := rest
          recorder := threads.recorder.register event
          recorderPhase := .polling }
        [.handled event]
  | timeout (hphase : threads.recorderPhase = .receiving)
      (hempty : threads.recorderEvents = []) (hconnected : threads.privateSends ≠ none) :
      Transition threads .receiveEvent { threads with recorderPhase := .polling } []
  | disconnect (hphase : threads.recorderPhase = .receiving)
      (hempty : threads.recorderEvents = []) (hreturned : threads.privateSends = none) :
      Transition threads .receiveEvent { threads with recorderPhase := .returned } []

/-- Every step is one of the transitions. -/
theorem transition_of_step {threads next : Threads F} {move : ThreadStep F}
    {log : List (Activity F)} (hstep : threads.step move = some (next, log)) :
    threads.Transition move next log := by
  cases move with
  | publicResponse response =>
    simp only [step] at hstep
    split at hstep
    · rename_i hidle
      obtain ⟨⟨publicWs, publications⟩, hprocess, heq⟩ := Option.map_eq_some_iff.mp hstep
      obtain ⟨rfl, rfl⟩ := Prod.mk.inj heq
      exact .publicResponse hidle hprocess
    · cases hstep
  | publicSend =>
    simp only [step] at hstep
    split at hstep
    · cases hstep
    · rename_i publication rest hnext
      cases publication with
      | publish orderBook =>
        obtain ⟨rfl, rfl⟩ := Prod.mk.inj (Option.some.inj hstep)
        exact .publish hnext
      | forcePush orderBook =>
        obtain ⟨rfl, rfl⟩ := Prod.mk.inj (Option.some.inj hstep)
        exact .push hnext
  | privateResponse response =>
    simp only [step] at hstep
    split at hstep
    · rename_i hidle
      obtain ⟨rfl, rfl⟩ := Prod.mk.inj (Option.some.inj hstep)
      exact .privateResponse hidle
    · cases hstep
  | privateSend =>
    simp only [step] at hstep
    split at hstep
    · rename_i receiver event rest hnext
      cases receiver with
      | oms =>
        obtain ⟨rfl, rfl⟩ := Prod.mk.inj (Option.some.inj hstep)
        exact .sendToOms hnext
      | recorder =>
        obtain ⟨rfl, rfl⟩ := Prod.mk.inj (Option.some.inj hstep)
        exact .sendToRecorder hnext
    · cases hstep
  | privateReturn =>
    simp only [step] at hstep
    split at hstep
    · rename_i hidle
      obtain ⟨rfl, rfl⟩ := Prod.mk.inj (Option.some.inj hstep)
      exact .privateReturn hidle
    · cases hstep
  | constructOms walletBalance recentTrade nowMicros =>
    simp only [step] at hstep
    split at hstep
    · cases hstep
    · rename_i hnone
      obtain ⟨config, hconfig, heq⟩ := Option.map_eq_some_iff.mp hstep
      obtain ⟨rfl, rfl⟩ := Prod.mk.inj heq
      exact .constructOms hnone (eq_ok_of_toOption hconfig)
  | takeOrder =>
    obtain ⟨oms, homs, hstep⟩ := Option.bind_eq_some_iff.mp hstep
    split at hstep
    · cases hstep
    · rename_i order rest hnext
      obtain ⟨⟨after, effects⟩, hturn, hstep⟩ := Option.bind_eq_some_iff.mp hstep
      obtain ⟨requests, hrequests, heq⟩ := Option.map_eq_some_iff.mp hstep
      obtain ⟨rfl, rfl⟩ := Prod.mk.inj heq
      exact .takeOrder homs hnext hturn (eq_ok_of_toOption hrequests)
  | takeEvent =>
    obtain ⟨oms, homs, hstep⟩ := Option.bind_eq_some_iff.mp hstep
    split at hstep
    · cases hstep
    · rename_i event rest hnext
      obtain ⟨⟨after, effects⟩, hturn, hstep⟩ := Option.bind_eq_some_iff.mp hstep
      obtain ⟨requests, hrequests, heq⟩ := Option.map_eq_some_iff.mp hstep
      obtain ⟨rfl, rfl⟩ := Prod.mk.inj heq
      exact .takeEvent homs hnext hturn (eq_ok_of_toOption hrequests)
  | answer index result =>
    obtain ⟨request, hrequest, hstep⟩ := Option.bind_eq_some_iff.mp hstep
    obtain ⟨⟨outcome, events⟩, hanswer, heq⟩ := Option.map_eq_some_iff.mp hstep
    obtain ⟨rfl, rfl⟩ := Prod.mk.inj heq
    exact .answer hrequest (eq_ok_of_toOption hanswer)
  | constructStrategy instrumentsInfo =>
    simp only [step] at hstep
    split at hstep
    · cases hstep
    · rename_i hnone
      obtain ⟨strategy, hstrategy, heq⟩ := Option.map_eq_some_iff.mp hstep
      obtain ⟨rfl, rfl⟩ := Prod.mk.inj heq
      exact .constructStrategy hnone (eq_ok_of_toOption hstrategy)
  | startStrategy =>
    obtain ⟨strategy, hstrategy, hstep⟩ := Option.bind_eq_some_iff.mp hstep
    split at hstep
    · cases hstep
    · rename_i hinventory
      obtain ⟨rfl, rfl⟩ := Prod.mk.inj (Option.some.inj hstep)
      exact .startStrategy hstrategy hinventory
  | pollInventory =>
    obtain ⟨strategy, hstrategy, hstep⟩ := Option.bind_eq_some_iff.mp hstep
    split_ifs at hstep with hpolled
    obtain ⟨inventory, hinventory, heq⟩ := Option.map_eq_some_iff.mp hstep
    obtain ⟨rfl, rfl⟩ := Prod.mk.inj heq
    exact .pollInventory hstrategy (Bool.eq_false_iff.mpr hpolled) hinventory
  | execute =>
    obtain ⟨strategy, hstrategy, hstep⟩ := Option.bind_eq_some_iff.mp hstep
    split_ifs at hstep with hpolled
    obtain ⟨inventory, hinventory, hstep⟩ := Option.bind_eq_some_iff.mp hstep
    obtain ⟨orders, horders, heq⟩ := Option.map_eq_some_iff.mp hstep
    obtain ⟨rfl, rfl⟩ := Prod.mk.inj heq
    exact .execute hstrategy hpolled hinventory (eq_ok_of_toOption horders)
  | pollOrderBook =>
    simp only [step] at hstep
    split_ifs at hstep with hphase
    unfold pollOrderBook at hstep
    split at hstep
    · rename_i hempty
      obtain ⟨rfl, rfl⟩ := Prod.mk.inj (Option.some.inj hstep)
      exact .pollEmpty hphase hempty
    · rename_i orderBook hfull
      obtain ⟨⟨recorder, markouts⟩, hprocess, heq⟩ := Option.map_eq_some_iff.mp hstep
      obtain ⟨rfl, rfl⟩ := Prod.mk.inj heq
      exact .pollOrderBook hphase hfull hprocess
  | receiveEvent =>
    simp only [step] at hstep
    split_ifs at hstep with hphase
    unfold receiveEvent at hstep
    split at hstep
    · rename_i event rest hnext
      obtain ⟨rfl, rfl⟩ := Prod.mk.inj (Option.some.inj hstep)
      exact .receiveEvent hphase hnext
    · rename_i hempty
      obtain ⟨rfl, rfl⟩ := Prod.mk.inj (Option.some.inj hstep)
      by_cases hreturned : threads.privateSends.isNone
      · rw [if_pos hreturned]
        exact .disconnect hphase hempty (Option.isNone_iff_eq_none.mp hreturned)
      · rw [if_neg hreturned]
        exact .timeout hphase hempty (mt Option.isNone_iff_eq_none.mpr hreturned)

end Threads

end MarketMaker
