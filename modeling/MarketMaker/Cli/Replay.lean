import MarketMaker.Cli.Progress
import MarketMaker.Cli.Quotes
import MarketMaker.Offline.Messages
import MarketMaker.Offline.Recording

/-!
# The offline loop is a run of the bot

A test runs the parts of the bot in a fixed order against a simulated exchange.  Some interleaving
of the threads does the same: the messages and the answers come when the simulated exchange would
queue them, the order management system takes them when the runner drains the queue, and the
strategy iterates when it is due.  So what a test shows, the bot can do.

A `Stage` is the bot between two such parts: no thread is in the middle of a message or of an
iteration.
-/

namespace MarketMaker

/-- The strategy of the offline loop.  Over exact numbers `execute` never panics. -/
def SimpleStrategy.executeTotal : Strategy (SimpleStrategy ℚ) ℚ :=
  fun strategy orderBook inventory ↦
    (strategy, (strategy.execute orderBook inventory).toOption.getD [])

/-! ## What a run tells -/

namespace Activity

def decision : Activity ℚ → List (StrategyDecision ℚ)
  | .executed _ orderBook inventory orders => [{ cts := orderBook.cts, inventory, orders }]
  | _ => []

def timedMarkout : Activity ℚ → List (UInt64 × CompletedMarkout ℚ)
  | .processed orderBook markouts => markouts.map fun markout ↦ (orderBook.cts, markout)
  | _ => []

end Activity

/-- The parts of a log that the offline loop keeps as well: the events processed, the decisions of
the strategy, the completed markouts and the public messages. -/
structure Told where
  events : List (OrderEvent ℚ) := []
  decisions : List (StrategyDecision ℚ) := []
  markouts : List (UInt64 × CompletedMarkout ℚ) := []
  messages : List BasePublicResponse := []

namespace Told

def append (first second : Told) : Told :=
  { events := first.events ++ second.events
    decisions := first.decisions ++ second.decisions
    markouts := first.markouts ++ second.markouts
    messages := first.messages ++ second.messages }

def ofLog (log : List (Activity ℚ)) : Told :=
  { events := log.flatMap Activity.takenByOms
    decisions := log.flatMap Activity.decision
    markouts := log.flatMap Activity.timedMarkout
    messages := log.flatMap Activity.response }

theorem ofLog_append (first second : List (Activity ℚ)) :
    ofLog (first ++ second) = (ofLog first).append (ofLog second) := by
  simp [ofLog, append]

@[simp]
theorem append_nothing (told : Told) : told.append {} = told := by simp [append]

@[simp]
theorem nothing_append (told : Told) : append {} told = told := rfl

end Told

namespace Threads

/-- Some interleaving leads from one state to another and tells this. -/
def Shows (threads next : Threads ℚ) (told : Told) : Prop :=
  ∃ steps log, run threads steps = some (next, log) ∧ Told.ofLog log = told

variable {threads middle next : Threads ℚ} {move : ThreadStep ℚ} {log : List (Activity ℚ)}
  {told later : Told}

theorem Shows.refl (threads : Threads ℚ) : threads.Shows threads {} := ⟨[], [], rfl, rfl⟩

theorem Shows.of_step (hstep : threads.step move = some (next, log)) :
    threads.Shows next (Told.ofLog log) := by
  refine ⟨[move], log, ?_, rfl⟩
  simp [run, Machine.play_cons, hstep]

theorem Shows.trans (hfirst : threads.Shows middle told) (hlater : middle.Shows next later) :
    threads.Shows next (told.append later) := by
  obtain ⟨steps, log, hrun, rfl⟩ := hfirst
  obtain ⟨rest, after, hrest, rfl⟩ := hlater
  exact ⟨steps ++ rest, log ++ after, Machine.play_append hrun hrest, Told.ofLog_append log after⟩

/-- A first part that tells nothing. -/
theorem Shows.after_silent (hfirst : threads.Shows middle {}) (hlater : middle.Shows next told) :
    threads.Shows next told := hfirst.trans hlater

/-- A last part that tells nothing. -/
theorem Shows.then_silent (hfirst : threads.Shows middle told) (hlater : middle.Shows next {}) :
    threads.Shows next told := by
  rw [← Told.append_nothing told]
  exact hfirst.trans hlater

/-- A step that tells nothing. -/
theorem Shows.of_silent (move : ThreadStep ℚ) (log : List (Activity ℚ))
    (hstep : threads.step move = some (next, log)) (hsilent : Told.ofLog log = {}) :
    threads.Shows next {} :=
  ⟨[move], log, by simp [run, Machine.play_cons, hstep], hsilent⟩

/-- A send of the private stream tells nothing. -/
theorem shows_deliver (threads : Threads ℚ) (receiver : Receiver) (event : OrderEvent ℚ)
    (rest : List (PrivateSend ℚ))
    (hsends : threads.privateSends = some ((receiver, some event) :: rest)) :
    threads.Shows (threads.deliver rest event receiver).1 {} := by
  have hstep : threads.step .privateSend = some (threads.deliver rest event receiver) := by
    simp only [step, hsends]
  cases receiver <;> exact Shows.of_step hstep

end Threads

/-! ## Stages -/

/-- The bot between two parts of a turn. -/
structure Stage where
  config : AppConfig ℚ
  publicWs : PublicWebSocket ℚ
  orderBook : OrderBook ℚ
  strategyOrders : List (OrderBuilder ℚ)
  orderEvents : List (OrderEvent ℚ)
  recorderEvents : List (OrderEvent ℚ)
  inventoryQueue : InventoryQueue ℚ
  strategy : SimpleStrategy ℚ
  inventory : ℚ
  oms : OrderManagementSystem ℚ
  requests : List (Request ℚ)
  recorder : MarkoutEngine ℚ

/-- The events that an execution message sends to the recorder beside the order management
system. -/
def forRecorder (events : List (OrderEvent ℚ)) : List (OrderEvent ℚ) :=
  (executions events).map .executionUpdate

@[simp]
theorem forRecorder_nil : forRecorder [] = [] := rfl

theorem forRecorder_append (first second : List (OrderEvent ℚ)) :
    forRecorder (first ++ second) = forRecorder first ++ forRecorder second := by
  simp [forRecorder]

theorem executions_forRecorder (events : List (OrderEvent ℚ)) :
    executions (forRecorder events) = executions events := by
  rw [forRecorder, executions_eq, List.filterMap_map]
  exact List.filterMap_some ..

namespace Stage

def threads (stage : Stage) : Threads ℚ :=
  { config := stage.config
    publicWs := stage.publicWs
    publications := []
    privateSends := some []
    orderBook := stage.orderBook
    orderBookQueue := none
    strategyOrders := stage.strategyOrders
    orderEvents := stage.orderEvents
    recorderEvents := stage.recorderEvents
    inventoryQueue := stage.inventoryQueue
    strategy := some
      { runner := { strategy := stage.strategy, inventory := some stage.inventory }
        polled := false }
    oms := some stage.oms
    requests := stage.requests
    recorder := stage.recorder
    recorderPhase := .polling }

/-- Some interleaving leads from one stage to another and tells this. -/
abbrev Tells (stage next : Stage) (told : Told) : Prop := stage.threads.Shows next.threads told

variable {event : OrderEvent ℚ} {events rest : List (OrderEvent ℚ)}

/-! ## Messages and answers -/

/-- A message with one event is received and sent on. -/
theorem tells_message (stage : Stage) (hstreamed : event.Streamed) :
    stage.Tells { stage with
      orderEvents := stage.orderEvents ++ [event]
      recorderEvents := stage.recorderEvents ++ forRecorder [event] } {} := by
  obtain ⟨response, hcases⟩ := hstreamed.exists_response
  have hreceive : stage.threads.Shows
      { stage.threads with privateSends := some (PrivateWebSocket.sends response) } {} :=
    Threads.Shows.of_silent (.privateResponse response) [] rfl rfl
  apply hreceive.after_silent
  obtain ⟨hexecution, hsends⟩ | ⟨⟨fill, rfl⟩, hsends⟩ := hcases
  · have hnone : stage.recorderEvents ++ forRecorder [event] = stage.recorderEvents := by
      simp [forRecorder, executions_eq, hexecution]
    rw [hnone, hsends]
    exact Threads.shows_deliver { stage.threads with privateSends := some [(.oms, some event)] }
      .oms event [] rfl
  · let event : OrderEvent ℚ := .executionUpdate fill
    rw [hsends]
    have hfirst := Threads.shows_deliver
      { stage.threads with privateSends := some [(.oms, some event), (.recorder, some event)] }
      .oms event [(.recorder, some event)] rfl
    exact hfirst.after_silent (Threads.shows_deliver _ .recorder event [] rfl)

/-- Messages with one event each. -/
theorem tells_messages (stage : Stage) (hstreamed : ∀ event ∈ events, event.Streamed) :
    stage.Tells { stage with
      orderEvents := stage.orderEvents ++ events
      recorderEvents := stage.recorderEvents ++ forRecorder events } {} := by
  induction events generalizing stage with
  | nil =>
    rw [forRecorder_nil, List.append_nil, List.append_nil]
    exact Threads.Shows.refl stage.threads
  | cons event rest ih =>
    rw [← List.singleton_append, forRecorder_append, ← List.append_assoc, ← List.append_assoc]
    apply (stage.tells_message (hstreamed event (List.mem_cons_self ..))).after_silent
    exact ih _ fun other hmem ↦ hstreamed other (List.mem_cons_of_mem _ hmem)

/-- All requests in flight are answered. -/
theorem tells_answers (stage : Stage) : stage.Tells { stage with requests := [] } {} := by
  obtain ⟨requests, hrequests⟩ : ∃ requests, stage.requests = requests := ⟨_, rfl⟩
  induction requests generalizing stage with
  | nil =>
    rw [← hrequests]
    exact Threads.Shows.refl stage.threads
  | cons request rest ih =>
    have hcomplete : (request.complete (.text "" (some { retCode := 0, retMsg := "" })) :
        Except Panic (RequestOutcome × List (OrderEvent ℚ))) = .ok (.accepted, []) := by
      cases request <;> rfl
    have hanswer : stage.threads.step
        (.answer 0 (.text "" (some { retCode := 0, retMsg := "" }))) =
          some ({ stage with requests := rest }.threads, [.answered request .accepted []]) := by
      have hhead : stage.threads.requests[0]? = some request := by
        rw [threads, hrequests]
        rfl
      have hrest : stage.threads.requests.eraseIdx 0 = rest := by
        rw [threads, hrequests]
        rfl
      simp only [Threads.step, hhead, Option.bind_some, Threads.complete, hcomplete, hrest,
        Except.toOption, Option.map_some, List.append_nil]
      rfl
    exact (Threads.Shows.of_step hanswer).after_silent (ih { stage with requests := rest } rfl)

/-! ## Events -/

/-- The order management system takes an event, and what it asks for is answered. -/
theorem tells_event (stage : Stage) (event : OrderEvent ℚ) (rest : List (OrderEvent ℚ)) :
    ∃ inventoryQueue, { stage with orderEvents := event :: rest }.Tells
      { stage with
        orderEvents := rest, oms := stage.oms.respond [event], inventoryQueue, requests := [] }
      { events := [event] } := by
  obtain ⟨next, effects, requests, hturn, hrequests⟩ :=
    Threads.exists_dispatch_event stage.oms event
  have hnext : next = stage.oms.respond [event] :=
    (congrArg Prod.fst (Option.some.inj hturn)).symm
  have htake : { stage with orderEvents := event :: rest }.threads.step .takeEvent = some
      ({ stage with
        orderEvents := rest
        oms := stage.oms.respond [event]
        inventoryQueue := stage.inventoryQueue.receive effects
        requests := stage.requests ++ requests.reduceOption }.threads,
        [.turn (.event event) effects requests.reduceOption]) := by
    change ({ stage with orderEvents := rest }.threads.turn stage.oms (.event event)) = _
    simp only [Threads.turn, hturn, Option.bind_some, hrequests, hnext]
    rfl
  refine ⟨stage.inventoryQueue.receive effects, ?_⟩
  exact (Threads.Shows.of_step htake).trans (tells_answers _)

theorem tells_events (stage : Stage) (events : List (OrderEvent ℚ)) :
    ∃ inventoryQueue, { stage with orderEvents := events }.Tells
      { stage with
        orderEvents := [], oms := stage.oms.respond events, inventoryQueue, requests := [] }
      { events } := by
  induction events generalizing stage with
  | nil => exact ⟨stage.inventoryQueue, tells_answers _⟩
  | cons event rest ih =>
    obtain ⟨middle, hhead⟩ := stage.tells_event event rest
    obtain ⟨final, htail⟩ := ih { stage with
      oms := stage.oms.respond [event], inventoryQueue := middle, requests := [] }
    exact ⟨final, hhead.trans htail⟩

/-- The recorder works off its events while no book is there. -/
theorem tells_register (stage : Stage) (events : List (OrderEvent ℚ)) :
    { stage with recorderEvents := events }.Tells
      { stage with
        recorderEvents := [], recorder := events.foldl MarkoutEngine.register stage.recorder }
      {} := by
  induction events generalizing stage with
  | nil => exact Threads.Shows.refl _
  | cons event rest ih =>
    have hpoll : { stage with recorderEvents := event :: rest }.threads.Shows
        { { stage with recorderEvents := event :: rest }.threads with
          recorderPhase := .receiving } {} :=
      Threads.Shows.of_silent .pollOrderBook [] rfl rfl
    have hreceive : Threads.Shows
        { { stage with recorderEvents := event :: rest }.threads with recorderPhase := .receiving }
        { stage with
          recorderEvents := rest, recorder := stage.recorder.register event }.threads {} :=
      Threads.Shows.of_silent .receiveEvent [.handled event] rfl rfl
    exact (hpoll.after_silent hreceive).after_silent
      (ih { stage with recorder := stage.recorder.register event })

/-- Both receivers work off what came with the messages. -/
theorem tells_drain (stage : Stage) (events : List (OrderEvent ℚ)) :
    ∃ inventoryQueue,
      { stage with orderEvents := events, recorderEvents := forRecorder events }.Tells
        { stage with
          orderEvents := []
          recorderEvents := []
          oms := stage.oms.respond events
          inventoryQueue
          requests := []
          recorder := (executions events).foldl MarkoutEngine.updateTrades stage.recorder }
        { events } := by
  obtain ⟨inventoryQueue, hevents⟩ :=
    tells_events { stage with recorderEvents := forRecorder events } events
  have hregister := tells_register { stage with
    orderEvents := [], oms := stage.oms.respond events, inventoryQueue, requests := [] }
    (forRecorder events)
  rw [MarkoutEngine.foldl_register, executions_forRecorder] at hregister
  exact ⟨inventoryQueue, hevents.then_silent hregister⟩

/-! ## Forwarding -/

variable {σ : Type} {runner after : OfflineRunner σ ℚ} {order : OrderBuilder ℚ}

/-- The stage with the order management system of the runner and what its exchange has queued. -/
def facing (stage : Stage) (runner : OfflineRunner σ ℚ) : Stage :=
  { stage with
    oms := runner.oms
    orderEvents := runner.simulatedExchange.pendingEvents
    recorderEvents := forRecorder runner.simulatedExchange.pendingEvents
    requests := [] }

/-- The requests in flight are answered, and the exchange sends what it queued since. -/
theorem tells_sends (stage : Stage) (runner : OfflineRunner σ ℚ) (requests : List (Request ℚ))
    {exchange : SimulatedExchange ℚ} (hsends : runner.simulatedExchange.Sends exchange) :
    { stage.facing runner with requests }.Tells
      (stage.facing { runner with simulatedExchange := exchange }) {} := by
  obtain ⟨events, hstreamed, hpending⟩ := hsends
  have hanswered : { stage.facing runner with requests }.Tells (stage.facing runner) {} :=
    tells_answers { stage.facing runner with requests }
  have hmessages := tells_messages (stage.facing runner) hstreamed
  unfold facing at hmessages ⊢
  dsimp only at hmessages ⊢
  rw [hpending, forRecorder_append]
  exact hanswered.after_silent hmessages

/-- The answer to a submission is lost or says no. -/
theorem tells_failure (stage : Stage) (runner : OfflineRunner σ ℚ) {id : UInt64}
    {body : SubmitOrderBody ℚ} {exchange : SimulatedExchange ℚ}
    (hpending : exchange.pendingEvents =
      runner.simulatedExchange.pendingEvents ++ [.submissionFailed id]) :
    { stage.facing runner with requests := [.submit id body] }.Tells
      (stage.facing { runner with simulatedExchange := exchange }) {} := by
  unfold facing
  dsimp only
  have hnone : forRecorder [OrderEvent.submissionFailed id] = [] := rfl
  rw [hpending, forRecorder_append, hnone, List.append_nil]
  exact Threads.Shows.of_silent (.answer 0 .transportError)
    [.answered (.submit id body) .unknown [.submissionFailed id]] rfl rfl

/-- Forwarding an order in the loop: the order management system takes it from the strategy, and
the exchange answers and sends what the simulated one queues. -/
theorem tells_forward (stage : Stage) (rest : List (OrderBuilder ℚ)) (hqty : 0 < order.qty)
    (hprice : OrderHandler.PositivePrice order.price) (hwritten : F64.Decimal.Written order.qty)
    (hsizes : runner.simulatedExchange.SizesWritten)
    (hforward : runner.forwardOrder order = some after) :
    after.simulatedExchange.SizesWritten ∧
      ({ stage with strategyOrders := order :: rest }.facing runner).Tells
        ({ stage with strategyOrders := rest }.facing after) {} := by
  obtain ⟨oms, effects, requests, hturn, hrequests⟩ :=
    Threads.exists_dispatch_forward runner.oms hqty hprice
  have hloop : ((effects.foldlM SimulatedExchange.perform runner.simulatedExchange).map
      fun exchange ↦ { runner with oms, simulatedExchange := exchange }) = some after := by
    rw [← hforward, OfflineRunner.forwardOrder, OfflineRunner.omsStep, hturn, Option.bind_some]
  obtain ⟨exchange, hexchange, rfl⟩ := Option.map_eq_some_iff.mp hloop
  let loop : OfflineRunner σ ℚ := { runner with oms }
  have htake : ({ stage with strategyOrders := order :: rest }.facing runner).Tells
      { { stage with strategyOrders := rest }.facing loop with
        inventoryQueue := stage.inventoryQueue.receive effects
        requests := requests.reduceOption } {} := by
    apply Threads.Shows.of_silent .takeOrder
      [.turn (.forward RiskManager.evaluateOrder order) effects requests.reduceOption] _ rfl
    change ({ stage with strategyOrders := rest }.facing runner).threads.turn runner.oms
      (.forward RiskManager.evaluateOrder order) = _
    simp only [Threads.turn, hturn, Option.bind_some, hrequests]
    rfl
  cases OrderManagementSystem.transition_of_step hturn with
  | @submit _ _ other stored hpolicy hbuild =>
    obtain rfl : other = order := by
      obtain hnone | ⟨hsame, -⟩ | ⟨_, _, -, -, -, hamend⟩ := RiskManager.evaluateOrder_cases hpolicy
      · cases hnone
      · exact Outcome.newOrder.inj hsame
      · cases hamend
    have hsubmit : runner.simulatedExchange.submitOrder other runner.oms.idGenerator =
        some exchange := by
      simpa [SimulatedExchange.perform] using hexchange
    obtain ⟨body, rfl⟩ : ∃ body, requests = [some (.submit runner.oms.idGenerator body)] := by
      simp only [List.mapM_cons, List.mapM_nil, OrderHandler.dispatch, bind_eq_ok, map_eq_ok,
        pure, Except.pure, Except.ok.injEq] at hrequests
      obtain ⟨_, ⟨body, -, rfl⟩, _, rfl, rfl⟩ := hrequests
      exact ⟨body, rfl⟩
    obtain ⟨hsizes, hfailure | hsends⟩ := hsizes.submitOrder hwritten hsubmit
    · exact ⟨hsizes, htake.after_silent (tells_failure _ loop hfailure)⟩
    · exact ⟨hsizes, htake.after_silent (tells_sends _ loop _ hsends)⟩
  | @amend _ _ amendment hpolicy =>
    have hsame : amendment.qty = order.qty := by
      obtain hnone | ⟨hsubmit, -⟩ | ⟨_, _, -, -, -, hamend⟩ :=
        RiskManager.evaluateOrder_cases hpolicy
      · cases hnone
      · cases hsubmit
      · rw [Outcome.amendOrder.inj hamend]
        rfl
    have hamend : runner.simulatedExchange.amendOrder amendment = some exchange := by
      simpa [SimulatedExchange.perform] using hexchange
    obtain ⟨hsizes, hsends⟩ := hsizes.amendOrder (hsame ▸ hwritten) hamend
    exact ⟨hsizes, htake.after_silent (tells_sends _ loop _ hsends)⟩
  | hold hpolicy =>
    obtain rfl : runner.simulatedExchange = exchange := by simpa using hexchange
    exact ⟨hsizes, htake.after_silent (tells_sends _ loop _ (SimulatedExchange.Sends.nothing rfl))⟩

/-- The orders of one iteration. -/
theorem tells_forwards (stage : Stage) {orders : List (OrderBuilder ℚ)}
    (horders : ∀ order ∈ orders, 0 < order.qty ∧ OrderHandler.PositivePrice order.price ∧
      F64.Decimal.Written order.qty)
    (hsizes : runner.simulatedExchange.SizesWritten)
    (hforward : orders.foldlM OfflineRunner.forwardOrder runner = some after) :
    after.simulatedExchange.SizesWritten ∧
      ({ stage with strategyOrders := orders }.facing runner).Tells
        ({ stage with strategyOrders := [] }.facing after) {} := by
  induction orders generalizing runner with
  | nil =>
    obtain rfl : runner = after := by simpa using hforward
    exact ⟨hsizes, Threads.Shows.refl _⟩
  | cons order rest ih =>
    rw [List.foldlM_cons] at hforward
    obtain ⟨middle, hhead, htail⟩ := Option.bind_eq_some_iff.mp hforward
    obtain ⟨hqty, hprice, hwritten⟩ := horders order (List.mem_cons_self ..)
    obtain ⟨hmiddle, hfirst⟩ := stage.tells_forward rest hqty hprice hwritten hsizes hhead
    obtain ⟨hafter, hlater⟩ :=
      ih (fun other hmem ↦ horders other (List.mem_cons_of_mem _ hmem)) hmiddle htail
    exact ⟨hafter, hfirst.after_silent hlater⟩

/-! ## Books and decisions -/

/-- A book is published, and the recorder takes it. -/
theorem tells_book (stage : Stage) {message : BasePublicResponse} {publicWs : PublicWebSocket ℚ}
    {orderBook : OrderBook ℚ} {recorder : MarkoutEngine ℚ} {markouts : List (CompletedMarkout ℚ)}
    (hmessage : stage.publicWs.processOrderbookResponse message =
      some (publicWs, publicationsOf orderBook))
    (hquiet : stage.recorderEvents = [])
    (hrecorder : stage.recorder.processOrderBook orderBook = some (recorder, markouts)) :
    stage.Tells { stage with publicWs, orderBook, recorder }
      { markouts := markouts.map fun markout ↦ (orderBook.cts, markout)
        messages := [message] } := by
  have hreceive : stage.threads.step (.publicResponse message) = some
      ({ stage.threads with publicWs, publications := publicationsOf orderBook },
        [.received message]) := by
    change (stage.publicWs.processOrderbookResponse message).map _ = _
    rw [hmessage]
    rfl
  have hpublish : Threads.Shows
      { stage.threads with publicWs, publications := publicationsOf orderBook }
      { stage.threads with publicWs, publications := [.forcePush orderBook], orderBook } {} :=
    Threads.Shows.of_silent .publicSend [.published orderBook] rfl rfl
  have hpush : Threads.Shows
      { stage.threads with publicWs, publications := [.forcePush orderBook], orderBook }
      { stage.threads with publicWs, orderBook, orderBookQueue := some orderBook } {} :=
    Threads.Shows.of_silent .publicSend [.pushed orderBook] rfl rfl
  have hprocess : Threads.step
      { stage.threads with publicWs, orderBook, orderBookQueue := some orderBook } .pollOrderBook =
        some ({ stage.threads with publicWs, orderBook, recorder, recorderPhase := .receiving },
          [.processed orderBook markouts]) := by
    change (stage.recorder.processOrderBook orderBook).map _ = _
    rw [hrecorder]
    rfl
  have htimeout : Threads.Shows
      { stage.threads with publicWs, orderBook, recorder, recorderPhase := .receiving }
      { stage with publicWs, orderBook, recorder }.threads {} := by
    apply Threads.Shows.of_silent .receiveEvent [] _ rfl
    simp only [Threads.step, Threads.receiveEvent, threads, hquiet]
    rfl
  have hshows := (Threads.Shows.of_step hreceive).trans
    (hpublish.after_silent (hpush.after_silent
      ((Threads.Shows.of_step hprocess).then_silent htimeout)))
  simpa [Told.ofLog, Told.append, Activity.takenByOms, Activity.decision, Activity.timedMarkout,
    Activity.response] using hshows

/-- The strategy iterates. -/
theorem tells_execute (stage : Stage) (hfresh : stage.threads.Fresh) :
    stage.Tells
      { stage with
        inventoryQueue := none
        inventory := stage.oms.inventory
        strategyOrders := stage.strategyOrders ++
          (stage.strategy.executeTotal stage.orderBook stage.oms.inventory).2 }
      { decisions :=
        [{ cts := stage.orderBook.cts
           inventory := stage.oms.inventory
           orders := (stage.strategy.executeTotal stage.orderBook stage.oms.inventory).2 }] } := by
  obtain ⟨orders, horders⟩ : ∃ orders,
      stage.strategy.execute stage.orderBook stage.oms.inventory = .ok orders := by
    obtain ⟨_, _, -, -, -, -, hquotes⟩ | ⟨hnone, -⟩ :=
      stage.strategy.execute_rat stage.orderBook stage.oms.inventory
    · exact ⟨_, hquotes⟩
    · exact ⟨_, hnone⟩
  have hexecuted :
      (stage.strategy.executeTotal stage.orderBook stage.oms.inventory).2 = orders := by
    rw [SimpleStrategy.executeTotal, horders]
    rfl
  have hpoll : stage.threads.Shows
      { stage.threads with
        inventoryQueue := none
        strategy := some
          { runner := { strategy := stage.strategy, inventory := some stage.oms.inventory }
            polled := true } } {} := by
    have hinventory : stage.inventoryQueue.getD stage.inventory = stage.oms.inventory :=
      hfresh.poll rfl rfl
    apply Threads.Shows.of_silent .pollInventory [.polled stage.oms.inventory] _ rfl
    rw [← hinventory]
    rfl
  have hexecute : Threads.step
      { stage.threads with
        inventoryQueue := none
        strategy := some
          { runner := { strategy := stage.strategy, inventory := some stage.oms.inventory }
            polled := true } } .execute = some
      ({ stage with
        inventoryQueue := none
        inventory := stage.oms.inventory
        strategyOrders := stage.strategyOrders ++ orders }.threads,
        [.executed stage.strategy stage.orderBook stage.oms.inventory orders]) := by
    change (stage.strategy.execute stage.orderBook stage.oms.inventory).toOption.map _ = _
    rw [horders]
    rfl
  rw [hexecuted]
  exact hpoll.after_silent (Threads.Shows.of_step hexecute)

end Stage

/-! ## Turns -/

section Turns

/-- The loop's strategy issues orders of one size. -/
theorem SimpleStrategy.qty_of_executeTotal {strategy : SimpleStrategy ℚ} {orderBook : OrderBook ℚ}
    {inventory : ℚ} {order : OrderBuilder ℚ}
    (hmem : order ∈ (strategy.executeTotal orderBook inventory).2) : order.qty = strategy.size := by
  unfold executeTotal at hmem
  cases hexecute : strategy.execute orderBook inventory with
  | error panic => simp [hexecute, Except.toOption] at hmem
  | ok orders =>
    rw [hexecute] at hmem
    obtain ⟨side, price, rfl⟩ := exists_quote hexecute hmem
    rfl

/-- Forwarding changes the order management system and the exchange only. -/
theorem OfflineRunner.eq_of_forwardOrders {σ : Type} {runner next : OfflineRunner σ ℚ}
    {orders : List (OrderBuilder ℚ)} (hforward : orders.foldlM forwardOrder runner = some next) :
    ∃ oms simulatedExchange, next = { runner with oms, simulatedExchange } := by
  apply Machine.foldlM_invariant (motive := fun current : OfflineRunner σ ℚ ↦
    ∃ oms simulatedExchange, current = { runner with oms, simulatedExchange }) _ ⟨_, _, rfl⟩
    hforward
  rintro _ order after ⟨oms, exchange, rfl⟩ hafter
  obtain ⟨_, -, hafter⟩ := Option.bind_eq_some_iff.mp hafter
  obtain ⟨_, -, rfl⟩ := Option.map_eq_some_iff.mp hafter
  exact ⟨_, _, rfl⟩

namespace RecordedRunner

abbrev Loop := RecordedRunner (SimpleStrategy ℚ) ℚ

variable {runner next : Loop}

/-- What the loop kept, with the messages that its books came from. -/
def told (runner : Loop) (messages : List BasePublicResponse) : Told :=
  { events := runner.processedEvents
    decisions := runner.strategyDecisions
    markouts := runner.completedMarkouts
    messages }

/-- The bot with what the loop holds between two turns. -/
def stage (runner : Loop) (config : AppConfig ℚ) (publicWs : PublicWebSocket ℚ)
    (orderBook : OrderBook ℚ) (inventoryQueue : InventoryQueue ℚ) (inventory : ℚ) : Stage :=
  { config
    publicWs
    orderBook
    strategyOrders := []
    orderEvents := []
    recorderEvents := []
    inventoryQueue
    strategy := runner.strategy
    inventory
    oms := runner.oms
    requests := []
    recorder := runner.recorder }

/-- Some interleaving has done what the loop did so far, and nothing is on its way. -/
structure Played (config : AppConfig ℚ) (publicWs : PublicWebSocket ℚ) (orderBook : OrderBook ℚ)
    (messages : List BasePublicResponse) (runner : Loop) : Prop where
  shows : ∃ inventoryQueue inventory, (Threads.new config).Shows
    (runner.stage config publicWs orderBook inventoryQueue inventory).threads
    (runner.told messages)
  size : 0 < runner.strategy.size
  written : F64.Decimal.Written runner.strategy.size
  drained : runner.simulatedExchange.pendingEvents = []
  sizes : runner.simulatedExchange.SizesWritten

variable {config : AppConfig ℚ} {publicWs publicWs' : PublicWebSocket ℚ}
  {orderBook orderBook' : OrderBook ℚ} {messages : List BasePublicResponse}
  {message : BasePublicResponse}

/-- The part of a turn before the strategy is due. -/
theorem Played.book (hplayed : runner.Played config publicWs orderBook messages)
    (hmessage : publicWs.processOrderbookResponse message =
      some (publicWs', publicationsOf orderBook')) {exchange : SimulatedExchange ℚ}
    {drained : Loop} (hmatch : runner.simulatedExchange.matchOrders orderBook' = some exchange)
    (hdrain : processExchangeEvents { runner with simulatedExchange := exchange } = some drained)
    (hrecord : drained.processOrderBook orderBook' = some next) :
    next.Played config publicWs' orderBook' (messages ++ [message]) := by
  obtain ⟨inventoryQueue, inventory, hshows⟩ := hplayed.shows
  obtain ⟨hsizes, hstreamed⟩ := hplayed.sizes.matchOrders hplayed.drained hmatch
  rw [processExchangeEvents_eq] at hdrain
  obtain ⟨base, hbase, rfl⟩ := Option.map_eq_some_iff.mp hdrain
  obtain ⟨repaidCoins, hdrained⟩ := OfflineRunner.processExchangeEvents_eq_some
    { runner.toOfflineRunner with simulatedExchange := exchange }
  obtain rfl := Option.some.inj (hdrained.symm.trans hbase)
  obtain ⟨⟨recorder, markouts⟩, hprocess, rfl⟩ := Option.map_eq_some_iff.mp hrecord
  let before := runner.stage config publicWs orderBook inventoryQueue inventory
  have hmessages := before.tells_messages hstreamed
  obtain ⟨inventoryQueue', hevents⟩ := before.tells_drain exchange.pendingEvents
  let middle : Stage :=
    { before with
      oms := runner.oms.respond exchange.pendingEvents
      inventoryQueue := inventoryQueue'
      recorder :=
        (executions exchange.pendingEvents).foldl MarkoutEngine.updateTrades runner.recorder }
  have hbook := middle.tells_book hmessage rfl hprocess
  refine ⟨⟨inventoryQueue', inventory, ?_⟩, hplayed.size, hplayed.written, rfl, hsizes⟩
  have htold := ((hshows.then_silent hmessages).trans hevents).trans hbook
  simp only [told, Told.append, List.append_nil] at htold
  exact htold

/-- The part of a turn in which the strategy is due. -/
theorem Played.execute (hplayed : runner.Played config publicWs orderBook messages)
    (hexecute : runner.executeStrategy SimpleStrategy.executeTotal orderBook = some next)
    (hprices : ∀ order ∈ (runner.strategy.executeTotal orderBook runner.oms.inventory).2,
      OrderHandler.PositivePrice order.price) :
    next.Played config publicWs orderBook messages := by
  obtain ⟨inventoryQueue, inventory, hshows⟩ := hplayed.shows
  let before := runner.stage config publicWs orderBook inventoryQueue inventory
  let orders := (runner.strategy.executeTotal orderBook runner.oms.inventory).2
  have hfresh : before.threads.Fresh := by
    obtain ⟨steps, log, hrun, -⟩ := hshows
    exact Threads.fresh_of_run hrun
  have hiterate := before.tells_execute hfresh
  obtain ⟨forwarded, hforward, hdrain⟩ := Option.bind_eq_some_iff.mp hexecute
  obtain ⟨base, hbase, rfl⟩ :=
    Option.map_eq_some_iff.mp ((foldlM_unrecorded _ _ _).symm.trans hforward)
  rw [processExchangeEvents_eq] at hdrain
  obtain ⟨final, hfinal, rfl⟩ := Option.map_eq_some_iff.mp hdrain
  obtain ⟨repaidCoins, hdrained⟩ := base.processExchangeEvents_eq_some
  obtain rfl := Option.some.inj (hdrained.symm.trans hfinal)
  have horders : ∀ order ∈ orders, 0 < order.qty ∧ OrderHandler.PositivePrice order.price ∧
      F64.Decimal.Written order.qty := by
    intro order hmem
    rw [SimpleStrategy.qty_of_executeTotal hmem]
    exact ⟨hplayed.size, hprices order hmem, hplayed.written⟩
  let iterated : Stage :=
    { before with inventoryQueue := none, inventory := runner.oms.inventory }
  let due : OfflineRunner (SimpleStrategy ℚ) ℚ :=
    { runner.toOfflineRunner with lastStrategyCts := some orderBook.cts }
  have hdue : due.simulatedExchange.SizesWritten := hplayed.sizes
  obtain ⟨hsizes, hforwards⟩ := iterated.tells_forwards horders hdue hbase
  obtain ⟨inventoryQueue', hevents⟩ :=
    (iterated.facing base).tells_drain base.simulatedExchange.pendingEvents
  obtain ⟨oms, exchange, rfl⟩ := OfflineRunner.eq_of_forwardOrders hbase
  have hfacing : { iterated with strategyOrders := orders } =
      Stage.facing { iterated with strategyOrders := orders } due := by
    have hquiet : due.simulatedExchange.pendingEvents = [] := hplayed.drained
    unfold Stage.facing
    rw [hquiet]
    rfl
  refine ⟨⟨inventoryQueue', runner.oms.inventory, ?_⟩, hplayed.size, hplayed.written, rfl, hsizes⟩
  rw [← hfacing] at hforwards
  have htold := ((hshows.trans hiterate).then_silent hforwards).trans hevents
  simp only [told, Told.append, List.append_nil] at htold
  exact htold

/-- A due turn notes one decision. -/
theorem decisions_of_executeStrategy
    (hexecute : runner.executeStrategy SimpleStrategy.executeTotal orderBook = some next) :
    next.strategyDecisions = runner.strategyDecisions ++
      [{ cts := orderBook.cts
         inventory := runner.oms.inventory
         orders := (runner.strategy.executeTotal orderBook runner.oms.inventory).2 }] := by
  obtain ⟨forwarded, hforward, hdrain⟩ := Option.bind_eq_some_iff.mp hexecute
  obtain ⟨base, -, rfl⟩ :=
    Option.map_eq_some_iff.mp ((foldlM_unrecorded _ _ _).symm.trans hforward)
  rw [processExchangeEvents_eq] at hdrain
  obtain ⟨final, -, rfl⟩ := Option.map_eq_some_iff.mp hdrain
  rfl

/-- The prices that were decided are positive as texts. -/
def PricesPositive (runner : Loop) : Prop :=
  ∀ decision ∈ runner.strategyDecisions, ∀ order ∈ decision.orders,
    OrderHandler.PositivePrice order.price

/-- One turn. -/
theorem Played.step (hplayed : runner.Played config publicWs orderBook messages)
    (hmessage : publicWs.processOrderbookResponse message =
      some (publicWs', publicationsOf orderBook'))
    (hstep : runner.step SimpleStrategy.executeTotal orderBook' = some next)
    (hprices : next.PricesPositive) :
    next.Played config publicWs' orderBook' (messages ++ [message]) := by
  obtain ⟨exchange, hmatch, hstep⟩ := Option.bind_eq_some_iff.mp hstep
  obtain ⟨drained, hdrain, hstep⟩ := Option.bind_eq_some_iff.mp hstep
  obtain ⟨recorded, hrecord, hstep⟩ := Option.bind_eq_some_iff.mp hstep
  have hrecorded := hplayed.book hmessage hmatch hdrain hrecord
  split_ifs at hstep with hdue
  · exact Option.some.inj hstep ▸ hrecorded
  · apply hrecorded.execute hstep
    intro order hmem
    refine hprices
      { cts := orderBook'.cts, inventory := recorded.oms.inventory, orders := _ } ?_ order hmem
    rw [decisions_of_executeStrategy hstep]
    exact List.mem_append_right _ (List.mem_singleton_self _)

/-- A turn forgets no decision. -/
theorem decisions_of_step (hstep : runner.step SimpleStrategy.executeTotal orderBook = some next) :
    runner.strategyDecisions <+: next.strategyDecisions := by
  obtain ⟨exchange, -, hstep⟩ := Option.bind_eq_some_iff.mp hstep
  obtain ⟨drained, hdrain, hstep⟩ := Option.bind_eq_some_iff.mp hstep
  obtain ⟨recorded, hrecord, hstep⟩ := Option.bind_eq_some_iff.mp hstep
  rw [processExchangeEvents_eq] at hdrain
  obtain ⟨base, -, rfl⟩ := Option.map_eq_some_iff.mp hdrain
  obtain ⟨_, -, rfl⟩ := Option.map_eq_some_iff.mp hrecord
  split_ifs at hstep
  · obtain rfl := Option.some.inj hstep
    exact List.prefix_refl _
  · rw [decisions_of_executeStrategy hstep]
    exact List.prefix_append _ _

theorem PricesPositive.of_run {orderBooks : List (OrderBook ℚ)} (hprices : next.PricesPositive)
    (hrun : run SimpleStrategy.executeTotal runner orderBooks = some next) :
    runner.PricesPositive := by
  have hkept : runner.strategyDecisions <+: next.strategyDecisions := by
    apply Machine.foldlM_invariant (motive := fun current : Loop ↦
      runner.strategyDecisions <+: current.strategyDecisions) _ (List.prefix_refl _) hrun
    intro current orderBook after hcurrent hstep
    exact hcurrent.trans (decisions_of_step hstep)
  intro decision hmem
  exact hprices decision (hkept.subset hmem)

/-- A whole market. -/
theorem Played.run {orderBooks : List (OrderBook ℚ)} {later : List BasePublicResponse}
    (hplayed : runner.Played config publicWs orderBook messages)
    (hmessages : Machine.run PublicWebSocket.processOrderbookResponse publicWs later =
      some (publicWs', orderBooks.map publicationsOf))
    (hrun : RecordedRunner.run SimpleStrategy.executeTotal runner orderBooks = some next)
    (hprices : next.PricesPositive) :
    ∃ last, next.Played config publicWs' last (messages ++ later) := by
  induction orderBooks generalizing runner publicWs orderBook messages later with
  | nil =>
    obtain rfl : runner = next := by simpa using hrun
    obtain rfl : later = [] := by simpa using (Machine.run_length hmessages).symm
    obtain ⟨rfl, -⟩ := Prod.mk.inj (Option.some.inj hmessages)
    exact ⟨orderBook, by simpa using hplayed⟩
  | cons head rest ih =>
    cases later with
    | nil => simp at hmessages
    | cons message tail =>
      obtain ⟨middle, publications, others, hmessage, htail, heq⟩ :=
        Machine.run_cons_eq_some.mp hmessages
      obtain ⟨rfl, rfl⟩ := List.cons.inj heq
      rw [RecordedRunner.run, List.foldlM_cons] at hrun
      obtain ⟨turned, hturn, hrest⟩ := Option.bind_eq_some_iff.mp hrun
      have hturned := hplayed.step hmessage hturn (hprices.of_run hrest)
      obtain ⟨last, hlast⟩ := ih hturned htail hrest
      exact ⟨last, by simpa using hlast⟩

/-! ## The beginning -/

def emptyBalance : Value :=
  .object [("retCode", .number (some 0)), ("retMsg", .string "OK"),
    ("result", .object [("list", .array [.object [("coin", .array [])]])])]

theorem played_new {strategy : SimpleStrategy ℚ} {instrumentsInfo : Value}
    (hcoin : config.coin = "ADA")
    (hstrategy : Threads.simpleStrategy config instrumentsInfo = .ok strategy)
    (hsize : F64.Decimal.Written config.orderSize) :
    Played config PublicWebSocket.new OrderBook.default [] (new strategy) := by
  obtain ⟨hsame, hpositive⟩ : strategy.size = config.orderSize ∧ 0 < strategy.size := by
    simp only [Threads.simpleStrategy, bind_eq_ok] at hstrategy
    obtain ⟨instrumentInfo, -, hnew⟩ := hstrategy
    obtain ⟨rfl, hsize⟩ := SimpleStrategy.new_eq_ok hnew
    have hzero : (0.0 : ℚ) = 0 := by norm_num
    rw [hzero] at hsize
    exact ⟨rfl, hsize⟩
  have hstarts : Threads.omsConfig config emptyBalance .null 90 = .ok OfflineRunner.omsConfig := by
    apply Threads.StartsFrom.omsConfig_eq
    have hlists : Wallet.Lists emptyBalance ([] : List (String × ℚ)) :=
      ⟨rfl, _, _, rfl, rfl, rfl⟩
    refine ⟨⟨[], hlists, List.nodup_nil, rfl⟩, ?_, by norm_num, rfl, hcoin.symm⟩
    simp [OfflineRunner.omsConfig]
  let constructed : Threads ℚ :=
    { Threads.new config with
      oms := some (OrderManagementSystem.new OfflineRunner.omsConfig).1
      inventoryQueue := some 0.0 }
  have hconstruct : (Threads.new config).Shows constructed {} := by
    apply Threads.Shows.of_silent (.constructOms emptyBalance .null 90)
      [.constructed OfflineRunner.omsConfig] _ rfl
    change (Threads.omsConfig config emptyBalance .null 90).toOption.map _ = _
    rw [hstarts]
    rfl
  have hstrategyThread : constructed.Shows
      { constructed with
        strategy := some { runner := StrategyRunner.new strategy, polled := false } } {} := by
    apply Threads.Shows.of_silent (.constructStrategy instrumentsInfo) [] _ rfl
    change (Threads.simpleStrategy config instrumentsInfo).toOption.map _ = _
    rw [hstrategy]
    rfl
  have hstart : Threads.Shows
      { constructed with
        strategy := some { runner := StrategyRunner.new strategy, polled := false } }
      ((new strategy).stage config PublicWebSocket.new OrderBook.default none 0.0).threads {} :=
    Threads.Shows.of_silent .startStrategy [] rfl rfl
  refine ⟨⟨none, 0.0, ?_⟩, hpositive, hsame ▸ hsize, rfl, ?_⟩
  · exact (hconstruct.after_silent hstrategyThread).after_silent hstart
  · intro id order hlookup
    simp [new, OfflineRunner.new, SimulatedExchange.default] at hlookup

end RecordedRunner

end Turns

/-- Every offline market that the public messages could have brought is a run of the bot: from the
configured start some interleaving ends with the same order management system and the same recorder,
processes the same events, decides the same orders for the same books and inventories, and completes
the same markouts. -/
theorem Threads.exists_run_of_market {config : AppConfig ℚ} {strategy : SimpleStrategy ℚ}
    {instrumentsInfo : Value} {messages : List BasePublicResponse}
    {publicWs : PublicWebSocket ℚ} {orderBooks : List (OrderBook ℚ)} {final : RecordedRunner.Loop}
    (hcoin : config.coin = "ADA")
    (hstrategy : simpleStrategy config instrumentsInfo = .ok strategy)
    (hsize : F64.Decimal.Written config.orderSize)
    (hmessages : Machine.run PublicWebSocket.processOrderbookResponse PublicWebSocket.new messages =
      some (publicWs, orderBooks.map publicationsOf))
    (hrun : RecordedRunner.run SimpleStrategy.executeTotal (RecordedRunner.new strategy)
      orderBooks = some final)
    (hprices : final.PricesPositive) :
    ∃ steps threads log, run (new config) steps = some (threads, log) ∧
      threads.oms = some final.oms ∧ threads.recorder = final.recorder ∧
      log.flatMap Activity.response = messages ∧
      log.flatMap Activity.takenByOms = final.processedEvents ∧
      log.flatMap Activity.decision = final.strategyDecisions ∧
      log.flatMap Activity.timedMarkout = final.completedMarkouts := by
  have hbegin := RecordedRunner.played_new hcoin hstrategy hsize
  obtain ⟨orderBook, hplayed⟩ := hbegin.run hmessages hrun hprices
  obtain ⟨inventoryQueue, inventory, steps, log, hsteps, htold⟩ := hplayed.shows
  simp only [Told.ofLog, RecordedRunner.told, Told.mk.injEq] at htold
  obtain ⟨hevents, hdecisions, hmarkouts, hresponses⟩ := htold
  exact ⟨steps, _, log, hsteps, rfl, rfl, hresponses, hevents, hdecisions, hmarkouts⟩

namespace RecordedRunner

/-- A snapshot without a bid to quote against, then one with both sides. -/
def sampleMessages : List BasePublicResponse :=
  let snapshot := PublicWebSocket.sampleSnapshot
  [{ snapshot with ts := 0, data := { snapshot.data with b := [⟨"99", "0"⟩] } }, snapshot]

def sampleBooks : List (OrderBook ℚ) :=
  let orderBook : OrderBook ℚ :=
    { bids := [⟨99, 2⟩, ⟨98, 3⟩], asks := [⟨101, 2⟩, ⟨102, 3⟩], ts := 1000, cts := 1000 }
  [{ orderBook with bids := [⟨99, 0⟩], ts := 0, cts := 0 }, orderBook]

def sampleQuotes : SimpleStrategy ℚ :=
  { size := 25
    instrumentInfo :=
      { SimpleStrategy.sampleHalfTick with tickSize := 1 / 100, decimalPlaces := 2 } }

end RecordedRunner

theorem Threads.exists_run_of_market_sample : ∃ steps threads log final,
    RecordedRunner.run SimpleStrategy.executeTotal (RecordedRunner.new RecordedRunner.sampleQuotes)
      RecordedRunner.sampleBooks = some final ∧
    run (new sampleConfig) steps = some (threads, log) ∧ threads.oms = some final.oms ∧
    log.flatMap Activity.takenByOms = final.processedEvents ∧ final.processedEvents.length = 2 := by
  have hmessages : (Machine.run PublicWebSocket.processOrderbookResponse PublicWebSocket.new
      RecordedRunner.sampleMessages).map Prod.snd =
        some (RecordedRunner.sampleBooks.map publicationsOf) := by
    decide +kernel
  have hloop : (RecordedRunner.run SimpleStrategy.executeTotal
      (RecordedRunner.new RecordedRunner.sampleQuotes) RecordedRunner.sampleBooks).any fun final ↦
        decide (final.processedEvents.length = 2) &&
          final.strategyDecisions.all fun decision ↦ decision.orders.all fun order ↦
            (F64.fromStr order.price : Option ℚ).any fun price ↦ decide (0 < price) := by
    decide +kernel
  obtain ⟨⟨publicWs, publications⟩, hmessages, rfl⟩ := Option.map_eq_some_iff.mp hmessages
  obtain ⟨final, hrun, hfacts⟩ := (Option.any_eq_true ..).mp hloop
  simp only [Bool.and_eq_true, decide_eq_true_eq, List.all_eq_true, Option.any_eq_true] at hfacts
  obtain ⟨hlength, hprices⟩ := hfacts
  have hstrategy : simpleStrategy sampleConfig (SimpleStrategy.sampleInstrumentInfo "0.01") =
      .ok RecordedRunner.sampleQuotes := eq_ok_of_toOption (by decide +kernel)
  obtain ⟨steps, threads, log, hsteps, homs, -, -, hevents, -, -⟩ :=
    exists_run_of_market rfl hstrategy ⟨"25", by decide +kernel⟩ hmessages hrun hprices
  exact ⟨steps, threads, log, final, hrun, hsteps, homs, hevents, hlength⟩

end MarketMaker
