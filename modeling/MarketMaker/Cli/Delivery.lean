import MarketMaker.Cli.Threads
import MarketMaker.Strategy.Ticks

/-!
# What passes through the channels

The log of a run is read channel by channel and thread by thread.  Whatever the order of the steps,
the order management system works through the orders issued by the strategy and the events sent to
it, each once and in the order of the sends, and is in the state of its loop on these inputs; the
recorder is in the state of the markout engine on the events and the books it took, and of the books
it misses only such as were replaced by a newer one.
-/

namespace MarketMaker

variable {F : Type}

namespace Activity

def issued : Activity F → List (OrderBuilder F)
  | .executed _ _ _ orders => orders
  | _ => []

def forwarded : Activity F → List (OrderBuilder F)
  | .turn (.forward _ order) _ _ => [order]
  | _ => []

/-- Events sent to the order management system, by the private stream or by the gateway. -/
def sentToOms : Activity F → List (OrderEvent F)
  | .toOms event => [event]
  | .answered _ _ events => events
  | _ => []

def takenByOms : Activity F → List (OrderEvent F)
  | .turn (.event event) _ _ => [event]
  | _ => []

def sentToRecorder : Activity F → List (OrderEvent F)
  | .toRecorder event => [event]
  | _ => []

def takenByRecorder : Activity F → List (OrderEvent F)
  | .handled event => [event]
  | _ => []

def pushedBook : Activity F → List (OrderBook F)
  | .pushed orderBook => [orderBook]
  | _ => []

def processedBook : Activity F → List (OrderBook F)
  | .processed orderBook _ => [orderBook]
  | _ => []

def configuration : Activity F → List (OmsConfig F)
  | .constructed omsConfig => [omsConfig]
  | _ => []

def omsInput : Activity F → List (OmsInput F)
  | .turn input _ _ => [input]
  | _ => []

def omsEffects : Activity F → List (List (Effect F))
  | .turn _ effects _ => [effects]
  | _ => []

def markoutInput : Activity F → List (MarkoutInput F)
  | .processed orderBook _ => [.processOrderBook orderBook]
  | .handled (.executionUpdate execution) => [.updateTrades execution]
  | _ => []

def markouts : Activity F → List (List (CompletedMarkout F))
  | .processed _ markouts => [markouts]
  | .handled (.executionUpdate _) => [[]]
  | _ => []

end Activity

namespace Threads

open Activity

variable [F64 F] [F64Format F] [Add F] [Sub F] [Mul F] [Div F] [Neg F] [LT F] [DecidableLT F]
  [LE F] [DecidableLE F] [BEq F] [DecidableEq F] [OfScientific F]

variable {threads next : Threads F} {move : ThreadStep F} {log : List (Activity F)}

namespace Transition

theorem strategyOrders (htransition : threads.Transition move next log) :
    threads.strategyOrders ++ log.flatMap issued =
      log.flatMap forwarded ++ next.strategyOrders := by
  cases htransition <;> simp_all [issued, forwarded]

theorem orderEvents (htransition : threads.Transition move next log) :
    threads.orderEvents ++ log.flatMap sentToOms = log.flatMap takenByOms ++ next.orderEvents := by
  cases htransition <;> simp_all [sentToOms, takenByOms]

theorem recorderEvents (htransition : threads.Transition move next log) :
    threads.recorderEvents ++ log.flatMap sentToRecorder =
      log.flatMap takenByRecorder ++ next.recorderEvents := by
  cases htransition <;> simp_all [sentToRecorder, takenByRecorder]

theorem orderBookQueue (htransition : threads.Transition move next log) :
    Machine.SlotStep threads.orderBookQueue (log.flatMap pushedBook) (log.flatMap processedBook)
      next.orderBookQueue := by
  cases htransition with
  | push => exact .write _
  | @pollOrderBook orderBook _ _ _ hfull =>
    rw [hfull]
    exact .take
  | _ => exact .idle

theorem recorder (htransition : threads.Transition move next log) :
    Machine.run MarkoutEngine.step threads.recorder (log.flatMap markoutInput) =
      some (next.recorder, log.flatMap markouts) := by
  cases htransition with
  | pollOrderBook hphase hfull hprocess =>
    simp [markoutInput, markouts, Machine.run, MarkoutEngine.step, hprocess]
  | @receiveEvent event => cases event <;> rfl
  | _ => rfl

/-- The thread of the order management system constructs it once, and then its loop takes turns. -/
theorem oms (htransition : threads.Transition move next log) :
    (next.oms = threads.oms ∧ log.flatMap configuration = [] ∧ log.flatMap omsInput = [] ∧
      log.flatMap omsEffects = []) ∨
    (∃ omsConfig walletBalance recentTrade nowMicros, threads.oms = none ∧
      next.oms = some (OrderManagementSystem.new omsConfig).1 ∧
      Threads.omsConfig threads.config walletBalance recentTrade nowMicros = .ok omsConfig ∧
      log.flatMap configuration = [omsConfig] ∧ log.flatMap omsInput = [] ∧
      log.flatMap omsEffects = []) ∨
    ∃ before after input effects, threads.oms = some before ∧ next.oms = some after ∧
      before.step input = some (after, effects) ∧ log.flatMap configuration = [] ∧
      log.flatMap omsInput = [input] ∧ log.flatMap omsEffects = [effects] := by
  cases htransition with
  | constructOms hnone hconfig =>
    exact .inr (.inl ⟨_, _, _, _, hnone, rfl, hconfig, rfl, rfl, rfl⟩)
  | takeOrder homs hnext hturn => exact .inr (.inr ⟨_, _, _, _, homs, rfl, hturn, rfl, rfl, rfl⟩)
  | takeEvent homs hnext hturn => exact .inr (.inr ⟨_, _, _, _, homs, rfl, hturn, rfl, rfl, rfl⟩)
  | _ => exact .inl ⟨rfl, rfl, rfl, rfl⟩

/-- Orders are forwarded under the risk manager. -/
theorem riskPolicy (htransition : threads.Transition move next log) {policy : RiskPolicy F}
    {order : OrderBuilder F} (hmem : .forward policy order ∈ log.flatMap omsInput) :
    policy = RiskManager.evaluateOrder := by
  cases htransition with
  | takeOrder => simp_all [omsInput]
  | _ => simp [omsInput] at hmem

theorem config (htransition : threads.Transition move next log) : next.config = threads.config := by
  cases htransition <;> rfl

end Transition

variable {config : AppConfig F} {steps : List (ThreadStep F)}

theorem config_of_run (hrun : run (new config) steps = some (threads, log)) :
    threads.config = config := by
  apply Machine.play_history (motive := fun _ threads ↦ threads.config = config) rfl _ hrun
  intro _ current move next output hconfig hstep
  rw [(transition_of_step hstep).config, hconfig]

/-! ## The channels -/

/-- What is still to be sent is the end of a message. -/
theorem sends_of_run (hrun : run (new config) steps = some (threads, log)) :
    ∀ sends, threads.privateSends = some sends →
      ∃ response, sends <:+ PrivateWebSocket.sends response := by
  apply Machine.play_history (motive := fun _ threads ↦ ∀ sends,
    threads.privateSends = some sends →
      ∃ response, sends <:+ PrivateWebSocket.sends response) _ _ hrun
  · intro sends hsends
    obtain rfl := Option.some.inj hsends
    exact ⟨.pong, List.nil_suffix⟩
  · intro log current move next output hcurrent hstep sends hsends
    cases transition_of_step hstep with
    | @privateResponse response =>
      obtain rfl := Option.some.inj hsends
      exact ⟨response, List.suffix_refl _⟩
    | sendToOms hnext | sendToRecorder hnext =>
      obtain rfl := Option.some.inj hsends
      obtain ⟨response, hsuffix⟩ := hcurrent _ hnext
      exact ⟨response, (List.suffix_cons _ _).trans hsuffix⟩
    | privateReturn => cases hsends
    | _ => exact hcurrent sends hsends

theorem strategyOrders_of_run (hrun : run (new config) steps = some (threads, log)) :
    log.flatMap issued = log.flatMap forwarded ++ threads.strategyOrders :=
  Machine.log_eq_of_play (fun _ _ _ _ hstep ↦ (transition_of_step hstep).strategyOrders) rfl hrun

theorem orderEvents_of_run (hrun : run (new config) steps = some (threads, log)) :
    log.flatMap sentToOms = log.flatMap takenByOms ++ threads.orderEvents :=
  Machine.log_eq_of_play (fun _ _ _ _ hstep ↦ (transition_of_step hstep).orderEvents) rfl hrun

theorem recorderEvents_of_run (hrun : run (new config) steps = some (threads, log)) :
    log.flatMap sentToRecorder = log.flatMap takenByRecorder ++ threads.recorderEvents :=
  Machine.log_eq_of_play (fun _ _ _ _ hstep ↦ (transition_of_step hstep).recorderEvents) rfl hrun

theorem orderBookQueue_of_run (hrun : run (new config) steps = some (threads, log)) :
    Machine.Tracks (log.flatMap pushedBook) (log.flatMap processedBook) threads.orderBookQueue :=
  Machine.tracks_of_play (fun _ _ _ _ hstep ↦ (transition_of_step hstep).orderBookQueue) rfl hrun

theorem recorder_of_run (hrun : run (new config) steps = some (threads, log)) :
    Machine.run MarkoutEngine.step MarkoutEngine.new (log.flatMap markoutInput) =
      some (threads.recorder, log.flatMap markouts) :=
  Machine.component_of_play (fun _ _ _ _ hstep ↦ (transition_of_step hstep).recorder) hrun

/-! ## The order management system -/

/-- The order management system has run its loop on the inputs in the log, from the configuration in
the log; before its construction there are none. -/
def OmsRuns (threads : Threads F) (log : List (Activity F)) : Prop :=
  (threads.oms = none ∧ log.flatMap configuration = [] ∧ log.flatMap omsInput = [] ∧
    log.flatMap omsEffects = []) ∨
  ∃ oms omsConfig walletBalance recentTrade nowMicros, threads.oms = some oms ∧
    Threads.omsConfig threads.config walletBalance recentTrade nowMicros = .ok omsConfig ∧
    log.flatMap configuration = [omsConfig] ∧
    (OrderManagementSystem.new omsConfig).1.cycle (log.flatMap omsInput) =
      some (oms, log.flatMap omsEffects)

theorem OmsRuns.after {output : List (Activity F)} (hruns : threads.OmsRuns log)
    (htransition : threads.Transition move next output) : next.OmsRuns (log ++ output) := by
  unfold OmsRuns
  simp only [List.flatMap_append, htransition.config]
  obtain ⟨homs, hconfiguration, hinput, heffects⟩ | ⟨omsConfig, walletBalance, recentTrade,
    nowMicros, hnone, homs, hconfig, hconfiguration, hinput, heffects⟩ | ⟨before, after, input,
    effects, hbefore, hafter, hturn, hconfiguration, hinput, heffects⟩ := htransition.oms
  · simp only [homs, hconfiguration, hinput, heffects, List.append_nil]
    exact hruns
  · right
    obtain ⟨-, hnoConfig, hnoInput, hnoEffects⟩ | ⟨oms, _, _, _, _, hsome, -⟩ := hruns
    · refine ⟨_, omsConfig, walletBalance, recentTrade, nowMicros, homs, hconfig, ?_, ?_⟩
      · rw [hnoConfig, hconfiguration, List.nil_append]
      · rw [hnoInput, hinput, hnoEffects, heffects]
        rfl
    · simp [hsome] at hnone
  · right
    obtain ⟨hnone, -⟩ | ⟨oms, omsConfig, walletBalance, recentTrade, nowMicros, hsome, hconfig,
      hlogged, hcycle⟩ := hruns
    · simp [hnone] at hbefore
    · obtain rfl := Option.some.inj (hbefore.symm.trans hsome)
      refine ⟨after, omsConfig, walletBalance, recentTrade, nowMicros, hafter, hconfig, ?_, ?_⟩
      · rw [hlogged, hconfiguration, List.append_nil]
      · rw [hinput, heffects]
        exact Machine.run_concat hcycle hturn

theorem omsRuns_of_run (hrun : run (new config) steps = some (threads, log)) :
    threads.OmsRuns log := by
  apply Machine.play_history (motive := fun log threads ↦ threads.OmsRuns log) _ _ hrun
  · exact .inl ⟨rfl, rfl, rfl, rfl⟩
  · intro log current move next output hruns hstep
    exact hruns.after (transition_of_step hstep)

theorem riskPolicy_of_run (hrun : run (new config) steps = some (threads, log))
    {policy : RiskPolicy F} {order : OrderBuilder F}
    (hmem : .forward policy order ∈ log.flatMap omsInput) : policy = RiskManager.evaluateOrder := by
  revert hmem
  apply Machine.play_history (motive := fun log _ ↦ .forward policy order ∈ log.flatMap omsInput →
    policy = RiskManager.evaluateOrder) _ _ hrun
  · simp
  · intro log current move next output hlog hstep hmem
    rw [List.flatMap_append, List.mem_append] at hmem
    exact hmem.elim hlog (transition_of_step hstep).riskPolicy

/-- In every interleaving the order management system is in the state of its loop, started from the
balances, on the orders of the strategy and the events sent to it: each was taken once and in the
order of the sends, or is still queued, and orders are forwarded under the risk manager. -/
theorem oms_follows_channels (hrun : run (new config) steps = some (threads, log))
    {oms : OrderManagementSystem F} (homs : threads.oms = some oms) :
    (∃ omsConfig walletBalance recentTrade nowMicros,
      Threads.omsConfig config walletBalance recentTrade nowMicros = .ok omsConfig ∧
      log.flatMap configuration = [omsConfig] ∧
      (OrderManagementSystem.new omsConfig).1.cycle (log.flatMap omsInput) =
        some (oms, log.flatMap omsEffects)) ∧
    (∀ policy order, .forward policy order ∈ log.flatMap omsInput →
      policy = RiskManager.evaluateOrder) ∧
    log.flatMap issued = log.flatMap forwarded ++ threads.strategyOrders ∧
    log.flatMap sentToOms = log.flatMap takenByOms ++ threads.orderEvents := by
  refine ⟨?_, fun _ _ hmem ↦ riskPolicy_of_run hrun hmem, strategyOrders_of_run hrun,
    orderEvents_of_run hrun⟩
  obtain ⟨hnone, -⟩ | ⟨other, omsConfig, walletBalance, recentTrade, nowMicros, hsome, hconfig,
    hlogged, hcycle⟩ := omsRuns_of_run hrun
  · simp [hnone] at homs
  · obtain rfl := Option.some.inj (homs.symm.trans hsome)
    rw [config_of_run hrun] at hconfig
    exact ⟨omsConfig, walletBalance, recentTrade, nowMicros, hconfig, hlogged, hcycle⟩

/-! ## A sample run -/

def sampleConfig : AppConfig ℚ :=
  { symbol := "ADAUSDT", coin := "ADA", orderSize := 25, testnet := true
    credentials := { apiKey := "key", apiSecret := "secret" }, logFilter := "warn"
    logStyle := .always }

def sampleBalance : Value :=
  .object [("retCode", .number (some 0)), ("retMsg", .string "OK"),
    ("result", .object [("list", .array [.object [("coin", .array [.object
      [("coin", .string "ADA"), ("equity", .string "0")]])]])])]

def sampleFill : Execution :=
  { orderId := "order-1", side := "Buy", orderPrice := "99.98", orderLinkId := "90"
    execId := "exec-1", execTime := "2000", execQty := "25", execPrice := "99.98"
    execFee := "0.1", leavesQty := "0" }

/-- Both quotes are submitted, the second submission fails and the first order is filled, before its
own answer is there. -/
def sampleSteps : List (ThreadStep ℚ) :=
  [.constructOms sampleBalance .null 90,
    .constructStrategy (SimpleStrategy.sampleInstrumentInfo "0.01"), .startStrategy,
    .publicResponse PublicWebSocket.sampleSnapshot, .publicSend, .pollInventory, .execute,
    .publicSend, .takeOrder, .takeOrder, .answer 1 .transportError, .takeEvent,
    .privateResponse (.execution [sampleFill]), .privateSend, .privateSend, .takeEvent,
    .pollOrderBook, .receiveEvent]

theorem exists_sampleSteps : ∃ threads log oms, run (new sampleConfig) sampleSteps =
    some (threads, log) ∧ threads.oms = some oms := by
  have hrun : ((run (new sampleConfig) sampleSteps).bind fun result ↦ result.1.oms).isSome := by
    decide +kernel
  obtain ⟨oms, hrun⟩ := Option.isSome_iff_exists.mp hrun
  obtain ⟨⟨threads, log⟩, hrun, homs⟩ := Option.bind_eq_some_iff.mp hrun
  exact ⟨threads, log, oms, hrun, homs⟩

theorem oms_follows_channels_sample : ∃ threads log oms,
    run (new sampleConfig) sampleSteps = some (threads, log) ∧ threads.oms = some oms ∧
    (∃ omsConfig, log.flatMap configuration = [omsConfig] ∧
      (OrderManagementSystem.new omsConfig).1.cycle (log.flatMap omsInput) =
        some (oms, log.flatMap omsEffects)) ∧
    log.flatMap issued = log.flatMap forwarded ++ threads.strategyOrders ∧
    log.flatMap sentToOms = log.flatMap takenByOms ++ threads.orderEvents := by
  obtain ⟨threads, log, oms, hrun, homs⟩ := exists_sampleSteps
  obtain ⟨⟨omsConfig, _, _, _, -, hlogged, hcycle⟩, -, horders, hevents⟩ :=
    oms_follows_channels hrun homs
  exact ⟨threads, log, oms, hrun, homs, ⟨omsConfig, hlogged, hcycle⟩, horders, hevents⟩

end Threads

end MarketMaker
