import MarketMaker.Cli.Quotes
import MarketMaker.Cli.Submissions

/-!
# What leaves the bot

The strategy asks for orders; what reaches the exchange are requests, built by the gateway after the
risk manager has decided.  In every interleaving the requests about orders carry orders that the
strategy issued, of the configured symbol and size, in the order of their issue and each at most
once, and an amendment changes an order that an earlier request submitted on the same side.
-/

namespace MarketMaker

variable {F : Type}

def Request.aboutOrder : Request F → Bool
  | .submit _ _ | .amend _ _ => true
  | .repay => false

/-- A request about an order names the symbol, and a quantity that it carries is the size. -/
def Request.OrderedAs (symbol : String) (size : F) : Request F → Prop
  | .submit _ body => body.symbol = symbol ∧ body.qty = size
  | .amend _ body => body.symbol = symbol ∧ (body.qty = none ∨ body.qty = some size)
  | .repay => True

def Activity.orderRequests : Activity F → List (Request F)
  | .turn _ _ requests => requests.filter Request.aboutOrder
  | _ => []

open Activity in
theorem orderRequests_eq (log : List (Activity F)) :
    log.flatMap orderRequests = (log.flatMap requested).filter Request.aboutOrder := by
  rw [List.filter_flatMap]
  congr 1
  funext activity
  cases activity <;> rfl

section Requests

variable [F64 F] [F64Format F] [LT F] [DecidableLT F] [OfScientific F]

/-- A request that carries a wanted order: the submission of the order, or an amendment that brings
the price, the quantity or both of an order submitted earlier on its side to those of the order. -/
inductive Request.Carries (earlier : List (Request F)) (order : OrderBuilder F) : Request F → Prop
  | submit {orderLinkId body} (hbody : OrderHandler.submitOrderBody order orderLinkId = .ok body)
      (hid : body.orderLinkId = toString orderLinkId) (hsymbol : body.symbol = order.symbol)
      (hside : body.side = order.side) (htype : body.orderType = order.orderType)
      (hqty : body.qty = order.qty) (hprice : body.price = order.price) :
      Carries earlier order (.submit orderLinkId body)
  | amend {orderLinkId newPrice newQty first body} (hchange : newPrice = true ∨ newQty = true)
      (hbody : OrderHandler.amendOrderBody
        { symbol := order.symbol, orderLinkId, qty := order.qty, price := order.price
          newPrice, newQty } = .ok body)
      (hid : body.orderLinkId = toString orderLinkId) (hsymbol : body.symbol = order.symbol)
      (hqty : body.qty = if newQty then some order.qty else none)
      (hprice : body.price = if newPrice then some order.price else none)
      (hfirst : .submit orderLinkId first ∈ earlier) (hside : first.side = order.side) :
      Carries earlier order (.amend orderLinkId body)

/-- Requests that carry wanted orders, one each. -/
inductive Carried : List (OrderBuilder F) → List (Request F) → Prop
  | nil : Carried [] []
  | snoc {orders requests order request} (hcarried : Carried orders requests)
      (hcarries : Request.Carries requests order request) :
      Carried (orders ++ [order]) (requests ++ [request])

theorem Request.Carries.of_submitOrderBody {earlier : List (Request F)} {order : OrderBuilder F}
    {orderLinkId : UInt64} {body : SubmitOrderBody F}
    (hbody : OrderHandler.submitOrderBody order orderLinkId = .ok body) :
    Carries earlier order (.submit orderLinkId body) := by
  obtain rfl := OrderHandler.submitOrderBody_eq hbody
  exact .submit hbody rfl rfl rfl rfl rfl rfl

theorem Request.Carries.of_amendOrderBody {earlier : List (Request F)} {order : OrderBuilder F}
    {orderLinkId : UInt64} {newPrice newQty : Bool} {first : SubmitOrderBody F}
    {body : AmendOrderBody F} (hchange : newPrice = true ∨ newQty = true)
    (hbody : OrderHandler.amendOrderBody
      { symbol := order.symbol, orderLinkId, qty := order.qty, price := order.price
        newPrice, newQty } = .ok body)
    (hfirst : .submit orderLinkId first ∈ earlier) (hside : first.side = order.side) :
    Carries earlier order (.amend orderLinkId body) := by
  obtain rfl := OrderHandler.amendOrderBody_eq hbody
  exact .amend hchange hbody rfl rfl rfl rfl hfirst hside

theorem Request.Carries.orderedAs {earlier : List (Request F)} {order : OrderBuilder F}
    {request : Request F} (hcarries : request.Carries earlier order) :
    request.OrderedAs order.symbol order.qty := by
  cases hcarries with
  | submit _ _ hsymbol _ _ hqty => exact ⟨hsymbol, hqty⟩
  | @amend _ _ newQty _ _ _ _ _ hsymbol hqty =>
    refine ⟨hsymbol, ?_⟩
    cases newQty with
    | false => exact .inl hqty
    | true => exact .inr hqty

theorem Carried.exists_order {orders : List (OrderBuilder F)} {requests : List (Request F)}
    (hcarried : Carried orders requests) {request : Request F} (hmem : request ∈ requests) :
    ∃ order ∈ orders, ∃ earlier, request.Carries earlier order := by
  induction hcarried with
  | nil => cases hmem
  | snoc _ hcarries ih =>
    obtain hmem | hlast := List.mem_append.mp hmem
    · obtain ⟨order, horder, hearlier⟩ := ih hmem
      exact ⟨order, List.mem_append_left _ horder, hearlier⟩
    · obtain rfl := List.mem_singleton.mp hlast
      exact ⟨_, List.mem_append_right _ (List.mem_singleton_self _), _, hcarries⟩

/-- A call on the gateway that was dispatched is among the requests. -/
theorem OrderHandler.dispatch_of_mem {effects : List (Effect F)}
    {requests : List (Option (Request F))}
    (hrequests : effects.mapM OrderHandler.dispatch = .ok requests) {effect : Effect F}
    (hmem : effect ∈ effects) : ∃ request ∈ requests, dispatch effect = .ok request := by
  induction effects generalizing requests with
  | nil => cases hmem
  | cons head rest ih =>
    simp only [List.mapM_cons, bind_eq_ok] at hrequests
    obtain ⟨request, hrequest, later, hlater, heq⟩ := hrequests
    obtain rfl := Except.ok.inj heq
    obtain rfl | hmem := List.mem_cons.mp hmem
    · exact ⟨request, List.mem_cons_self .., hrequest⟩
    · obtain ⟨found, hfound, hdispatch⟩ := ih hlater hmem
      exact ⟨found, List.mem_cons_of_mem _ hfound, hdispatch⟩

theorem OrderHandler.submit_of_mem {effects : List (Effect F)}
    {requests : List (Option (Request F))}
    (hrequests : effects.mapM OrderHandler.dispatch = .ok requests) {order : OrderBuilder F}
    {orderLinkId : UInt64} (hmem : .submitOrder order orderLinkId ∈ effects) :
    ∃ body : SubmitOrderBody F, .submit orderLinkId body ∈ requests.reduceOption ∧
      body.side = order.side := by
  obtain ⟨request, hrequest, hdispatch⟩ := dispatch_of_mem hrequests hmem
  obtain ⟨body, hbody, rfl⟩ := map_eq_ok.mp hdispatch
  refine ⟨body, List.mem_filterMap.mpr ⟨_, hrequest, rfl⟩, ?_⟩
  rw [submitOrderBody_eq hbody]

end Requests

/-- An amendment that is sent changes something. -/
theorem RiskManager.changes_of_evaluateOrder [F64 F] [LE F] [DecidableLE F] [BEq F] [Neg F]
    [OfScientific F] {orders : List (Order F)} {newOrder : OrderBuilder F}
    {inventory averageEntryPrice : F} {amended : OrderAmendedBuilder F}
    (h : evaluateOrder orders newOrder inventory averageEntryPrice = some (.amendOrder amended)) :
    amended.newPrice = true ∨ amended.newQty = true := by
  unfold evaluateOrder at h
  split_ifs at h
  · cases Option.some.inj h
  · cases Option.some.inj h
  · obtain ⟨newOrderPrice, -, h⟩ := Option.bind_eq_some_iff.mp h
    split at h
    · cases Option.some.inj h
    · simp only at h
      split_ifs at h with _ hsame
      · cases Option.some.inj h
      · cases Option.some.inj h
      · obtain rfl := Outcome.amendOrder.inj (Option.some.inj h)
        simpa only [Bool.and_eq_true, Bool.not_eq_true', not_and_or, Bool.not_eq_false] using hsame

namespace Threads

open Activity

variable [F64 F] [F64Format F] [Add F] [Sub F] [Mul F] [Div F] [Neg F] [LT F] [DecidableLT F]
  [LE F] [DecidableLE F] [BEq F] [DecidableEq F] [OfScientific F]

variable {threads next : Threads F} {move : ThreadStep F} {log output : List (Activity F)}
  {config : AppConfig F} {steps : List (ThreadStep F)}

/-- The calls that submit lead to the requests that do. -/
theorem submit_of_run (hrun : run (new config) steps = some (threads, log))
    {order : OrderBuilder F} {orderLinkId : UInt64}
    (hmem : .submitOrder order orderLinkId ∈ (log.flatMap omsEffects).flatten) :
    ∃ body : SubmitOrderBody F, .submit orderLinkId body ∈ log.flatMap orderRequests ∧
      body.side = order.side := by
  revert hmem
  apply Machine.play_history (motive := fun log _ ↦
    .submitOrder order orderLinkId ∈ (log.flatMap omsEffects).flatten →
      ∃ body : SubmitOrderBody F, .submit orderLinkId body ∈ log.flatMap orderRequests ∧
        body.side = order.side) _ _ hrun
  · intro hmem
    cases hmem
  · intro log current move next output hlog hstep hmem
    rw [List.flatMap_append, List.flatten_append, List.mem_append] at hmem
    rw [List.flatMap_append]
    obtain hmem | hmem := hmem
    · obtain ⟨body, hbody, hside⟩ := hlog hmem
      exact ⟨body, List.mem_append_left _ hbody, hside⟩
    · cases transition_of_step hstep with
      | takeOrder _ _ _ hrequests | takeEvent _ _ _ hrequests =>
        simp only [omsEffects, List.flatMap_cons, List.flatMap_nil, List.append_nil,
          List.flatten_cons, List.flatten_nil] at hmem
        obtain ⟨body, hbody, hside⟩ := OrderHandler.submit_of_mem hrequests hmem
        refine ⟨body, List.mem_append_right _ ?_, hside⟩
        simpa [orderRequests, Request.aboutOrder] using hbody
      | _ => cases hmem

omit [Neg F] [LE F] [DecidableLE F] [DecidableEq F] in
/-- An event leads to no request about an order. -/
theorem orderRequests_of_event {oms after : OrderManagementSystem F} {event : OrderEvent F}
    {effects : List (Effect F)} {requests : List (Option (Request F))}
    (hturn : oms.Transition (.event event) after effects)
    (hrequests : effects.mapM OrderHandler.dispatch = .ok requests) :
    requests.reduceOption.filter Request.aboutOrder = [] := by
  cases hturn with
  | update | failure | discard =>
    obtain rfl := Except.ok.inj hrequests
    rfl
  | execution =>
    unfold OrderManagementSystem.settlement at hrequests
    split_ifs at hrequests <;> obtain rfl := Except.ok.inj hrequests <;> rfl

/-- A forward leads to one request at most, which carries the order. -/
theorem orderRequests_of_forward (hrun : run (new config) steps = some (threads, log))
    {oms after : OrderManagementSystem F} (homs : threads.oms = some oms)
    {order : OrderBuilder F} {effects : List (Effect F)} {requests : List (Option (Request F))}
    (hturn : oms.Transition (.forward RiskManager.evaluateOrder order) after effects)
    (hrequests : effects.mapM OrderHandler.dispatch = .ok requests) :
    requests.reduceOption.filter Request.aboutOrder = [] ∨
      ∃ request, requests.reduceOption.filter Request.aboutOrder = [request] ∧
        request.Carries (log.flatMap orderRequests) order := by
  cases hturn with
  | hold =>
    obtain rfl := Except.ok.inj hrequests
    exact .inl rfl
  | submit hpolicy =>
    obtain hnothing | ⟨hnew, -⟩ | ⟨_, _, -, -, -, hamend⟩ :=
      RiskManager.evaluateOrder_cases hpolicy
    · cases hnothing
    · obtain rfl := Outcome.newOrder.inj hnew
      simp only [List.mapM_cons, List.mapM_nil, OrderHandler.dispatch, bind_eq_ok,
        map_eq_ok] at hrequests
      obtain ⟨_, ⟨body, hbody, rfl⟩, _, hnil, heq⟩ := hrequests
      obtain rfl := Except.ok.inj hnil
      obtain rfl := Except.ok.inj heq
      exact .inr ⟨_, rfl, .of_submitOrderBody hbody⟩
    · cases hamend
  | amend hpolicy =>
    have hchange := RiskManager.changes_of_evaluateOrder hpolicy
    obtain hnothing | ⟨hnew, -⟩ | ⟨price, existing, -, hexisting, -, hamend⟩ :=
      RiskManager.evaluateOrder_cases hpolicy
    · cases hnothing
    · cases hnew
    · obtain rfl := Outcome.amendOrder.inj hamend
      simp only [List.mapM_cons, List.mapM_nil, OrderHandler.dispatch, bind_eq_ok,
        map_eq_ok] at hrequests
      obtain ⟨_, ⟨body, hbody, rfl⟩, _, hnil, heq⟩ := hrequests
      obtain rfl := Except.ok.inj hnil
      obtain rfl := Except.ok.inj heq
      obtain ⟨hmem, -, hside⟩ := RiskManager.mem_of_getExistingOrder hexisting
      obtain ⟨hnone, -⟩ | ⟨_, _, _, _, _, hsome, -, -, hcycle⟩ := omsRuns_of_run hrun
      · simp [hnone] at homs
      obtain rfl := Option.some.inj (homs.symm.trans hsome)
      obtain ⟨builder, hsubmit, hbuilder⟩ := OrderManagementSystem.exists_submitOrder hcycle hmem
      obtain ⟨first, hfirst, hfirstSide⟩ := submit_of_run hrun hsubmit
      refine .inr ⟨_, rfl, .of_amendOrderBody hchange hbody hfirst ?_⟩
      rw [hfirstSide, hbuilder, hside]

/-- What the strategy issues has the configured symbol and size. -/
theorem issued_of_run (hrun : run (new config) steps = some (threads, log))
    {order : OrderBuilder F} (hmem : order ∈ log.flatMap issued) :
    order.symbol = config.symbol ∧ order.qty = config.orderSize ∧ order.orderType = .limit := by
  obtain ⟨activity, hactivity, hmem⟩ := List.mem_flatMap.mp hmem
  cases activity with
  | executed strategy orderBook inventory orders =>
    obtain ⟨before, after, hlog⟩ := List.append_of_mem hactivity
    obtain ⟨hexecute, ⟨instrumentsInfo, hstrategy⟩, -⟩ :=
      quotesCurrent_of_run hrun before _ after hlog
    obtain ⟨info, hinfo, hnew⟩ := bind_eq_ok.mp hstrategy
    obtain ⟨rfl, -⟩ := SimpleStrategy.new_eq_ok hnew
    obtain ⟨side, price, rfl⟩ := SimpleStrategy.exists_quote hexecute hmem
    exact ⟨symbol_of_processInstrumentInfoResponse hinfo, rfl, rfl⟩
  | _ => cases hmem

theorem carried_of_run (hrun : run (new config) steps = some (threads, log)) :
    ∃ orders, Carried orders (log.flatMap orderRequests) ∧
      orders.Sublist (log.flatMap forwarded) := by
  apply Machine.play_induction (motive := fun log _ ↦ ∃ orders,
    Carried orders (log.flatMap orderRequests) ∧ orders.Sublist (log.flatMap forwarded)) _ _ hrun
  · exact ⟨[], .nil, List.Sublist.refl _⟩
  · intro first log current move next output hfirst hcarried hstep
    obtain ⟨orders, hcarried, hsublist⟩ := hcarried
    rw [List.flatMap_append, List.flatMap_append]
    have hkept : orders.Sublist (log.flatMap forwarded ++ output.flatMap forwarded) :=
      hsublist.trans (List.sublist_append_left _ _)
    cases transition_of_step hstep with
    | @takeOrder _ order _ _ _ _ homs _ hturn hrequests =>
      obtain hnone | ⟨request, hone, hcarries⟩ := orderRequests_of_forward hfirst homs
        (OrderManagementSystem.transition_of_step hturn) hrequests
      · refine ⟨orders, ?_, hkept⟩
        simpa [orderRequests, hnone] using hcarried
      · refine ⟨orders ++ [order], ?_, hsublist.append (List.Sublist.refl [order])⟩
        simpa [orderRequests, hone] using hcarried.snoc hcarries
    | takeEvent _ _ hturn hrequests =>
      refine ⟨orders, ?_, hkept⟩
      have hnone := orderRequests_of_event
        (OrderManagementSystem.transition_of_step hturn) hrequests
      simpa [orderRequests, hnone] using hcarried
    | _ => exact ⟨orders, by simpa [orderRequests] using hcarried, hkept⟩

/-- In every interleaving the requests about orders carry orders that the strategy issued, in its
order and each at most once: a submission carries the order itself, an amendment changes an order
that an earlier request submitted on the same side; and every order has the configured symbol and
size. -/
theorem requests_carry_orders (hrun : run (new config) steps = some (threads, log)) :
    ∃ orders, Carried orders (log.flatMap orderRequests) ∧ orders.Sublist (log.flatMap issued) ∧
      ∀ order ∈ orders,
        order.symbol = config.symbol ∧ order.qty = config.orderSize ∧ order.orderType = .limit := by
  obtain ⟨orders, hcarried, hsublist⟩ := carried_of_run hrun
  have hissued : orders.Sublist (log.flatMap issued) := by
    rw [strategyOrders_of_run hrun]
    exact hsublist.trans (List.sublist_append_left _ _)
  exact ⟨orders, hcarried, hissued, fun order hmem ↦ issued_of_run hrun (hissued.subset hmem)⟩

/-- Both quotes are submitted, the first is acknowledged, and it is amended after the book has
moved. -/
def sampleAmendment : List (ThreadStep ℚ) :=
  let snapshot := PublicWebSocket.sampleSnapshot
  sampleSteps.take 10 ++
    [.privateResponse (.order
        [{ orderLinkId := "90", orderStatus := "New", qty := "25", price := "99.98"
           cumExecQty := "0", avgPrice := "", updatedTime := "1500" }]), .privateSend, .takeEvent,
      .publicResponse { snapshot with data := { snapshot.data with b := [⟨"98", "3"⟩] } },
      .publicSend, .pollInventory, .execute, .takeOrder]

theorem requests_carry_orders_sample : ∃ threads log,
    run (new sampleConfig) sampleAmendment = some (threads, log) ∧
    ∃ orders, Carried orders (log.flatMap orderRequests) ∧ orders.Sublist (log.flatMap issued) ∧
      (log.flatMap orderRequests).map Request.submission = [some 90, some 91, none] := by
  have hsample : (run (new sampleConfig) sampleAmendment).any fun result ↦
      decide ((result.2.flatMap orderRequests).map Request.submission =
        [some 90, some 91, none]) := by
    decide +kernel
  obtain ⟨⟨threads, log⟩, hrun, hrequests⟩ := (Option.any_eq_true ..).mp hsample
  obtain ⟨orders, hcarried, hsublist, -⟩ := requests_carry_orders hrun
  exact ⟨threads, log, hrun, orders, hcarried, hsublist, of_decide_eq_true hrequests⟩

/-! ## From the environment to the exchange -/

/-- What the variables hold is what the exchange is asked for: in every run of the bot from a loaded
configuration every request about an order has the symbol of `MMA_SYMBOL`, and a quantity in it is
the number in `MMA_ORDER_SIZE`; neither the strategy nor the gateway ever refuses that size. -/
theorem requests_of_load {env : Environment} {dotenv secrets : Option (List (String × String))}
    {config : AppConfig ℚ} {steps : List (ThreadStep ℚ)} {threads : Threads ℚ}
    {log : List (Activity ℚ)} (hload : AppConfig.load env dotenv secrets = .ok config)
    (hrun : run (new config) steps = some (threads, log)) :
    ∃ loaded symbol text size, AppConfig.loadFiles env dotenv secrets = .ok loaded ∧
      loaded "MMA_SYMBOL" = some symbol ∧ loaded "MMA_ORDER_SIZE" = some text ∧
      F64.fromStr text = some size ∧
      (∀ request ∈ log.flatMap requested, request.OrderedAs symbol size) ∧
      (∀ order ∈ log.flatMap issued, OrderHandler.serializeQuantity order.qty = .ok size) ∧
      ∀ instrumentInfo, ∃ strategy, SimpleStrategy.new size instrumentInfo = .ok strategy := by
  obtain ⟨loaded, hfiles, hreads⟩ := AppConfig.reads_of_load hload
  obtain ⟨text, htext, -, hsize⟩ := hreads.orderSize
  have hpositive := hreads.orderSize_pos
  refine ⟨loaded, config.symbol, text, config.orderSize, hfiles, hreads.symbol.1, htext, hsize,
    ?_, ?_, ?_⟩
  · intro request hmem
    cases habout : request.aboutOrder with
    | false =>
      cases request with
      | submit | amend => cases habout
      | repay => trivial
    | true =>
      obtain ⟨orders, hcarried, hsublist⟩ := carried_of_run hrun
      have horder : request ∈ log.flatMap orderRequests := by
        rw [orderRequests_eq]
        exact List.mem_filter.mpr ⟨hmem, habout⟩
      obtain ⟨order, horder, _, hcarries⟩ := hcarried.exists_order horder
      have hissued : order ∈ log.flatMap issued := by
        rw [strategyOrders_of_run hrun]
        exact List.mem_append_left _ (hsublist.subset horder)
      obtain ⟨hsymbol, hqty, -⟩ := issued_of_run hrun hissued
      rw [← hsymbol, ← hqty]
      exact hcarries.orderedAs
  · intro order hmem
    rw [OrderHandler.serializeQuantity_eq_ok, (issued_of_run hrun hmem).2.1]
    exact ⟨hpositive, rfl⟩
  · intro instrumentInfo
    refine ⟨{ size := config.orderSize, instrumentInfo }, ?_⟩
    simp only [SimpleStrategy.new, bind_eq_ok, assertThat_eq_ok]
    have hzero : (0.0 : ℚ) = 0 := by norm_num
    exact ⟨(), ⟨rfl, hzero ▸ hpositive⟩, rfl⟩

/-- What `sampleDotenv` and a file with the credentials hold. -/
def sampleLoaded : AppConfig ℚ :=
  { sampleConfig with orderSize := 500, logFilter := "info" }

theorem requests_of_load_sample : ∃ threads log,
    run (new sampleLoaded) sampleSteps = some (threads, log) ∧
    (log.flatMap requested).length = 2 ∧
    ∀ request ∈ log.flatMap requested, request.OrderedAs "ADAUSDT" 500 := by
  have hload : AppConfig.load (fun _ ↦ none) (some AppConfig.sampleDotenv)
      (some [("API_KEY", "key"), ("API_SECRET", "secret")]) = .ok sampleLoaded :=
    eq_ok_of_toOption (by decide +kernel)
  have hsample : (run (new sampleLoaded) sampleSteps).any fun result ↦
      decide ((result.2.flatMap requested).length = 2) := by
    decide +kernel
  obtain ⟨⟨threads, log⟩, hrun, hlength⟩ := (Option.any_eq_true ..).mp hsample
  obtain ⟨loaded, symbol, text, size, hloaded, hsymbol, htext, hsize, hrequests, -⟩ :=
    requests_of_load hload hrun
  have hreadSymbol : loaded "MMA_SYMBOL" = some "ADAUSDT" := by
    rw [← Except.ok.inj hloaded]
    decide +kernel
  have hreadSize : loaded "MMA_ORDER_SIZE" = some "500" := by
    rw [← Except.ok.inj hloaded]
    decide +kernel
  obtain rfl := Option.some.inj (hsymbol.symm.trans hreadSymbol)
  obtain rfl := Option.some.inj (htext.symm.trans hreadSize)
  have hnumber : (F64.fromStr "500" : Option ℚ) = some 500 := by decide +kernel
  obtain rfl := Option.some.inj (hsize.symm.trans hnumber)
  exact ⟨threads, log, hrun, of_decide_eq_true hlength, hrequests⟩

end Threads

end MarketMaker
