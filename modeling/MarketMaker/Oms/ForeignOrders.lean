import MarketMaker.Exchange.PrivateWs
import MarketMaker.Foundation.Traces
import MarketMaker.Oms.Responses

/-!
# Orders of other origin

The private stream reports every order of the account, also those this bot never submitted.  The
order management system ignores events for ids it does not know, and the stream skips entries
without a link id; in between a link id is read as a number.  An entry is ignored as long as its
link id is empty or reads as a number that is not a known id: then the run is the run without it.
A link id that does not read as a number is a panic, and a text other than the decimal form of a
known id may still read as that id.
-/

namespace MarketMaker

variable {F : Type}

/-- What the order management system processes: its own inputs, and messages of the private stream,
whose events arrive one after the other. -/
inductive Delivery (F : Type)
  | own (input : OmsInput F)
  | message (response : PrivateResponse)

namespace PrivateResponse

def orderLinkIds : PrivateResponse → List String
  | .order data => data.map BybitOrder.orderLinkId
  | .execution data => data.map Execution.orderLinkId
  | .op _ | .pong | .other => []

def without (foreign : String → Bool) : PrivateResponse → PrivateResponse
  | .order data => .order (data.filter fun order ↦ !foreign order.orderLinkId)
  | .execution data => .execution (data.filter fun order ↦ !foreign order.orderLinkId)
  | response => response

/-- The fields of the entries of foreign orders parse, apart from the link id. -/
def WellFormed (F : Type) [F64 F] (foreign : String → Bool) : PrivateResponse → Prop
  | .order data => ∀ order ∈ data, foreign order.orderLinkId → order.WellFormed F
  | .execution data => ∀ order ∈ data, foreign order.orderLinkId → order.WellFormed F
  | _ => True

end PrivateResponse

def Delivery.without (foreign : String → Bool) : Delivery F → Delivery F
  | .own input => .own input
  | .message response => .message (response.without foreign)

namespace OrderManagementSystem

/-- A link id that leads to no order: an entry with it is skipped or discarded. -/
def Ignores (oms : OrderManagementSystem F) (orderLinkId : String) : Prop :=
  orderLinkId = "" ∨ ∃ id, u64FromStr orderLinkId = some id ∧ id ∉ oms.idMap

variable [F64 F] [Add F] [Sub F] [Mul F] [Div F] [LT F] [DecidableLT F] [BEq F] [OfScientific F]

def receive (oms : OrderManagementSystem F) :
    List (OrderEvent F) → OrderManagementSystem F × List (Effect F)
  | [] => (oms, [])
  | event :: rest =>
    let later := (oms.orderResponse event).1.receive rest
    (later.1, (oms.orderResponse event).2 ++ later.2)

def deliver (oms : OrderManagementSystem F) :
    Delivery F → Option (OrderManagementSystem F × List (Effect F))
  | .own input => oms.step input
  | .message response =>
    (PrivateWebSocket.processResponse response).map fun sent ↦ oms.receive sent.1

variable {oms : OrderManagementSystem F}

/-- An event for an unknown id is discarded. -/
theorem orderResponse_of_unknown {event : OrderEvent F} (hunknown : event.orderLinkId ∉ oms.idMap) :
    oms.orderResponse event = (oms, []) := by
  have hlookup := Finmap.lookup_eq_none.mpr hunknown
  cases event <;>
    simp only [OrderEvent.orderLinkId] at hlookup <;>
    simp [orderResponse, handleOrderUpdate, handleExecutionUpdate, handleSubmissionFailure,
      hlookup]

theorem idMap_orderResponse (oms : OrderManagementSystem F) (event : OrderEvent F) :
    (oms.orderResponse event).1.idMap = oms.idMap :=
  (oms.transition_orderResponse event).keeps_table.2.1

/-- The entries of one message: those of foreign orders make no difference. -/
theorem receive_sendEntries {α : Type} {orderLinkId : α → String}
    {into : α → Option (OrderEvent F)} {foreign : String → Bool} {data : List α}
    (hforeign : ∀ entry ∈ data, foreign (orderLinkId entry) → orderLinkId entry = "" ∨
      ∃ event, into entry = some event ∧ event.orderLinkId ∉ oms.idMap) :
    (PrivateWebSocket.sendEntries orderLinkId into data).map oms.receive =
      (PrivateWebSocket.sendEntries orderLinkId into
        (data.filter fun entry ↦ !foreign (orderLinkId entry))).map oms.receive := by
  induction data generalizing oms with
  | nil => rfl
  | cons entry rest ih =>
    have hrest := ih fun other hmem ↦ hforeign other (List.mem_cons_of_mem entry hmem)
    cases hentry : foreign (orderLinkId entry) with
    | true =>
      rw [List.filter_cons_of_neg (by simp [hentry]), ← hrest]
      obtain hempty | ⟨event, hinto, hunknown⟩ := hforeign entry (by simp) hentry
      · rw [PrivateWebSocket.sendEntries, if_pos hempty]
      · rw [PrivateWebSocket.sendEntries]
        split_ifs
        · rfl
        · simp only [hinto, Option.bind_some, Option.map_map]
          congr 1
          funext events
          simp [receive, orderResponse_of_unknown hunknown]
    | false =>
      rw [List.filter_cons_of_pos (by simp [hentry]), PrivateWebSocket.sendEntries,
        PrivateWebSocket.sendEntries]
      split_ifs
      · exact hrest
      · cases hinto : into entry with
        | none => rfl
        | some event =>
          -- the event changes the state but not the known ids
          have hnext := @ih (oms.orderResponse event).1 fun other hmem hother ↦ by
            rw [idMap_orderResponse]
            exact hforeign other (List.mem_cons_of_mem entry hmem) hother
          have hcalls := congrArg (Option.map fun later ↦
            (later.1, (oms.orderResponse event).2 ++ later.2)) hnext
          simpa [Option.map_map, Function.comp_def, receive] using hcalls

/-- A message is processed as if it had no entries of foreign orders. -/
theorem deliver_without {foreign : String → Bool} {response : PrivateResponse}
    (hwell : response.WellFormed F foreign)
    (hignores : ∀ orderLinkId ∈ response.orderLinkIds, foreign orderLinkId →
      oms.Ignores orderLinkId) :
    oms.deliver (.message (response.without foreign)) = oms.deliver (.message response) := by
  cases response with
  | order data =>
    have hforeign : ∀ order ∈ data, foreign order.orderLinkId → order.orderLinkId = "" ∨
        ∃ event : OrderEvent F, OrderEvent.fromOrder order = some event ∧
          event.orderLinkId ∉ oms.idMap := by
      intro order hmem hother
      apply (hignores _ (List.mem_map_of_mem hmem) hother).imp_right
      rintro ⟨id, hid, hunknown⟩
      obtain ⟨event, hevent, rfl⟩ := (hwell order hmem hother).fromOrder hid
      exact ⟨event, hevent, hunknown⟩
    have hreceive := receive_sendEntries hforeign
    simpa [deliver, PrivateWebSocket.processResponse, PrivateResponse.without,
      Option.map_map, Function.comp_def] using hreceive.symm
  | execution data =>
    have hforeign : ∀ order ∈ data, foreign order.orderLinkId → order.orderLinkId = "" ∨
        ∃ event : OrderEvent F, OrderEvent.fromExecution order = some event ∧
          event.orderLinkId ∉ oms.idMap := by
      intro order hmem hother
      apply (hignores _ (List.mem_map_of_mem hmem) hother).imp_right
      rintro ⟨id, hid, hunknown⟩
      obtain ⟨event, hevent, rfl⟩ := (hwell order hmem hother).fromExecution hid
      exact ⟨event, hevent, hunknown⟩
    have hreceive := receive_sendEntries hforeign
    simpa [deliver, PrivateWebSocket.processResponse, PrivateResponse.without,
      Option.map_map, Function.comp_def] using hreceive.symm
  | op | pong | other => rfl

theorem receive_append (oms : OrderManagementSystem F) (first second : List (OrderEvent F)) :
    oms.receive (first ++ second) =
      (((oms.receive first).1.receive second).1,
        (oms.receive first).2 ++ ((oms.receive first).1.receive second).2) := by
  induction first generalizing oms with
  | nil => rfl
  | cons event rest ih => simp only [List.cons_append, receive, ih, List.append_assoc]

/-- A message has the effect of its parts delivered one after the other, so the deliveries cover
the turns taken between two entries of one message. -/
theorem play_split_message (oms : OrderManagementSystem F) :
    (∀ first second, Machine.play deliver oms [.message (.order (first ++ second))] =
      Machine.play deliver oms [.message (.order first), .message (.order second)]) ∧
    ∀ first second, Machine.play deliver oms [.message (.execution (first ++ second))] =
      Machine.play deliver oms [.message (.execution first), .message (.execution second)] := by
  constructor <;> intro first second <;>
    simp only [Machine.play_cons, Machine.play_nil, deliver, PrivateWebSocket.processResponse,
      PrivateWebSocket.sendEntries_append, Option.map_eq_bind, Option.bind_assoc,
      Option.bind_some, Function.comp_def, receive_append, List.append_nil]

/-- Every run whose messages hold only well-formed foreign entries that are ignored where they
arrive is the run of the stream without these entries: the same states, the same calls turn by
turn, and no other aborts. -/
theorem run_without_foreign {config : OmsConfig F} {foreign : String → Bool}
    {deliveries : List (Delivery F)}
    (hwell : ∀ response, .message response ∈ deliveries → response.WellFormed F foreign)
    (hignored : Machine.Along deliver (fun state delivery _ ↦ ∀ response,
      delivery = .message response → ∀ orderLinkId ∈ response.orderLinkIds,
        foreign orderLinkId → state.Ignores orderLinkId) (new config).1 deliveries) :
    Machine.run deliver (new config).1 (deliveries.map (Delivery.without foreign)) =
      Machine.run deliver (new config).1 deliveries := by
  refine Machine.run_map_eq_of_along ?_ hignored
  intro state delivery hmem _ hignores
  cases delivery with
  | own input => rfl
  | message response => exact deliver_without (hwell response hmem) (hignores response rfl)

/-! ## A manual order -/

/-- An entry of the order topic about an order placed by hand. -/
def sampleManualOrder (orderLinkId : String) : BybitOrder :=
  { orderLinkId, orderStatus := "New", qty := "25", price := "0.5", cumExecQty := "0"
    avgPrice := "", updatedTime := "1" }

def sampleManualDeliveries (orderLinkId : String) : List (Delivery ℚ) :=
  [.own (.forward RiskManager.evaluateOrder sampleBuy),
    .message (.order [sampleManualOrder orderLinkId])]

theorem wellFormed_sampleManualDeliveries (orderLinkId : String) {foreign : String → Bool}
    {response : PrivateResponse} (hmem : .message response ∈ sampleManualDeliveries orderLinkId) :
    response.WellFormed ℚ foreign := by
  obtain rfl : response = .order [sampleManualOrder orderLinkId] := by
    simpa [sampleManualDeliveries] using hmem
  intro order horder _
  obtain rfl := List.mem_singleton.mp horder
  have hqty : (F64.fromStr "25" : Option ℚ).isSome := by decide +kernel
  have hprice : (F64.fromStr "0.5" : Option ℚ).isSome := by decide +kernel
  have hfilled : (F64.fromStr "0" : Option ℚ).isSome := by decide +kernel
  have htime : (u64FromStr "1").isSome := by decide +kernel
  exact ⟨rfl, hqty, hprice, hfilled, htime⟩

/-- The id 7 is not issued when its entry arrives. -/
theorem run_without_foreign_sample :
    Machine.run deliver (new sampleConfig).1
        ((sampleManualDeliveries "7").map (Delivery.without (· == "7"))) =
      Machine.run deliver (new sampleConfig).1 (sampleManualDeliveries "7") := by
  apply run_without_foreign
  · exact fun _ hmem ↦ wellFormed_sampleManualDeliveries "7" hmem
  · refine ⟨fun response heq _ _ _ ↦ absurd heq (by simp), ?_⟩
    intro next effects hstep
    refine ⟨?_, fun _ _ _ ↦ trivial⟩
    rintro response heq orderLinkId hmem -
    obtain rfl := Delivery.message.inj heq
    obtain rfl : orderLinkId = "7" := by
      simpa [PrivateResponse.orderLinkIds, sampleManualOrder] using hmem
    refine .inr ⟨7, by decide +kernel, ?_⟩
    have heffects : ((new sampleConfig).1.step
        (.forward RiskManager.evaluateOrder sampleBuy)).map Prod.snd =
          some [.submitOrder sampleBuy 90] := by decide +kernel
    have hsubmit : (new sampleConfig).1.step (.forward RiskManager.evaluateOrder sampleBuy) =
      some (next, effects) := hstep
    rw [hsubmit] at heffects
    obtain rfl : effects = [.submitOrder sampleBuy 90] := Option.some.inj heffects
    rw [mem_idMap_iff_submitted
      (Machine.run_singleton_eq_some.mpr ⟨_, hsubmit, rfl⟩)]
    simp [submittedIds, Effect.submittedId]

/-- A link id that is no number aborts the run, so foreign orders are not without effect. -/
theorem not_run_without_foreign :
    ¬∀ (config : OmsConfig ℚ) (foreign : String → Bool) (deliveries : List (Delivery ℚ)) final
      outputs,
      (∀ response, .message response ∈ deliveries → response.WellFormed ℚ foreign) →
      Machine.run deliver (new config).1 (deliveries.map (Delivery.without foreign)) =
        some (final, outputs) →
      (∀ id ∈ submittedIds outputs.flatten, ¬foreign (toString id)) →
      Machine.run deliver (new config).1 deliveries = some (final, outputs) := by
  intro hclaim
  have houtputs : (Machine.run deliver (new sampleConfig).1
      ((sampleManualDeliveries "manual-1").map (Delivery.without (· == "manual-1")))).map Prod.snd =
      some [[.submitOrder sampleBuy 90], []] := by decide +kernel
  have habort : (Machine.run deliver (new sampleConfig).1
      (sampleManualDeliveries "manual-1")).map Prod.snd = none := by decide +kernel
  obtain ⟨⟨final, outputs⟩, hrun, rfl⟩ := Option.map_eq_some_iff.mp houtputs
  have hown : ∀ id ∈ submittedIds [[Effect.submitOrder sampleBuy 90], []].flatten,
      ¬(toString id == "manual-1") := by
    intro id hid
    obtain rfl : id = 90 := by simpa [submittedIds, Effect.submittedId] using hid
    decide +kernel
  have hfull := hclaim sampleConfig (· == "manual-1") (sampleManualDeliveries "manual-1") final _
    (fun _ hmem ↦ wellFormed_sampleManualDeliveries "manual-1" hmem) hrun hown
  rw [hfull] at habort
  exact Option.some_ne_none _ habort

end OrderManagementSystem

end MarketMaker
