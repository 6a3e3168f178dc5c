import MarketMaker.Exchange.Order
import MarketMaker.Foundation.U64

/-!
# The private streams

`processResponse` turns the entries of the order and execution topics into events for the order
management system and for the recorder.  Every field of an entry is text; the conversions unwrap
their parsers, so a text that does not parse is a panic.  Entries with an empty link id are
skipped before the conversion.
-/

namespace MarketMaker

/-- The fields of an order topic entry that are read. -/
structure BybitOrder where
  orderLinkId : String
  orderStatus : String
  qty : String
  price : String
  cumExecQty : String
  avgPrice : String
  updatedTime : String

/-- The fields of an execution topic entry that are read. -/
structure Execution where
  orderId : String
  side : String
  orderPrice : String
  orderLinkId : String
  execId : String
  execTime : String
  execQty : String
  execPrice : String
  execFee : String
  leavesQty : String

def OrderStatus.fromStr : String → Option OrderStatus
  | "Submitted" => some .submitted
  | "New" => some .new
  | "PartiallyFilled" => some .partiallyFilled
  | "Untriggered" => some .untriggered
  | "Rejected" => some .rejected
  | "PartiallyFilledCanceled" => some .partiallyFilledCanceled
  | "Filled" => some .filled
  | "Cancelled" => some .cancelled
  | "Triggered" => some .triggered
  | "Deactivated" => some .deactivated
  | _ => none

def OrderSide.fromStr : String → Option OrderSide
  | "Buy" => some .buy
  | "Sell" => some .sell
  | _ => none

variable {F : Type}

namespace PrivateWebSocket

/-- The loop over the entries of a message: the events sent on, or the panic of a conversion. -/
def sendEntries {α : Type} (orderLinkId : α → String) (into : α → Option (OrderEvent F)) :
    List α → Option (List (OrderEvent F))
  | [] => some []
  | entry :: rest =>
    if orderLinkId entry = "" then sendEntries orderLinkId into rest
    else (into entry).bind fun event ↦
      (sendEntries orderLinkId into rest).map fun events ↦ event :: events

/-- A message sends what its parts would send one after the other. -/
theorem sendEntries_append {α : Type} (orderLinkId : α → String)
    (into : α → Option (OrderEvent F)) (first second : List α) :
    sendEntries orderLinkId into (first ++ second) =
      (sendEntries orderLinkId into first).bind fun front ↦
        (sendEntries orderLinkId into second).map fun back ↦ front ++ back := by
  induction first with
  | nil => simp [sendEntries]
  | cons entry rest ih =>
    rw [List.cons_append, sendEntries, sendEntries, ih]
    split_ifs
    · rfl
    · simp [Option.map_bind, Option.bind_map, Function.comp_def, Option.bind_assoc]

end PrivateWebSocket

variable [F64 F]

/-- The conversion of an order entry; `none` is its panic.  An average price that does not parse
is NaN. -/
def OrderEvent.fromOrder (src : BybitOrder) : Option (OrderEvent F) := do
  let orderLinkId ← u64FromStr src.orderLinkId
  let orderStatus ← OrderStatus.fromStr src.orderStatus
  let qty ← F64.fromStr src.qty
  let price ← F64.fromStr src.price
  let filledQty ← F64.fromStr src.cumExecQty
  let updatedTime ← u64FromStr src.updatedTime
  return .orderUpdate
    { orderLinkId, orderStatus, qty, price, filledQty
      filledPrice := F64.fromStr src.avgPrice
      updatedTime }

/-- The conversion of an execution entry; `none` is its panic.  A fee that does not parse is
zero. -/
def OrderEvent.fromExecution [OfScientific F] (src : Execution) : Option (OrderEvent F) := do
  let orderSide ← OrderSide.fromStr src.side
  let orderPrice ← F64.fromStr src.orderPrice
  let orderLinkId ← u64FromStr src.orderLinkId
  let execTs ← u64FromStr src.execTime
  let execQty ← F64.fromStr src.execQty
  let execPrice ← F64.fromStr src.execPrice
  let remainingQty ← F64.fromStr src.leavesQty
  return .executionUpdate
    { orderLinkId, orderId := src.orderId, orderPrice, orderSide, execId := src.execId, execTs
      execPrice
      execFee := (F64.fromStr src.execFee).getD 0.0
      execQty, remainingQty }

/-- The fields of the entry other than its link id parse. -/
structure BybitOrder.WellFormed (F : Type) [F64 F] (src : BybitOrder) : Prop where
  orderStatus : (OrderStatus.fromStr src.orderStatus).isSome
  qty : (F64.fromStr src.qty : Option F).isSome
  price : (F64.fromStr src.price : Option F).isSome
  cumExecQty : (F64.fromStr src.cumExecQty : Option F).isSome
  updatedTime : (u64FromStr src.updatedTime).isSome

/-- The fields of the entry other than its link id parse. -/
structure Execution.WellFormed (F : Type) [F64 F] (src : Execution) : Prop where
  side : (OrderSide.fromStr src.side).isSome
  orderPrice : (F64.fromStr src.orderPrice : Option F).isSome
  execTime : (u64FromStr src.execTime).isSome
  execQty : (F64.fromStr src.execQty : Option F).isSome
  execPrice : (F64.fromStr src.execPrice : Option F).isSome
  leavesQty : (F64.fromStr src.leavesQty : Option F).isSome

theorem BybitOrder.WellFormed.fromOrder {src : BybitOrder} (hwell : src.WellFormed F)
    {orderLinkId : UInt64} (hid : u64FromStr src.orderLinkId = some orderLinkId) :
    ∃ event : OrderEvent F, OrderEvent.fromOrder src = some event ∧
      event.orderLinkId = orderLinkId := by
  obtain ⟨orderStatus, horderStatus⟩ := Option.isSome_iff_exists.mp hwell.orderStatus
  obtain ⟨qty, hqty⟩ := Option.isSome_iff_exists.mp hwell.qty
  obtain ⟨price, hprice⟩ := Option.isSome_iff_exists.mp hwell.price
  obtain ⟨filledQty, hfilledQty⟩ := Option.isSome_iff_exists.mp hwell.cumExecQty
  obtain ⟨updatedTime, hupdatedTime⟩ := Option.isSome_iff_exists.mp hwell.updatedTime
  simp only [OrderEvent.fromOrder, hid, horderStatus, hqty, hprice, hfilledQty, hupdatedTime]
  exact ⟨_, rfl, rfl⟩

theorem Execution.WellFormed.fromExecution [OfScientific F] {src : Execution}
    (hwell : src.WellFormed F) {orderLinkId : UInt64}
    (hid : u64FromStr src.orderLinkId = some orderLinkId) :
    ∃ event : OrderEvent F, OrderEvent.fromExecution src = some event ∧
      event.orderLinkId = orderLinkId := by
  obtain ⟨side, hside⟩ := Option.isSome_iff_exists.mp hwell.side
  obtain ⟨orderPrice, horderPrice⟩ := Option.isSome_iff_exists.mp hwell.orderPrice
  obtain ⟨execTs, hexecTs⟩ := Option.isSome_iff_exists.mp hwell.execTime
  obtain ⟨execQty, hexecQty⟩ := Option.isSome_iff_exists.mp hwell.execQty
  obtain ⟨execPrice, hexecPrice⟩ := Option.isSome_iff_exists.mp hwell.execPrice
  obtain ⟨leavesQty, hleavesQty⟩ := Option.isSome_iff_exists.mp hwell.leavesQty
  simp only [OrderEvent.fromExecution, hid, hside, horderPrice, hexecTs, hexecQty, hexecPrice,
    hleavesQty]
  exact ⟨_, rfl, rfl⟩

/-- A message of the private stream.  Only the success flag of an operation's answer is read; any
other message is logged. -/
inductive PrivateResponse
  | order (data : List BybitOrder)
  | execution (data : List Execution)
  | op (success : Bool)
  | pong
  | other

namespace PrivateWebSocket

/-- The events sent to the order management system and to the recorder. -/
def processResponse [OfScientific F] :
    PrivateResponse → Option (List (OrderEvent F) × List (OrderEvent F))
  | .order data => (sendEntries BybitOrder.orderLinkId OrderEvent.fromOrder data).map
      fun toOms ↦ (toOms, [])
  | .execution data => (sendEntries Execution.orderLinkId OrderEvent.fromExecution data).map
      fun events ↦ (events, events)
  | .op _ | .pong | .other => some ([], [])

end PrivateWebSocket

/-! ## One send at a time -/

inductive Receiver
  | oms
  | recorder
  deriving DecidableEq, Repr

/-- A send still to be made: its receiver and the conversion of its entry, which is made at the
send. -/
abbrev PrivateSend (F : Type) := Receiver × Option (OrderEvent F)

namespace PrivateWebSocket

/-- Each entry with a link id is converted and sent for each of the receivers in turn. -/
def entrySends {α : Type} (receivers : List Receiver) (orderLinkId : α → String)
    (into : α → Option (OrderEvent F)) (data : List α) : List (PrivateSend F) :=
  (data.filter fun entry ↦ orderLinkId entry ≠ "").flatMap fun entry ↦
    receivers.map fun receiver ↦ (receiver, into entry)

def sends [OfScientific F] : PrivateResponse → List (PrivateSend F)
  | .order data => entrySends [.oms] BybitOrder.orderLinkId OrderEvent.fromOrder data
  | .execution data =>
    entrySends [.oms, .recorder] Execution.orderLinkId OrderEvent.fromExecution data
  | .op _ | .pong | .other => []

/-- A send with a converted entry; `none` is the panic of the conversion. -/
def convert (send : PrivateSend F) : Option (Receiver × OrderEvent F) :=
  send.2.map fun event ↦ (send.1, event)

def eventsFor (receiver : Receiver) (sent : List (Receiver × OrderEvent F)) :
    List (OrderEvent F) :=
  sent.filterMap fun send ↦ if send.1 = receiver then some send.2 else none

omit [F64 F] in
theorem entrySends_cons {α : Type} (receivers : List Receiver) (orderLinkId : α → String)
    (into : α → Option (OrderEvent F)) (entry : α) (rest : List α) :
    entrySends receivers orderLinkId into (entry :: rest) =
      (if orderLinkId entry = "" then []
        else receivers.map fun receiver ↦ (receiver, into entry)) ++
        entrySends receivers orderLinkId into rest := by
  unfold entrySends
  by_cases hempty : orderLinkId entry = "" <;> simp [hempty]

omit [F64 F] in
theorem mapM_convert_receivers (event : Option (OrderEvent F)) {receivers : List Receiver}
    (hreceivers : receivers ≠ []) :
    (receivers.map fun receiver ↦ (receiver, event)).mapM convert =
      event.map fun event ↦ receivers.map fun receiver ↦ (receiver, event) := by
  cases event with
  | none =>
    cases receivers with
    | nil => exact absurd rfl hreceivers
    | cons receiver rest => rfl
  | some event =>
    clear hreceivers
    induction receivers with
    | nil => rfl
    | cons receiver rest ih =>
      rw [List.map_cons, List.mapM_cons, ih]
      rfl

omit [F64 F] in
/-- The sends of the entries are the events of `sendEntries`, each for every receiver. -/
theorem mapM_convert_entrySends {α : Type} (orderLinkId : α → String)
    (into : α → Option (OrderEvent F)) (data : List α) {receivers : List Receiver}
    (hreceivers : receivers ≠ []) :
    (entrySends receivers orderLinkId into data).mapM convert =
      (sendEntries orderLinkId into data).map fun events ↦
        events.flatMap fun event ↦ receivers.map fun receiver ↦ (receiver, event) := by
  induction data with
  | nil => rfl
  | cons entry rest ih =>
    rw [entrySends_cons, List.mapM_append, ih, sendEntries]
    by_cases hempty : orderLinkId entry = ""
    · rw [if_pos hempty, if_pos hempty]
      simp
    · rw [if_neg hempty, if_neg hempty, mapM_convert_receivers _ hreceivers]
      cases into entry with
      | none => rfl
      | some event => cases sendEntries orderLinkId into rest <;> simp

/-- Making the sends of a message one after the other amounts to `processResponse`. -/
theorem processResponse_eq_sends [OfScientific F] (response : PrivateResponse) :
    processResponse (F := F) response = ((sends response).mapM convert).map fun sent ↦
      (eventsFor .oms sent, eventsFor .recorder sent) := by
  cases response with
  | order data =>
    rw [sends, mapM_convert_entrySends _ _ _ (by simp), processResponse, Option.map_map]
    congr 1
    funext events
    simp [eventsFor, List.filterMap_flatMap]
  | execution data =>
    rw [sends, mapM_convert_entrySends _ _ _ (by simp), processResponse, Option.map_map]
    congr 1
    funext events
    simp [eventsFor, List.filterMap_flatMap]
  | op | pong | other => rfl

end PrivateWebSocket

end MarketMaker
