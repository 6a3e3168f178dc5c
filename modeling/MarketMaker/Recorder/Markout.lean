import MarketMaker.Exchange.Order
import MarketMaker.Exchange.OrderBook
import MarketMaker.Foundation.Keyed
import MarketMaker.Foundation.Machine
import MarketMaker.Foundation.U64
import Mathlib.Data.String.Basic

/-!
# The markout engine

For every execution the recorder keeps the state of the market 1, 5 and 10 seconds after the fill.
A pending markout has one write-once slot for each horizon; a book fills every empty slot whose
time has come, and a markout with all slots filled is taken out and returned.

The map of pending markouts is a list of entries with distinct execution ids.  The iteration order
of the map is that of the list: the loop over the values treats each entry by itself, and what is
extracted is sorted.
-/

namespace MarketMaker

variable {F : Type}

structure DataPoint (F : Type) where
  midPrice : F
  imbalance : F
  deriving DecidableEq

structure PendingMarkout (F : Type) where
  orderLinkId : UInt64
  fillTs : UInt64
  side : OrderSide
  limitPrice : F
  execPrice : F
  execQty : F
  mid1s : Option (DataPoint F)
  mid5s : Option (DataPoint F)
  mid10s : Option (DataPoint F)
  deriving DecidableEq

structure CompletedMarkout (F : Type) where
  execId : String
  orderLinkId : UInt64
  fillTs : UInt64
  side : OrderSide
  limitPrice : F
  execPrice : F
  execQty : F
  mid1s : DataPoint F
  mid5s : DataPoint F
  mid10s : DataPoint F
  deriving DecidableEq

/-- `none` is the panic on a missing slot. -/
def CompletedMarkout.ofPending (trade : String × PendingMarkout F) :
    Option (CompletedMarkout F) :=
  trade.2.mid1s.bind fun mid1s ↦ trade.2.mid5s.bind fun mid5s ↦ trade.2.mid10s.map fun mid10s ↦
    { execId := trade.1
      orderLinkId := trade.2.orderLinkId
      fillTs := trade.2.fillTs
      side := trade.2.side
      limitPrice := trade.2.limitPrice
      execPrice := trade.2.execPrice
      execQty := trade.2.execQty
      mid1s, mid5s, mid10s }

/-- Fill an empty slot once its horizon is reached. -/
def fillSlot (fillTs horizon cts : UInt64) (dataPoint : DataPoint F) :
    Option (DataPoint F) → Option (Option (DataPoint F))
  | some recorded => some (some recorded)
  | none => (checkedAdd fillTs horizon).map fun due ↦ if due ≤ cts then some dataPoint else none

namespace PendingMarkout

def ofExecution (execution : OrderExecution F) : PendingMarkout F :=
  { orderLinkId := execution.orderLinkId
    fillTs := execution.execTs
    side := execution.orderSide
    limitPrice := execution.orderPrice
    execPrice := execution.execPrice
    execQty := execution.execQty
    mid1s := none
    mid5s := none
    mid10s := none }

/-- One book seen by one pending markout. -/
def fillSlots (pending : PendingMarkout F) (dataPoint : DataPoint F) (cts : UInt64) :
    Option (PendingMarkout F) :=
  (fillSlot pending.fillTs 1000 cts dataPoint pending.mid1s).bind fun mid1s ↦
    (fillSlot pending.fillTs 5000 cts dataPoint pending.mid5s).bind fun mid5s ↦
      (fillSlot pending.fillTs 10000 cts dataPoint pending.mid10s).map fun mid10s ↦
        { pending with mid1s, mid5s, mid10s }

def isComplete (pending : PendingMarkout F) : Bool :=
  pending.mid1s.isSome && pending.mid5s.isSome && pending.mid10s.isSome

end PendingMarkout

/-- What a book contributes to the markouts; `none` is the panic on an empty side. -/
def OrderBook.dataPoint [Add F] [Sub F] [Div F] [OfScientific F] (orderBook : OrderBook F) :
    Option (DataPoint F) :=
  orderBook.bids.head?.bind fun firstBid ↦ orderBook.asks.head?.map fun firstAsk ↦
    { midPrice := (firstBid.price + firstAsk.price) / 2.0
      imbalance := (firstBid.size - firstAsk.size) / (firstBid.size + firstAsk.size) }

structure MarkoutEngine (F : Type) where
  trades : List (String × PendingMarkout F)

/-- The two public operations of the engine. -/
inductive MarkoutInput (F : Type)
  | updateTrades (execution : OrderExecution F)
  | processOrderBook (orderBook : OrderBook F)

namespace MarkoutEngine

def new : MarkoutEngine F := { trades := [] }

def updateTrades (engine : MarkoutEngine F) (execution : OrderExecution F) : MarkoutEngine F :=
  let markout := PendingMarkout.ofExecution execution
  { trades := Keyed.upsert Prod.fst (fun trade ↦ (trade.1, markout)) (execution.execId, markout)
      engine.trades }

/-- The engine after an event: only executions are registered. -/
def register (engine : MarkoutEngine F) : OrderEvent F → MarkoutEngine F
  | .executionUpdate execution => engine.updateTrades execution
  | .orderUpdate _ | .submissionFailed _ => engine

/-- The order of extracted trades: fill time, link id, execution id. -/
def extractionOrder (left right : String × PendingMarkout F) : Bool :=
  ((compare left.2.fillTs right.2.fillTs).then
    ((compare left.2.orderLinkId right.2.orderLinkId).then (compare left.1 right.1))).isLE

def takeCompletedMarkouts (engine : MarkoutEngine F) :
    Option (MarkoutEngine F × List (CompletedMarkout F)) :=
  let completed := (engine.trades.filter (·.2.isComplete)).mergeSort extractionOrder
  (completed.mapM CompletedMarkout.ofPending).map fun markouts ↦
    ({ trades := engine.trades.filter (!·.2.isComplete) }, markouts)

variable [Add F] [Sub F] [Div F] [OfScientific F]

def updatePrices (engine : MarkoutEngine F) (orderBook : OrderBook F) :
    Option (MarkoutEngine F) :=
  orderBook.dataPoint.bind fun dataPoint ↦
    (engine.trades.mapM fun trade : String × PendingMarkout F ↦
      (trade.2.fillSlots dataPoint orderBook.cts).map fun pending ↦ (trade.1, pending)).map
        fun trades ↦ { trades }

def processOrderBook (engine : MarkoutEngine F) (orderBook : OrderBook F) :
    Option (MarkoutEngine F × List (CompletedMarkout F)) :=
  (engine.updatePrices orderBook).bind takeCompletedMarkouts

def step (engine : MarkoutEngine F) :
    MarkoutInput F → Option (MarkoutEngine F × List (CompletedMarkout F))
  | .updateTrades execution => some (engine.updateTrades execution, [])
  | .processOrderBook orderBook => engine.processOrderBook orderBook

end MarkoutEngine

/-! ## One trade at a time -/

/-- A filled slot stays, an empty one takes the data point when the horizon is reached. -/
theorem fillSlot_eq_some {fillTs horizon cts : UInt64} {dataPoint : DataPoint F}
    {slot filled : Option (DataPoint F)}
    (hfill : fillSlot fillTs horizon cts dataPoint slot = some filled) :
    filled = slot.or (if fillTs.toNat + horizon.toNat ≤ cts.toNat then some dataPoint
      else none) := by
  cases slot with
  | some recorded => exact (Option.some.inj hfill).symm
  | none =>
    obtain ⟨due, hdue, heq⟩ := Option.map_eq_some_iff.mp hfill
    rw [← heq, Option.none_or, ← checkedAdd_eq_some hdue]
    simp only [UInt64.le_iff_toNat_le]

theorem fillSlot_isSome {fillTs horizon cts : UInt64} {dataPoint : DataPoint F}
    (hlt : fillTs.toNat + horizon.toNat < 2 ^ 64) (slot : Option (DataPoint F)) :
    (fillSlot fillTs horizon cts dataPoint slot).isSome := by
  cases slot with
  | some recorded => rfl
  | none =>
    rw [fillSlot, Option.isSome_map]
    exact checkedAdd_isSome.mpr hlt

namespace PendingMarkout

/-- The three slots after a book, without the overflow check. -/
def advance (pending : PendingMarkout F) (dataPoint : DataPoint F) (cts : UInt64) :
    PendingMarkout F :=
  { pending with
    mid1s := pending.mid1s.or (if pending.fillTs.toNat + 1000 ≤ cts.toNat then some dataPoint
      else none)
    mid5s := pending.mid5s.or (if pending.fillTs.toNat + 5000 ≤ cts.toNat then some dataPoint
      else none)
    mid10s := pending.mid10s.or (if pending.fillTs.toNat + 10000 ≤ cts.toNat then some dataPoint
      else none) }

theorem fillSlots_eq_some {pending next : PendingMarkout F} {dataPoint : DataPoint F}
    {cts : UInt64} (hfill : pending.fillSlots dataPoint cts = some next) :
    next = pending.advance dataPoint cts := by
  obtain ⟨mid1s, h1s, hfill⟩ := Option.bind_eq_some_iff.mp hfill
  obtain ⟨mid5s, h5s, hfill⟩ := Option.bind_eq_some_iff.mp hfill
  obtain ⟨mid10s, h10s, hfill⟩ := Option.map_eq_some_iff.mp hfill
  rw [← hfill, fillSlot_eq_some h1s, fillSlot_eq_some h5s, fillSlot_eq_some h10s]
  rfl

theorem fillSlots_isSome {pending : PendingMarkout F} (hlt : pending.fillTs.toNat + 10000 < 2 ^ 64)
    (dataPoint : DataPoint F) (cts : UInt64) : (pending.fillSlots dataPoint cts).isSome := by
  have hslot : ∀ horizon : UInt64, horizon.toNat ≤ 10000 → ∀ slot : Option (DataPoint F),
      (fillSlot pending.fillTs horizon cts dataPoint slot).isSome :=
    fun horizon hle slot ↦ fillSlot_isSome (by omega) slot
  obtain ⟨mid1s, h1s⟩ := Option.isSome_iff_exists.mp (hslot 1000 (by decide) pending.mid1s)
  obtain ⟨mid5s, h5s⟩ := Option.isSome_iff_exists.mp (hslot 5000 (by decide) pending.mid5s)
  obtain ⟨mid10s, h10s⟩ := Option.isSome_iff_exists.mp (hslot 10000 (by decide) pending.mid10s)
  simp [fillSlots, h1s, h5s, h10s]

/-- Exactly the complete markouts can be returned. -/
theorem ofPending_isSome (execId : String) (pending : PendingMarkout F) :
    (CompletedMarkout.ofPending (execId, pending)).isSome = pending.isComplete := by
  unfold CompletedMarkout.ofPending isComplete
  cases pending.mid1s <;> cases pending.mid5s <;> cases pending.mid10s <;> rfl

end PendingMarkout

/-- The markout carries the key and the fields of the trade, and its three slots. -/
structure CompletedMarkout.Records (markout : CompletedMarkout F)
    (trade : String × PendingMarkout F) : Prop where
  execId : markout.execId = trade.1
  orderLinkId : markout.orderLinkId = trade.2.orderLinkId
  fillTs : markout.fillTs = trade.2.fillTs
  side : markout.side = trade.2.side
  limitPrice : markout.limitPrice = trade.2.limitPrice
  execPrice : markout.execPrice = trade.2.execPrice
  execQty : markout.execQty = trade.2.execQty
  mid1s : some markout.mid1s = trade.2.mid1s
  mid5s : some markout.mid5s = trade.2.mid5s
  mid10s : some markout.mid10s = trade.2.mid10s

theorem CompletedMarkout.records_of_ofPending {trade : String × PendingMarkout F}
    {markout : CompletedMarkout F} (hmarkout : CompletedMarkout.ofPending trade = some markout) :
    markout.Records trade := by
  obtain ⟨mid1s, h1s, hmarkout⟩ := Option.bind_eq_some_iff.mp hmarkout
  obtain ⟨mid5s, h5s, hmarkout⟩ := Option.bind_eq_some_iff.mp hmarkout
  obtain ⟨mid10s, h10s, hmarkout⟩ := Option.map_eq_some_iff.mp hmarkout
  rw [← hmarkout]
  exact ⟨rfl, rfl, rfl, rfl, rfl, rfl, rfl, h1s.symm, h5s.symm, h10s.symm⟩

namespace MarkoutEngine

def pending (engine : MarkoutEngine F) (execId : String) : Option (PendingMarkout F) :=
  (Keyed.lookup Prod.fst engine.trades execId).map Prod.snd

/-- The map holds at most one entry for an execution id. -/
def DistinctKeys (engine : MarkoutEngine F) : Prop := (engine.trades.map Prod.fst).Nodup

theorem pending_of_mem {engine : MarkoutEngine F} (hdistinct : engine.DistinctKeys)
    {trade : String × PendingMarkout F} (hmem : trade ∈ engine.trades) :
    engine.pending trade.1 = some trade.2 := by
  rw [pending, (Keyed.mem_iff_lookup hdistinct).mp hmem]
  rfl

def returnedFor (execId : String) (markouts : List (CompletedMarkout F)) :
    List (CompletedMarkout F) :=
  markouts.filter fun markout ↦ markout.execId = execId

theorem returnedFor_append (execId : String) (first second : List (CompletedMarkout F)) :
    returnedFor execId (first ++ second) = returnedFor execId first ++ returnedFor execId second :=
  List.filter_append ..

variable {engine next : MarkoutEngine F}

theorem distinctKeys_updateTrades (hdistinct : engine.DistinctKeys)
    (execution : OrderExecution F) : (engine.updateTrades execution).DistinctKeys :=
  Keyed.nodup_upsert (by exact fun _ ↦ rfl) _ hdistinct

/-- Registering an execution writes its own entry only. -/
theorem pending_updateTrades (engine : MarkoutEngine F) (execution : OrderExecution F)
    (execId : String) : (engine.updateTrades execution).pending execId =
      if execution.execId = execId then some (PendingMarkout.ofExecution execution)
      else engine.pending execId := by
  rw [pending, updateTrades, Keyed.lookup_upsert (by exact fun _ ↦ rfl)]
  split_ifs with hid
  · cases Keyed.lookup Prod.fst engine.trades execId <;> rfl
  · rfl

/-- Registering an execution again while its markout is fresh changes nothing. -/
theorem updateTrades_eq_self {execution : OrderExecution F}
    (hpending : engine.pending execution.execId = some (PendingMarkout.ofExecution execution)) :
    engine.updateTrades execution = engine := by
  obtain ⟨trade, hlookup, hmarkout⟩ := Option.map_eq_some_iff.mp hpending
  have hsame : (trade.1, PendingMarkout.ofExecution execution) = trade := by rw [← hmarkout]
  cases engine
  rw [updateTrades, Keyed.upsert_eq_self hlookup hsame]

/-- The extracted trades, seen by one execution. -/
theorem filter_extracted (hdistinct : engine.DistinctKeys) (execId : String) :
    ((engine.trades.filter (·.2.isComplete)).mergeSort extractionOrder).filter
        (fun trade ↦ trade.1 = execId) =
      ((Keyed.lookup Prod.fst engine.trades execId).filter (·.2.isComplete)).toList := by
  have hkept : ((engine.trades.filter (·.2.isComplete)).map Prod.fst).Nodup :=
    Keyed.nodup_filter hdistinct _
  have hperm := List.mergeSort_perm (engine.trades.filter (·.2.isComplete)) extractionOrder
  calc
    _ = (Keyed.lookup Prod.fst
          ((engine.trades.filter (·.2.isComplete)).mergeSort extractionOrder) execId).toList :=
      Keyed.filter_key_eq ((hperm.map Prod.fst).nodup_iff.mpr hkept) execId
    _ = (Keyed.lookup Prod.fst (engine.trades.filter (·.2.isComplete)) execId).toList := by
      rw [Keyed.lookup_eq_of_perm hperm.symm hkept]
    _ = _ := by rw [Keyed.lookup_filter hdistinct]

/-- Returning trades keeps their execution ids. -/
theorem returnedFor_filterMap (execId : String) (trades : List (String × PendingMarkout F)) :
    returnedFor execId (trades.filterMap CompletedMarkout.ofPending) =
      (trades.filter fun trade ↦ trade.1 = execId).filterMap CompletedMarkout.ofPending := by
  rw [returnedFor, List.filter_filterMap, List.filterMap_filter]
  congr 1
  funext trade
  cases hmarkout : CompletedMarkout.ofPending trade with
  | none => simp
  | some markout => simp [Option.filter, (CompletedMarkout.records_of_ofPending hmarkout).execId]

/-- What is taken out never lacks a slot. -/
theorem takeCompletedMarkouts_eq (engine : MarkoutEngine F) :
    engine.takeCompletedMarkouts =
      some ({ trades := engine.trades.filter (!·.2.isComplete) },
        ((engine.trades.filter (·.2.isComplete)).mergeSort extractionOrder).filterMap
          CompletedMarkout.ofPending) := by
  rw [takeCompletedMarkouts, Keyed.mapM_eq_filterMap, Option.map_some]
  intro trade hmem
  rw [← Prod.mk.eta (p := trade), PendingMarkout.ofPending_isSome]
  exact (List.mem_filter.mp (List.mem_mergeSort.mp hmem)).2

/-- Taking out the completed markouts, seen by one execution. -/
theorem takeCompletedMarkouts_spec {markouts : List (CompletedMarkout F)}
    (hdistinct : engine.DistinctKeys)
    (htake : engine.takeCompletedMarkouts = some (next, markouts)) :
    next.DistinctKeys ∧ ∀ execId,
      next.pending execId = (engine.pending execId).filter (!·.isComplete) ∧
      returnedFor execId markouts = (engine.pending execId).toList.filterMap
        fun pending ↦ CompletedMarkout.ofPending (execId, pending) := by
  rw [takeCompletedMarkouts_eq] at htake
  obtain ⟨rfl, rfl⟩ := Prod.mk.inj (Option.some.inj htake)
  refine ⟨Keyed.nodup_filter hdistinct _, fun execId ↦ ⟨?_, ?_⟩⟩
  · rw [pending, pending, Keyed.lookup_filter hdistinct]
    cases Keyed.lookup Prod.fst engine.trades execId with
    | none => rfl
    | some trade => cases hcomplete : trade.2.isComplete <;> simp [Option.filter, hcomplete]
  · rw [returnedFor_filterMap, filter_extracted hdistinct, pending]
    cases hlookup : Keyed.lookup Prod.fst engine.trades execId with
    | none => rfl
    | some trade =>
      have hid : trade.1 = execId := Keyed.key_of_lookup hlookup
      subst hid
      have hcomplete := PendingMarkout.ofPending_isSome trade.1 trade.2
      cases hmarkout : CompletedMarkout.ofPending trade <;>
        simp_all [Option.filter]

section Books

variable [Add F] [Sub F] [Div F] [OfScientific F] {orderBook : OrderBook F}

/-- Filling the slots, seen by one execution. -/
theorem updatePrices_spec (hdistinct : engine.DistinctKeys)
    (hupdate : engine.updatePrices orderBook = some next) :
    ∃ dataPoint, orderBook.dataPoint = some dataPoint ∧ next.DistinctKeys ∧
      ∀ execId, next.pending execId =
        (engine.pending execId).map (·.advance dataPoint orderBook.cts) := by
  obtain ⟨dataPoint, hdataPoint, hupdate⟩ := Option.bind_eq_some_iff.mp hupdate
  obtain ⟨trades, htrades, rfl⟩ := Option.map_eq_some_iff.mp hupdate
  have hadvanced : trades =
      engine.trades.map fun trade ↦ (trade.1, trade.2.advance dataPoint orderBook.cts) := by
    have hsome := Keyed.isSome_of_mapM_eq_some htrades
    rw [Keyed.mapM_eq_filterMap hsome] at htrades
    rw [← Option.some.inj htrades, ← List.filterMap_eq_map]
    apply List.filterMap_congr
    intro trade hmem
    obtain ⟨image, himage⟩ := Option.isSome_iff_exists.mp (hsome trade hmem)
    obtain ⟨filled, hfilled, rfl⟩ := Option.map_eq_some_iff.mp himage
    rw [himage, PendingMarkout.fillSlots_eq_some hfilled]
    rfl
  refine ⟨dataPoint, hdataPoint, ?_, fun execId ↦ ?_⟩
  · rw [DistinctKeys, hadvanced, List.map_map]
    exact hdistinct
  · rw [pending, hadvanced, Keyed.lookup_map (by exact fun _ ↦ rfl), pending, Option.map_map,
      Option.map_map]
    rfl

/-- One book, seen by one execution. -/
theorem processOrderBook_spec {markouts : List (CompletedMarkout F)}
    (hdistinct : engine.DistinctKeys)
    (hprocess : engine.processOrderBook orderBook = some (next, markouts)) :
    ∃ dataPoint, orderBook.dataPoint = some dataPoint ∧ next.DistinctKeys ∧ ∀ execId,
      next.pending execId = ((engine.pending execId).map
        (·.advance dataPoint orderBook.cts)).filter (!·.isComplete) ∧
      returnedFor execId markouts = ((engine.pending execId).map
        (·.advance dataPoint orderBook.cts)).toList.filterMap
          fun pending ↦ CompletedMarkout.ofPending (execId, pending) := by
  obtain ⟨updated, hupdate, htake⟩ := Option.bind_eq_some_iff.mp hprocess
  obtain ⟨dataPoint, hdataPoint, hupdated, hpending⟩ := updatePrices_spec hdistinct hupdate
  obtain ⟨hnext, hreturned⟩ := takeCompletedMarkouts_spec hupdated htake
  refine ⟨dataPoint, hdataPoint, hnext, fun execId ↦ ?_⟩
  rw [← hpending execId]
  exact hreturned execId

/-- A book with two sides is processed as long as no horizon overflows. -/
theorem processOrderBook_isSome (hdistinct : engine.DistinctKeys)
    (hbook : orderBook.dataPoint.isSome) (hfill : ∀ execId pending,
      engine.pending execId = some pending → pending.fillTs.toNat + 10000 < 2 ^ 64) :
    (engine.processOrderBook orderBook).isSome := by
  obtain ⟨dataPoint, hdataPoint⟩ := Option.isSome_iff_exists.mp hbook
  have hslots : ∀ trade ∈ engine.trades, ((trade.2.fillSlots dataPoint orderBook.cts).map
      fun pending ↦ (trade.1, pending)).isSome := by
    intro trade hmem
    rw [Option.isSome_map]
    apply PendingMarkout.fillSlots_isSome
    exact hfill trade.1 trade.2 (pending_of_mem hdistinct hmem)
  rw [processOrderBook, updatePrices, hdataPoint, Option.bind_some,
    Keyed.mapM_eq_filterMap hslots, Option.map_some, Option.bind_some, takeCompletedMarkouts_eq]
  rfl

end Books

end MarkoutEngine

end MarketMaker
