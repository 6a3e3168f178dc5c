import MarketMaker.Exchange.OrderBook
import MarketMaker.Foundation.Keyed
import MarketMaker.Foundation.Machine

/-!
# The public order book stream

`processOrderbookResponse` keeps the local book from snapshot and delta messages and publishes it
after every message.  The reference is a map from prices to sizes: a snapshot replaces it, a delta
assigns sizes in list order and then forgets the prices of size zero.  After every message the
book lists the entries of the map in strict price order.

Prices are compared by value, so the results hold over any linear order with a parser into it.
-/

namespace MarketMaker

variable {F : Type}

/-- The payload of a message: bids, asks and update id. -/
structure Orderbook where
  b : List OrderbookItem
  a : List OrderbookItem
  u : UInt64
  deriving DecidableEq

structure BasePublicResponse where
  type : String
  ts : UInt64
  data : Orderbook
  deriving DecidableEq

def BasePublicResponse.isSnapshot (response : BasePublicResponse) : Bool :=
  response.type == "snapshot" || response.data.u == 1

structure PublicWebSocket (F : Type) where
  orderBook : OrderBook F

/-- What a message sends on: the triple buffer read by the strategy and the recorder's queue. -/
inductive Publication (F : Type)
  | publish (orderBook : OrderBook F)
  | forcePush (orderBook : OrderBook F)
  deriving DecidableEq

def Level.withSize (item : Level F) (size : F) : Level F := { item with size }

theorem Level.price_withSize (size : F) (item : Level F) :
    (item.withSize size).price = item.price := rfl

/-- Write the size of the first level with the price, or append the level. -/
def setLevel [DecidableEq F] (levels : List (Level F)) (level : Level F) : List (Level F) :=
  Keyed.upsert Level.price (fun item ↦ item.withSize level.size) level levels

namespace PublicWebSocket

def new : PublicWebSocket F := { orderBook := OrderBook.default }

variable [F64 F] [DecidableEq F] [LE F] [DecidableLE F] [OfScientific F]

/-- One side of `process_delta`, up to the sort. -/
def applyItems (levels : List (Level F)) (items : List OrderbookItem) : Option (List (Level F)) :=
  items.foldlM (fun levels item ↦ (Level.fromItem item).map (setLevel levels)) levels

def processDelta (webSocket : PublicWebSocket F) (data : Orderbook) :
    Option (PublicWebSocket F) :=
  (applyItems webSocket.orderBook.asks data.a).bind fun asks ↦
    (applyItems webSocket.orderBook.bids data.b).map fun bids ↦
      { orderBook :=
        { webSocket.orderBook with
          asks := (asks.filter (·.size ≠ 0.0)).mergeSort fun a b ↦ decide (a.price ≤ b.price)
          bids := (bids.filter (·.size ≠ 0.0)).mergeSort fun a b ↦ decide (b.price ≤ a.price) } }

def processSnapshot (webSocket : PublicWebSocket F) (data : Orderbook) :
    Option (PublicWebSocket F) :=
  (data.a.mapM Level.fromItem).bind fun asks ↦
    (data.b.mapM Level.fromItem).map fun bids ↦
      { orderBook := { webSocket.orderBook with asks, bids } }

def processOrderbookResponse (webSocket : PublicWebSocket F) (response : BasePublicResponse) :
    Option (PublicWebSocket F × List (Publication F)) :=
  let stamped : PublicWebSocket F :=
    { orderBook := { webSocket.orderBook with cts := response.ts, ts := response.ts } }
  let processed := if response.isSnapshot then stamped.processSnapshot response.data
    else stamped.processDelta response.data
  processed.map fun next ↦ (next, [.publish next.orderBook, .forcePush next.orderBook])

end PublicWebSocket

/-! ## The reference -/

abbrev PriceMap (F : Type) := F → Option F

namespace PriceMap

variable [DecidableEq F]

def assign (reference : PriceMap F) (level : Level F) : PriceMap F :=
  fun price ↦ if level.price = price then some level.size else reference price

def dropZeros [OfScientific F] (reference : PriceMap F) : PriceMap F :=
  fun price ↦ (reference price).filter (· ≠ 0.0)

def assignAll (reference : PriceMap F) (levels : List (Level F)) : PriceMap F :=
  levels.foldl assign reference

end PriceMap

structure ReferenceBook (F : Type) where
  bids : PriceMap F
  asks : PriceMap F

/-- The levels of a message whose entries all parse. -/
def levelsOf [F64 F] (items : List OrderbookItem) : List (Level F) :=
  items.filterMap Level.fromItem

namespace ReferenceBook

variable [F64 F] [DecidableEq F] [OfScientific F]

def empty : ReferenceBook F := { bids := fun _ ↦ none, asks := fun _ ↦ none }

def apply (reference : ReferenceBook F) (response : BasePublicResponse) : ReferenceBook F :=
  if response.isSnapshot then
    { bids := PriceMap.assignAll (fun _ ↦ none) (levelsOf response.data.b)
      asks := PriceMap.assignAll (fun _ ↦ none) (levelsOf response.data.a) }
  else
    { bids := (reference.bids.assignAll (levelsOf response.data.b)).dropZeros
      asks := (reference.asks.assignAll (levelsOf response.data.a)).dropZeros }

def ofMessages (responses : List BasePublicResponse) : ReferenceBook F :=
  responses.foldl apply empty

end ReferenceBook

/-! ## Levels that represent a price map -/

/-- The levels have distinct prices and carry the sizes of the map. -/
structure Represents [DecidableEq F] (levels : List (Level F)) (reference : PriceMap F) :
    Prop where
  nodup : (levels.map Level.price).Nodup
  lookup : ∀ price, (Keyed.lookup Level.price levels price).map Level.size = reference price

namespace Represents

variable [DecidableEq F] {levels levels' : List (Level F)} {reference : PriceMap F}

theorem nil : Represents ([] : List (Level F)) fun _ ↦ none where
  nodup := List.nodup_nil
  lookup _ := rfl

theorem setLevel (hrepresents : Represents levels reference) (level : Level F) :
    Represents (setLevel levels level) (reference.assign level) where
  nodup := Keyed.nodup_upsert (Level.price_withSize level.size) level hrepresents.nodup
  lookup := by
    intro price
    rw [MarketMaker.setLevel, Keyed.lookup_upsert (Level.price_withSize level.size),
      PriceMap.assign, ← hrepresents.lookup price]
    split_ifs
    · cases Keyed.lookup Level.price levels price <;> rfl
    · rfl

theorem assignAll (hrepresents : Represents levels reference) (assigned : List (Level F)) :
    Represents (assigned.foldl MarketMaker.setLevel levels) (reference.assignAll assigned) := by
  induction assigned generalizing levels reference with
  | nil => exact hrepresents
  | cons level rest ih => exact ih (hrepresents.setLevel level)

theorem dropZeros [OfScientific F] (hrepresents : Represents levels reference) :
    Represents (levels.filter (·.size ≠ 0.0)) reference.dropZeros where
  nodup := Keyed.nodup_filter hrepresents.nodup _
  lookup := by
    intro price
    rw [Keyed.lookup_filter hrepresents.nodup, PriceMap.dropZeros, ← hrepresents.lookup price]
    cases Keyed.lookup Level.price levels price with
    | none => rfl
    | some level => by_cases hzero : level.size = 0.0 <;> simp [Option.filter, hzero]

theorem perm (hrepresents : Represents levels reference) (hperm : levels'.Perm levels) :
    Represents levels' reference where
  nodup := (hperm.map Level.price).nodup_iff.mpr hrepresents.nodup
  lookup price := by
    rw [← hrepresents.lookup price,
      Keyed.lookup_eq_of_perm hperm.symm hrepresents.nodup]

/-- The levels are exactly the entries of the map. -/
theorem mem_iff (hrepresents : Represents levels reference) (level : Level F) :
    level ∈ levels ↔ reference level.price = some level.size := by
  rw [Keyed.mem_iff_lookup hrepresents.nodup, ← hrepresents.lookup, Option.map_eq_some_iff]
  constructor
  · intro hlookup
    exact ⟨level, hlookup, rfl⟩
  · intro hsome
    obtain ⟨found, hfound, hsize⟩ := hsome
    have hprice : found.price = level.price := Keyed.key_of_lookup hfound
    have hsame : found = level := by
      cases found
      cases level
      simp_all
    exact hsame ▸ hfound

/-- Levels with distinct prices represent their own map. -/
theorem ofLevels (hnodup : (levels.map Level.price).Nodup) :
    Represents levels (PriceMap.assignAll (fun _ ↦ none) levels) := by
  have hself : ∀ first rest : List (Level F), ((first ++ rest).map Level.price).Nodup →
      rest.foldl MarketMaker.setLevel first = first ++ rest := by
    intro first rest
    induction rest generalizing first with
    | nil => simp
    | cons level rest ih =>
      intro hdistinct
      have hnew : level.price ∉ first.map Level.price := by
        rw [List.map_append, List.map_cons] at hdistinct
        exact fun hmem ↦ List.disjoint_of_nodup_append hdistinct hmem (List.mem_cons_self ..)
      have hsplit : first ++ level :: rest = (first ++ [level]) ++ rest := by simp
      rw [List.foldl_cons, MarketMaker.setLevel, Keyed.upsert_of_notMem hnew, hsplit]
      exact ih (first ++ [level]) (hsplit ▸ hdistinct)
  have hlevels := hself [] levels (by simpa using hnodup)
  rw [List.nil_append] at hlevels
  simpa only [hlevels] using nil.assignAll levels

end Represents

/-! ## The book after every message -/

/-- One side of the book lists the entries of the map, strictly sorted and without size zero. -/
structure Mirrors [OfScientific F] (before : F → F → Prop) (levels : List (Level F))
    (reference : PriceMap F) : Prop where
  sorted : levels.Pairwise fun a b ↦ before a.price b.price
  entries : ∀ level : Level F, level ∈ levels ↔ reference level.price = some level.size
  sizes : ∀ level ∈ levels, level.size ≠ 0.0

/-- Asks ascend and bids descend. -/
structure OrderBook.Mirrors [LT F] [OfScientific F] (orderBook : OrderBook F)
    (reference : ReferenceBook F) : Prop where
  asks : MarketMaker.Mirrors (· < ·) orderBook.asks reference.asks
  bids : MarketMaker.Mirrors (· > ·) orderBook.bids reference.bids

/-- What the exchange promises: every text is a number, and the sides of a snapshot are strictly
sorted levels without size zero. -/
structure ValidResponse (F : Type) [F64 F] [LT F] [OfScientific F]
    (response : BasePublicResponse) : Prop where
  parses : ∀ item ∈ response.data.a ++ response.data.b,
    (Level.fromItem item : Option (Level F)).isSome
  asks : response.isSnapshot →
    (levelsOf response.data.a : List (Level F)).Pairwise fun a b ↦ a.price < b.price
  bids : response.isSnapshot →
    (levelsOf response.data.b : List (Level F)).Pairwise fun a b ↦ a.price > b.price
  sizes : response.isSnapshot →
    ∀ level ∈ (levelsOf (response.data.a ++ response.data.b) : List (Level F)), level.size ≠ 0.0

theorem levelsOf_append [F64 F] (first second : List OrderbookItem) :
    (levelsOf (first ++ second) : List (Level F)) = levelsOf first ++ levelsOf second :=
  List.filterMap_append

theorem applyItems_eq [F64 F] [DecidableEq F] {items : List OrderbookItem}
    (hparses : ∀ item ∈ items, (Level.fromItem item : Option (Level F)).isSome)
    (levels : List (Level F)) :
    PublicWebSocket.applyItems levels items = some ((levelsOf items).foldl setLevel levels) := by
  induction items generalizing levels with
  | nil => rfl
  | cons item rest ih =>
    obtain ⟨level, hlevel⟩ := Option.isSome_iff_exists.mp (hparses item (List.mem_cons_self ..))
    have hrest := ih (fun item hmem ↦ hparses item (List.mem_cons_of_mem _ hmem))
      (setLevel levels level)
    rw [PublicWebSocket.applyItems] at hrest ⊢
    simp [hlevel, hrest, levelsOf]

section Sides

variable [OfScientific F] {before : F → F → Prop} {levels : List (Level F)}
  {reference : PriceMap F}

theorem Represents.mirrors [DecidableEq F] (hrepresents : Represents levels reference)
    (hsorted : levels.Pairwise fun a b ↦ before a.price b.price)
    (hsizes : ∀ level ∈ levels, level.size ≠ 0.0) : Mirrors before levels reference where
  sorted := hsorted
  entries := hrepresents.mem_iff
  sizes := hsizes

theorem Mirrors.represents [DecidableEq F] (hmirrors : Mirrors before levels reference)
    (hirrefl : ∀ a b, before a b → a ≠ b) : Represents levels reference where
  nodup := List.pairwise_map.mpr (hmirrors.sorted.imp fun h ↦ hirrefl _ _ h)
  lookup := by
    intro price
    cases hlookup : Keyed.lookup Level.price levels price with
    | none =>
      rw [Keyed.lookup_eq_none] at hlookup
      cases hentry : reference price with
      | none => rfl
      | some size =>
        have hmem := (hmirrors.entries { price, size }).mpr hentry
        exact absurd (List.mem_map_of_mem hmem) hlookup
    | some level =>
      have hprice := Keyed.key_of_lookup hlookup
      have hmem : level ∈ levels := List.mem_of_find?_eq_some hlookup
      rw [← hprice, (hmirrors.entries level).mp hmem]
      rfl

/-- A delta on one side: assign, drop the zeros, sort. -/
theorem Represents.delta [DecidableEq F] (hrepresents : Represents levels reference)
    (assigned : List (Level F)) (le : Level F → Level F → Bool)
    (hsorted : ∀ entries : List (Level F), (entries.map Level.price).Nodup →
      (entries.mergeSort le).Pairwise fun a b ↦ before a.price b.price) :
    Mirrors before
      (((assigned.foldl MarketMaker.setLevel levels).filter (·.size ≠ 0.0)).mergeSort le)
      (reference.assignAll assigned).dropZeros := by
  have hkept := (hrepresents.assignAll assigned).dropZeros
  apply (hkept.perm (List.mergeSort_perm _ le)).mirrors (hsorted _ hkept.nodup)
  intro level hmem
  simpa using (List.mem_filter.mp (List.mem_mergeSort.mp hmem)).2

/-- A snapshot of one side. -/
theorem mirrors_snapshot [DecidableEq F] (hirrefl : ∀ a b, before a b → a ≠ b)
    (hsorted : levels.Pairwise fun a b ↦ before a.price b.price)
    (hsizes : ∀ level ∈ levels, level.size ≠ 0.0) :
    Mirrors before levels (PriceMap.assignAll (fun _ ↦ none) levels) := by
  have hnodup : (levels.map Level.price).Nodup :=
    List.pairwise_map.mpr (hsorted.imp fun h ↦ hirrefl _ _ h)
  exact (Represents.ofLevels hnodup).mirrors hsorted hsizes

end Sides

section Sorting

variable [LinearOrder F]

theorem pairwise_lt_sort_asks {entries : List (Level F)}
    (hnodup : (entries.map Level.price).Nodup) :
    (entries.mergeSort fun a b ↦ decide (a.price ≤ b.price)).Pairwise
      fun a b ↦ a.price < b.price :=
  Keyed.pairwise_lt_mergeSort hnodup

theorem pairwise_gt_sort_bids {entries : List (Level F)}
    (hnodup : (entries.map Level.price).Nodup) :
    (entries.mergeSort fun a b ↦ decide (b.price ≤ a.price)).Pairwise
      fun a b ↦ a.price > b.price :=
  @Keyed.pairwise_lt_mergeSort _ Fᵒᵈ _ (fun level : Level F ↦ OrderDual.toDual level.price) entries
    hnodup

end Sorting

namespace PublicWebSocket

variable [LinearOrder F] [OfScientific F]

theorem mirrors_new : (new : PublicWebSocket F).orderBook.Mirrors ReferenceBook.empty where
  asks := Represents.nil.mirrors List.Pairwise.nil (by simp)
  bids := Represents.nil.mirrors List.Pairwise.nil (by simp)

variable [F64 F] {webSocket : PublicWebSocket F}
  {reference : ReferenceBook F} {response : BasePublicResponse}
  {responses : List BasePublicResponse}

/-- One message keeps the book equal to the reference and publishes it. -/
theorem processOrderbookResponse_mirrors (hvalid : ValidResponse F response)
    (hmirrors : webSocket.orderBook.Mirrors reference) :
    ∃ next, webSocket.processOrderbookResponse response =
        some (next, [.publish next.orderBook, .forcePush next.orderBook]) ∧
      next.orderBook.Mirrors (reference.apply response) := by
  have hasks : ∀ item ∈ response.data.a, (Level.fromItem item : Option (Level F)).isSome :=
    fun item hmem ↦ hvalid.parses item (List.mem_append_left _ hmem)
  have hbids : ∀ item ∈ response.data.b, (Level.fromItem item : Option (Level F)).isSome :=
    fun item hmem ↦ hvalid.parses item (List.mem_append_right _ hmem)
  by_cases hsnapshot : response.isSnapshot = true
  · have hsizes := hvalid.sizes hsnapshot
    rw [levelsOf_append] at hsizes
    simp only [processOrderbookResponse, ReferenceBook.apply, hsnapshot, if_true, processSnapshot,
      Keyed.mapM_eq_filterMap hasks, Keyed.mapM_eq_filterMap hbids, Option.bind_some,
      Option.map_some]
    refine ⟨_, rfl, ?_, ?_⟩
    · exact mirrors_snapshot (fun a b ↦ ne_of_lt) (hvalid.asks hsnapshot)
        fun level hmem ↦ hsizes level (List.mem_append_left _ hmem)
    · exact mirrors_snapshot (fun a b ↦ ne_of_gt) (hvalid.bids hsnapshot)
        fun level hmem ↦ hsizes level (List.mem_append_right _ hmem)
  · simp only [processOrderbookResponse, ReferenceBook.apply, hsnapshot, if_false, processDelta,
      applyItems_eq hasks, applyItems_eq hbids, Option.bind_some, Option.map_some,
      Bool.false_eq_true]
    refine ⟨_, rfl, ?_, ?_⟩
    · exact (hmirrors.asks.represents fun a b ↦ ne_of_lt).delta _ _ fun _ ↦ pairwise_lt_sort_asks
    · exact (hmirrors.bids.represents fun a b ↦ ne_of_gt).delta _ _ fun _ ↦ pairwise_gt_sort_bids

theorem mirrors_of_messages (hvalid : ∀ response ∈ responses, ValidResponse F response) :
    ∃ (webSocket : PublicWebSocket F) (outputs : List (List (Publication F))),
      Machine.run processOrderbookResponse new responses = some (webSocket, outputs) ∧
      webSocket.orderBook.Mirrors (ReferenceBook.ofMessages responses) := by
  induction responses using List.reverseRecOn with
  | nil => exact ⟨new, [], rfl, mirrors_new⟩
  | append_singleton first response ih =>
    obtain ⟨webSocket, front, hrun, hmirrors⟩ :=
      ih fun response hmem ↦ hvalid response (List.mem_append_left _ hmem)
    obtain ⟨next, hstep, hnext⟩ := processOrderbookResponse_mirrors
      (hvalid response (List.mem_append_right _ (List.mem_singleton_self _))) hmirrors
    refine ⟨next, _, Machine.run_append_eq_some.mpr ⟨webSocket, front, _, hrun,
      Machine.run_singleton_eq_some.mpr ⟨_, hstep, rfl⟩, rfl⟩, ?_⟩
    rw [ReferenceBook.ofMessages, List.foldl_append]
    exact hnext

/-- After every message the local book mirrors the reference, and it is what was published to the
strategy and to the recorder. -/
theorem book_mirrors_reference (hvalid : ∀ response ∈ responses, ValidResponse F response) :
    ∀ first response rest, responses = first ++ response :: rest →
      ∃ (webSocket : PublicWebSocket F) (front : List (List (Publication F))),
        Machine.run processOrderbookResponse new (first ++ [response]) =
          some (webSocket,
            front ++ [[.publish webSocket.orderBook, .forcePush webSocket.orderBook]]) ∧
        webSocket.orderBook.Mirrors (ReferenceBook.ofMessages (first ++ [response])) := by
  intro first response rest hsplit
  subst hsplit
  obtain ⟨webSocket, front, hrun, hmirrors⟩ :=
    mirrors_of_messages fun response hmem ↦ hvalid response (List.mem_append_left _ hmem)
  obtain ⟨next, hstep, hnext⟩ := processOrderbookResponse_mirrors
    (hvalid response (List.mem_append_right _ (List.mem_cons_self ..))) hmirrors
  refine ⟨next, front, Machine.run_append_eq_some.mpr ⟨webSocket, front, _, hrun,
    Machine.run_singleton_eq_some.mpr ⟨_, hstep, rfl⟩, rfl⟩, ?_⟩
  rw [ReferenceBook.ofMessages, List.foldl_append]
  exact hnext

def sampleSnapshot : BasePublicResponse :=
  { type := "snapshot", ts := 1000
    data := { b := [⟨"99", "2"⟩, ⟨"98", "3"⟩], a := [⟨"101", "2"⟩, ⟨"102", "3"⟩], u := 7 } }

/-- A repeated price, a level removed and entered again and the deletion of an absent level. -/
def sampleDelta : BasePublicResponse :=
  { type := "delta", ts := 2000
    data := { b := [⟨"97", "7"⟩, ⟨"99", "0"⟩, ⟨"97", "8"⟩],
              a := [⟨"101", "0"⟩, ⟨"101", "5"⟩, ⟨"103", "0"⟩], u := 8 } }

theorem valid_sampleSnapshot : ValidResponse ℚ sampleSnapshot where
  parses := by decide +kernel
  asks _ := by decide +kernel
  bids _ := by decide +kernel
  sizes _ := by decide +kernel

theorem valid_sampleDelta : ValidResponse ℚ sampleDelta := by
  have hdelta : sampleDelta.isSnapshot = false := by decide +kernel
  constructor
  · decide +kernel
  · simp [hdelta]
  · simp [hdelta]
  · simp [hdelta]

/-- A delta on the empty book, and a snapshot that replaces what it left. -/
theorem book_mirrors_reference_sample :
    (∃ (webSocket : PublicWebSocket ℚ) (front : List (List (Publication ℚ))),
      Machine.run processOrderbookResponse new [sampleDelta] = some (webSocket,
        front ++ [[.publish webSocket.orderBook, .forcePush webSocket.orderBook]]) ∧
      webSocket.orderBook.Mirrors (ReferenceBook.ofMessages [sampleDelta]) ∧
      webSocket.orderBook =
        { bids := [{ price := 97, size := 8 }], asks := [{ price := 101, size := 5 }]
          ts := 2000, cts := 2000 }) ∧
    ∃ (webSocket : PublicWebSocket ℚ) (front : List (List (Publication ℚ))),
      Machine.run processOrderbookResponse new [sampleDelta, sampleSnapshot] = some (webSocket,
        front ++ [[.publish webSocket.orderBook, .forcePush webSocket.orderBook]]) ∧
      webSocket.orderBook.Mirrors (ReferenceBook.ofMessages [sampleDelta, sampleSnapshot]) ∧
      webSocket.orderBook =
        { bids := [{ price := 99, size := 2 }, { price := 98, size := 3 }]
          asks := [{ price := 101, size := 2 }, { price := 102, size := 3 }]
          ts := 1000, cts := 1000 } := by
  have hvalid : ∀ response ∈ [sampleDelta, sampleSnapshot, sampleDelta],
      ValidResponse ℚ response := by
    intro response hmem
    simp only [List.mem_cons, List.not_mem_nil, or_false] at hmem
    rcases hmem with rfl | rfl | rfl
    · exact valid_sampleDelta
    · exact valid_sampleSnapshot
    · exact valid_sampleDelta
  have hbook : ∀ {responses : List BasePublicResponse} {webSocket : PublicWebSocket ℚ}
      {outputs : List (List (Publication ℚ))} {orderBook : OrderBook ℚ},
      Machine.run processOrderbookResponse new responses = some (webSocket, outputs) →
      (Machine.run processOrderbookResponse new responses).map (·.1.orderBook) = some orderBook →
      webSocket.orderBook = orderBook := by
    intro responses webSocket outputs orderBook hrun horderBook
    rw [hrun] at horderBook
    exact Option.some.inj horderBook
  constructor
  · obtain ⟨webSocket, front, hrun, hmirrors⟩ :=
      book_mirrors_reference hvalid [] sampleDelta _ rfl
    exact ⟨webSocket, front, hrun, hmirrors, hbook hrun (by decide +kernel)⟩
  · obtain ⟨webSocket, front, hrun, hmirrors⟩ :=
      book_mirrors_reference hvalid [sampleDelta] sampleSnapshot _ rfl
    exact ⟨webSocket, front, hrun, hmirrors, hbook hrun (by decide +kernel)⟩

end PublicWebSocket

end MarketMaker
