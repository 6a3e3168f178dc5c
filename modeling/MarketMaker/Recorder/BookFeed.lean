import MarketMaker.Exchange.PublicWs
import MarketMaker.Recorder.Horizons

/-!
# From the book stream to the recorder

The book stream publishes its local book after every message; the recorder aborts on a book with an
empty side.  A message leaves a side empty when it is a snapshot without entries there, or a delta
after which no level of the side has a size.  The recorder processes everything that was published
exactly when no message of the stream does that.
-/

namespace MarketMaker

variable {F : Type}

/-- Every text of the message is a number. -/
def BasePublicResponse.Parses (F : Type) [F64 F] (response : BasePublicResponse) : Prop :=
  ∀ item ∈ response.data.a ++ response.data.b, (Level.fromItem item : Option (Level F)).isSome

theorem levelsOf_ne_nil_iff [F64 F] {items : List OrderbookItem}
    (hparses : ∀ item ∈ items, (Level.fromItem item : Option (Level F)).isSome) :
    (levelsOf items : List (Level F)) ≠ [] ↔ items ≠ [] := by
  cases items with
  | nil => simp [levelsOf]
  | cons item rest =>
    obtain ⟨level, hlevel⟩ := Option.isSome_iff_exists.mp (hparses item (List.mem_cons_self ..))
    simp [levelsOf, hlevel]

/-- What the assigned entries leave at one price: the last entry takes the place of the first level
there.  Only a snapshot that repeats a price leaves a second one. -/
theorem filter_setLevels [DecidableEq F] (levels assigned : List (Level F)) (price : F) :
    (assigned.foldl setLevel levels).filter (fun level ↦ level.price = price) =
      match PriceMap.assignAll (fun _ ↦ none) assigned price with
      | some size => { price, size } :: (levels.filter fun level ↦ level.price = price).tail
      | none => levels.filter fun level ↦ level.price = price := by
  induction assigned using List.reverseRecOn with
  | nil => rfl
  | append_singleton first item ih =>
    rw [List.foldl_append, List.foldl_cons, List.foldl_nil, setLevel,
      Keyed.filter_upsert (Level.price_withSize item.size), PriceMap.assignAll, List.foldl_append,
      ← PriceMap.assignAll]
    change _ = match PriceMap.assign _ item price with
      | some size => _
      | none => _
    unfold PriceMap.assign
    by_cases hprice : item.price = price
    · subst hprice
      rw [if_pos rfl, if_pos rfl, ih]
      cases PriceMap.assignAll (fun _ ↦ none) first item.price with
      | some size => rfl
      | none =>
        cases hlevels : levels.filter fun level ↦ level.price = item.price with
        | nil => rfl
        | cons level rest =>
          have hlevel : level ∈ levels.filter fun level ↦ level.price = item.price := by
            rw [hlevels]
            exact List.mem_cons_self ..
          have hsame : level.price = item.price := by simpa using (List.mem_filter.mp hlevel).2
          simp [Level.withSize, hsame]
    · rw [if_neg hprice, if_neg hprice]
      exact ih

section Sides

variable [DecidableEq F] [OfScientific F]

/-- The entries of a delta leave a level with a size on one side: the last one for some price has a
size, or a level with a size is at a price without entry.  A second level at the price of an entry
counts as well. -/
def LeavesLevel (levels assigned : List (Level F)) : Prop :=
  ∃ price, match PriceMap.assignAll (fun _ ↦ none) assigned price with
    | some size => size ≠ 0.0 ∨
        ∃ level ∈ (levels.filter fun level ↦ level.price = price).tail, level.size ≠ 0.0
    | none => ∃ level ∈ levels, level.price = price ∧ level.size ≠ 0.0

theorem leavesLevel_of_lastSize {assigned : List (Level F)} {price size : F}
    (hlast : PriceMap.assignAll (fun _ ↦ none) assigned price = some size) (hsize : size ≠ 0.0)
    (levels : List (Level F)) : LeavesLevel levels assigned := by
  refine ⟨price, ?_⟩
  rw [hlast]
  exact .inl hsize

theorem leavesLevel_iff {levels assigned : List (Level F)} :
    LeavesLevel levels assigned ↔ ∃ level ∈ assigned.foldl setLevel levels, level.size ≠ 0.0 := by
  have hprice : ∀ price, (match PriceMap.assignAll (fun _ ↦ none) assigned price with
      | some size => size ≠ 0.0 ∨
          ∃ level ∈ (levels.filter fun level ↦ level.price = price).tail, level.size ≠ 0.0
      | none => ∃ level ∈ levels, level.price = price ∧ level.size ≠ 0.0) ↔
      ∃ level ∈ assigned.foldl setLevel levels, level.price = price ∧ level.size ≠ 0.0 := by
    intro price
    have hfilter := filter_setLevels levels assigned price
    have hmem : ∀ level : Level F, level ∈ assigned.foldl setLevel levels ∧ level.price = price ↔
        level ∈ (assigned.foldl setLevel levels).filter fun level ↦ level.price = price := by
      simp
    simp only [← and_assoc, hmem, hfilter]
    cases PriceMap.assignAll (fun _ ↦ none) assigned price with
    | some size => simp
    | none => simp
  unfold LeavesLevel
  simp only [hprice]
  constructor
  · intro hleaves
    obtain ⟨price, level, hmem, -, hsize⟩ := hleaves
    exact ⟨level, hmem, hsize⟩
  · intro hlevel
    obtain ⟨level, hmem, hsize⟩ := hlevel
    exact ⟨level.price, level, hmem, rfl, hsize⟩

/-- Dropping the levels without size and sorting leaves a level. -/
theorem sorted_ne_nil_iff (levels assigned : List (Level F)) (le : Level F → Level F → Bool) :
    ((assigned.foldl setLevel levels).filter (·.size ≠ 0.0)).mergeSort le ≠ [] ↔
      LeavesLevel levels assigned := by
  rw [leavesLevel_iff, ne_eq, List.eq_nil_iff_forall_not_mem]
  simp [List.mem_mergeSort]

end Sides

namespace PublicWebSocket

variable [F64 F] [DecidableEq F] [LE F] [DecidableLE F] [OfScientific F]
  {webSocket : PublicWebSocket F} {response : BasePublicResponse}
  {responses : List BasePublicResponse}

/-- The message leaves both sides of the local book with a level. -/
def KeepsSides (webSocket : PublicWebSocket F) (response : BasePublicResponse) : Prop :=
  if response.isSnapshot then response.data.a ≠ [] ∧ response.data.b ≠ []
  else LeavesLevel webSocket.orderBook.asks (levelsOf response.data.a) ∧
    LeavesLevel webSocket.orderBook.bids (levelsOf response.data.b)

/-- A message that parses is processed and published; the sides of the new book are as predicted. -/
theorem processOrderbookResponse_sides (webSocket : PublicWebSocket F)
    (hparses : response.Parses F) :
    ∃ next, webSocket.processOrderbookResponse response =
        some (next, [.publish next.orderBook, .forcePush next.orderBook]) ∧
      (next.orderBook.bids ≠ [] ∧ next.orderBook.asks ≠ [] ↔ webSocket.KeepsSides response) := by
  have hasks : ∀ item ∈ response.data.a, (Level.fromItem item : Option (Level F)).isSome :=
    fun item hmem ↦ hparses item (List.mem_append_left _ hmem)
  have hbids : ∀ item ∈ response.data.b, (Level.fromItem item : Option (Level F)).isSome :=
    fun item hmem ↦ hparses item (List.mem_append_right _ hmem)
  unfold KeepsSides
  cases hsnapshot : response.isSnapshot with
  | true =>
    simp only [processOrderbookResponse, hsnapshot, if_true, processSnapshot,
      Keyed.mapM_eq_filterMap hasks, Keyed.mapM_eq_filterMap hbids, Option.bind_some,
      Option.map_some]
    refine ⟨_, rfl, ?_⟩
    exact and_comm.trans (and_congr (levelsOf_ne_nil_iff hasks) (levelsOf_ne_nil_iff hbids))
  | false =>
    simp only [processOrderbookResponse, hsnapshot, if_false, processDelta, applyItems_eq hasks,
      applyItems_eq hbids, Option.bind_some, Option.map_some, Bool.false_eq_true]
    refine ⟨_, rfl, ?_⟩
    simp only [sorted_ne_nil_iff]
    exact and_comm

/-- Along a stream every pushed book has two sides exactly when every message keeps them. -/
theorem pushed_sides_iff (webSocket : PublicWebSocket F)
    (hparses : ∀ response ∈ responses, response.Parses F) :
    ∃ final outputs, Machine.run processOrderbookResponse webSocket responses =
        some (final, outputs) ∧
      ((∀ orderBook, .forcePush orderBook ∈ outputs.flatten →
          orderBook.bids ≠ [] ∧ orderBook.asks ≠ []) ↔
        Machine.Along processOrderbookResponse
          (fun webSocket response _ ↦ webSocket.KeepsSides response) webSocket responses) := by
  induction responses generalizing webSocket with
  | nil => exact ⟨webSocket, [], rfl, by simp⟩
  | cons response rest ih =>
    obtain ⟨next, hstep, hsides⟩ :=
      processOrderbookResponse_sides webSocket (hparses response (List.mem_cons_self ..))
    obtain ⟨final, later, hrest, hlater⟩ :=
      ih next fun response hmem ↦ hparses response (List.mem_cons_of_mem _ hmem)
    refine ⟨final, _, Machine.run_cons_eq_some.mpr ⟨next, _, later, hstep, hrest, rfl⟩, ?_⟩
    have halong : Machine.Along processOrderbookResponse
        (fun webSocket response _ ↦ webSocket.KeepsSides response) webSocket (response :: rest) ↔
          webSocket.KeepsSides response ∧ Machine.Along processOrderbookResponse
            (fun webSocket response _ ↦ webSocket.KeepsSides response) next rest := by
      apply and_congr_right
      intro _
      simp [hstep]
    rw [halong, ← hsides, ← hlater]
    simp only [List.flatten_cons, List.mem_append, List.mem_cons, List.not_mem_nil, or_false,
      reduceCtorEq, false_or, Publication.forcePush.injEq]
    constructor
    · intro hall
      exact ⟨hall _ (.inl rfl), fun orderBook hmem ↦ hall orderBook (.inr hmem)⟩
    · intro hboth orderBook hmem
      rcases hmem with rfl | hmem
      · exact hboth.1
      · exact hboth.2 orderBook hmem

end PublicWebSocket

section Recorder

variable [Add F] [Sub F] [Div F] [OfScientific F]

/-- The states of the recorder after fills whose horizons do not overflow. -/
def MarkoutEngine.Reachable (engine : MarkoutEngine F) : Prop :=
  ∃ inputs outputs, Machine.run MarkoutEngine.step MarkoutEngine.new inputs =
      some (engine, outputs) ∧
    ∀ execution, .updateTrades execution ∈ inputs → execution.execTs.toNat + 10000 < 2 ^ 64

/-- The recorder processes a book in every reachable state exactly when it has two sides. -/
theorem MarkoutEngine.processed_iff {orderBook : OrderBook F} :
    (∀ engine : MarkoutEngine F, engine.Reachable → (engine.processOrderBook orderBook).isSome) ↔
      orderBook.bids ≠ [] ∧ orderBook.asks ≠ [] := by
  constructor
  · intro hall
    have hprocess := hall MarkoutEngine.new ⟨[], [], rfl, by simp⟩
    constructor
    · intro hbids
      simp [MarkoutEngine.processOrderBook, MarkoutEngine.updatePrices, OrderBook.dataPoint,
        hbids] at hprocess
    · intro hasks
      simp [MarkoutEngine.processOrderBook, MarkoutEngine.updatePrices, OrderBook.dataPoint,
        hasks] at hprocess
  · intro hsides engine hreachable
    obtain ⟨inputs, outputs, hrun, hfills⟩ := hreachable
    apply MarkoutEngine.processOrderBook_isSome (MarkoutEngine.distinctKeys_of_run hrun)
      (MarkoutEngine.dataPoint_isSome hsides.1 hsides.2)
    intro execId pendingMarkout hpending
    obtain ⟨execution, hmem, -, horigin⟩ := MarkoutEngine.origin_of_run hrun hpending
    rw [horigin]
    exact hfills execution hmem

end Recorder

namespace PublicWebSocket

/-- The stream is processed, and the recorder can process every book pushed to it, in whatever
reachable state it is, exactly when every message keeps both sides of the book. -/
theorem pushed_books_processed_iff [F64 F] [DecidableEq F] [LE F] [DecidableLE F]
    [OfScientific F] [Add F] [Sub F] [Div F] {responses : List BasePublicResponse}
    (hparses : ∀ response ∈ responses, response.Parses F) :
    ∃ (webSocket : PublicWebSocket F) (outputs : List (List (Publication F))),
      Machine.run processOrderbookResponse new responses = some (webSocket, outputs) ∧
      ((∀ orderBook, .forcePush orderBook ∈ outputs.flatten → ∀ engine : MarkoutEngine F,
          engine.Reachable → (engine.processOrderBook orderBook).isSome) ↔
        Machine.Along processOrderbookResponse
          (fun (webSocket : PublicWebSocket F) response _ ↦ webSocket.KeepsSides response)
          new responses) := by
  obtain ⟨webSocket, outputs, hrun, hsides⟩ := pushed_sides_iff new hparses
  refine ⟨webSocket, outputs, hrun, ?_⟩
  simp only [MarkoutEngine.processed_iff]
  exact hsides

/-- A delta of the sample book that keeps both sides. -/
theorem pushed_books_processed_sample :
    ∃ (webSocket : PublicWebSocket ℚ) (outputs : List (List (Publication ℚ))),
      Machine.run processOrderbookResponse new [sampleSnapshot, sampleDelta] =
        some (webSocket, outputs) ∧
      ∀ orderBook, .forcePush orderBook ∈ outputs.flatten → ∀ engine : MarkoutEngine ℚ,
        engine.Reachable → (engine.processOrderBook orderBook).isSome := by
  have hparses : ∀ response ∈ [sampleSnapshot, sampleDelta], response.Parses ℚ := by
    intro response hmem
    simp only [List.mem_cons, List.not_mem_nil, or_false] at hmem
    rcases hmem with rfl | rfl
    · exact (by decide +kernel : ∀ item ∈ sampleSnapshot.data.a ++ sampleSnapshot.data.b,
        (Level.fromItem item : Option (Level ℚ)).isSome)
    · exact (by decide +kernel : ∀ item ∈ sampleDelta.data.a ++ sampleDelta.data.b,
        (Level.fromItem item : Option (Level ℚ)).isSome)
  obtain ⟨webSocket, outputs, hrun, hiff⟩ := pushed_books_processed_iff hparses
  refine ⟨webSocket, outputs, hrun, hiff.mpr ⟨?_, fun next _ _ ↦ ⟨?_, fun _ _ _ ↦ trivial⟩⟩⟩
  · exact (by decide +kernel : sampleSnapshot.data.a ≠ [] ∧ sampleSnapshot.data.b ≠ [])
  · have hasks : PriceMap.assignAll (fun _ ↦ none) (levelsOf sampleDelta.data.a) (101 : ℚ) =
        some 5 := by decide +kernel
    have hbids : PriceMap.assignAll (fun _ ↦ none) (levelsOf sampleDelta.data.b) (97 : ℚ) =
        some 8 := by decide +kernel
    exact ⟨leavesLevel_of_lastSize hasks (by norm_num) _,
      leavesLevel_of_lastSize hbids (by norm_num) _⟩

def thinSnapshot : BasePublicResponse :=
  { type := "snapshot", ts := 1000, data := { b := [⟨"99", "2"⟩], a := [⟨"101", "2"⟩], u := 7 } }

/-- The only ask goes. -/
def clearingDelta : BasePublicResponse :=
  { type := "delta", ts := 2000, data := { b := [], a := [⟨"101", "0"⟩], u := 8 } }

def bookWithoutAsks : OrderBook ℚ :=
  { bids := [{ price := 99, size := 2 }], asks := [], ts := 2000, cts := 2000 }

/-- The book without asks is pushed, and the recorder aborts on it. -/
theorem not_pushed_books_processed :
    ¬∀ responses : List BasePublicResponse, (∀ response ∈ responses, response.Parses ℚ ∧
        ∀ level ∈ (levelsOf (response.data.a ++ response.data.b) : List (Level ℚ)),
          0 ≤ level.size) →
      ∀ webSocket outputs, Machine.run processOrderbookResponse new responses =
          some (webSocket, outputs) →
        ∀ orderBook, .forcePush orderBook ∈ outputs.flatten → ∀ engine : MarkoutEngine ℚ,
          engine.Reachable → (engine.processOrderBook orderBook).isSome := by
  intro hall
  have hresponses : ∀ response ∈ [thinSnapshot, clearingDelta], response.Parses ℚ ∧
      ∀ level ∈ (levelsOf (response.data.a ++ response.data.b) : List (Level ℚ)),
        0 ≤ level.size := by
    intro response hmem
    simp only [List.mem_cons, List.not_mem_nil, or_false] at hmem
    unfold BasePublicResponse.Parses
    rcases hmem with rfl | rfl <;> decide +kernel
  have hpushed : (Machine.run processOrderbookResponse (new : PublicWebSocket ℚ)
      [thinSnapshot, clearingDelta]).any
        (fun result ↦ decide (.forcePush bookWithoutAsks ∈ result.2.flatten)) := by
    decide +kernel
  obtain ⟨⟨webSocket, outputs⟩, hrun, hmem⟩ := (Option.any_eq_true ..).mp hpushed
  have hprocessed := hall _ hresponses webSocket outputs hrun _ (of_decide_eq_true hmem)
  exact (MarkoutEngine.processed_iff.mp hprocessed).2 rfl

end PublicWebSocket

end MarketMaker
