import MarketMaker.Exchange.PublicWs

/-!
# What a sequence of deltas leaves

Only the last size assigned to a price matters, and it replaces what the book held there.  So a
sequence of deltas acts like any other sequence that assigns the same last sizes: deltas may be
merged into one, sent again, or have their entries for different prices interleaved in any way.
-/

namespace MarketMaker

variable {F : Type}

namespace PriceMap

variable [DecidableEq F]

/-- The last size assigned to each price. -/
def lastSizes (levels : List (Level F)) : PriceMap F := assignAll (fun _ ↦ none) levels

theorem assignAll_apply (reference : PriceMap F) (levels : List (Level F)) (price : F) :
    reference.assignAll levels price = (lastSizes levels price).or (reference price) := by
  unfold lastSizes
  induction levels using List.reverseRecOn with
  | nil => rfl
  | append_singleton first level ih =>
    unfold assignAll at ih ⊢
    rw [List.foldl_append, List.foldl_append]
    simp only [List.foldl_cons, List.foldl_nil, assign]
    split_ifs with hprice
    · rfl
    · exact ih

theorem lastSizes_append (first second : List (Level F)) (price : F) :
    lastSizes (first ++ second) price = (lastSizes second price).or (lastSizes first price) := by
  rw [lastSizes, assignAll, List.foldl_append]
  exact assignAll_apply (lastSizes first) second price

variable [OfScientific F]

def delta (reference : PriceMap F) (levels : List (Level F)) : PriceMap F :=
  (reference.assignAll levels).dropZeros

theorem delta_apply (reference : PriceMap F) (levels : List (Level F)) (price : F) :
    reference.delta levels price =
      ((lastSizes levels price).or (reference price)).filter (· ≠ 0.0) := by
  rw [delta, dropZeros, assignAll_apply]

/-- Two deltas act like one. -/
theorem delta_delta (reference : PriceMap F) (first second : List (Level F)) :
    (reference.delta first).delta second = reference.delta (first ++ second) := by
  funext price
  rw [delta_apply, delta_apply, delta_apply, lastSizes_append]
  cases lastSizes second price with
  | some size => rfl
  | none =>
    rw [Option.none_or, Option.none_or, Option.filter_filter]
    simp

def NoZeros (reference : PriceMap F) : Prop :=
  ∀ price size, reference price = some size → size ≠ 0.0

theorem delta_nil {reference : PriceMap F} (hsizes : reference.NoZeros) :
    reference.delta [] = reference := by
  funext price
  rw [delta_apply]
  cases hprice : reference price with
  | none => rfl
  | some size => exact Option.filter_some_pos (by simpa using hsizes price size hprice)

/-- A sequence of deltas acts like the delta with all their entries. -/
theorem foldl_delta {reference : PriceMap F} (hsizes : reference.NoZeros)
    (deltas : List (List (Level F))) :
    deltas.foldl delta reference = reference.delta deltas.flatten := by
  induction deltas using List.reverseRecOn with
  | nil => exact (delta_nil hsizes).symm
  | append_singleton first levels ih =>
    rw [List.foldl_append, ih, List.flatten_append, List.flatten_singleton]
    exact delta_delta reference first.flatten levels

end PriceMap

/-- A sorted side is determined by its map. -/
theorem Mirrors.unique [OfScientific F] {before : F → F → Prop} [Std.Asymm before]
    {levels levels' : List (Level F)} {reference : PriceMap F}
    (hmirrors : Mirrors before levels reference) (hmirrors' : Mirrors before levels' reference) :
    levels = levels' := by
  have hnodup : ∀ {levels : List (Level F)}, Mirrors before levels reference → levels.Nodup := by
    intro levels hmirrors
    apply hmirrors.sorted.imp
    intro a b hbefore heq
    exact asymm hbefore (heq ▸ hbefore)
  have hperm : levels.Perm levels' := by
    apply (List.perm_ext_iff_of_nodup (hnodup hmirrors) (hnodup hmirrors')).mpr
    intro level
    rw [hmirrors.entries, hmirrors'.entries]
  apply hperm.eq_of_pairwise _ hmirrors.sorted hmirrors'.sorted
  intro a b _ _ hab hba
  exact absurd hba (asymm hab)

/-! ## Messages -/

def askLevels (F : Type) [F64 F] (responses : List BasePublicResponse) : List (Level F) :=
  levelsOf (responses.flatMap (·.data.a))

def bidLevels (F : Type) [F64 F] (responses : List BasePublicResponse) : List (Level F) :=
  levelsOf (responses.flatMap (·.data.b))

theorem flatten_map_levelsOf [F64 F] (items : List (List OrderbookItem)) :
    (items.map levelsOf : List (List (Level F))).flatten = levelsOf items.flatten := by
  induction items with
  | nil => rfl
  | cons head rest ih =>
    rw [List.map_cons, List.flatten_cons, ih, List.flatten_cons, levelsOf_append]

namespace ReferenceBook

variable [F64 F] [DecidableEq F] [OfScientific F]

structure NoZeros (reference : ReferenceBook F) : Prop where
  bids : reference.bids.NoZeros
  asks : reference.asks.NoZeros

/-- The reference after deltas. -/
theorem foldl_apply {reference : ReferenceBook F} (hsizes : reference.NoZeros)
    {responses : List BasePublicResponse}
    (hdeltas : ∀ response ∈ responses, response.isSnapshot = false) :
    responses.foldl apply reference =
      { bids := reference.bids.delta (bidLevels F responses)
        asks := reference.asks.delta (askLevels F responses) } := by
  have hsides : responses.foldl apply reference =
      { bids := (responses.map fun response ↦ levelsOf response.data.b).foldl PriceMap.delta
          reference.bids
        asks := (responses.map fun response ↦ levelsOf response.data.a).foldl PriceMap.delta
          reference.asks } := by
    clear hsizes
    induction responses generalizing reference with
    | nil => rfl
    | cons response rest ih =>
      have hdelta := hdeltas response (List.mem_cons_self ..)
      rw [List.foldl_cons, ih fun other hmem ↦ hdeltas other (List.mem_cons_of_mem _ hmem)]
      simp [apply, hdelta, PriceMap.delta]
  rw [hsides, PriceMap.foldl_delta hsizes.bids, PriceMap.foldl_delta hsizes.asks, bidLevels,
    askLevels, List.flatMap, List.flatMap, ← flatten_map_levelsOf, ← flatten_map_levelsOf,
    List.map_map,
    List.map_map]
  rfl

end ReferenceBook

theorem OrderBook.Mirrors.noZeros [LT F] [OfScientific F] {orderBook : OrderBook F}
    {reference : ReferenceBook F} (hmirrors : orderBook.Mirrors reference) :
    reference.NoZeros where
  bids price size hprice :=
    hmirrors.bids.sizes { price, size } ((hmirrors.bids.entries _).mpr hprice)
  asks price size hprice :=
    hmirrors.asks.sizes { price, size } ((hmirrors.asks.entries _).mpr hprice)

namespace PublicWebSocket

variable [LinearOrder F] [OfScientific F] [F64 F]

/-- After the same messages, two sequences of deltas that assign the same last sizes leave the same
book, however their entries are spread over messages, ordered and repeated. -/
theorem same_book_of_last_sizes {responses first second : List BasePublicResponse}
    (hvalid : ∀ response ∈ responses ++ (first ++ second), ValidResponse F response)
    (hdeltas : ∀ response ∈ first ++ second, response.isSnapshot = false)
    (hasks : PriceMap.lastSizes (askLevels F first) = PriceMap.lastSizes (askLevels F second))
    (hbids : PriceMap.lastSizes (bidLevels F first) = PriceMap.lastSizes (bidLevels F second)) :
    ∃ (one other : PublicWebSocket F) (outputs outputs' : List (List (Publication F))),
      Machine.run processOrderbookResponse new (responses ++ first) = some (one, outputs) ∧
      Machine.run processOrderbookResponse new (responses ++ second) = some (other, outputs') ∧
      one.orderBook.asks = other.orderBook.asks ∧ one.orderBook.bids = other.orderBook.bids := by
  have hearlier : ∀ response ∈ responses, ValidResponse F response :=
    fun response hmem ↦ hvalid response (List.mem_append_left _ hmem)
  obtain ⟨before, outputs, -, hbefore⟩ := mirrors_of_messages hearlier
  have hafter : ∀ deltas : List BasePublicResponse,
      (∀ response ∈ deltas, response ∈ first ++ second) →
      ∃ (webSocket : PublicWebSocket F) (outputs : List (List (Publication F))),
        Machine.run processOrderbookResponse new (responses ++ deltas) =
          some (webSocket, outputs) ∧
        webSocket.orderBook.Mirrors
          { bids := (ReferenceBook.ofMessages responses).bids.delta (bidLevels F deltas)
            asks := (ReferenceBook.ofMessages responses).asks.delta (askLevels F deltas) } := by
    intro deltas hmem
    have hmessages : ∀ response ∈ responses ++ deltas, ValidResponse F response := by
      intro response hresponse
      obtain hresponse | hresponse := List.mem_append.mp hresponse
      · exact hearlier response hresponse
      · exact hvalid response (List.mem_append_right _ (hmem response hresponse))
    obtain ⟨webSocket, outputs, hrun, hmirrors⟩ := mirrors_of_messages hmessages
    refine ⟨webSocket, outputs, hrun, ?_⟩
    rw [ReferenceBook.ofMessages, List.foldl_append, ← ReferenceBook.ofMessages,
      ReferenceBook.foldl_apply hbefore.noZeros fun response hresponse ↦
        hdeltas response (hmem response hresponse)] at hmirrors
    exact hmirrors
  obtain ⟨one, front, hone, hfirst⟩ := hafter first fun _ ↦ List.mem_append_left _
  obtain ⟨other, back, hother, hsecond⟩ := hafter second fun _ ↦ List.mem_append_right _
  have hsame : ∀ (reference : PriceMap F) {levels levels' : List (Level F)},
      PriceMap.lastSizes levels = PriceMap.lastSizes levels' →
      reference.delta levels = reference.delta levels' := by
    intro reference levels levels' hlast
    funext price
    rw [PriceMap.delta_apply, PriceMap.delta_apply, hlast]
  refine ⟨one, other, front, back, hone, hother, ?_, ?_⟩
  · exact hfirst.asks.unique (hsame _ hasks ▸ hsecond.asks)
  · exact hfirst.bids.unique (hsame _ hbids ▸ hsecond.bids)

/-- A delta and the same delta sent twice. -/
theorem same_book_of_last_sizes_sample :
    ∃ (one other : PublicWebSocket ℚ) (outputs outputs' : List (List (Publication ℚ))),
      Machine.run processOrderbookResponse new ([sampleSnapshot] ++ [sampleDelta]) =
        some (one, outputs) ∧
      Machine.run processOrderbookResponse new ([sampleSnapshot] ++ [sampleDelta, sampleDelta]) =
        some (other, outputs') ∧
      one.orderBook.asks = other.orderBook.asks ∧ one.orderBook.bids = other.orderBook.bids := by
  apply same_book_of_last_sizes
  · intro response hmem
    simp only [List.cons_append, List.nil_append, List.mem_cons, List.not_mem_nil, or_false,
      or_self] at hmem
    rcases hmem with rfl | rfl
    · exact valid_sampleSnapshot
    · exact valid_sampleDelta
  · intro response hmem
    simp only [List.cons_append, List.nil_append, List.mem_cons, List.not_mem_nil, or_false,
      or_self] at hmem
    rw [hmem]
    decide +kernel
  · funext price
    simp [askLevels, levelsOf_append, PriceMap.lastSizes_append]
  · funext price
    simp [bidLevels, levelsOf_append, PriceMap.lastSizes_append]

end PublicWebSocket

end MarketMaker
