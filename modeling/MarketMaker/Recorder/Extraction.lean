import MarketMaker.Recorder.Markout

/-!
# Extraction of completed markouts

The completed markouts leave a hash map in an unspecified order and are sorted by fill time, link id
and execution id.  Execution ids are distinct, so no two of them tie, and the returned list does not
depend on the order in which the map is iterated.
-/

namespace MarketMaker

variable {F : Type}

/-- The strict order by fill time, link id and execution id. -/
def CompletedMarkout.Precedes (left right : CompletedMarkout F) : Prop :=
  left.fillTs < right.fillTs ∨ left.fillTs = right.fillTs ∧
    (left.orderLinkId < right.orderLinkId ∨ left.orderLinkId = right.orderLinkId ∧
      left.execId < right.execId)

namespace MarkoutEngine

/-- The comparison that extracted trades are sorted by. -/
def compareTrades : String × PendingMarkout F → String × PendingMarkout F → Ordering :=
  compareLex (compareOn fun trade ↦ trade.2.fillTs)
    (compareLex (compareOn fun trade ↦ trade.2.orderLinkId) (compareOn Prod.fst))

instance : Std.TransCmp (compareTrades (F := F)) :=
  inferInstanceAs (Std.TransCmp (compareLex _ (compareLex _ _)))

theorem extractionOrder_eq :
    extractionOrder (F := F) = fun left right ↦ (compareTrades left right).isLE := rfl

/-- Trades with one execution id only tie. -/
theorem key_eq_of_compareTrades_eq (left right : String × PendingMarkout F)
    (htie : compareTrades left right = .eq) : left.1 = right.1 := by
  simp only [compareTrades, compareLex, compareOn, Ordering.then_eq_eq,
    Std.compare_eq_iff_eq] at htie
  exact htie.2.2

theorem precedes_of_compareTrades_lt {left right : String × PendingMarkout F}
    {first second : CompletedMarkout F} (hlt : compareTrades left right = .lt)
    (hfirst : first.Records left) (hsecond : second.Records right) : first.Precedes second := by
  simp only [compareTrades, compareLex, compareOn, Ordering.then_eq_lt, Std.compare_eq_iff_eq,
    Std.compare_eq_lt, compare_lt_iff_lt] at hlt
  unfold CompletedMarkout.Precedes
  rw [hfirst.fillTs, hsecond.fillTs, hfirst.orderLinkId, hsecond.orderLinkId, hfirst.execId,
    hsecond.execId]
  exact hlt

variable {engine engine' next : MarkoutEngine F} {markouts : List (CompletedMarkout F)}

/-- The trades taken out are strictly sorted. -/
theorem pairwise_extracted (hdistinct : engine.DistinctKeys) :
    ((engine.trades.filter (·.2.isComplete)).mergeSort extractionOrder).Pairwise
      fun left right ↦ compareTrades left right = .lt := by
  rw [extractionOrder_eq]
  exact Keyed.pairwise_cmp_mergeSort key_eq_of_compareTrades_eq
    (Keyed.nodup_filter hdistinct _)

/-- The trades taken out do not depend on the order of the map. -/
theorem extracted_eq_of_perm (hdistinct : engine.DistinctKeys)
    (hperm : engine.trades.Perm engine'.trades) :
    (engine.trades.filter (·.2.isComplete)).mergeSort extractionOrder =
      (engine'.trades.filter (·.2.isComplete)).mergeSort extractionOrder := by
  rw [extractionOrder_eq]
  exact Keyed.mergeSort_cmp_eq_of_perm key_eq_of_compareTrades_eq (hperm.filter _)
    (Keyed.nodup_filter hdistinct _)

/-- Every returned markout records a complete trade. -/
theorem exists_trade_of_mem (htake : engine.takeCompletedMarkouts = some (next, markouts))
    {markout : CompletedMarkout F} (hmem : markout ∈ markouts) :
    ∃ trade ∈ engine.trades, trade.2.isComplete ∧ markout.Records trade := by
  rw [takeCompletedMarkouts_eq] at htake
  obtain ⟨-, rfl⟩ := Prod.mk.inj (Option.some.inj htake)
  obtain ⟨trade, htrade, hmarkout⟩ := List.mem_filterMap.mp hmem
  obtain ⟨hpending, hcomplete⟩ := List.mem_filter.mp (List.mem_mergeSort.mp htrade)
  exact ⟨trade, hpending, hcomplete, CompletedMarkout.records_of_ofPending hmarkout⟩

/-- Every complete trade is returned once. -/
theorem exists_returnedFor_eq (hdistinct : engine.DistinctKeys)
    (htake : engine.takeCompletedMarkouts = some (next, markouts))
    {trade : String × PendingMarkout F} (hmem : trade ∈ engine.trades)
    (hcomplete : trade.2.isComplete) :
    ∃ markout, returnedFor trade.1 markouts = [markout] ∧ markout.Records trade := by
  obtain ⟨markout, hmarkout⟩ : ∃ markout, CompletedMarkout.ofPending trade = some markout := by
    rw [← Option.isSome_iff_exists, ← hcomplete]
    exact PendingMarkout.ofPending_isSome trade.1 trade.2
  refine ⟨markout, ?_, CompletedMarkout.records_of_ofPending hmarkout⟩
  rw [((takeCompletedMarkouts_spec hdistinct htake).2 trade.1).2, pending_of_mem hdistinct hmem]
  simp [hmarkout]

/-- The returned markouts are strictly sorted. -/
theorem pairwise_precedes (hdistinct : engine.DistinctKeys)
    (htake : engine.takeCompletedMarkouts = some (next, markouts)) :
    markouts.Pairwise CompletedMarkout.Precedes := by
  rw [takeCompletedMarkouts_eq] at htake
  obtain ⟨-, rfl⟩ := Prod.mk.inj (Option.some.inj htake)
  apply (pairwise_extracted hdistinct).filterMap
  intro left right hlt first hfirst second hsecond
  exact precedes_of_compareTrades_lt hlt (CompletedMarkout.records_of_ofPending hfirst)
    (CompletedMarkout.records_of_ofPending hsecond)

/-- After an extraction there is nothing to extract. -/
theorem takeCompletedMarkouts_again (htake : engine.takeCompletedMarkouts = some (next, markouts)) :
    next.takeCompletedMarkouts = some (next, []) := by
  rw [takeCompletedMarkouts_eq] at htake
  obtain ⟨rfl, -⟩ := Prod.mk.inj (Option.some.inj htake)
  rw [takeCompletedMarkouts_eq]
  simp [List.filter_filter]

/-- The extraction returns each complete trade once and keeps the others, and what it returns is
strictly sorted and the same for every order of the map. -/
theorem takeCompletedMarkouts_exact (hdistinct : engine.DistinctKeys)
    (hperm : engine.trades.Perm engine'.trades) :
    ∃ markouts next next', engine.takeCompletedMarkouts = some (next, markouts) ∧
      engine'.takeCompletedMarkouts = some (next', markouts) ∧
      (∀ markout ∈ markouts, ∃ trade ∈ engine.trades,
        trade.2.isComplete ∧ markout.Records trade) ∧
      (∀ trade ∈ engine.trades, trade.2.isComplete →
        ∃ markout, returnedFor trade.1 markouts = [markout] ∧ markout.Records trade) ∧
      markouts.Pairwise CompletedMarkout.Precedes ∧
      next.trades = engine.trades.filter (!·.2.isComplete) ∧
      next'.trades = engine'.trades.filter (!·.2.isComplete) ∧
      next.takeCompletedMarkouts = some (next, []) ∧
      next'.takeCompletedMarkouts = some (next', []) := by
  have htake := takeCompletedMarkouts_eq engine
  have htake' := takeCompletedMarkouts_eq engine'
  rw [← extracted_eq_of_perm hdistinct hperm] at htake'
  exact ⟨_, _, _, htake, htake', fun _ ↦ exists_trade_of_mem htake,
    fun _ ↦ exists_returnedFor_eq hdistinct htake, pairwise_precedes hdistinct htake, rfl, rfl,
    takeCompletedMarkouts_again htake, takeCompletedMarkouts_again htake'⟩

def sampleTrade (execId : String) (fillTs : UInt64) (mid10s : Option (DataPoint ℚ)) :
    String × PendingMarkout ℚ :=
  (execId,
    { orderLinkId := 90, fillTs, side := .buy, limitPrice := 2, execPrice := 2, execQty := 1
      mid1s := some { midPrice := 2, imbalance := 0 }
      mid5s := some { midPrice := 2, imbalance := 0 }, mid10s })

/-- Two complete trades of one time, and one that waits for its last slot. -/
def sampleTrades : List (String × PendingMarkout ℚ) :=
  [sampleTrade "exec-b" 1 (some { midPrice := 2, imbalance := 0 }), sampleTrade "exec-c" 1 none,
    sampleTrade "exec-a" 1 (some { midPrice := 2, imbalance := 0 })]

/-- The map is iterated in both orders. -/
theorem takeCompletedMarkouts_exact_sample :
    ∃ markouts next next',
      { trades := sampleTrades : MarkoutEngine ℚ }.takeCompletedMarkouts = some (next, markouts) ∧
      { trades := sampleTrades.reverse : MarkoutEngine ℚ }.takeCompletedMarkouts =
        some (next', markouts) ∧
      markouts.Pairwise CompletedMarkout.Precedes ∧
      next.trades = [sampleTrade "exec-c" 1 none] := by
  have hdistinct : { trades := sampleTrades : MarkoutEngine ℚ }.DistinctKeys := by
    simp [DistinctKeys, sampleTrades, sampleTrade]
  have hperm : { trades := sampleTrades : MarkoutEngine ℚ }.trades.Perm
      { trades := sampleTrades.reverse : MarkoutEngine ℚ }.trades :=
    (List.reverse_perm _).symm
  obtain ⟨markouts, next, next', htake, htake', -, -, hsorted, hnext, -⟩ :=
    takeCompletedMarkouts_exact hdistinct hperm
  exact ⟨markouts, next, next', htake, htake', hsorted, hnext⟩

end MarkoutEngine

end MarketMaker
