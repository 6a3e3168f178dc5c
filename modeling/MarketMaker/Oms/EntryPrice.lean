import MarketMaker.Foundation.Between
import MarketMaker.Oms.Metrics
import Mathlib.Data.List.Induction

/-!
# The average entry price as a price

Up to two effects of the drift between net and gross inventory the average entry price of an open
position is a price of its executions, a weighted mean of them or one of them.

The first effect is the design of the code: an update against the position that empties the gross
inventory counts as a close and resets the average to zero, also when the buy fees leave a net
position behind.  The second one is excluded below: a sell at a negative net inventory divides by
the gross inventory after the sell, and a gross inventory that is still positive is no weight of a
short position and may even sell down to zero.
-/

namespace MarketMaker

namespace Metrics

/-- The arguments an update is called with. -/
structure ValidFill (order : OrderExecution ℚ) : Prop where
  price_pos : 0 < order.execPrice
  qty_pos : 0 < order.execQty
  fee_nonneg : 0 ≤ order.execFee
  fee_lt : order.execFee < order.execQty

def after (netInventory averageEntryPrice : ℚ) (executions : List (OrderExecution ℚ)) : Metrics ℚ :=
  executions.foldl execute (new netInventory averageEntryPrice)

theorem after_append_singleton (netInventory averageEntryPrice : ℚ)
    (executions : List (OrderExecution ℚ)) (order : OrderExecution ℚ) :
    after netInventory averageEntryPrice (executions ++ [order]) =
      (after netInventory averageEntryPrice executions).execute order :=
  List.foldl_append

def HasPosition (metrics : Metrics ℚ) : Prop := 1e-8 ≤ |metrics.netInventory|

instance (metrics : Metrics ℚ) : Decidable metrics.HasPosition :=
  inferInstanceAs (Decidable (1e-8 ≤ |metrics.netInventory|))

/-- The update divides, and its divisor is zero. -/
def DividesByZero (metrics : Metrics ℚ) (order : OrderExecution ℚ) : Prop :=
  metrics.HasPosition ∧ metrics.sameSide order.orderSide ∧
    |metrics.newGrossInventory order.execQty order.orderSide| = 0

instance (metrics : Metrics ℚ) (order : OrderExecution ℚ) :
    Decidable (metrics.DividesByZero order) := inferInstanceAs (Decidable (_ ∧ _ ∧ _))

/-- A short position is sold while buy fees keep the gross inventory positive. -/
def SellsDriftedShort (metrics : Metrics ℚ) (order : OrderExecution ℚ) : Prop :=
  metrics.HasPosition ∧ metrics.netInventory < 0 ∧ order.orderSide = .sell ∧
    0 < metrics.grossInventory

instance (metrics : Metrics ℚ) (order : OrderExecution ℚ) :
    Decidable (metrics.SellsDriftedShort order) := inferInstanceAs (Decidable (_ ∧ _ ∧ _ ∧ _))

/-- An update against the position empties the gross inventory and leaves a net position. -/
def ClosesWithResidue (metrics : Metrics ℚ) (order : OrderExecution ℚ) : Prop :=
  metrics.HasPosition ∧ ¬metrics.sameSide order.orderSide ∧
    |metrics.newGrossInventory order.execQty order.orderSide| < 1e-8 ∧
    (metrics.execute order).HasPosition

/-- The net inventory lacks the buy fees paid. -/
theorem net_le_gross_execute {metrics : Metrics ℚ} {order : OrderExecution ℚ}
    (hle : metrics.netInventory ≤ metrics.grossInventory) (hfee : 0 ≤ order.execFee) :
    (metrics.execute order).netInventory ≤ (metrics.execute order).grossInventory := by
  cases hside : order.orderSide with
  | buy => simp only [execute, update, hside, newNetInventory, newGrossInventory]; linarith
  | sell => simp only [execute, update, hside, newNetInventory, newGrossInventory]; linarith

/-- Outside the excluded case an update on the side of the position grows the gross inventory. -/
theorem abs_newGrossInventory {metrics : Metrics ℚ} {order : OrderExecution ℚ}
    (hle : metrics.netInventory ≤ metrics.grossInventory) (hqty : 0 < order.execQty)
    (hposition : metrics.HasPosition) (hside : metrics.sameSide order.orderSide)
    (hdrift : ¬metrics.SellsDriftedShort order) :
    |metrics.newGrossInventory order.execQty order.orderSide| =
      order.execQty + |metrics.grossInventory| := by
  obtain ⟨hlong, hbuy⟩ | ⟨hshort, hsell⟩ := sameSide_rat.mp hside
  · have hgross : 0 ≤ metrics.grossInventory := hlong.trans hle
    rw [hbuy, newGrossInventory, abs_of_nonneg hgross, abs_of_nonneg (by linarith), add_comm]
  · have hgross : metrics.grossInventory ≤ 0 := by
      by_contra hpos
      exact hdrift ⟨hposition, hshort, hsell, not_le.mp hpos⟩
    rw [hsell, newGrossInventory, abs_of_nonpos hgross, abs_of_nonpos (by linarith)]
    linarith

theorem not_dividesByZero {metrics : Metrics ℚ} {order : OrderExecution ℚ}
    (hle : metrics.netInventory ≤ metrics.grossInventory) (hqty : 0 < order.execQty)
    (hdrift : ¬metrics.SellsDriftedShort order) : ¬metrics.DividesByZero order := by
  rintro ⟨hposition, hside, hzero⟩
  rw [abs_newGrossInventory hle hqty hposition hside hdrift] at hzero
  linarith [abs_nonneg metrics.grossInventory]

/-- The update as a choice of prices: the price of the execution, a mean of it and the old average,
the old average, or zero after a close. -/
theorem averageEntryPrice_execute_cases {metrics : Metrics ℚ} {order : OrderExecution ℚ}
    (hle : metrics.netInventory ≤ metrics.grossInventory) (hqty : 0 < order.execQty)
    (hdrift : ¬metrics.SellsDriftedShort order) :
    (metrics.execute order).averageEntryPrice = order.execPrice ∨
    (metrics.HasPosition ∧
      ((metrics.execute order).averageEntryPrice = metrics.averageEntryPrice ∨
        (metrics.execute order).averageEntryPrice =
          weightedMean order.execQty order.execPrice |metrics.grossInventory|
            metrics.averageEntryPrice)) ∨
    ((metrics.execute order).averageEntryPrice = 0 ∧
      ((metrics.execute order).HasPosition → metrics.ClosesWithResidue order)) := by
  change metrics.newAverageEntryPrice _ _ _ _ = _ ∨ (_ ∧ (metrics.newAverageEntryPrice _ _ _ _ = _ ∨
    metrics.newAverageEntryPrice _ _ _ _ = _)) ∨ (metrics.newAverageEntryPrice _ _ _ _ = _ ∧ _)
  rw [newAverageEntryPrice_rat]
  split_ifs with hflat hside hclosed hsign
  · exact .inl rfl
  · refine .inr (.inl ⟨not_lt.mp hflat, .inr ?_⟩)
    rw [abs_newGrossInventory hle hqty (not_lt.mp hflat) hside hdrift, weightedMean]
  · exact .inr (.inr ⟨rfl, fun hposition ↦ ⟨not_lt.mp hflat, hside, hclosed, hposition⟩⟩)
  · exact .inr (.inl ⟨not_lt.mp hflat, .inl rfl⟩)
  · exact .inl rfl

/-! ## Runs of updates -/

variable {netInventory averageEntryPrice : ℚ} {executions : List (OrderExecution ℚ)}

/-- The prices an open position may be made of: those of the executions, and the initial average
when there is an initial position. -/
def entryPrices (netInventory averageEntryPrice : ℚ) (executions : List (OrderExecution ℚ)) :
    List ℚ :=
  (if 1e-8 ≤ |netInventory| then [averageEntryPrice] else []) ++
    executions.map OrderExecution.execPrice

/-- Some update so far closed a position with a residue. -/
def ClosedWithResidue (netInventory averageEntryPrice : ℚ)
    (executions : List (OrderExecution ℚ)) : Prop :=
  ∃ first order rest, executions = first ++ order :: rest ∧
    (after netInventory averageEntryPrice first).ClosesWithResidue order

/-- No update so far sold a drifted short position. -/
def NoDriftedSell (netInventory averageEntryPrice : ℚ)
    (executions : List (OrderExecution ℚ)) : Prop :=
  ∀ first order rest, executions = first ++ order :: rest →
    ¬(after netInventory averageEntryPrice first).SellsDriftedShort order

theorem noDriftedSell_iff {netInventory averageEntryPrice : ℚ}
    {executions : List (OrderExecution ℚ)} :
    NoDriftedSell netInventory averageEntryPrice executions ↔
      ∀ index < executions.length, ∀ order ∈ executions[index]?, ¬SellsDriftedShort
        (after netInventory averageEntryPrice (executions.take index)) order := by
  constructor
  · intro hsound index _ order hmem
    obtain ⟨hindex, rfl⟩ := List.getElem?_eq_some_iff.mp hmem
    apply hsound _ _ (executions.drop (index + 1))
    rw [← List.drop_eq_getElem_cons hindex, List.take_append_drop]
  · rintro hall first order rest rfl
    have hsound := hall first.length (by simp) order (by simp)
    rwa [List.take_left] at hsound

instance (netInventory averageEntryPrice : ℚ) (executions : List (OrderExecution ℚ)) :
    Decidable (NoDriftedSell netInventory averageEntryPrice executions) :=
  decidable_of_iff' _ noDriftedSell_iff

/-- What the average of an open position lies between. -/
def PricedByEntries (netInventory averageEntryPrice : ℚ)
    (executions : List (OrderExecution ℚ)) : Prop :=
  Between (entryPrices netInventory averageEntryPrice executions)
      (after netInventory averageEntryPrice executions).averageEntryPrice ∨
    ClosedWithResidue netInventory averageEntryPrice executions ∧
      Between (0 :: entryPrices netInventory averageEntryPrice executions)
        (after netInventory averageEntryPrice executions).averageEntryPrice

theorem NoDriftedSell.of_append {rest : List (OrderExecution ℚ)}
    (hsound : NoDriftedSell netInventory averageEntryPrice (executions ++ rest)) :
    NoDriftedSell netInventory averageEntryPrice executions := by
  rintro first order tail rfl
  exact hsound first order (tail ++ rest) (by simp)

theorem net_le_gross_after (hvalid : ∀ order ∈ executions, ValidFill order) :
    (after netInventory averageEntryPrice executions).netInventory ≤
      (after netInventory averageEntryPrice executions).grossInventory := by
  induction executions using List.reverseRecOn with
  | nil => exact le_rfl
  | append_singleton first order ih =>
    rw [after_append_singleton]
    exact net_le_gross_execute (ih fun order hmem ↦ hvalid order (by simp [hmem]))
      (hvalid order (by simp)).fee_nonneg

theorem entryPrices_append_singleton (order : OrderExecution ℚ) :
    entryPrices netInventory averageEntryPrice (executions ++ [order]) =
      entryPrices netInventory averageEntryPrice executions ++ [order.execPrice] := by
  simp [entryPrices]

theorem PricedByEntries.execute {order : OrderExecution ℚ}
    (hle : (after netInventory averageEntryPrice executions).netInventory ≤
      (after netInventory averageEntryPrice executions).grossInventory)
    (hqty : 0 < order.execQty)
    (hdrift : ¬(after netInventory averageEntryPrice executions).SellsDriftedShort order)
    (hpriced : (after netInventory averageEntryPrice executions).HasPosition →
      PricedByEntries netInventory averageEntryPrice executions)
    (hposition : ((after netInventory averageEntryPrice executions).execute order).HasPosition) :
    PricedByEntries netInventory averageEntryPrice (executions ++ [order]) := by
  have hnew : order.execPrice ∈
      entryPrices netInventory averageEntryPrice (executions ++ [order]) := by
    simp [entryPrices]
  have hsubset : entryPrices netInventory averageEntryPrice executions ⊆
      entryPrices netInventory averageEntryPrice (executions ++ [order]) := by
    simp [entryPrices_append_singleton]
  have hresidue : ClosedWithResidue netInventory averageEntryPrice executions →
      ClosedWithResidue netInventory averageEntryPrice (executions ++ [order]) := by
    rintro ⟨first, closing, rest, rfl, hcloses⟩
    exact ⟨first, closing, rest ++ [order], by simp, hcloses⟩
  unfold PricedByEntries
  rw [after_append_singleton]
  obtain hprice | ⟨hold, hmean⟩ | ⟨hzero, hcloses⟩ :=
    averageEntryPrice_execute_cases hle hqty hdrift
  · exact .inl (hprice ▸ between_of_mem hnew)
  · -- the old average is priced, and so is its mean with a new price
    have hmix : ∀ values, order.execPrice ∈ values →
        Between values (after netInventory averageEntryPrice executions).averageEntryPrice →
        Between values ((after netInventory averageEntryPrice executions).execute
          order).averageEntryPrice := by
      intro values hmem hbetween
      obtain hsame | hmean := hmean
      · exact hsame ▸ hbetween
      · exact hmean ▸ (between_of_mem hmem).weightedMean hbetween hqty (abs_nonneg _)
    obtain hbetween | ⟨hclosed, hbetween⟩ := hpriced hold
    · exact .inl (hmix _ hnew (hbetween.mono hsubset))
    · exact .inr ⟨hresidue hclosed, hmix _ (List.mem_cons_of_mem _ hnew)
        (hbetween.mono (List.cons_subset_cons _ hsubset))⟩
  · exact .inr ⟨⟨executions, order, [], by simp, hcloses hposition⟩,
      hzero ▸ between_of_mem (List.mem_cons_self ..)⟩

theorem pricedByEntries_after (hvalid : ∀ order ∈ executions, ValidFill order)
    (hsound : NoDriftedSell netInventory averageEntryPrice executions)
    (hposition : (after netInventory averageEntryPrice executions).HasPosition) :
    PricedByEntries netInventory averageEntryPrice executions := by
  induction executions using List.reverseRecOn with
  | nil =>
    have hstart : (1e-8 : ℚ) ≤ |netInventory| := hposition
    exact .inl (between_of_mem (by simp [entryPrices, hstart, after, new]))
  | append_singleton first order ih =>
    have hfirst : ∀ order ∈ first, ValidFill order :=
      fun order hmem ↦ hvalid order (by simp [hmem])
    rw [after_append_singleton] at hposition
    exact .execute (net_le_gross_after hfirst) (hvalid order (by simp)).qty_pos
      (hsound first order [] rfl) (ih hfirst hsound.of_append) hposition

/-- As long as no drifted short position is sold, no update divides by zero, and the average of an
open position lies between the prices seen so far, or between those and zero once a close left a
residue. -/
theorem average_between_entry_prices (hvalid : ∀ order ∈ executions, ValidFill order)
    (hsound : NoDriftedSell netInventory averageEntryPrice executions) :
    (∀ first order rest, executions = first ++ order :: rest →
      ¬(after netInventory averageEntryPrice first).DividesByZero order) ∧
    ∀ first rest, executions = first ++ rest →
      (after netInventory averageEntryPrice first).HasPosition →
      PricedByEntries netInventory averageEntryPrice first := by
  constructor
  · rintro first order rest rfl
    exact not_dividesByZero
      (net_le_gross_after fun order hmem ↦ hvalid order (by simp [hmem]))
      (hvalid order (by simp)).qty_pos (hsound first order rest rfl)
  · rintro first rest rfl hposition
    exact pricedByEntries_after (fun order hmem ↦ hvalid order (by simp [hmem]))
      hsound.of_append hposition

def fill (orderSide : OrderSide) (execPrice execQty execFee : ℚ) : OrderExecution ℚ :=
  { orderLinkId := 90, orderId := "order-1", orderPrice := execPrice, orderSide
    execId := "exec-1", execTs := 0, execPrice, execFee, execQty, remainingQty := 0 }

/-- Buying back a short position leaves the fee as a short residue at average zero, and selling a
residue of one half divides by zero. -/
theorem not_average_between_entry_prices :
    (¬∀ (netInventory averageEntryPrice : ℚ) (executions : List (OrderExecution ℚ)),
      (netInventory ≠ 0 → 0 < averageEntryPrice) → (∀ order ∈ executions, ValidFill order) →
      (after netInventory averageEntryPrice executions).HasPosition →
      Between (entryPrices netInventory averageEntryPrice executions)
        (after netInventory averageEntryPrice executions).averageEntryPrice) ∧
    ¬∀ (netInventory averageEntryPrice : ℚ) (first : List (OrderExecution ℚ))
      (order : OrderExecution ℚ), (netInventory ≠ 0 → 0 < averageEntryPrice) →
      (∀ order' ∈ first ++ [order], ValidFill order') →
      ¬(after netInventory averageEntryPrice first).DividesByZero order := by
  constructor
  · intro hbetween
    have hvalid : ∀ order ∈ [fill .buy 1 10 (1 / 10)], ValidFill order := by
      intro order hmem
      obtain rfl := List.mem_singleton.mp hmem
      constructor <;> norm_num [fill]
    exact absurd (hbetween (-10) 2 _ (by norm_num) hvalid (by decide +kernel)) (by decide +kernel)
  · intro hdivides
    have hvalid : ∀ order ∈ [fill .buy 2 10 1, fill .sell 2 (19 / 2) 0] ++ [fill .sell 2 (1 / 2) 0],
        ValidFill order := by
      intro order hmem
      simp only [List.cons_append, List.nil_append, List.mem_cons, List.not_mem_nil,
        or_false] at hmem
      rcases hmem with rfl | rfl | rfl <;> constructor <;> norm_num [fill]
    exact hdivides 0 0 _ _ (by norm_num) hvalid (by decide +kernel)

/-- A short position is sold in two steps and bought back, and its residue is sold again. -/
def resoldShort : List (OrderExecution ℚ) :=
  [fill .sell 2 10 0, fill .sell 3 5 0, fill .buy (5 / 2) 15 (1 / 2), fill .sell 4 5 0]

theorem average_between_entry_prices_sample :
    (resoldShort.inits.map fun executions ↦
      ((after 0 0 executions).netInventory, (after 0 0 executions).averageEntryPrice)) =
        [(0, 0), (-10, 2), (-15, 7 / 3), (-1 / 2, 0), (-11 / 2, 4)] ∧
      (∀ first order rest, resoldShort = first ++ order :: rest →
        ¬(after 0 0 first).DividesByZero order) ∧
      ∀ first rest, resoldShort = first ++ rest → (after 0 0 first).HasPosition →
        PricedByEntries 0 0 first := by
  have hvalid : ∀ order ∈ resoldShort, ValidFill order := by
    intro order hmem
    simp only [resoldShort, List.mem_cons, List.not_mem_nil, or_false] at hmem
    rcases hmem with rfl | rfl | rfl | rfl <;> constructor <;> norm_num [fill]
  exact ⟨by decide +kernel, average_between_entry_prices hvalid (by decide +kernel)⟩

end Metrics

end MarketMaker
