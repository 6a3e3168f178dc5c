import MarketMaker.Oms.EntryPrice

/-!
# The cost basis of the position

Without fees the two inventories are one signed position, and the average entry price is what the
position cost for each unit.  The ledger below decides by the position alone; the code decides by
thresholds and sign tests, which agree with it as long as quantities come in lots.
-/

namespace MarketMaker

/-- A signed position and what it cost. -/
structure CostBasis where
  position : ℚ
  cost : ℚ
  deriving DecidableEq

namespace CostBasis

/-- The change is in the direction of the position, or opens one. -/
def Extends (position change : ℚ) : Prop := 0 ≤ position ∧ 0 < change ∨ position ≤ 0 ∧ change < 0

instance (position change : ℚ) : Decidable (Extends position change) :=
  inferInstanceAs (Decidable (_ ∨ _))

/-- The two positions are on different sides of zero. -/
def Crosses (position next : ℚ) : Prop := 0 < position ∧ next < 0 ∨ position < 0 ∧ 0 < next

instance (position next : ℚ) : Decidable (Crosses position next) :=
  inferInstanceAs (Decidable (_ ∨ _))

def change (order : OrderExecution ℚ) : ℚ :=
  match order.orderSide with
  | .buy => order.execQty
  | .sell => -order.execQty

/-- One execution: extending the position adds to its cost, crossing zero starts a new cost, and
reducing keeps the part of the cost that belongs to the remaining position. -/
def execute (ledger : CostBasis) (order : OrderExecution ℚ) : CostBasis :=
  let next := ledger.position + change order
  { position := next
    cost :=
      if Extends ledger.position (change order) then
        ledger.cost + order.execQty * order.execPrice
      else if Crosses ledger.position next then |next| * order.execPrice
      else ledger.cost * (|next| / |ledger.position|) }

def after (netInventory averageEntryPrice : ℚ) (executions : List (OrderExecution ℚ)) :
    CostBasis :=
  executions.foldl execute
    { position := netInventory, cost := |netInventory| * averageEntryPrice }

theorem after_append_singleton (netInventory averageEntryPrice : ℚ)
    (executions : List (OrderExecution ℚ)) (order : OrderExecution ℚ) :
    after netInventory averageEntryPrice (executions ++ [order]) =
      (after netInventory averageEntryPrice executions).execute order :=
  List.foldl_append

theorem abs_change {order : OrderExecution ℚ} (hqty : 0 < order.execQty) :
    |change order| = order.execQty := by
  cases hside : order.orderSide <;> simp [change, hside, abs_of_pos hqty]

/-- From flat every execution opens a position. -/
theorem extends_of_flat {order : OrderExecution ℚ} (hqty : 0 < order.execQty) :
    Extends 0 (change order) := by
  have hne : change order ≠ 0 := by
    rw [← abs_pos, abs_change hqty]
    exact hqty
  exact hne.lt_or_gt.symm.imp (⟨le_rfl, ·⟩) (⟨le_rfl, ·⟩)

theorem position_ne_zero {ledger : CostBasis} {order : OrderExecution ℚ}
    (hextends : ¬Extends ledger.position (change order)) (hqty : 0 < order.execQty) :
    ledger.position ≠ 0 := by
  intro hflat
  exact hextends (hflat ▸ extends_of_flat hqty)

theorem abs_position_of_extends {ledger : CostBasis} {order : OrderExecution ℚ}
    (hextends : Extends ledger.position (change order)) (hqty : 0 < order.execQty) :
    |(ledger.execute order).position| = |ledger.position| + order.execQty := by
  calc
    _ = |ledger.position + change order| := rfl
    _ = |ledger.position| + |change order| :=
      abs_add_eq_add_abs_iff _ _ |>.mpr (hextends.imp (And.imp_right le_of_lt)
        (And.imp_right le_of_lt))
    _ = _ := by rw [abs_change hqty]

/-- The cost stays non-negative. -/
theorem cost_nonneg_execute {ledger : CostBasis} {order : OrderExecution ℚ}
    (hcost : 0 ≤ ledger.cost) (hqty : 0 < order.execQty) (hprice : 0 < order.execPrice) :
    0 ≤ (ledger.execute order).cost := by
  simp only [execute]
  split_ifs <;> positivity

end CostBasis

namespace Metrics

/-- An execution without fee of a number of lots. -/
structure LotFill (lot : ℚ) (order : OrderExecution ℚ) : Prop where
  price_pos : 0 < order.execPrice
  qty_pos : 0 < order.execQty
  fee_eq : order.execFee = 0
  lots : ∃ k : ℤ, order.execQty = k * lot

/-- The metrics hold the position of the ledger at its cost, a number of lots. -/
structure Refines (lot : ℚ) (metrics : Metrics ℚ) (ledger : CostBasis) : Prop where
  gross : metrics.grossInventory = ledger.position
  net : metrics.netInventory = ledger.position
  cost : metrics.averageEntryPrice * |ledger.position| = ledger.cost
  lots : ∃ k : ℤ, ledger.position = k * lot

/-- A number of lots is below the threshold of the code only if it is zero. -/
theorem abs_lt_threshold_iff {lot value : ℚ} (hlot : 1e-8 ≤ lot)
    (hlots : ∃ k : ℤ, value = k * lot) : |value| < 1e-8 ↔ value = 0 := by
  have hpositive : (0 : ℚ) < 1e-8 := by norm_num
  constructor
  · intro hlt
    obtain ⟨k, rfl⟩ := hlots
    by_contra hne
    have hk : (1 : ℚ) ≤ |(k : ℚ)| := by
      have hk : k ≠ 0 := by
        rintro rfl
        simp at hne
      exact_mod_cast Int.one_le_abs hk
    have hle : lot ≤ |(k : ℚ) * lot| := by
      rw [abs_mul, abs_of_pos (hpositive.trans_le hlot)]
      exact le_mul_of_one_le_left (hpositive.trans_le hlot).le hk
    linarith
  · rintro rfl
    rwa [abs_zero]

variable {lot : ℚ} {metrics : Metrics ℚ} {ledger : CostBasis} {order : OrderExecution ℚ}

theorem newGrossInventory_eq_add_change (metrics : Metrics ℚ) (order : OrderExecution ℚ) :
    metrics.newGrossInventory order.execQty order.orderSide =
      metrics.grossInventory + CostBasis.change order := by
  cases hside : order.orderSide <;>
    simp [newGrossInventory, CostBasis.change, hside, sub_eq_add_neg]

theorem newNetInventory_eq_add_change (hfee : order.execFee = 0) (metrics : Metrics ℚ) :
    metrics.newNetInventory order.execQty order.execFee order.orderSide =
      metrics.netInventory + CostBasis.change order := by
  cases hside : order.orderSide <;>
    simp [newNetInventory, CostBasis.change, hside, hfee, sub_eq_add_neg]

/-- Off zero the sign test of the code finds the direction. -/
theorem sameSide_iff_extends (hne : metrics.netInventory ≠ 0) (hqty : 0 < order.execQty) :
    metrics.sameSide order.orderSide ↔
      CostBasis.Extends metrics.netInventory (CostBasis.change order) := by
  rw [sameSide_rat]
  cases hside : order.orderSide with
  | buy => simp [CostBasis.Extends, CostBasis.change, hside, hqty, hqty.le]
  | sell => simp [CostBasis.Extends, CostBasis.change, hside, hqty, hqty.le, hne.le_iff_lt]

/-- Off zero the signs differ exactly when zero is crossed. -/
theorem sign_iff_not_crosses {position next : ℚ} (hne : position ≠ 0) (hnext : next ≠ 0) :
    (position < 0 ↔ next < 0) ↔ ¬CostBasis.Crosses position next := by
  unfold CostBasis.Crosses
  rcases hne.lt_or_gt with hposition | hposition <;> rcases hnext.lt_or_gt with hnext | hnext <;>
    simp [hposition, hnext, hposition.not_gt, hnext.not_gt]

/-- The average after an update, decided by the position of the ledger. -/
theorem averageEntryPrice_execute (hlot : 1e-8 ≤ lot) (hrefines : metrics.Refines lot ledger)
    (hfill : LotFill lot order) (hlots : ∃ k : ℤ, (ledger.execute order).position = k * lot) :
    (metrics.execute order).averageEntryPrice =
      if ledger.position = 0 then order.execPrice
      else if CostBasis.Extends ledger.position (CostBasis.change order) then
        (order.execQty * order.execPrice + ledger.cost) / |(ledger.execute order).position|
      else if (ledger.execute order).position = 0 then 0
      else if CostBasis.Crosses ledger.position (ledger.execute order).position then
        order.execPrice
      else metrics.averageEntryPrice := by
  have hgross : metrics.newGrossInventory order.execQty order.orderSide =
      (ledger.execute order).position := by
    rw [newGrossInventory_eq_add_change, hrefines.gross]
    rfl
  have hnet : metrics.newNetInventory order.execQty order.execFee order.orderSide =
      (ledger.execute order).position := by
    rw [newNetInventory_eq_add_change hfill.fee_eq, hrefines.net]
    rfl
  change metrics.newAverageEntryPrice _ _ _ _ = _
  rw [newAverageEntryPrice_rat, hgross, hnet, hrefines.net, hrefines.gross,
    mul_comm |ledger.position|, hrefines.cost]
  simp only [abs_lt_threshold_iff hlot hrefines.lots, abs_lt_threshold_iff hlot hlots]
  by_cases hflat : ledger.position = 0
  · rw [if_pos hflat, if_pos hflat]
  · have hside := sameSide_iff_extends (hrefines.net ▸ hflat) hfill.qty_pos
    rw [hrefines.net] at hside
    rw [if_neg hflat, if_neg hflat]
    by_cases hclosed : (ledger.execute order).position = 0
    · simp only [hside, hclosed, if_true]
    · simp only [hside, hclosed, if_false, sign_iff_not_crosses hflat hclosed, ite_not]

/-- The average pays for the position of the ledger. -/
theorem averageEntryPrice_mul_position (hlot : 1e-8 ≤ lot) (hrefines : metrics.Refines lot ledger)
    (hfill : LotFill lot order) (hlots : ∃ k : ℤ, (ledger.execute order).position = k * lot) :
    (metrics.execute order).averageEntryPrice * |(ledger.execute order).position| =
      (ledger.execute order).cost := by
  have hqty := hfill.qty_pos
  have hcost : (ledger.execute order).cost =
      if CostBasis.Extends ledger.position (CostBasis.change order) then
        ledger.cost + order.execQty * order.execPrice
      else if CostBasis.Crosses ledger.position (ledger.execute order).position then
        |(ledger.execute order).position| * order.execPrice
      else ledger.cost * (|(ledger.execute order).position| / |ledger.position|) := rfl
  rw [averageEntryPrice_execute hlot hrefines hfill hlots, hcost]
  by_cases hextends : CostBasis.Extends ledger.position (CostBasis.change order)
  · rw [if_pos hextends, if_pos hextends, CostBasis.abs_position_of_extends hextends hqty]
    by_cases hflat : ledger.position = 0
    · rw [if_pos hflat, ← hrefines.cost, hflat, abs_zero, mul_zero, zero_add, zero_add, mul_comm]
    · have hdivisor : |ledger.position| + order.execQty ≠ 0 := by positivity
      rw [if_neg hflat, div_mul_cancel₀ _ hdivisor, add_comm]
  · have hflat := CostBasis.position_ne_zero hextends hqty
    rw [if_neg hflat, if_neg hextends, if_neg hextends]
    by_cases hclosed : (ledger.execute order).position = 0
    · have hcrosses : ¬CostBasis.Crosses ledger.position (ledger.execute order).position := by
        simp [CostBasis.Crosses, hclosed]
      rw [if_pos hclosed, if_neg hcrosses, hclosed, abs_zero, zero_div, mul_zero, mul_zero]
    · rw [if_neg hclosed]
      split_ifs with hcrosses
      · exact mul_comm _ _
      · -- the old average pays for what is left of the old position
        have hposition : |ledger.position| ≠ 0 := abs_ne_zero.mpr hflat
        rw [← hrefines.cost, mul_assoc, mul_div_cancel₀ _ hposition]

/-- One update is one execution of the ledger. -/
theorem Refines.execute (hlot : 1e-8 ≤ lot) (hrefines : metrics.Refines lot ledger)
    (hfill : LotFill lot order) : (metrics.execute order).Refines lot (ledger.execute order) := by
  have hlots : ∃ k : ℤ, (ledger.execute order).position = k * lot := by
    obtain ⟨k, hk⟩ := hrefines.lots
    obtain ⟨n, hn⟩ := hfill.lots
    cases hside : order.orderSide with
    | buy => exact ⟨k + n, by simp [CostBasis.execute, CostBasis.change, hside, hk, hn, add_mul]⟩
    | sell =>
      exact ⟨k - n, by simp [CostBasis.execute, CostBasis.change, hside, hk, hn, sub_eq_add_neg,
        add_mul]⟩
  constructor
  · exact (newGrossInventory_eq_add_change metrics order).trans (by rw [hrefines.gross]; rfl)
  · exact (newNetInventory_eq_add_change hfill.fee_eq metrics).trans (by rw [hrefines.net]; rfl)
  · exact averageEntryPrice_mul_position hlot hrefines hfill hlots
  · exact hlots

/-- Closing the position resets the average. -/
theorem averageEntryPrice_of_closed (hlot : 1e-8 ≤ lot) (hrefines : metrics.Refines lot ledger)
    (hfill : LotFill lot order) (hclosed : (ledger.execute order).position = 0) :
    (metrics.execute order).averageEntryPrice = 0 := by
  have hextends : ¬CostBasis.Extends ledger.position (CostBasis.change order) := by
    intro hextends
    have hposition := CostBasis.abs_position_of_extends hextends hfill.qty_pos
    rw [hclosed, abs_zero] at hposition
    linarith [abs_nonneg ledger.position, hfill.qty_pos]
  have hflat := CostBasis.position_ne_zero hextends hfill.qty_pos
  rw [averageEntryPrice_execute hlot hrefines hfill (hrefines.execute hlot hfill).lots,
    if_neg hflat, if_neg hextends, if_pos hclosed]

/-- The divisor of an update is the new position, which extends the old one. -/
theorem Refines.not_dividesByZero (hrefines : metrics.Refines lot ledger)
    (hfill : LotFill lot order) : ¬metrics.DividesByZero order := by
  rintro ⟨hposition, hside, hzero⟩
  have hne : metrics.netInventory ≠ 0 := by
    intro hflat
    rw [HasPosition, hflat, abs_zero] at hposition
    norm_num at hposition
  have hextends := (sameSide_iff_extends hne hfill.qty_pos).mp hside
  rw [hrefines.net] at hextends
  have hgrows := CostBasis.abs_position_of_extends hextends hfill.qty_pos
  rw [newGrossInventory_eq_add_change, hrefines.gross] at hzero
  linarith [abs_nonneg ledger.position, hfill.qty_pos, hgrows.symm.trans hzero]

/-! ## Runs of updates -/

variable {netInventory averageEntryPrice : ℚ} {executions : List (OrderExecution ℚ)}

theorem refines_after (hlot : 1e-8 ≤ lot) (hstart : ∃ k : ℤ, netInventory = k * lot)
    (hfills : ∀ order ∈ executions, LotFill lot order) :
    (after netInventory averageEntryPrice executions).Refines lot
      (CostBasis.after netInventory averageEntryPrice executions) := by
  induction executions using List.reverseRecOn with
  | nil => exact ⟨rfl, rfl, mul_comm _ _, hstart⟩
  | append_singleton first order ih =>
    rw [after_append_singleton, CostBasis.after_append_singleton]
    exact (ih fun order hmem ↦ hfills order (by simp [hmem])).execute hlot (hfills order (by simp))

theorem cost_nonneg_after (haverage : 0 ≤ averageEntryPrice)
    (hfills : ∀ order ∈ executions, LotFill lot order) :
    0 ≤ (CostBasis.after netInventory averageEntryPrice executions).cost := by
  induction executions using List.reverseRecOn with
  | nil => exact mul_nonneg (abs_nonneg _) haverage
  | append_singleton first order ih =>
    have hfill := hfills order (by simp)
    rw [CostBasis.after_append_singleton]
    exact CostBasis.cost_nonneg_execute (ih fun order hmem ↦ hfills order (by simp [hmem]))
      hfill.qty_pos hfill.price_pos

/-- Without fees and in lots the metrics are the cost-basis ledger after every update. -/
theorem refines_cost_basis (hlot : 1e-8 ≤ lot) (hstart : ∃ k : ℤ, netInventory = k * lot)
    (hfills : ∀ order ∈ executions, LotFill lot order) :
    ∀ first order rest, executions = first ++ order :: rest →
      ¬(after netInventory averageEntryPrice first).DividesByZero order ∧
      (after netInventory averageEntryPrice (first ++ [order])).inventory =
        (CostBasis.after netInventory averageEntryPrice (first ++ [order])).position ∧
      (after netInventory averageEntryPrice (first ++ [order])).averageEntryPrice *
          |(after netInventory averageEntryPrice (first ++ [order])).inventory| =
        (CostBasis.after netInventory averageEntryPrice (first ++ [order])).cost ∧
      ((CostBasis.after netInventory averageEntryPrice (first ++ [order])).position = 0 →
        (after netInventory averageEntryPrice (first ++ [order])).averageEntryPrice = 0) ∧
      (0 ≤ averageEntryPrice →
        0 ≤ (CostBasis.after netInventory averageEntryPrice (first ++ [order])).cost) := by
  rintro first order rest rfl
  have hfirst : ∀ order ∈ first, LotFill lot order := fun order hmem ↦ hfills order (by simp [hmem])
  have hfill : LotFill lot order := hfills order (by simp)
  have hbefore : (after netInventory averageEntryPrice first).Refines lot
      (CostBasis.after netInventory averageEntryPrice first) := refines_after hlot hstart hfirst
  have hafter := hbefore.execute hlot hfill
  rw [after_append_singleton, CostBasis.after_append_singleton, inventory, hafter.net]
  exact ⟨hbefore.not_dividesByZero hfill, rfl, hafter.cost,
    averageEntryPrice_of_closed hlot hbefore hfill, fun haverage ↦
      CostBasis.cost_nonneg_execute (cost_nonneg_after haverage hfirst) hfill.qty_pos
        hfill.price_pos⟩

/-- A long position is extended, crossed to a short one and closed. -/
theorem refines_cost_basis_sample :
    ¬(after 10 2 [fill .buy 4 10 0, fill .sell 3 25 0]).DividesByZero (fill .buy 2 5 0) ∧
      (after 10 2 [fill .buy 4 10 0, fill .sell 3 25 0, fill .buy 2 5 0]).averageEntryPrice =
        0 := by
  have hfills : ∀ order ∈ [fill .buy 4 10 0, fill .sell 3 25 0] ++ [fill .buy 2 5 0],
      LotFill 1 order := by
    intro order hmem
    simp only [List.cons_append, List.nil_append, List.mem_cons, List.not_mem_nil,
      or_false] at hmem
    rcases hmem with rfl | rfl | rfl
    · exact ⟨by norm_num [fill], by norm_num [fill], rfl, 10, by norm_num [fill]⟩
    · exact ⟨by norm_num [fill], by norm_num [fill], rfl, 25, by norm_num [fill]⟩
    · exact ⟨by norm_num [fill], by norm_num [fill], rfl, 5, by norm_num [fill]⟩
  have hstart : ∃ k : ℤ, (10 : ℚ) = k * 1 := ⟨10, by norm_num⟩
  obtain ⟨hdivides, -, -, hclosed, -⟩ :=
    refines_cost_basis (by norm_num) hstart hfills _ _ [] rfl
  exact ⟨hdivides, hclosed (by decide +kernel)⟩

end Metrics

end MarketMaker
