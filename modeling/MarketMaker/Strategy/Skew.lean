import MarketMaker.Strategy.Quotes

/-!
# Spread and skew of the quotes

On any book that is quoted against, crossed or with prices off the ticks, the clamps only move the
two prices apart, so the emitted prices are at least two base spreads from each other.

The skew is monotone in the inventory up to one effect of the clamps.  The test for a clamp compares
with the other side of the book, and the clamped price is one tick further: a computed price less
than a tick inside the book is left there, on the wrong side of the price that a still more
aggressive quote is put to.
-/

namespace MarketMaker

variable {strategy : SimpleStrategy ℚ} {orderBook : OrderBook ℚ} {firstBid firstAsk : Level ℚ}
  {inventory inventory' : ℚ}

namespace SimpleStrategy

/-- One order for each side is emitted, with these prices. -/
def Emits (strategy : SimpleStrategy ℚ) (orderBook : OrderBook ℚ)
    (inventory buyPrice sellPrice : ℚ) : Prop :=
  ∃ buy sell, strategy.execute orderBook inventory = .ok [buy, sell] ∧
    buy.side = .buy ∧ F64.fromStr buy.price = some buyPrice ∧
    sell.side = .sell ∧ F64.fromStr sell.price = some sellPrice

theorem Emits.prices {buyPrice sellPrice : ℚ}
    (hemits : strategy.Emits orderBook inventory buyPrice sellPrice) :
    (strategy.execute orderBook inventory).toOption.map
      (List.map fun order ↦ F64.fromStr order.price) = some [some buyPrice, some sellPrice] := by
  obtain ⟨buy, sell, hexecute, -, hbuy, -, hsell⟩ := hemits
  simp [hexecute, Except.toOption, hbuy, hsell]

theorem emits (hbook : Quotable orderBook firstBid firstAsk) (inventory : ℚ) :
    strategy.Emits orderBook inventory
      (F64.fixedValue strategy.instrumentInfo.decimalPlaces
        (strategy.bidPrice firstBid firstAsk inventory))
      (F64.fixedValue strategy.instrumentInfo.decimalPlaces
        (strategy.askPrice firstBid firstAsk inventory)) :=
  ⟨_, _, hbook.execute strategy inventory, rfl, strategy.parse_quote .buy _, rfl,
    strategy.parse_quote .sell _⟩

/-- Orders are emitted for the books that are quoted against and for no others. -/
theorem execute_ne_nil_iff (strategy : SimpleStrategy ℚ) (orderBook : OrderBook ℚ)
    (inventory : ℚ) : strategy.execute orderBook inventory ≠ .ok [] ↔
      ∃ firstBid firstAsk, Quotable orderBook firstBid firstAsk := by
  constructor
  · intro hexecute
    obtain ⟨firstBid, firstAsk, hbid, hask, hvalidBid, hvalidAsk, -⟩ | ⟨hnil, -⟩ :=
      strategy.execute_rat orderBook inventory
    · exact ⟨firstBid, firstAsk, hbid, hask, hvalidBid, hvalidAsk⟩
    · exact absurd hnil hexecute
  · rintro ⟨firstBid, firstAsk, hbook⟩
    rw [hbook.execute]
    intro hnil
    cases hnil

/-! ## The spread -/

/-- A clamp only lowers the buy price. -/
theorem bidPrice_le (htick : 0 < strategy.instrumentInfo.tickSize)
    (firstBid firstAsk : Level ℚ) (inventory : ℚ) :
    strategy.bidPrice firstBid firstAsk inventory ≤
      strategy.reservationPrice firstBid firstAsk inventory -
        2 * strategy.instrumentInfo.tickSize := by
  simp only [bidPrice, baseSpread_rat]
  split_ifs with hclamped
  · linarith
  · exact le_rfl

/-- A clamp only raises the sell price. -/
theorem le_askPrice (htick : 0 < strategy.instrumentInfo.tickSize)
    (firstBid firstAsk : Level ℚ) (inventory : ℚ) :
    strategy.reservationPrice firstBid firstAsk inventory +
        2 * strategy.instrumentInfo.tickSize ≤
      strategy.askPrice firstBid firstAsk inventory := by
  simp only [askPrice, baseSpread_rat]
  split_ifs with hclamped
  · linarith
  · exact le_rfl

/-- The emitted prices keep two base spreads.  These are an even number of last decimals, so
rounding does not bring the prices closer. -/
theorem emitted_spread {n : ℕ} (hpositive : 0 < n)
    (htick : strategy.instrumentInfo.tickSize = n / 10 ^ strategy.instrumentInfo.decimalPlaces)
    (haccepted : strategy.execute orderBook inventory ≠ .ok []) :
    ∃ buyPrice sellPrice, strategy.Emits orderBook inventory buyPrice sellPrice ∧
      4 * strategy.instrumentInfo.tickSize ≤ sellPrice - buyPrice := by
  obtain ⟨firstBid, firstAsk, hbook⟩ := (execute_ne_nil_iff ..).mp haccepted
  refine ⟨_, _, emits hbook inventory, ?_⟩
  have htickSize : 0 < strategy.instrumentInfo.tickSize := by
    rw [htick]
    positivity
  have hspread : 4 * strategy.instrumentInfo.tickSize =
      ((4 * n : ℤ) : ℚ) / 10 ^ strategy.instrumentInfo.decimalPlaces := by
    rw [htick]
    push_cast
    ring
  have heven : Even (4 * n : ℤ) := ⟨2 * n, by ring⟩
  rw [le_sub_iff_add_le, add_comm]
  calc
    _ = F64.fixedValue strategy.instrumentInfo.decimalPlaces
        (strategy.bidPrice firstBid firstAsk inventory +
          4 * strategy.instrumentInfo.tickSize) := by
      rw [hspread, F64.fixedValue_add _ heven]
    _ ≤ _ := by
      apply F64.fixedValue_mono
      linarith [bidPrice_le htickSize firstBid firstAsk inventory,
        le_askPrice htickSize firstBid firstAsk inventory]

/-- A crossed book with equal sizes. -/
def sampleCrossedBook : OrderBook ℚ :=
  { bids := [{ price := 9, size := 1 }], asks := [{ price := 1, size := 1 }], ts := 0, cts := 0 }

/-- Both prices are clamped. -/
theorem emitted_spread_crossed :
    ∃ buyPrice sellPrice, sampleStrategy.Emits sampleCrossedBook 0 buyPrice sellPrice ∧
      4 * 1 ≤ sellPrice - buyPrice := by
  have haccepted : sampleStrategy.execute sampleCrossedBook 0 ≠ .ok [] := by
    rw [execute_ne_nil_iff]
    refine ⟨{ price := 9, size := 1 }, { price := 1, size := 1 }, rfl, rfl, ?_, ?_⟩ <;>
      norm_num [invalid_rat]
  exact emitted_spread one_pos (by norm_num [sampleStrategy]) haccepted

end SimpleStrategy

/-! ## The skew -/

/-- A lower computed price is quoted higher exactly when the clamp takes the other one past a
threshold of the rounding. -/
theorem roundHalfEven_clampedBid_le_iff {ask low high : ℚ} (hle : low ≤ high) :
    roundHalfEven (clampedBid ask low) ≤ roundHalfEven (clampedBid ask high) ↔
      ¬(ask ≤ high ∧ low < ask ∧ ThresholdBetween (ask - 1) low) := by
  unfold clampedBid
  by_cases hhigh : ask ≤ high
  · by_cases hlow : ask ≤ low
    · simp [hhigh, hlow]
    · simp only [hhigh, hlow, if_true, if_false, not_le.mp hlow, true_and,
        ← roundHalfEven_lt_roundHalfEven_iff, not_lt]
  · have hlow : ¬ask ≤ low := fun hlow ↦ hhigh (hlow.trans hle)
    simp [hhigh, hlow, roundHalfEven_mono hle]

theorem roundHalfEven_clampedAsk_le_iff {bid low high : ℚ} (hle : low ≤ high) :
    roundHalfEven (clampedAsk bid low) ≤ roundHalfEven (clampedAsk bid high) ↔
      ¬(low ≤ bid ∧ bid < high ∧ ThresholdBetween high (bid + 1)) := by
  unfold clampedAsk
  by_cases hlow : low ≤ bid
  · by_cases hhigh : high ≤ bid
    · simp [hhigh, hlow]
    · simp only [hhigh, hlow, if_true, if_false, not_le.mp hhigh, true_and,
        ← roundHalfEven_lt_roundHalfEven_iff, not_lt]
  · have hhigh : ¬high ≤ bid := fun hhigh ↦ hlow (hle.trans hhigh)
    simp [hhigh, hlow, roundHalfEven_mono hle]

/-- The buy quote of the shorter position is clamped, that of the longer one is not, and a threshold
`n + 1 / 2` of the rounding puts it above the clamped one. -/
def BuyRises (ask mid inventory inventory' : ℚ) : Prop :=
  inventory ≤ 100 * (mid - 2 - ask) ∧ 100 * (mid - 2 - ask) < inventory' ∧
    ∃ n : ℤ, (ask < n + 3 / 2 ∨ ask = n + 3 / 2 ∧ Even n) ∧
      (inventory' < 100 * (mid - 2 - n) - 50 ∨ inventory' = 100 * (mid - 2 - n) - 50 ∧ ¬Even n)

/-- The sell quote of the longer position is clamped, that of the shorter one is not, and a
threshold `n + 1 / 2` of the rounding puts it below the clamped one. -/
def SellRises (bid mid inventory inventory' : ℚ) : Prop :=
  inventory < 100 * (mid + 2 - bid) ∧ 100 * (mid + 2 - bid) ≤ inventory' ∧
    ∃ n : ℤ, (100 * (mid + 2 - n) - 50 < inventory ∨
        inventory = 100 * (mid + 2 - n) - 50 ∧ Even n) ∧
      (n - 1 / 2 < bid ∨ bid = n - 1 / 2 ∧ ¬Even n)

theorem buyRises_iff (ask mid inventory inventory' : ℚ) :
    BuyRises ask mid inventory inventory' ↔
      ask ≤ mid - inventory / 100 - 2 ∧ mid - inventory' / 100 - 2 < ask ∧
        ThresholdBetween (ask - 1) (mid - inventory' / 100 - 2) := by
  have hadd : ∀ n : ℤ, (n + 1 / 2 + 1 : ℚ) = n + 3 / 2 := fun n ↦ by ring
  have hlt : ∀ n : ℤ, ask - 1 < n + 1 / 2 ↔ ask < n + 3 / 2 :=
    fun n ↦ by rw [sub_lt_iff_lt_add, hadd]
  have heq : ∀ n : ℤ, ask - 1 = n + 1 / 2 ↔ ask = n + 3 / 2 :=
    fun n ↦ by rw [sub_eq_iff_eq_add, hadd]
  have hthreshold : ∀ n : ℤ, 100 * (mid - 2 - (n + 1 / 2)) = 100 * (mid - 2 - n) - 50 :=
    fun n ↦ by ring
  rw [sub_right_comm mid (inventory / 100), sub_right_comm mid (inventory' / 100), le_skewed_iff,
    skewed_lt_iff]
  simp only [BuyRises, ThresholdBetween, hlt, heq, lt_skewed_iff, skewed_eq_iff, hthreshold]

theorem sellRises_iff (bid mid inventory inventory' : ℚ) :
    SellRises bid mid inventory inventory' ↔
      mid - inventory' / 100 + 2 ≤ bid ∧ bid < mid - inventory / 100 + 2 ∧
        ThresholdBetween (mid - inventory / 100 + 2) (bid + 1) := by
  have hsub : ∀ n : ℤ, (n + 1 / 2 - 1 : ℚ) = n - 1 / 2 := fun n ↦ by ring
  have hlt : ∀ n : ℤ, n + 1 / 2 < bid + 1 ↔ n - 1 / 2 < bid :=
    fun n ↦ by rw [← sub_lt_iff_lt_add, hsub]
  have heq : ∀ n : ℤ, bid + 1 = n + 1 / 2 ↔ bid = n - 1 / 2 :=
    fun n ↦ by rw [← eq_sub_iff_add_eq, hsub]
  have hthreshold : ∀ n : ℤ, 100 * (mid + 2 - (n + 1 / 2)) = 100 * (mid + 2 - n) - 50 :=
    fun n ↦ by ring
  rw [sub_add_eq_add_sub, sub_add_eq_add_sub, skewed_le_iff, lt_skewed_iff, and_left_comm]
  simp only [SellRises, ThresholdBetween, hlt, heq, skewed_lt_iff, skewed_eq_iff, hthreshold]

/-- With the ask on a tick, the buy quote rises exactly when it is rounded across the book. -/
theorem buyRises_intCast_iff (ask : ℤ) (mid inventory inventory' : ℚ) :
    BuyRises ask mid inventory inventory' ↔
      inventory ≤ 100 * (mid - 2 - ask) ∧ BuyCrosses ask mid inventory' := by
  have hinside : roundHalfEven (ask - 1) = ask - 1 := by exact_mod_cast roundHalfEven_intCast _
  have hcrosses : BuyCrosses ask mid inventory' ↔ mid - inventory' / 100 - 2 < ask ∧
      ask - 1 < roundHalfEven (mid - inventory' / 100 - 2) := by
    rw [← not_iff_not, ← quotedBid_lt_iff, quotedBid]
    split_ifs with hclamped
    · simp [not_lt.mpr hclamped]
    · simp only [not_le.mp hclamped, true_and, not_lt, Int.le_sub_one_iff]
  rw [buyRises_iff, ← roundHalfEven_lt_roundHalfEven_iff, hinside, ← hcrosses, sub_right_comm,
    le_skewed_iff]

/-- With the bid on a tick, the sell quote rises exactly when it is rounded across the book. -/
theorem sellRises_intCast_iff (bid : ℤ) (mid inventory inventory' : ℚ) :
    SellRises bid mid inventory inventory' ↔
      100 * (mid + 2 - bid) ≤ inventory' ∧ SellCrosses bid mid inventory := by
  have hinside : roundHalfEven (bid + 1) = bid + 1 := by exact_mod_cast roundHalfEven_intCast _
  have hcrosses : SellCrosses bid mid inventory ↔ bid < mid - inventory / 100 + 2 ∧
      roundHalfEven (mid - inventory / 100 + 2) < bid + 1 := by
    rw [← not_iff_not, ← lt_quotedAsk_iff, quotedAsk]
    split_ifs with hclamped
    · simp [not_lt.mpr hclamped]
    · simp only [not_le.mp hclamped, true_and, not_lt, Int.add_one_le_iff]
  rw [sellRises_iff, ← roundHalfEven_lt_roundHalfEven_iff, hinside, ← hcrosses,
    sub_add_eq_add_sub, skewed_le_iff]

namespace SimpleStrategy

/-- A longer position quotes no higher, up to the effect of the clamps. -/
theorem emitted_antitone_iff (htick : strategy.instrumentInfo.DecimalTick)
    (hbook : Quotable orderBook firstBid firstAsk) (hle : inventory ≤ inventory') :
    ∃ buyPrice sellPrice buyPrice' sellPrice',
      strategy.Emits orderBook inventory buyPrice sellPrice ∧
      strategy.Emits orderBook inventory' buyPrice' sellPrice' ∧
      (buyPrice' ≤ buyPrice ∧ sellPrice' ≤ sellPrice ↔
        ¬BuyRises (firstAsk.price / strategy.instrumentInfo.tickSize)
          (microPrice firstBid firstAsk / strategy.instrumentInfo.tickSize) inventory inventory' ∧
        ¬SellRises (firstBid.price / strategy.instrumentInfo.tickSize)
          (microPrice firstBid firstAsk / strategy.instrumentInfo.tickSize) inventory
          inventory') := by
  have hunit : (0 : ℚ) < 10 ^ strategy.instrumentInfo.decimalPlaces := by positivity
  refine ⟨_, _, _, _, emits hbook inventory, emits hbook inventory', ?_⟩
  simp only [bidPrice_eq_mul htick.pos, askPrice_eq_mul htick.pos, htick.fixedValue_mul,
    div_le_div_iff_of_pos_right hunit, Int.cast_le]
  rw [roundHalfEven_clampedBid_le_iff (by linarith), roundHalfEven_clampedAsk_le_iff (by linarith),
    buyRises_iff, sellRises_iff]

/-- Neither position is far enough to be clamped. -/
theorem emitted_antitone_sample :
    ∃ buyPrice sellPrice buyPrice' sellPrice',
      sampleStrategy.Emits sampleNarrowBook 0 buyPrice sellPrice ∧
      sampleStrategy.Emits sampleNarrowBook 100 buyPrice' sellPrice' ∧
      buyPrice' ≤ buyPrice ∧ sellPrice' ≤ sellPrice := by
  have hle : (0 : ℚ) ≤ 100 := by norm_num
  obtain ⟨buyPrice, sellPrice, buyPrice', sellPrice', hfirst, hsecond, hiff⟩ :=
    emitted_antitone_iff decimalTick_sampleStrategy onTicks_sampleNarrowBook.quotable hle
  refine ⟨buyPrice, sellPrice, buyPrice', sellPrice', hfirst, hsecond, hiff.mpr ⟨?_, ?_⟩⟩
  · rintro ⟨hclamped, -⟩
    norm_num [microPrice, sampleStrategy] at hclamped
  · rintro ⟨-, hclamped, -⟩
    norm_num [microPrice, sampleStrategy] at hclamped

/-- A short position of 300 is quoted at 1 by the clamp, one of 220 at 1.7 rounded to 2. -/
theorem not_emitted_antitone :
    ¬∀ (strategy : SimpleStrategy ℚ) (orderBook : OrderBook ℚ) (firstBid firstAsk : Level ℚ)
      (inventory inventory' : ℚ), strategy.instrumentInfo.DecimalTick →
      Quotable orderBook firstBid firstAsk → firstBid.price < firstAsk.price →
      inventory ≤ inventory' →
      ∃ buyPrice sellPrice buyPrice' sellPrice',
        strategy.Emits orderBook inventory buyPrice sellPrice ∧
        strategy.Emits orderBook inventory' buyPrice' sellPrice' ∧
        buyPrice' ≤ buyPrice ∧ sellPrice' ≤ sellPrice := by
  intro hclaim
  obtain ⟨buyPrice, sellPrice, buyPrice', sellPrice', hfirst, hsecond, hle, -⟩ :=
    hclaim sampleStrategy sampleNarrowBook _ _ (-300) (-220) decimalTick_sampleStrategy
      onTicks_sampleNarrowBook.quotable (by norm_num) (by norm_num)
  have hshort : (sampleStrategy.execute sampleNarrowBook (-300)).toOption.map
      (List.map fun order ↦ F64.fromStr order.price) = some [some (1 : ℚ), some 6] := by
    decide +kernel
  have hlong : (sampleStrategy.execute sampleNarrowBook (-220)).toOption.map
      (List.map fun order ↦ F64.fromStr order.price) = some [some (2 : ℚ), some 6] := by
    decide +kernel
  obtain ⟨rfl, -⟩ : 1 = buyPrice ∧ 6 = sellPrice := by
    simpa using hshort.symm.trans hfirst.prices
  obtain ⟨rfl, -⟩ : 2 = buyPrice' ∧ 6 = sellPrice' := by
    simpa using hlong.symm.trans hsecond.prices
  norm_num at hle

end SimpleStrategy

end MarketMaker
