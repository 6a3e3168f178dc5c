import MarketMaker.Strategy.Quotes

/-!
# Emitted prices and the tick size

The strategy steps with the value of the tick size and rounds to the decimals counted in its text.
Every emitted price is a multiple of the last decimal; no price is rounded to the tick.  Hence the
prices are multiples of a tick size in decimal notation exactly when it is the unit of the last
decimal, which for a text with a point is the unit of its last digit.
-/

namespace MarketMaker

/-- A number in decimal notation: digits, with or without a point. -/
structure PlainDecimal (text : String) (whole fraction : List Char) : Prop where
  digits : ∀ c ∈ whole ++ fraction, c.isDigit
  form : text.toList = whole ++ '.' :: fraction ∨ text.toList = whole ∧ fraction = []

theorem byteLength_digits {digits : List Char} (hdigits : ∀ c ∈ digits, c.isDigit) :
    byteLength digits = digits.length := by
  induction digits with
  | nil => rfl
  | cons first rest ih =>
    have hdigit : first.isDigit := hdigits first (by simp)
    have hfirst : first.utf8Size = 1 := by
      rw [Char.utf8Size_eq_one_iff]
      simp only [Char.isDigit, Bool.and_eq_true, decide_eq_true_eq] at hdigit
      exact UInt32.le_trans hdigit.2 (by decide)
    have hrest := ih fun c hc ↦ hdigits c (List.mem_cons_of_mem first hc)
    simp only [byteLength, List.map_cons, List.sum_cons, List.length_cons] at hrest ⊢
    omega

namespace PlainDecimal

variable {text : String} {whole fraction : List Char}

theorem whole_digits (hplain : PlainDecimal text whole fraction) : ∀ c ∈ whole, c.isDigit :=
  fun c hc ↦ hplain.digits c (List.mem_append_left _ hc)

theorem fraction_digits (hplain : PlainDecimal text whole fraction) :
    ∀ c ∈ fraction, c.isDigit :=
  fun c hc ↦ hplain.digits c (List.mem_append_right _ hc)

theorem point_notMem (hplain : PlainDecimal text whole fraction) : '.' ∉ whole := by
  intro hmem
  exact absurd (hplain.whole_digits '.' hmem) (by decide)

/-- The decimals counted in a text with a point, or in one digit, are the digits after the point. -/
theorem decimalPlacesOf (hplain : PlainDecimal text whole fraction)
    (hpoint : '.' ∈ text.toList ∨ whole.length = 1) :
    decimalPlacesOf text = .ok fraction.length := by
  have hwhole := byteLength_digits hplain.whole_digits
  have hfraction := byteLength_digits hplain.fraction_digits
  unfold MarketMaker.decimalPlacesOf
  obtain htext | ⟨htext, rfl⟩ := hplain.form
  · have hfind : findChar text.toList '.' = some whole.length := by
      have htake : text.toList.takeWhile (· ≠ '.') = whole := by
        rw [htext, List.takeWhile_append_of_pos fun c hc ↦ by
          simpa using ne_of_mem_of_not_mem hc hplain.point_notMem]
        simp
      rw [findChar, if_pos (by simp [htext]), htake, hwhole]
    have hlength : byteLength text.toList = whole.length + (1 + fraction.length) := by
      have hsize : '.'.utf8Size = 1 := by decide
      unfold byteLength at hwhole hfraction ⊢
      rw [htext, List.map_append, List.sum_append, List.map_cons, List.sum_cons, hwhole,
        hfraction, hsize]
    simp [hfind, hlength, checkedSub, bind, Except.bind]
  · have hone : whole.length = 1 := hpoint.resolve_left (htext ▸ hplain.point_notMem)
    have hfind : findChar whole '.' = none := by
      rw [findChar, if_neg hplain.point_notMem]
    simp [hfind, htext, hwhole, hone, checkedSub, bind, Except.bind]

/-- No digit after the point is left out. -/
theorem length_fraction_le (hplain : PlainDecimal text whole fraction) {places : ℕ}
    (hplaces : MarketMaker.decimalPlacesOf text = .ok places) : fraction.length ≤ places := by
  obtain htext | ⟨-, rfl⟩ := hplain.form
  · have hpoint : '.' ∈ text.toList := by simp [htext]
    exact (Except.ok.inj ((hplain.decimalPlacesOf (.inl hpoint)).symm.trans hplaces)).le
  · exact Nat.zero_le places

/-- The value read is the digits over the power of ten of the digits after the point. -/
theorem eq_of_fromStr (hplain : PlainDecimal text whole fraction) {tickSize : ℚ}
    (hread : F64.fromStr text = some tickSize) :
    tickSize = F64.Decimal.digitsValue (whole ++ fraction) / 10 ^ fraction.length := by
  change F64.Decimal.parse text = some tickSize at hread
  obtain htext | ⟨htext, rfl⟩ := hplain.form
  · have hnumber : F64.Decimal.parse text = F64.Decimal.number (whole ++ '.' :: fraction) := by
      cases whole with
      | nil => exact F64.Decimal.parse_unsigned htext (by decide) (by decide)
      | cons first rest =>
        exact F64.Decimal.parse_digit htext (hplain.whole_digits first (by simp))
    rw [hnumber] at hread
    by_cases hempty : whole = [] ∧ fraction = []
    · obtain ⟨rfl, rfl⟩ := hempty
      have hnone : F64.Decimal.number ['.'] = none := by decide +kernel
      simp [hnone] at hread
    · rw [F64.Decimal.number_point hempty hplain.whole_digits hplain.fraction_digits] at hread
      exact (Option.some.inj hread).symm
  · cases whole with
    | nil =>
      have hnone : F64.Decimal.parse "" = none := by decide +kernel
      rw [String.toList_inj.mp (htext.trans String.toList_empty.symm), hnone] at hread
      cases hread
    | cons first rest =>
      rw [F64.Decimal.parse_digit htext (hplain.whole_digits first (by simp)),
        F64.Decimal.number_whole (by simp) hplain.whole_digits] at hread
      simpa using (Option.some.inj hread).symm

end PlainDecimal

namespace SimpleStrategy

variable {strategy : SimpleStrategy ℚ} {orderBook : OrderBook ℚ} {inventory : ℚ}
  {orders : List (OrderBuilder ℚ)}

/-- Every emitted price is an integer multiple of the last decimal. -/
theorem emitted_price (hexecute : strategy.execute orderBook inventory = .ok orders)
    {order : OrderBuilder ℚ} (hmem : order ∈ orders) :
    ∃ k : ℤ, F64.fromStr order.price =
      some ((k : ℚ) / 10 ^ strategy.instrumentInfo.decimalPlaces) := by
  obtain ⟨firstBid, firstAsk, -, -, -, -, heq⟩ | ⟨heq, -⟩ :=
    strategy.execute_rat orderBook inventory
  · obtain rfl := Except.ok.inj (hexecute.symm.trans heq)
    simp only [List.mem_cons, List.not_mem_nil, or_false] at hmem
    rcases hmem with rfl | rfl
    · exact ⟨_, parse_quote strategy .buy _⟩
    · exact ⟨_, parse_quote strategy .sell _⟩
  · obtain rfl := Except.ok.inj (hexecute.symm.trans heq)
    exact absurd hmem List.not_mem_nil

/-- One bid a tick above zero and one ask a tick above it, with equal sizes. -/
def tickBook (tickSize : ℚ) : OrderBook ℚ :=
  { bids := [{ price := tickSize, size := 1 }], asks := [{ price := 2 * tickSize, size := 1 }]
    ts := 0, cts := 0 }

theorem microPrice_tickBook (tickSize : ℚ) :
    microPrice { price := tickSize, size := 1 } { price := 2 * tickSize, size := 1 } =
      3 / 2 * tickSize := by
  rw [microPrice]
  ring

theorem quotable_tickBook {tickSize : ℚ} (htick : 0 < tickSize) :
    Quotable (tickBook tickSize) { price := tickSize, size := 1 }
      { price := 2 * tickSize, size := 1 } := by
  refine ⟨rfl, rfl, ?_, ?_⟩
  · rw [invalid_rat, not_not]
    exact ⟨htick, one_pos⟩
  · rw [invalid_rat, not_not]
    exact ⟨mul_pos two_pos htick, one_pos⟩

/-- Some inventory takes the computed buy price to minus one last decimal. -/
theorem bidPrice_tickBook (htick : 0 < strategy.instrumentInfo.tickSize) :
    strategy.bidPrice { price := strategy.instrumentInfo.tickSize, size := 1 }
        { price := 2 * strategy.instrumentInfo.tickSize, size := 1 }
        (100 * (1 / 10 ^ strategy.instrumentInfo.decimalPlaces /
          strategy.instrumentInfo.tickSize - 1 / 2)) =
      ((-1 : ℤ) : ℚ) / 10 ^ strategy.instrumentInfo.decimalPlaces := by
  have hne := htick.ne'
  have hcomputed : 3 / 2 - 100 * (1 / 10 ^ strategy.instrumentInfo.decimalPlaces /
      strategy.instrumentInfo.tickSize - 1 / 2) / 100 - 2 =
        -(1 / 10 ^ strategy.instrumentInfo.decimalPlaces / strategy.instrumentInfo.tickSize) := by
    ring
  have hprice : ¬2 ≤
      -(1 / 10 ^ strategy.instrumentInfo.decimalPlaces / strategy.instrumentInfo.tickSize) := by
    have hunit : 0 < 1 / 10 ^ strategy.instrumentInfo.decimalPlaces /
        strategy.instrumentInfo.tickSize := by positivity
    linarith
  rw [bidPrice_eq_mul htick, microPrice_tickBook, mul_div_cancel_right₀ _ hne,
    mul_div_cancel_right₀ _ hne, hcomputed, clampedBid, if_neg hprice, neg_mul,
    div_mul_cancel₀ _ hne, ← neg_div, Int.cast_neg, Int.cast_one]

/-- On this book some inventory takes the buy quote to minus one last decimal. -/
theorem exists_emitted_unit (htick : 0 < strategy.instrumentInfo.tickSize) :
    ∃ inventory orders, strategy.execute (tickBook strategy.instrumentInfo.tickSize) inventory =
        .ok orders ∧
      ∃ order ∈ orders, F64.fromStr order.price =
        some (-1 / 10 ^ strategy.instrumentInfo.decimalPlaces : ℚ) := by
  refine ⟨100 * (1 / 10 ^ strategy.instrumentInfo.decimalPlaces /
    strategy.instrumentInfo.tickSize - 1 / 2), _, (quotable_tickBook htick).execute strategy _, _,
    List.mem_cons_self .., ?_⟩
  calc
    _ = some (F64.fixedValue strategy.instrumentInfo.decimalPlaces
        (((-1 : ℤ) : ℚ) / 10 ^ strategy.instrumentInfo.decimalPlaces)) := by
      rw [parse_quote, bidPrice_tickBook htick]
    _ = some (((-1 : ℤ) : ℚ) / 10 ^ strategy.instrumentInfo.decimalPlaces) := by
      rw [F64.fixedValue_div, roundHalfEven_intCast]
    _ = _ := by rw [Int.cast_neg, Int.cast_one]

/-- For every book with top prices on the tick and every inventory the prices emitted are multiples
of the tick. -/
def RespectsTick (strategy : SimpleStrategy ℚ) : Prop :=
  ∀ orderBook firstBid firstAsk inventory orders, orderBook.bids.head? = some firstBid →
    orderBook.asks.head? = some firstAsk →
    (∃ k : ℤ, firstBid.price = k * strategy.instrumentInfo.tickSize) →
    (∃ k : ℤ, firstAsk.price = k * strategy.instrumentInfo.tickSize) →
    strategy.execute orderBook inventory = .ok orders →
    ∀ order ∈ orders, ∃ k : ℤ,
      F64.fromStr order.price = some (k * strategy.instrumentInfo.tickSize)

/-- A tick of several last decimals is not respected. -/
theorem respectsTick_iff {n : ℕ}
    (htick : strategy.instrumentInfo.tickSize =
      n / 10 ^ strategy.instrumentInfo.decimalPlaces) (hpositive : n ≠ 0) :
    strategy.RespectsTick ↔ strategy.instrumentInfo.DecimalTick := by
  have hunit : (10 : ℚ) ^ strategy.instrumentInfo.decimalPlaces ≠ 0 := by positivity
  constructor
  · intro hrespects
    have hn : (0 : ℚ) < n := by exact_mod_cast Nat.pos_of_ne_zero hpositive
    have htickSize : 0 < strategy.instrumentInfo.tickSize := by
      rw [htick]
      positivity
    obtain ⟨inventory, orders, hexecute, order, hmem, hprice⟩ := exists_emitted_unit htickSize
    obtain ⟨k, hk⟩ := hrespects _ _ _ inventory orders rfl rfl ⟨1, by simp⟩ ⟨2, by simp⟩ hexecute
      order hmem
    have hproduct : k * (n : ℤ) = -1 := by
      have heq := Option.some.inj (hprice.symm.trans hk)
      rw [htick, ← mul_div_assoc, div_left_inj' hunit] at heq
      exact_mod_cast heq.symm
    have hone : (n : ℤ) = 1 := by
      rcases Int.eq_one_or_neg_one_of_mul_eq_neg_one' hproduct with ⟨-, hn'⟩ | ⟨-, hn'⟩
      · omega
      · exact hn'
    rw [InstrumentInfo.DecimalTick, htick, show n = 1 by omega, Nat.cast_one]
  · intro hdecimal orderBook _ _ inventory orders _ _ _ _ hexecute order hmem
    obtain ⟨k, hk⟩ := emitted_price hexecute hmem
    refine ⟨k, hk.trans ?_⟩
    rw [hdecimal, mul_one_div]

/-- The prices emitted on the metadata of an accepted response: all are multiples of the last
decimal counted in the tick size.  A tick size in decimal notation is respected exactly when it is
the unit of that decimal; written with a point, or as one digit, its decimals are the digits after
the point. -/
theorem emitted_prices_of_response {symbol : String} {content : Value} {info : InstrumentInfo ℚ}
    (haccepted : processInstrumentInfoResponse symbol content = .ok info) {size : ℚ}
    (hstrategy : SimpleStrategy.new size info = .ok strategy) :
    (∀ orderBook inventory orders, strategy.execute orderBook inventory = .ok orders →
      ∀ order ∈ orders, ∃ k : ℤ,
        F64.fromStr order.price = some ((k : ℚ) / 10 ^ info.decimalPlaces)) ∧
    ∀ text whole fraction, TickSizeText symbol content text → PlainDecimal text whole fraction →
      (strategy.RespectsTick ↔ info.tickSize = 1 / 10 ^ info.decimalPlaces) ∧
        ('.' ∈ text.toList ∨ whole.length = 1 → info.decimalPlaces = fraction.length) := by
  obtain ⟨rfl, -⟩ := new_eq_ok hstrategy
  refine ⟨fun orderBook inventory orders hexecute order hmem ↦ emitted_price hexecute hmem, ?_⟩
  intro text whole fraction htext hplain
  obtain ⟨text', htext', hread, hplaces, hpositive⟩ :=
    processInstrumentInfoResponse_eq_ok haccepted
  obtain rfl := htext.unique htext'
  have hle := hplain.length_fraction_le hplaces
  have htick : info.tickSize = ((F64.Decimal.digitsValue (whole ++ fraction) *
      10 ^ (info.decimalPlaces - fraction.length) : ℕ) : ℚ) / 10 ^ info.decimalPlaces := by
    calc
      _ = (F64.Decimal.digitsValue (whole ++ fraction) : ℚ) / 10 ^ fraction.length :=
        hplain.eq_of_fromStr hread
      _ = (F64.Decimal.digitsValue (whole ++ fraction) *
            10 ^ (info.decimalPlaces - fraction.length) : ℚ) /
          (10 ^ fraction.length * 10 ^ (info.decimalPlaces - fraction.length)) :=
        (mul_div_mul_right _ _ (by positivity)).symm
      _ = _ := by
        rw [← pow_add, Nat.add_sub_cancel' hle]
        push_cast
        rfl
  constructor
  · apply respectsTick_iff htick
    intro hzero
    rw [htick, hzero] at hpositive
    norm_num at hpositive
  · intro hpoint
    exact Except.ok.inj (hplaces.symm.trans (hplain.decimalPlacesOf hpoint))

/-! ## A tick of one half -/

def sampleInstrumentInfo (tickSize : String) : Value :=
  .object [("retCode", .number (some 0)), ("retMsg", .string "OK"),
    ("result", .object [("list", .array [.object [("symbol", .string "ADAUSDT"),
      ("baseCoin", .string "ADA"), ("quoteCoin", .string "USDT"),
      ("lotSizeFilter", .object [("basePrecision", .string "0.01"),
        ("quotePrecision", .string "0.000001")]),
      ("priceFilter", .object [("tickSize", .string tickSize)])]])])]

def sampleHalfTick : InstrumentInfo ℚ :=
  { symbol := "ADAUSDT", baseCoin := "ADA", quoteCoin := "USDT", basePrecision := 1 / 100
    quotePrecision := 1 / 1000000, tickSize := 1 / 2, decimalPlaces := 1 }

theorem processInstrumentInfoResponse_sample :
    processInstrumentInfoResponse "ADAUSDT" (sampleInstrumentInfo "0.5") = .ok sampleHalfTick :=
  eq_ok_of_toOption (by decide +kernel)

theorem new_sampleHalfTick :
    SimpleStrategy.new 25 sampleHalfTick = .ok { size := 25, instrumentInfo := sampleHalfTick } :=
  eq_ok_of_toOption (by decide +kernel)

theorem emitted_prices_of_response_sample :
    ({ size := 25, instrumentInfo := sampleHalfTick : SimpleStrategy ℚ }.RespectsTick ↔
        sampleHalfTick.tickSize = 1 / 10 ^ sampleHalfTick.decimalPlaces) ∧
      sampleHalfTick.decimalPlaces = 1 := by
  obtain ⟨hrespects, hplaces⟩ :=
    (emitted_prices_of_response processInstrumentInfoResponse_sample new_sampleHalfTick).2 "0.5"
      ['0'] ['5'] ⟨_, _, rfl, rfl, rfl⟩ ⟨by simp [Char.isDigit], .inl rfl⟩
  exact ⟨hrespects, hplaces (.inr rfl)⟩

/-- With the tick 0.5 a quote at 0.25 is rounded to 0.2. -/
theorem not_emitted_prices_on_tick :
    ¬∀ (symbol : String) (content : Value) (info : InstrumentInfo ℚ) (size : ℚ)
      (strategy : SimpleStrategy ℚ), processInstrumentInfoResponse symbol content = .ok info →
      SimpleStrategy.new size info = .ok strategy → strategy.RespectsTick := by
  intro hclaim
  have hrespects := hclaim _ _ _ _ _ processInstrumentInfoResponse_sample new_sampleHalfTick
  have horders : (({ size := 25, instrumentInfo := sampleHalfTick } : SimpleStrategy ℚ).execute
      { bids := [{ price := 1, size := 1 }], asks := [{ price := 3 / 2, size := 1 }], ts := 0
        cts := 0 } 0).toOption.map (List.map OrderBuilder.price) = some ["0.2", "2.2"] := by
    decide +kernel
  obtain ⟨orders, hexecute, hprices⟩ := Option.map_eq_some_iff.mp horders
  obtain ⟨buy, hbuy, hprice⟩ : ∃ buy ∈ orders, buy.price = "0.2" := by
    rw [← List.mem_map, hprices]
    simp
  obtain ⟨k, hk⟩ := hrespects _ _ _ 0 orders rfl rfl ⟨2, by norm_num [sampleHalfTick]⟩
    ⟨3, by norm_num [sampleHalfTick]⟩ (eq_ok_of_toOption hexecute) buy hbuy
  have hfifth : (F64.fromStr "0.2" : Option ℚ) = some (1 / 5) := by decide +kernel
  rw [hprice, hfifth] at hk
  have hticks : (2 : ℚ) = 5 * k := by
    have hvalue : (1 / 5 : ℚ) = k * (1 / 2) := Option.some.inj hk
    linarith
  have hticks' : (2 : ℤ) = 5 * k := by exact_mod_cast hticks
  omega

end SimpleStrategy

end MarketMaker
