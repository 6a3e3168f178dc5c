import MarketMaker.Cli.Threads

/-!
# What the order management system starts from

Its thread asks the exchange for the balances and, when there is a position, for the last trade, and
takes its first link id from the clock.  Each of these reads can panic; together they succeed
exactly if the answers have the shape that the exchange documents.
-/

namespace MarketMaker

variable {F : Type} [F64 F] [BEq F] [OfScientific F]

theorem Threads.avgEntryPrice_eq_ok {config : AppConfig F} {inventory average : F}
    {recentTrade : Value} :
    Threads.avgEntryPrice config inventory recentTrade = .ok average ↔
      if inventory == 0.0 then average = 0.0 else Trades.Shows recentTrade average := by
  unfold Threads.avgEntryPrice
  split_ifs
  · rw [Except.ok.injEq]
    exact eq_comm
  · rw [map_eq_ok]
    constructor
    · rintro ⟨trades, htrades, rfl⟩
      obtain ⟨price, hshows, rfl⟩ := Trades.processResponse_eq_ok.mp htrades
      exact hshows
    · intro hshows
      exact ⟨_, Trades.processResponse_eq_ok.mpr ⟨average, hshows, rfl⟩, rfl⟩

omit [F64 F] [BEq F] [OfScientific F] in
theorem Threads.nextOrderLinkId_eq_ok {nowMicros : ℕ} {orderLinkId : UInt64} :
    Threads.nextOrderLinkId nowMicros = .ok orderLinkId ↔
      nowMicros < 2 ^ 64 ∧ orderLinkId = UInt64.ofNat nowMicros := by
  unfold Threads.nextOrderLinkId
  rw [unwrap_eq_ok]
  split_ifs with hfits
  · rw [Option.some.injEq, and_iff_right hfits]
    exact eq_comm
  · exact iff_of_false (by simp) fun hboth ↦ hfits hboth.1

/-- What the order management system starts from: the equity of the configured coin among balances
of different coins, the last price when there is a position, and the clock. -/
structure Threads.StartsFrom (config : AppConfig F) (walletBalance recentTrade : Value)
    (nowMicros : ℕ) (omsConfig : OmsConfig F) : Prop where
  inventory : ∃ coins : List (String × F), Wallet.Lists walletBalance coins ∧
    (coins.map Prod.fst).Nodup ∧ omsConfig.inventory = (coins.lookup config.coin).getD 0.0
  avgEntryPrice : if omsConfig.inventory == 0.0 then omsConfig.avgEntryPrice = 0.0
    else Trades.Shows recentTrade omsConfig.avgEntryPrice
  clock : nowMicros < 2 ^ 64
  initialOrderLinkId : omsConfig.initialOrderLinkId = UInt64.ofNat nowMicros
  coin : omsConfig.coin = config.coin

namespace Threads

variable {config : AppConfig F} {walletBalance recentTrade : Value} {nowMicros : ℕ}
  {omsConfig : OmsConfig F}

theorem StartsFrom.omsConfig_eq
    (hstarts : StartsFrom config walletBalance recentTrade nowMicros omsConfig) :
    Threads.omsConfig config walletBalance recentTrade nowMicros = .ok omsConfig := by
  obtain ⟨⟨coins, hlists, hnodup, hinventory⟩, haverage, hfits, hid, hcoin⟩ := hstarts
  obtain ⟨wallet, hlookup⟩ := Wallet.exists_lookup_eq coins
  simp only [Threads.omsConfig, bind_eq_ok, Wallet.processResponse_eq_ok_iff, avgEntryPrice_eq_ok,
    nextOrderLinkId_eq_ok, pure, Except.pure, Except.ok.injEq]
  refine ⟨wallet, ⟨coins, hlists, hnodup, hlookup⟩, omsConfig.avgEntryPrice, ?_,
    omsConfig.initialOrderLinkId, ⟨hfits, hid⟩, ?_⟩
  · rw [hlookup, ← hinventory]
    exact haverage
  · rw [hlookup, ← hinventory, ← hcoin]

end Threads

end MarketMaker
