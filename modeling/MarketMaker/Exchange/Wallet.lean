import MarketMaker.Exchange.Market
import Mathlib.Data.Finmap

/-!
# Balances and the last trade

The two answers that the order management system starts from.  The answer with the balances lists
the coins of one account; it is accepted exactly if every entry can be read and no coin is listed
twice, and then the wallet is the list.
-/

namespace MarketMaker

variable {F : Type}

structure Wallet (F : Type) where
  coins : Finmap fun _ : String ↦ F

structure Trades (F : Type) where
  symbol : String
  lastPrice : F

namespace Wallet

def empty : Wallet F := { coins := ∅ }

variable [F64 F]

/-- Name and equity of an entry. -/
def readCoin (coin : Value) : Except Panic (String × F) := do
  let name ← unwrap (coin.get "coin").asStr
  let balance ← unwrap (F64.fromStr (← unwrap (coin.get "equity").asStr))
  return (name, balance)

def insertCoin (wallet : Wallet F) (coin : Value) : Except Panic (Wallet F) := do
  let (name, balance) ← readCoin coin
  assertThat (name ∉ wallet.coins) s!"Duplicate coin {name} in wallet-balance response."
  return { coins := wallet.coins.insert name balance }

def processResponse (wallet : Wallet F) (content : Value) : Except Panic (Wallet F) := do
  if (← unwrap (content.get "retCode").asI64) = 0 then
    match ← unwrap ((content.get "result").get "list").asArray with
    | [account] => (← unwrap (account.get "coin").asArray).foldlM insertCoin wallet
    | accounts => .error (.message ("Expected exactly one UNIFIED account in wallet-balance " ++
        s!"response, found {accounts.length}."))
  else .error (.requestFailed (content.get "retCode") (content.get "retMsg"))

/-- The coins that the only account of an answer lists. -/
def Lists (content : Value) (coins : List (String × F)) : Prop :=
  (content.get "retCode").asI64 = some 0 ∧ ∃ account entries,
    ((content.get "result").get "list").asArray = some [account] ∧
    (account.get "coin").asArray = some entries ∧ entries.mapM readCoin = .ok coins

theorem insertCoin_eq_ok {wallet next : Wallet F} {coin : Value} :
    wallet.insertCoin coin = .ok next ↔ ∃ entry, readCoin coin = .ok entry ∧
      entry.1 ∉ wallet.coins ∧ next = { coins := wallet.coins.insert entry.1 entry.2 } := by
  simp only [insertCoin, bind_eq_ok, assertThat_eq_ok, pure, Except.pure, Except.ok.injEq,
    exists_and_left, exists_const]
  apply exists_congr
  intro entry
  rw [eq_comm (a := next)]

omit [F64 F] in
/-- What the first entry adds to a listing without it. -/
theorem lookup_cons_or {entry : String × F} {coins : List (String × F)} {wallet : Wallet F}
    (hentry : entry.1 ∉ coins.map Prod.fst) (name : String) :
    (coins.lookup name).or ((wallet.coins.insert entry.1 entry.2).lookup name) =
      ((entry :: coins).lookup name).or (wallet.coins.lookup name) := by
  by_cases hname : name = entry.1
  · subst hname
    have hnone : coins.lookup entry.1 = none := by
      rw [List.lookup_eq_none_iff]
      intro other hother
      apply bne_iff_ne.mpr
      intro heq
      exact hentry (heq ▸ List.mem_map_of_mem hother)
    rw [hnone, Finmap.lookup_insert, List.lookup_cons, beq_self_eq_true]
    rfl
  · have hbeq : (name == entry.1) = false := beq_eq_false_iff_ne.mpr hname
    rw [Finmap.lookup_insert_of_ne _ hname, List.lookup_cons, hbeq]

omit [F64 F] in
/-- A wallet can hold any list of coins. -/
theorem exists_lookup_eq (coins : List (String × F)) :
    ∃ wallet : Wallet F, ∀ name, wallet.coins.lookup name = coins.lookup name := by
  induction coins with
  | nil => exact ⟨empty, fun name ↦ Finmap.lookup_empty name⟩
  | cons entry rest ih =>
    obtain ⟨wallet, hlookup⟩ := ih
    refine ⟨{ coins := wallet.coins.insert entry.1 entry.2 }, ?_⟩
    intro name
    rw [List.lookup_cons]
    by_cases hname : name = entry.1
    · rw [hname, Finmap.lookup_insert, beq_self_eq_true]
    · have hbeq : (name == entry.1) = false := beq_eq_false_iff_ne.mpr hname
      rw [Finmap.lookup_insert_of_ne _ hname, hbeq]
      exact hlookup name

/-- Entries are inserted exactly if each can be read and none is present already. -/
theorem insertCoins_eq_ok {wallet result : Wallet F} {entries : List Value} :
    entries.foldlM insertCoin wallet = .ok result ↔ ∃ coins : List (String × F),
      entries.mapM readCoin = .ok coins ∧ (coins.map Prod.fst).Nodup ∧
      (∀ name ∈ coins.map Prod.fst, name ∉ wallet.coins) ∧
      ∀ name, result.coins.lookup name = (coins.lookup name).or (wallet.coins.lookup name) := by
  induction entries generalizing wallet with
  | nil =>
    simp only [List.foldlM_nil, List.mapM_nil, pure, Except.pure, Except.ok.injEq,
      exists_eq_left', List.map_nil, List.nodup_nil, List.not_mem_nil, false_implies, implies_true,
      List.lookup_nil, Option.none_or, true_and]
    constructor
    · intro hsame name
      rw [hsame]
    · intro hlookup
      cases wallet
      cases result
      exact congrArg Wallet.mk (Finmap.ext_lookup fun name ↦ (hlookup name).symm)
  | cons coin rest ih =>
    simp only [List.foldlM_cons, List.mapM_cons, bind_eq_ok, insertCoin_eq_ok, ih, pure,
      Except.pure, Except.ok.injEq]
    constructor
    · rintro ⟨_, ⟨entry, hread, hfresh, rfl⟩, coins, hcoins, hnodup, hdisjoint, hlookup⟩
      have hentry : entry.1 ∉ coins.map Prod.fst := by
        intro hmem
        exact hdisjoint entry.1 hmem (Finmap.mem_insert.mpr (.inl rfl))
      refine ⟨entry :: coins, ⟨entry, hread, coins, hcoins, rfl⟩, ?_, ?_, ?_⟩
      · exact List.nodup_cons.mpr ⟨hentry, hnodup⟩
      · intro name hname
        rcases List.mem_cons.mp hname with rfl | hname
        · exact hfresh
        · exact fun hmem ↦ hdisjoint name hname (Finmap.mem_insert.mpr (.inr hmem))
      · intro name
        rw [hlookup, lookup_cons_or hentry]
    · rintro ⟨_, ⟨entry, hread, coins, hcoins, rfl⟩, hnodup, hdisjoint, hlookup⟩
      obtain ⟨hentry, hnodup⟩ := List.nodup_cons.mp hnodup
      refine ⟨_, ⟨entry, hread, hdisjoint entry.1 (by simp), rfl⟩, coins, hcoins, hnodup, ?_, ?_⟩
      · intro name hname hmem
        rcases Finmap.mem_insert.mp hmem with rfl | hmem
        · exact hentry hname
        · exact hdisjoint name (List.mem_cons_of_mem _ hname) hmem
      · intro name
        rw [hlookup, lookup_cons_or hentry]

/-- A first answer is accepted exactly if it lists coins that are all different, and then the wallet
holds what is listed and nothing else. -/
theorem processResponse_eq_ok_iff {content : Value} {wallet : Wallet F} :
    empty.processResponse content = .ok wallet ↔ ∃ coins : List (String × F),
      Lists content coins ∧ (coins.map Prod.fst).Nodup ∧
      ∀ name, wallet.coins.lookup name = coins.lookup name := by
  have hinserted : ∀ entries : List Value, entries.foldlM insertCoin empty = .ok wallet ↔
      ∃ coins : List (String × F), entries.mapM readCoin = .ok coins ∧
        (coins.map Prod.fst).Nodup ∧ ∀ name, wallet.coins.lookup name = coins.lookup name := by
    intro entries
    rw [insertCoins_eq_ok]
    simp [empty, Finmap.notMem_empty]
  unfold processResponse Lists
  simp only [bind_eq_ok, unwrap_eq_ok]
  constructor
  · rintro ⟨retCode, hretCode, haccepted⟩
    split_ifs at haccepted with hzero
    simp only [bind_eq_ok, unwrap_eq_ok] at haccepted
    obtain ⟨accounts, haccounts, haccepted⟩ := haccepted
    split at haccepted
    · rename_i account
      simp only [bind_eq_ok, unwrap_eq_ok, hinserted] at haccepted
      obtain ⟨entries, hentries, coins, hcoins, hnodup, hlookup⟩ := haccepted
      exact ⟨coins, ⟨hzero ▸ hretCode, account, entries, haccounts, hentries, hcoins⟩, hnodup,
        hlookup⟩
    · cases haccepted
  · rintro ⟨coins, ⟨hretCode, account, entries, haccounts, hentries, hcoins⟩, hnodup, hlookup⟩
    refine ⟨0, hretCode, ?_⟩
    rw [if_pos rfl]
    simp only [bind_eq_ok, unwrap_eq_ok]
    refine ⟨[account], haccounts, ?_⟩
    simp only [bind_eq_ok, unwrap_eq_ok, hinserted]
    exact ⟨entries, hentries, coins, hcoins, hnodup, hlookup⟩

end Wallet

namespace Trades

variable [F64 F]

def processResponse (trades : Trades F) (content : Value) : Except Panic (Trades F) := do
  if (← unwrap (content.get "retCode").asI64) = 0 then
    match ← unwrap ((content.get "result").get "list").asArray with
    | trade :: _ =>
      let lastPrice ← unwrap (F64.fromStr (← unwrap (trade.get "price").asStr))
      return { trades with lastPrice }
    | [] => .error (.message s!"Symbol {trades.symbol} not found in recent-trade response.")
  else .error (.requestFailed (content.get "retCode") (content.get "retMsg"))

def Shows (content : Value) (price : F) : Prop :=
  (content.get "retCode").asI64 = some 0 ∧ ∃ trade rest text,
    ((content.get "result").get "list").asArray = some (trade :: rest) ∧
    (trade.get "price").asStr = some text ∧ F64.fromStr text = some price

theorem processResponse_eq_ok {trades next : Trades F} {content : Value} :
    trades.processResponse content = .ok next ↔
      ∃ price, Shows content price ∧ next = { trades with lastPrice := price } := by
  unfold processResponse Shows
  simp only [bind_eq_ok, unwrap_eq_ok]
  constructor
  · rintro ⟨retCode, hretCode, haccepted⟩
    split_ifs at haccepted with hzero
    simp only [bind_eq_ok, unwrap_eq_ok] at haccepted
    obtain ⟨list, hlist, haccepted⟩ := haccepted
    split at haccepted
    · rename_i trade rest
      simp only [bind_eq_ok, unwrap_eq_ok, pure, Except.pure, Except.ok.injEq] at haccepted
      obtain ⟨text, htext, price, hprice, rfl⟩ := haccepted
      exact ⟨price, ⟨hzero ▸ hretCode, trade, rest, text, hlist, htext, hprice⟩, rfl⟩
    · cases haccepted
  · rintro ⟨price, ⟨hretCode, trade, rest, text, hlist, htext, hprice⟩, rfl⟩
    refine ⟨0, hretCode, ?_⟩
    rw [if_pos rfl]
    simp only [bind_eq_ok, unwrap_eq_ok]
    refine ⟨trade :: rest, hlist, ?_⟩
    simp only [bind_eq_ok, unwrap_eq_ok]
    exact ⟨text, htext, price, hprice, rfl⟩

end Trades

end MarketMaker
