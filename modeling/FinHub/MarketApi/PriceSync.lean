import FinHub.Lib.KeepFirst
import FinHub.Model.Time
import Mathlib.Data.List.Sort
import Mathlib.Data.String.Basic

/-!
# FinHub.MarketApi.PriceSync

`sync_prices` of `services/market_sync_svc.py` and what a sequence of its runs leaves in `prices`.

A price stands under the text of its timestamp. A run writes the current price under the date of its day and
the history under the keys of the provider, which are longer texts; the table is unique on the text, and
`create_price` leaves a text that is taken as it is.

* `syncPrices_prices`: one run, as rows of which the first under a text is kept.
* `syncAll_prices`: a sequence of runs.
* `pricesOf_eq_iff`: when a date has one price of the provider, and which.
* `converged_iff`: when the runs converge to the provider.
-/

namespace FinHub

open KeepFirst

/-- The text of a price's timestamp: the date, and what comes after it. -/
structure PriceText where
  day : ℤ
  rest : String := ""
  deriving DecidableEq

namespace PriceText

def le (a b : PriceText) : Bool := decide (a.day < b.day) || (decide (a.day = b.day) && decide (a.rest ≤ b.rest))

end PriceText

/-- A row of `prices`. -/
structure PriceRow where
  marketCode : String
  timestamp : PriceText
  price : ℚ
  provider : Option String := none
  deriving DecidableEq

/-- `UNIQUE(market_code, timestamp)`. -/
def PriceRow.key (r : PriceRow) : String × PriceText := (r.marketCode, r.timestamp)

/-- The table `prices`. -/
structure PriceTable where
  rows : List PriceRow := []
  unique : (rows.map PriceRow.key).Nodup

namespace PriceTable

/-- `create_price`; `none` is the `IntegrityError`. -/
def createPrice (t : PriceTable) (r : PriceRow) : Option PriceTable :=
  if hasKey PriceRow.key t.rows r.key then none
  else some { rows := insertNew PriceRow.key t.rows r, unique := nodup_insertNew t.unique }

end PriceTable

structure TrackedAsset where
  marketCode : String
  isActive : Bool
  manual : Bool

/-- A row of `market_assets`; a `last_synced_at` that `_parse_ts` refuses counts as none. -/
structure SyncedAsset where
  marketCode : String
  lastSyncedAt : Option Timestamp := none

structure MarketDb where
  portfolioAssets : List TrackedAsset
  marketAssets : List SyncedAsset
  prices : PriceTable

/-- What `get_all` returns: the current price, and the history with the `Close` of each key. -/
structure MarketData where
  price : Option ℚ := none
  history : List (PriceText × Option ℚ) := []

/-- What asking for a symbol comes to: its data, or the text of a `MarketAPIError`. -/
inductive SyncAnswer where
  | fetched (data : MarketData)
  | failed (error : String)

namespace SyncAnswer

def data? : SyncAnswer → Option MarketData
  | fetched data => some data
  | failed _ => none

end SyncAnswer

/-- One call of `sync_prices`: its arguments, the clocks, the two guards and what the provider answers. -/
structure SyncRun where
  full : Bool := false
  maxAge : ℤ := 3600 * Time.ticksPerSecond
  now : Timestamp
  today : ℤ
  busy : Bool := false
  canProceed : Bool := true
  answers : String → SyncAnswer

structure SyncEntry where
  marketCode : String
  price : Option ℚ
  error : Option String := none
  deriving DecidableEq

structure SyncReport where
  synced : ℕ := 0
  results : List SyncEntry := []
  busy : Bool := false
  circuitOpen : Bool := false
  skipped : List String := []

/-! ## A run -/

namespace MarketDb

/-- The symbols of active assets that are not tracked by hand. -/
def autoTracked (db : MarketDb) (market_code : String) : Bool :=
  (db.portfolioAssets.any fun pa => decide (pa.marketCode = market_code) && pa.isActive && !pa.manual) &&
    db.marketAssets.any fun ma => decide (ma.marketCode = market_code)

/-- Fetched after the cutoff. -/
def fresh (db : MarketDb) (run : SyncRun) (market_code : String) : Bool :=
  !run.full && db.marketAssets.any fun ma => decide (ma.marketCode = market_code) &&
    ma.lastSyncedAt.any fun last => decide (run.now - run.maxAge < last)

/-- `_target_codes`. -/
def targetCodes (db : MarketDb) (run : SyncRun) : List String :=
  (db.portfolioAssets.map TrackedAsset.marketCode).eraseDups.filter fun code =>
    db.autoTracked code && !db.fresh run code

def touch (db : MarketDb) (now : Timestamp) (market_code : String) : MarketDb :=
  { db with marketAssets := db.marketAssets.map fun ma =>
      if ma.marketCode = market_code then { ma with lastSyncedAt := some now } else ma }

end MarketDb

def marketApi : Option String := some "market-api"

/-- The current price under the date of the day. -/
def currentRow (market_code : String) (today : ℤ) (price : ℚ) : PriceRow where
  marketCode := market_code
  timestamp := ⟨today, ""⟩
  price := price
  provider := marketApi

def historyRow (market_code : String) (text : PriceText) (close : ℚ) : PriceRow where
  marketCode := market_code
  timestamp := text
  price := close
  provider := marketApi

/-- `sorted(history.items())`, those with a `Close`. -/
def closes (data : MarketData) : List (PriceText × ℚ) :=
  (data.history.insertionSort fun a b => a.1.le b.1 = true).filterMap fun e => e.2.map (Prod.mk e.1)

/-- Store one price of the history; a duplicate is passed over. -/
def storeClose (market_code : String) (acc : PriceTable × ℕ) (entry : PriceText × ℚ) : PriceTable × ℕ :=
  (acc.1.createPrice (historyRow market_code entry.1 entry.2)).elim acc fun prices => (prices, acc.2 + 1)

/-- Store the current price, if there is one. -/
def storeCurrent (market_code : String) (today : ℤ) (acc : PriceTable × SyncReport) (price : ℚ) :
    PriceTable × SyncReport :=
  (acc.1.createPrice (currentRow market_code today price)).elim
    (acc.1, { acc.2 with results := acc.2.results ++ [⟨market_code, none, some "duplicate"⟩] })
    fun prices => (prices, { acc.2 with
      synced := acc.2.synced + 1
      results := acc.2.results ++ [⟨market_code, some price, none⟩] })

/-- What a run does with the answer for one symbol. -/
def storeAnswer (run : SyncRun) (market_code : String) (data : MarketData) (acc : MarketDb × SyncReport) :
    MarketDb × SyncReport :=
  let db := acc.1.touch run.now market_code
  let current := data.price.elim (db.prices, acc.2) (storeCurrent market_code run.today (db.prices, acc.2))
  let stored := (closes data).foldl (storeClose market_code) (current.1, current.2.synced)
  ({ db with prices := stored.1 }, { current.2 with synced := stored.2 })

def syncSymbol (run : SyncRun) (acc : MarketDb × SyncReport) (market_code : String) : MarketDb × SyncReport :=
  match run.answers market_code with
  | .fetched data => storeAnswer run market_code data acc
  | .failed e => (acc.1, { acc.2 with results := acc.2.results ++ [⟨market_code, none, some e⟩] })

/-- `sync_prices`. -/
def syncPrices (db : MarketDb) (run : SyncRun) : MarketDb × SyncReport :=
  if run.busy then (db, { busy := true })
  else if (db.targetCodes run).isEmpty then (db, {})
  else if !run.canProceed then (db, { circuitOpen := true, skipped := db.targetCodes run })
  else (db.targetCodes run).foldl (syncSymbol run) (db, {})

/-- A sequence of runs. -/
def syncAll (db : MarketDb) (runs : List SyncRun) : MarketDb := runs.foldl (fun db run => (syncPrices db run).1) db

/-! ## What the runs give -/

/-- The rows of one answer, in the order in which they are stored. -/
def givenBy (market_code : String) (today : ℤ) (data : MarketData) : List PriceRow :=
  (data.price.map (currentRow market_code today)).toList ++
    (closes data).map fun e => historyRow market_code e.1 e.2

/-- What a run fetches for a symbol. -/
def fetched (db : MarketDb) (run : SyncRun) (market_code : String) : Option MarketData :=
  if !run.busy && run.canProceed && decide (market_code ∈ db.targetCodes run) then (run.answers market_code).data?
  else none

/-- The rows that a run tries to store. -/
def givenIn (db : MarketDb) (run : SyncRun) : List PriceRow :=
  (db.targetCodes run).flatMap fun code => (fetched db run code).elim [] (givenBy code run.today)

/-- The rows that the runs try to store, in their order. -/
def given : MarketDb → List SyncRun → List PriceRow
  | _, [] => []
  | db, run :: runs => givenIn db run ++ given (syncPrices db run).1 runs

/-- The last answer for a symbol, and the day of its run. -/
def lastFetched (market_code : String) : MarketDb → List SyncRun → Option (ℤ × MarketData)
  | _, [] => none
  | db, run :: runs => (lastFetched market_code (syncPrices db run).1 runs).or
      ((fetched db run market_code).map fun data => (run.today, data))

/-! ## One run -/

variable {db : MarketDb} {run : SyncRun} {runs : List SyncRun} {code : String} {data : MarketData}

theorem keepFirst_append {table rows rows' : List PriceRow} :
    keepFirst PriceRow.key table (rows ++ rows') =
      keepFirst PriceRow.key (keepFirst PriceRow.key table rows) rows' := List.foldl_append

theorem createPrice_elim {α : Type} {t : PriceTable} {r : PriceRow} {taken : α} {stored : PriceTable → α}
    (f : α → List PriceRow) (htaken : f taken = t.rows) (hstored : ∀ t', f (stored t') = t'.rows) :
    f ((t.createPrice r).elim taken stored) = insertNew PriceRow.key t.rows r := by
  unfold PriceTable.createPrice
  split_ifs with hhas
  · rw [Option.elim_none, htaken, insertNew, if_pos hhas]
  · rw [Option.elim_some, hstored]

theorem storeClose_rows (acc : PriceTable × ℕ) (entry : PriceText × ℚ) :
    (storeClose code acc entry).1.rows = insertNew PriceRow.key acc.1.rows (historyRow code entry.1 entry.2) :=
  createPrice_elim (fun acc : PriceTable × ℕ => acc.1.rows) rfl fun _ => rfl

theorem storeCloses_rows (entries : List (PriceText × ℚ)) (acc : PriceTable × ℕ) :
    (entries.foldl (storeClose code) acc).1.rows =
      keepFirst PriceRow.key acc.1.rows (entries.map fun e => historyRow code e.1 e.2) := by
  induction entries generalizing acc with
  | nil => rfl
  | cons entry entries ih =>
    rw [List.foldl_cons, ih, storeClose_rows]
    rfl

theorem storeCurrent_rows (today : ℤ) (acc : PriceTable × SyncReport) (price : ℚ) :
    (storeCurrent code today acc price).1.rows =
      insertNew PriceRow.key acc.1.rows (currentRow code today price) :=
  createPrice_elim (fun acc : PriceTable × SyncReport => acc.1.rows) rfl fun _ => rfl

theorem storeAnswer_rows (acc : MarketDb × SyncReport) :
    (storeAnswer run code data acc).1.prices.rows =
      keepFirst PriceRow.key acc.1.prices.rows (givenBy code run.today data) := by
  unfold storeAnswer givenBy
  dsimp only
  rw [storeCloses_rows, keepFirst_append]
  congr 1
  cases data.price with
  | none => rfl
  | some price => exact storeCurrent_rows run.today (acc.1.prices, acc.2) price

theorem syncSymbol_rows (acc : MarketDb × SyncReport) : (syncSymbol run acc code).1.prices.rows =
    keepFirst PriceRow.key acc.1.prices.rows ((run.answers code).data?.elim [] (givenBy code run.today)) := by
  unfold syncSymbol
  cases run.answers code with
  | fetched data => exact storeAnswer_rows acc
  | failed e => rfl

theorem syncSymbols_rows (codes : List String) (acc : MarketDb × SyncReport) :
    (codes.foldl (syncSymbol run) acc).1.prices.rows = keepFirst PriceRow.key acc.1.prices.rows
      (codes.flatMap fun code => (run.answers code).data?.elim [] (givenBy code run.today)) := by
  induction codes generalizing acc with
  | nil => rfl
  | cons code codes ih => rw [List.foldl_cons, ih, syncSymbol_rows, List.flatMap_cons, keepFirst_append]

theorem givenIn_eq (db : MarketDb) (run : SyncRun) : givenIn db run =
    if !run.busy && run.canProceed then
      (db.targetCodes run).flatMap fun code => (run.answers code).data?.elim [] (givenBy code run.today)
    else [] := by
  unfold givenIn fetched
  split_ifs with hproceeds
  · refine List.flatMap_congr fun code hcode => ?_
    rw [if_pos (by rw [hproceeds, decide_eq_true hcode]; rfl)]
  · rw [List.flatMap_eq_nil_iff]
    intro code _
    rw [if_neg (by rw [Bool.not_eq_true] at hproceeds; rw [hproceeds]; exact Bool.false_ne_true)]
    rfl

/-- One run: of what was stored and what the run gives, the first row under a text is kept. -/
theorem syncPrices_rows (db : MarketDb) (run : SyncRun) :
    (syncPrices db run).1.prices.rows = keepFirst PriceRow.key db.prices.rows (givenIn db run) := by
  rw [givenIn_eq]
  unfold syncPrices
  cases hbusy : run.busy with
  | true => rfl
  | false =>
    cases hproceed : run.canProceed with
    | false => cases hnone : (db.targetCodes run).isEmpty <;> rfl
    | true =>
      cases hnone : (db.targetCodes run).isEmpty with
      | true =>
        rw [List.isEmpty_iff.mp hnone]
        rfl
      | false => exact syncSymbols_rows (db.targetCodes run) (db, {})

/-- A sequence of runs. -/
theorem syncAll_rows (db : MarketDb) (runs : List SyncRun) :
    (syncAll db runs).prices.rows = keepFirst PriceRow.key db.prices.rows (given db runs) := by
  induction runs generalizing db with
  | nil => rfl
  | cons run runs ih =>
    rw [given, keepFirst_append, ← syncPrices_rows, ← ih]
    rfl

/-! ## What a date comes to -/

/-- The rows of the provider for a symbol and a date. -/
def providerRows (t : PriceTable) (market_code : String) (day : ℤ) : List PriceRow :=
  t.rows.filter fun r => decide (r.marketCode = market_code) && decide (r.provider = marketApi) &&
    decide (r.timestamp.day = day)

def pricesOf (t : PriceTable) (market_code : String) (day : ℤ) : List ℚ :=
  (providerRows t market_code day).map PriceRow.price

/-- One text carries the provider's prices of the date, but for texts that were taken by another provider, and
the first price under it is `close`. -/
def Settles (db : MarketDb) (runs : List SyncRun) (market_code : String) (day : ℤ) (close : ℚ) : Prop :=
  ∃ text : PriceText, text.day = day ∧
    ((db.prices.rows ++ given db runs).find? fun r => decide (r.key = (market_code, text))) =
      some (historyRow market_code text close) ∧
    ∀ r ∈ db.prices.rows ++ given db runs, r.marketCode = market_code → r.timestamp.day = day →
      r.timestamp = text ∨ ∃ r' ∈ db.prices.rows, r'.key = r.key ∧ r'.provider ≠ marketApi

theorem provider_of_givenBy {today : ℤ} {r : PriceRow} (hr : r ∈ givenBy code today data) : r.provider = marketApi := by
  rcases List.mem_append.mp hr with hr | hr
  · obtain ⟨price, -, rfl⟩ := Option.map_eq_some_iff.mp (Option.mem_toList.mp hr)
    rfl
  · obtain ⟨e, -, rfl⟩ := List.mem_map.mp hr
    rfl

theorem provider_of_given {r : PriceRow} (hr : r ∈ given db runs) : r.provider = marketApi := by
  induction runs generalizing db with
  | nil => cases hr
  | cons run runs ih =>
    rcases List.mem_append.mp hr with hr | hr
    · obtain ⟨code, -, hr⟩ := List.mem_flatMap.mp hr
      cases hdata : fetched db run code with
      | none =>
        rw [hdata] at hr
        cases hr
      | some data =>
        rw [hdata] at hr
        exact provider_of_givenBy hr
    · exact ih hr

/-- The rows afterwards are those that came first under their text. -/
theorem mem_syncAll_iff {r : PriceRow} : r ∈ (syncAll db runs).prices.rows ↔
    ((db.prices.rows ++ given db runs).find? fun r' => decide (r'.key = r.key)) = some r := by
  rw [syncAll_rows]
  exact mem_keepFirst_iff db.prices.unique

theorem mem_providerRows {t : PriceTable} {day : ℤ} {r : PriceRow} : r ∈ providerRows t code day ↔
    r ∈ t.rows ∧ r.marketCode = code ∧ r.provider = marketApi ∧ r.timestamp.day = day := by
  unfold providerRows
  rw [List.mem_filter]
  simp only [Bool.and_eq_true, decide_eq_true_eq, and_assoc]

/-- When a date has one price of the provider, and which. -/
theorem pricesOf_eq_iff {day : ℤ} {close : ℚ} :
    pricesOf (syncAll db runs).prices code day = [close] ↔ Settles db runs code day close := by
  constructor
  · intro h
    obtain ⟨x, hx, hprice⟩ := List.map_eq_singleton_iff.mp h
    have hmem : ∀ y, y ∈ (syncAll db runs).prices.rows ∧ y.marketCode = code ∧ y.provider = marketApi ∧
        y.timestamp.day = day ↔ y = x := by
      intro y
      rw [← mem_providerRows, hx, List.mem_singleton]
    obtain ⟨hstored, hcode, hprovider, hday⟩ := (hmem x).mpr rfl
    have hrow : x = historyRow code x.timestamp close := by
      rw [← hcode, ← hprice]
      cases x
      cases hprovider
      rfl
    refine ⟨x.timestamp, hday, ?_, ?_⟩
    · have hfirst := mem_syncAll_iff.mp hstored
      rw [← hrow, ← hfirst, PriceRow.key, hcode]
    · intro r hr hrcode hrday
      obtain ⟨y, hy⟩ := Option.isSome_iff_exists.mp (List.find?_isSome.mpr ⟨r, hr, decide_eq_true rfl⟩ :
        ((db.prices.rows ++ given db runs).find? fun r' => decide (r'.key = r.key)).isSome)
      have hkey : y.key = r.key := by simpa using List.find?_some hy
      obtain ⟨hycode, hytext⟩ := Prod.ext_iff.mp hkey
      have hykept : y ∈ (syncAll db runs).prices.rows := by
        rw [mem_syncAll_iff, hkey]
        exact hy
      by_cases hyprovider : y.provider = marketApi
      · left
        rw [← (hmem y).mp ⟨hykept, hycode.trans hrcode, hyprovider, (congrArg PriceText.day hytext).trans hrday⟩]
        exact hytext.symm
      · right
        rcases List.mem_append.mp (List.mem_of_find?_eq_some hy) with hstart | hgiven
        · exact ⟨y, hstart, hkey, hyprovider⟩
        · exact absurd (provider_of_given hgiven) hyprovider
  · rintro ⟨text, rfl, hfirst, hall⟩
    have hnodup : (syncAll db runs).prices.rows.Nodup := (syncAll db runs).prices.unique.of_map
    unfold pricesOf
    rw [List.map_eq_singleton_iff]
    refine ⟨historyRow code text close, ?_, rfl⟩
    refine List.perm_singleton.mp ((List.perm_ext_iff_of_nodup (hnodup.filter _) (List.nodup_singleton _)).mpr ?_)
    intro y
    rw [List.mem_singleton]
    refine mem_providerRows.trans ⟨?_, ?_⟩
    · rintro ⟨hy, hcode, hprovider, hday⟩
      have hyfirst := mem_syncAll_iff.mp hy
      rcases hall y (List.mem_of_find?_eq_some hyfirst) hcode hday with htext | ⟨r', hr', hkey, hother⟩
      · have hkey : y.key = (code, text) := Prod.ext hcode htext
        rw [hkey, hfirst] at hyfirst
        exact (Option.some_inj.mp hyfirst).symm
      · rw [← hkey, List.find?_append, (mem_iff_find? db.prices.unique).mp hr'] at hyfirst
        obtain rfl := Option.some_inj.mp hyfirst
        exact absurd hprovider hother
    · rintro rfl
      exact ⟨mem_syncAll_iff.mpr hfirst, rfl, rfl, rfl⟩

/-! ## Convergence -/

/-- Every automatically tracked symbol has, for every date before the day of its last answer that the history
of that answer covers, one price of the provider, which is the `Close` of that answer. -/
def Converged (db : MarketDb) (runs : List SyncRun) : Prop :=
  ∀ code, db.autoTracked code = true → ∀ today data, lastFetched code db runs = some (today, data) →
    ∀ e ∈ data.history, ∀ close, e.2 = some close → e.1.day < today →
      pricesOf (syncAll db runs).prices code e.1.day = [close]

/-- When the runs converge to the provider. -/
theorem converged_iff (db : MarketDb) (runs : List SyncRun) : Converged db runs ↔
    ∀ code, db.autoTracked code = true → ∀ today data, lastFetched code db runs = some (today, data) →
      ∀ e ∈ data.history, ∀ close, e.2 = some close → e.1.day < today → Settles db runs code e.1.day close := by
  unfold Converged
  simp only [pricesOf_eq_iff]

namespace Sample

/-- The provider's text for a date. -/
def midnight (day : ℤ) : PriceText := ⟨day, " 00:00:00+00:00"⟩

def oneTracked : MarketDb where
  portfolioAssets := [⟨"VWCE", true, false⟩]
  marketAssets := [⟨"VWCE", none⟩]
  prices := { rows := [], unique := List.nodup_nil }

def fullSync (today : ℤ) (data : MarketData) : SyncRun where
  full := true
  now := Time.startOfDay today
  today := today
  answers := fun _ => .fetched data

/-- The day is open, its price so far is 10. -/
def beforeClose : SyncRun := fullSync 20000 { price := some 10, history := [(midnight 20000, some 10)] }

/-- A day later, the `Close` of the day before is 11. -/
def afterClose : SyncRun :=
  fullSync 20001 { price := some 12, history := [(midnight 20000, some 11), (midnight 20001, some 12)] }

/-- The date keeps two prices, neither of which is its `Close`. -/
theorem open_day_kept : pricesOf (syncAll oneTracked [beforeClose, afterClose]).prices "VWCE" 20000 = [10, 10] ∧
    ¬ Converged oneTracked [beforeClose, afterClose] := by
  have hprices : pricesOf (syncAll oneTracked [beforeClose, afterClose]).prices "VWCE" 20000 = [10, 10] := by
    decide +kernel
  refine ⟨hprices, fun h => ?_⟩
  have hclose := h "VWCE" (by decide) 20001
    { price := some 12, history := [(midnight 20000, some 11), (midnight 20001, some 12)] } rfl
    (midnight 20000, some 11) List.mem_cons_self 11 rfl (by decide)
  exact absurd (hprices.symm.trans hclose) (by decide +kernel)

end Sample

end FinHub
