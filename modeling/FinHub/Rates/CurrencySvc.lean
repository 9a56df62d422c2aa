import FinHub.Lib.Runs
import FinHub.Model.Queries

/-!
# FinHub.Rates.CurrencySvc

The writers of exchange rates in `services/currency_svc.py` and the direction a pair is stored in.

* `createRate` and `updateRates` refuse a pair whose reverse is stored.
* `syncRates` upserts what the market API answers for every two codes, the alphabetically first one
  as the code, and does not look for the reverse.
* `OneDirection`: no pair is stored both ways. Then the two lookups of a pair read one row
  (`OneDirection.getRate_mul`), and the writers keep it that way where a sync writes no pair whose
  reverse is stored (`reciprocal_of_reaches`).
-/

namespace FinHub

/-- What the rate writers raise. `integrity` is SQLite's, on a second row of one primary key. -/
inductive RateError where
  | reversePairExists (code base_code : Currency)
  | noCodes
  | integrity
  deriving DecidableEq

namespace RateError

def message : RateError → String
  | reversePairExists code base_code =>
    s!"Reverse pair ({base_code.1}, {code.1}) already exists. Use that direction or delete it first."
  | noCodes => "No currency codes to sync"
  | integrity =>
    "UNIQUE constraint failed: currencies.code, currencies.base_code, currencies.timestamp"

end RateError

/-- What a sync sees of the market API: whether the circuit breaker lets a request through, and for
each two codes the dated closes of all windows, or the error of the request. -/
structure MarketApi where
  canProceed : Bool
  history : Currency → Currency → Except String (List (IsoStamp × Option ℚ))

namespace MarketApi

/-- The closes that a sync stores for a pair. -/
def closes (api : MarketApi) (code base_code : Currency) : List (IsoStamp × ℚ) :=
  match api.history code base_code with
  | .error _ => []
  | .ok days => days.filterMap fun day => day.2.map fun close => (day.1, close)

end MarketApi

namespace Ledger

/-! ## Writes to `currencies` -/

def setCurrencies (s : Ledger) (rates : List CurrencyRate) : Ledger where
  __ := s
  currencies := rates

@[simp] theorem setCurrencies_currencies (s : Ledger) (rates : List CurrencyRate) :
    (s.setCurrencies rates).currencies = rates := rfl

/-- The rows share the primary key `(code, base_code, timestamp)`. -/
def sameKey (r r' : CurrencyRate) : Bool :=
  decide (r.code = r'.code) && decide (r.baseCode = r'.baseCode) && decide (r.timestamp = r'.timestamp)

def insertRate (s : Ledger) (row : CurrencyRate) : Except RateError Ledger :=
  if s.currencies.any (sameKey row) then .error .integrity
  else .ok (s.setCurrencies (s.currencies ++ [row]))

/-- `INSERT OR REPLACE`. -/
def upsertRate (s : Ledger) (row : CurrencyRate) : Ledger :=
  s.setCurrencies ((s.currencies.filter fun r => !sameKey row r) ++ [row])

def upsertRates (s : Ledger) (code base_code : Currency) (entries : List (IsoStamp × ℚ)) : Ledger :=
  entries.foldl (fun s e => s.upsertRate ⟨code, base_code, e.2, e.1⟩) s

/-! ## The calls -/

def createRate (s : Ledger) (code base_code : Currency) (rate : ℚ) (timestamp : IsoStamp) :
    Except RateError Ledger :=
  if s.pairExists base_code code then .error (.reversePairExists code base_code)
  else s.insertRate ⟨code, base_code, rate, timestamp⟩

def updateRates (s : Ledger) (code base_code : Currency) (timestamps : List IsoStamp)
    (rates : List ℚ) : Except RateError Ledger :=
  if s.pairExists base_code code then .error (.reversePairExists code base_code)
  else .ok (s.upsertRates code base_code (timestamps.zip rates))

/-- `get_distinct_codes`: every code on either side of a rate, in text order. -/
def distinctCodes (s : Ledger) : List Currency :=
  (s.currencies.flatMap fun r => [r.code, r.baseCode]).dedup.insertionSort fun a b => a.1 ≤ b.1

/-- Every two codes of a list, the earlier one first. -/
def fxPairs : List Currency → List (Currency × Currency)
  | [] => []
  | a :: codes => codes.map (fun b => (a, b)) ++ fxPairs codes

/-- A failed request leaves its pair out and goes on with the next. -/
def syncRates (s : Ledger) (api : MarketApi) : Except RateError Ledger :=
  if s.distinctCodes = [] then .error .noCodes
  else if api.canProceed then
    .ok ((fxPairs s.distinctCodes).foldl
      (fun s p => s.upsertRates p.1 p.2 (api.closes p.1 p.2)) s)
  else .ok s

end Ledger

/-- A call that writes rates. -/
inductive RateCall where
  | createRate (code base_code : Currency) (rate : ℚ) (timestamp : IsoStamp)
  | updateRates (code base_code : Currency) (timestamps : List IsoStamp) (rates : List ℚ)
  | syncRates (api : MarketApi)

namespace Ledger

def rateCall (s : Ledger) : RateCall → Except RateError Ledger
  | .createRate code base_code rate timestamp => s.createRate code base_code rate timestamp
  | .updateRates code base_code timestamps rates => s.updateRates code base_code timestamps rates
  | .syncRates api => s.syncRates api

/-- No two codes are stored in both directions. -/
def OneDirection (s : Ledger) : Prop :=
  ∀ a b, a ≠ b → s.pairExists a b = true → s.pairExists b a = false

/-- A sync that stores rates only for pairs whose reverse is not stored; the other writers check
that themselves. -/
def RateInPlace (s : Ledger) : RateCall → Prop
  | .syncRates api => ∀ p ∈ fxPairs s.distinctCodes, api.canProceed = true →
      api.closes p.1 p.2 ≠ [] → s.pairExists p.2 p.1 = false
  | _ => True

variable {s s' : Ledger}

/-! ## Lookups -/

/-- With one stored direction both lookups of a pair read one row, one of them inverted. -/
theorem OneDirection.getRate_mul (h : s.OneDirection) {a b : Currency} (hab : a ≠ b)
    {at_ : Option Timestamp} {x y : ℚ} (hx : s.getRate a b at_ = some x)
    (hy : s.getRate b a at_ = some y) : x * y = 1 := by
  -- One row gives the rate and, inverted, the rate of the other lookup.
  have hrow : ∀ (o : Option CurrencyRate) (u v : ℚ), (o.bind fun r => some r.rate) = some u →
      (o.bind fun r => if r.rate = 0 then none else some (1 / r.rate)) = some v → u * v = 1 := by
    intro o u v hu hv
    cases o with
    | none => cases hu
    | some r =>
      simp only [Option.bind_some] at hu hv
      split_ifs at hv with hzero
      rw [← Option.some_inj.mp hu, ← Option.some_inj.mp hv]
      field_simp
  have hstored : ∀ c d : Currency, c ≠ d → s.pairExists c d = true → ∀ u v,
      s.getRate c d at_ = some u → s.getRate d c at_ = some v → u * v = 1 := by
    intro c d hcd hex u v hu hv
    simp only [getRate, resolveDirection, hex, h c d hcd hex, if_true, Option.bind_eq_bind,
      Option.bind_some, Bool.false_eq_true, if_false] at hu hv
    cases at_ with
    | none => exact hrow _ u v hu hv
    | some t => exact hrow _ u v hu hv
  by_cases hex : s.pairExists a b = true
  · exact hstored a b hab hex x y hx hy
  by_cases hex' : s.pairExists b a = true
  · rw [mul_comm]
    exact hstored b a (Ne.symm hab) hex' y x hy hx
  · simp [getRate, resolveDirection, hex, hex'] at hx

/-! ## What the writers store -/

theorem pairExists_iff {a b : Currency} :
    s.pairExists a b = true ↔ ∃ r ∈ s.currencies, r.code = a ∧ r.baseCode = b := by
  simp [pairExists]

theorem pairExists_upsertRate (row : CurrencyRate) (a b : Currency) :
    (s.upsertRate row).pairExists a b = true ↔
      s.pairExists a b = true ∨ (row.code = a ∧ row.baseCode = b) := by
  simp only [pairExists_iff, upsertRate, setCurrencies_currencies, List.mem_append, List.mem_filter,
    List.mem_singleton]
  constructor
  · rintro ⟨r, ⟨hr, -⟩ | rfl, hab⟩
    · exact .inl ⟨r, hr, hab⟩
    · exact .inr hab
  · rintro (⟨r, hr, hab⟩ | hab)
    · by_cases hk : sameKey row r = true
      · -- The old row is replaced by one of the same pair.
        simp only [sameKey, Bool.and_eq_true, decide_eq_true_eq] at hk
        exact ⟨row, .inr rfl, hk.1.1.trans hab.1, hk.1.2.trans hab.2⟩
      · exact ⟨r, .inl ⟨hr, by simpa using hk⟩, hab⟩
    · exact ⟨row, .inr rfl, hab⟩

theorem pairExists_upsertRates (code base_code : Currency) (entries : List (IsoStamp × ℚ))
    (a b : Currency) : (s.upsertRates code base_code entries).pairExists a b = true ↔
      s.pairExists a b = true ∨ (entries ≠ [] ∧ code = a ∧ base_code = b) := by
  unfold upsertRates
  induction entries generalizing s with
  | nil => simp
  | cons e entries ih =>
    rw [List.foldl_cons, ih, pairExists_upsertRate]
    simp only [ne_eq, reduceCtorEq, not_false_eq_true, true_and]
    tauto

theorem pairExists_sync (api : MarketApi) (pairs : List (Currency × Currency)) (a b : Currency) :
    (pairs.foldl (fun s p => s.upsertRates p.1 p.2 (api.closes p.1 p.2)) s).pairExists a b = true ↔
      s.pairExists a b = true ∨ ((a, b) ∈ pairs ∧ api.closes a b ≠ []) := by
  induction pairs generalizing s with
  | nil => simp
  | cons p pairs ih =>
    obtain ⟨c, d⟩ := p
    rw [List.foldl_cons, ih, pairExists_upsertRates, List.mem_cons, Prod.mk.injEq]
    constructor
    · rintro ((h | ⟨hne, rfl, rfl⟩) | ⟨hm, hne⟩)
      · exact .inl h
      · exact .inr ⟨.inl ⟨rfl, rfl⟩, hne⟩
      · exact .inr ⟨.inr hm, hne⟩
    · rintro (h | ⟨⟨rfl, rfl⟩ | hm, hne⟩)
      · exact .inl (.inl h)
      · exact .inl (.inr ⟨hne, rfl, rfl⟩)
      · exact .inr ⟨hm, hne⟩

theorem mem_of_mem_fxPairs {codes : List Currency} {a b : Currency} (h : (a, b) ∈ fxPairs codes) :
    a ∈ codes ∧ b ∈ codes := by
  induction codes with
  | nil => cases h
  | cons c codes ih =>
    rcases List.mem_append.mp h with h | h
    · obtain ⟨d, hd, he⟩ := List.mem_map.mp h
      obtain ⟨rfl, rfl⟩ := Prod.mk.inj he
      exact ⟨List.mem_cons_self, List.mem_cons_of_mem _ hd⟩
    · exact ⟨List.mem_cons_of_mem _ (ih h).1, List.mem_cons_of_mem _ (ih h).2⟩

/-- Of two codes the pairs hold one order. -/
theorem fxPairs_asymm {codes : List Currency} (hnd : codes.Nodup) {a b : Currency}
    (h : (a, b) ∈ fxPairs codes) : (b, a) ∉ fxPairs codes := by
  induction codes with
  | nil => cases h
  | cons c codes ih =>
    obtain ⟨hc, hnd⟩ := List.nodup_cons.mp hnd
    rcases List.mem_append.mp h with h | h <;> intro h'
    · obtain ⟨d, hd, he⟩ := List.mem_map.mp h
      obtain ⟨rfl, rfl⟩ := Prod.mk.inj he
      rcases List.mem_append.mp h' with h' | h'
      · obtain ⟨e, he, hpair⟩ := List.mem_map.mp h'
        obtain ⟨hcd, -⟩ := Prod.mk.inj hpair
        exact hc (hcd ▸ hd)
      · exact hc (mem_of_mem_fxPairs h').2
    · rcases List.mem_append.mp h' with h' | h'
      · obtain ⟨e, he, hpair⟩ := List.mem_map.mp h'
        obtain ⟨rfl, rfl⟩ := Prod.mk.inj hpair
        exact hc (mem_of_mem_fxPairs h).2
      · exact ih hnd h h'

theorem nodup_distinctCodes (s : Ledger) : s.distinctCodes.Nodup :=
  (List.perm_insertionSort _ _).nodup_iff.mpr (List.nodup_dedup _)

/-! ## Runs -/

/-- A write in one direction of a pair whose reverse is not stored. -/
theorem OneDirection.of_writes {W : Currency → Currency → Prop} (h : s.OneDirection)
    (hpair : ∀ a b, s'.pairExists a b = true ↔ s.pairExists a b = true ∨ W a b)
    (hrev : ∀ a b, a ≠ b → W a b → s.pairExists b a = false ∧ ¬ W b a) : s'.OneDirection := by
  intro a b hab hex
  rw [Bool.eq_false_iff]
  intro hex'
  rcases (hpair a b).mp hex with hold | hnew <;> rcases (hpair b a).mp hex' with hold' | hnew'
  · rw [h a b hab hold] at hold'; cases hold'
  · rw [(hrev b a (Ne.symm hab) hnew').1] at hold; cases hold
  · rw [(hrev a b hab hnew).1] at hold'; cases hold'
  · exact (hrev a b hab hnew).2 hnew'

theorem OneDirection.rateCall (h : s.OneDirection) {c : RateCall} (hc : s.RateInPlace c)
    (hok : s.rateCall c = .ok s') : s'.OneDirection := by
  cases c with
  | createRate code base_code rate timestamp =>
    simp only [Ledger.rateCall, createRate, insertRate] at hok
    split_ifs at hok with hrev hkey
    cases hok
    refine h.of_writes (W := fun a b => code = a ∧ base_code = b) (fun a b => ?_) ?_
    · simp only [pairExists_iff, setCurrencies_currencies, List.mem_append, List.mem_singleton]
      constructor
      · rintro ⟨r, hr | rfl, hab⟩
        · exact .inl ⟨r, hr, hab⟩
        · exact .inr hab
      · rintro (⟨r, hr, hab⟩ | hab)
        · exact ⟨r, .inl hr, hab⟩
        · exact ⟨_, .inr rfl, hab⟩
    · rintro a b hab ⟨rfl, rfl⟩
      exact ⟨Bool.eq_false_iff.mpr hrev, fun hw => hab hw.1⟩
  | updateRates code base_code timestamps rates =>
    simp only [Ledger.rateCall, updateRates] at hok
    split_ifs at hok with hrev
    cases hok
    refine h.of_writes (W := fun a b => timestamps.zip rates ≠ [] ∧ code = a ∧ base_code = b)
      (fun a b => pairExists_upsertRates code base_code _ a b) ?_
    rintro a b hab ⟨-, rfl, rfl⟩
    exact ⟨Bool.eq_false_iff.mpr hrev, fun hw => hab hw.2.1⟩
  | syncRates api =>
    simp only [Ledger.rateCall, syncRates] at hok
    split_ifs at hok with hcodes hproceed
    · cases hok
      refine h.of_writes (W := fun a b => (a, b) ∈ fxPairs s.distinctCodes ∧ api.closes a b ≠ [])
        (fun a b => pairExists_sync api _ a b) ?_
      rintro a b - ⟨hm, hne⟩
      exact ⟨hc (a, b) hm hproceed hne,
        fun hw => fxPairs_asymm s.nodup_distinctCodes hm hw.1⟩
    · cases hok
      exact h

/-- A profile with at most the rates of codes to themselves. -/
theorem oneDirection_of_self (h : ∀ r ∈ s.currencies, r.code = r.baseCode) : s.OneDirection := by
  intro a b hab hex
  obtain ⟨r, hr, rfl, rfl⟩ := pairExists_iff.mp hex
  exact absurd (h r hr) hab

theorem reciprocal_of_reaches (s₀ : Ledger) (h₀ : ∀ r ∈ s₀.currencies, r.code = r.baseCode)
    (h : Runs.Reaches Ledger.rateCall Ledger.RateInPlace s₀ s) :
    ∀ a b, a ≠ b → ¬ (s.pairExists a b = true ∧ s.pairExists b a = true) ∧
      ∀ at_ x y, s.getRate a b at_ = some x → s.getRate b a at_ = some y → x * y = 1 := by
  have hone : s.OneDirection :=
    h.invariant (oneDirection_of_self h₀) fun _ _ _ hs hc hok => hs.rateCall hc hok
  intro a b hab
  refine ⟨fun hboth => ?_, fun at_ x y hx hy => hone.getRate_mul hab hx hy⟩
  have hrev := hone a b hab hboth.1
  rw [hboth.2] at hrev
  cases hrev

end Ledger

namespace Sample

/-- Codes with their own rates, as a new database is seeded. -/
def seededRates : Ledger where
  __ := Ledger.empty .utc
  currencies := [⟨usd, usd, 1, ⟨0, none⟩⟩, ⟨eur, eur, 1, ⟨0, none⟩⟩]

/-- Answers of the market API: one close for a euro in dollars. -/
def euroClose : MarketApi where
  canProceed := true
  history code base_code :=
    if code = eur ∧ base_code = usd then .ok [(⟨Time.startOfDay 20, none⟩, some (6 / 5))] else .ok []

def afterRates (cs : List RateCall) : Ledger :=
  match cs.foldlM Ledger.rateCall seededRates with
  | .ok s => s
  | .error _ => seededRates

/-- A dollar is stored at 0.9 euros; a sync then stores a euro at 1.2 dollars, and the two lookups
multiply to 1.08. -/
theorem sync_stores_reverse :
    let calls := [RateCall.createRate usd eur (9 / 10) ⟨Time.startOfDay 10, none⟩, .syncRates euroClose]
    calls.foldlM Ledger.rateCall seededRates = .ok (afterRates calls) ∧
    (afterRates calls).getRate usd eur (some (Time.startOfDay 30)) = some (9 / 10) ∧
    (afterRates calls).getRate eur usd (some (Time.startOfDay 30)) = some (6 / 5) ∧
    ¬ ∀ a b, a ≠ b → ∀ at_ x y, (afterRates calls).getRate a b at_ = some x →
      (afterRates calls).getRate b a at_ = some y → x * y = 1 := by
  intro calls
  have hx : (afterRates calls).getRate usd eur (some (Time.startOfDay 30)) = some (9 / 10) := by
    decide +kernel
  have hy : (afterRates calls).getRate eur usd (some (Time.startOfDay 30)) = some (6 / 5) := by
    decide +kernel
  refine ⟨rfl, hx, hy, fun h => ?_⟩
  have hmul := h usd eur (by decide +kernel) _ _ _ hx hy
  norm_num at hmul

/-- The same rates under the euro: the sync adds to the stored direction. -/
def ratesOfEuro : List RateCall :=
  [.createRate eur usd (5 / 4) ⟨Time.startOfDay 10, none⟩, .syncRates euroClose]

theorem ratesOfEuro_reciprocal :
    let s := afterRates ratesOfEuro
    ¬ (s.pairExists eur usd = true ∧ s.pairExists usd eur = true) ∧
    ∃ x y, s.getRate eur usd (some (Time.startOfDay 30)) = some x ∧
      s.getRate usd eur (some (Time.startOfDay 30)) = some y ∧ x * y = 1 := by
  intro s
  have hok : ratesOfEuro.foldlM Ledger.rateCall seededRates = .ok s := rfl
  have hrun := Ledger.reciprocal_of_reaches seededRates (by decide +kernel)
    (Runs.reaches_of_foldlM hok ⟨trivial, fun s₁ h1 => ⟨(by
      obtain rfl : seededRates.setCurrencies
          (seededRates.currencies ++ [⟨eur, usd, 5 / 4, ⟨Time.startOfDay 10, none⟩⟩]) = s₁ :=
        Except.ok.inj (Eq.trans (by rfl) h1)
      show ∀ p ∈ Ledger.fxPairs _, _ → _ → _
      decide +kernel), fun _ _ => trivial⟩⟩) eur usd (by decide)
  have hx : s.getRate eur usd (some (Time.startOfDay 30)) = some (6 / 5) := by decide +kernel
  have hy : s.getRate usd eur (some (Time.startOfDay 30)) = some (5 / 6) := by decide +kernel
  exact ⟨hrun.1, _, _, hx, hy, hrun.2 _ _ _ hx hy⟩

end Sample

end FinHub
