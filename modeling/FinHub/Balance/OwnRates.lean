import FinHub.Balance.ChargeMoves

/-!
# FinHub.Balance.OwnRates

At which rates the fees of a main pocket are converted.

The loop looks a currency's rate up once, directly and at the first row it meets, and keeps it for all
rows; the rate service answers each row at its own instant, in whichever direction the pair is stored.

* `sum_chargeStep`: the loop, with every row at the rate of the first row of its currency.
* `convertedAt`, `cacheGap`: a charge at its own rate, and what the loop adds beside that.
* `chargedAtOwnRates_iff`: the fees are converted at their own rates exactly where they can be read and
  the gaps cancel.
-/

namespace FinHub

open Tabular

namespace Ledger

variable (s : Ledger) (main : Currency)

/-! ## The rate the loop uses -/

/-- The first charge of a list in the currency of `ch`. -/
def firstOf (l : List Charge) (ch : Charge) : Charge :=
  (l.find? fun a => decide (a.currency = ch.currency)).getD ch

/-- A charge at the rate of the first charge of its currency. -/
def loopValue (l : List Charge) (ch : Charge) : ℚ :=
  if ch.currency = main then ch.amount
  else ch.amount * (s.rateOf main (firstOf l ch)).getD 0

/-- A charge at the rate the rate service answers for its own instant, zero where it answers none. -/
def convertedAt (ch : Charge) : ℚ :=
  if ch.currency = main then ch.amount
  else ch.amount * (s.getRate ch.currency main (some ch.txTs)).getD 0

/-- What the loop adds for a charge beside its conversion at its own rate. -/
def cacheGap (l : List Charge) (ch : Charge) : ℚ :=
  if ch.currency = main then 0
  else ch.amount * ((s.rateOf main (firstOf l ch)).getD 0 -
    (s.getRate ch.currency main (some ch.txTs)).getD 0)

variable {s main}

theorem loopValue_eq (l : List Charge) (ch : Charge) :
    s.loopValue main l ch = s.convertedAt main ch + s.cacheGap main l ch := by
  unfold loopValue convertedAt cacheGap
  split_ifs
  · ring
  · ring

theorem firstOf_cons_self (ch : Charge) (l : List Charge) : firstOf (ch :: l) ch = ch := by
  simp [firstOf]

theorem firstOf_cons_of_ne {a ch : Charge} (h : a.currency ≠ ch.currency) (l : List Charge) :
    firstOf (a :: l) ch = firstOf l ch := by
  simp [firstOf, h]

theorem firstOf_cons_of_eq {a ch : Charge} (h : a.currency = ch.currency) (l : List Charge) :
    firstOf (a :: l) ch = a := by
  simp [firstOf, h]

/-- The loop from any cache: a cached rate stands before the rate of the first charge. -/
theorem foldl_chargeStep_first (l : List Charge) (acc : ℚ × List (Currency × Option ℚ)) :
    (l.foldl (s.chargeStep (some main) main) acc).1 = acc.1 + (l.map fun ch =>
      if ch.currency = main then ch.amount
      else ch.amount * ((acc.2.lookup ch.currency).getD (s.rateOf main (firstOf l ch))).getD 0).sum := by
  induction l generalizing acc with
  | nil => simp
  | cons ch l ih =>
    rw [List.foldl_cons, ih, List.map_cons, List.sum_cons]
    have hmul : ∀ rate : Option ℚ, (rate.map (ch.amount * ·)).getD 0 = ch.amount * rate.getD 0 := by
      intro rate
      cases rate <;> simp
    by_cases hmain : ch.currency = main
    · -- A charge in the main currency leaves the cache and is no first charge of another currency.
      have hstep : s.chargeStep (some main) main acc ch = (acc.1 + ch.amount, acc.2) := by
        simp [chargeStep, hmain]
      have hrest : l.map (fun a => if a.currency = main then a.amount
          else a.amount * ((acc.2.lookup a.currency).getD (s.rateOf main (firstOf l a))).getD 0) =
          l.map fun a => if a.currency = main then a.amount
          else a.amount * ((acc.2.lookup a.currency).getD
            (s.rateOf main (firstOf (ch :: l) a))).getD 0 := by
        refine List.map_congr_left fun a _ => ?_
        by_cases ha : a.currency = main
        · simp only [ha, if_true]
        · rw [firstOf_cons_of_ne fun h => ha (h ▸ hmain)]
      rw [hstep, hrest, if_pos hmain]
      ring
    · cases hcache : acc.2.lookup ch.currency with
      | some rate =>
        have hstep : s.chargeStep (some main) main acc ch =
            (acc.1 + ch.amount * rate.getD 0, acc.2) := by
          simp [chargeStep, hmain, hcache, hmul]
        have hrest : l.map (fun a => if a.currency = main then a.amount
            else a.amount * ((acc.2.lookup a.currency).getD (s.rateOf main (firstOf l a))).getD 0) =
            l.map fun a => if a.currency = main then a.amount
            else a.amount * ((acc.2.lookup a.currency).getD
              (s.rateOf main (firstOf (ch :: l) a))).getD 0 := by
          refine List.map_congr_left fun a _ => ?_
          by_cases ha : ch.currency = a.currency
          · simp only [← ha, hcache, Option.getD_some]
          · rw [firstOf_cons_of_ne ha]
        rw [hstep, hrest, if_neg hmain, Option.getD_some]
        ring
      | none =>
        have hstep : s.chargeStep (some main) main acc ch =
            (acc.1 + ch.amount * (s.rateOf main ch).getD 0,
              (ch.currency, s.rateOf main ch) :: acc.2) := by
          simp only [chargeStep, hmain, hcache, if_false, rateOf, hmul]
        have hrest : l.map (fun a => if a.currency = main then a.amount
            else a.amount * ((((ch.currency, s.rateOf main ch) :: acc.2).lookup a.currency).getD
              (s.rateOf main (firstOf l a))).getD 0) =
            l.map fun a => if a.currency = main then a.amount
            else a.amount * ((acc.2.lookup a.currency).getD
              (s.rateOf main (firstOf (ch :: l) a))).getD 0 := by
          refine List.map_congr_left fun a _ => ?_
          by_cases ha : ch.currency = a.currency
          · rw [firstOf_cons_of_eq ha, ← ha, List.lookup_cons_self, hcache]
            rfl
          · rw [firstOf_cons_of_ne ha, List.lookup_cons, beq_false_of_ne (Ne.symm ha)]
        rw [hstep, hrest, if_neg hmain, Option.getD_none, firstOf_cons_self]
        ring

theorem sum_chargeStep (l : List Charge) :
    (l.foldl (s.chargeStep (some main) main) (0, [])).1 = (l.map (s.loopValue main l)).sum := by
  rw [foldl_chargeStep_first, zero_add]
  rfl

/-! ## The charges of an entity up to an instant -/

variable {entity_id : ℕ} {entity : Entity}

/-- The charges whose parents lie in a set of instants. -/
def chargesIn (s : Ledger) (entity_id : ℕ) (p : Timestamp → Bool) : List Charge :=
  (s.chargesOf entity_id).filter fun ch => p ch.txTs

def chargesUpTo (s : Ledger) (entity_id : ℕ) (timestamp : Timestamp) : List Charge :=
  s.chargesIn entity_id fun u => decide (u ≤ timestamp)

/-- A row's charge carries the instant of its parent. -/
theorem filter_charge {row : ChargeRow} (hrow : ∀ t ch, row.2 t = some ch → ch.txTs = t.timestamp)
    (timestamp : Timestamp) :
    ((((s.getTransaction row.1).filter fun t => decide (t.entityId = entity_id)).bind row.2).filter
      fun ch => decide (ch.txTs ≤ timestamp)) =
    (s.parentOf entity_id timestamp none row.1).bind row.2 := by
  unfold parentOf
  cases s.getTransaction row.1 with
  | none => rfl
  | some t =>
    by_cases he : t.entityId = entity_id
    · cases hch : row.2 t with
      | none => by_cases ht : t.timestamp ≤ timestamp <;> simp [Option.filter_some, he, ht, hch, chargesParent]
      | some ch =>
        have hts := hrow t ch hch
        by_cases ht : t.timestamp ≤ timestamp <;> simp [Option.filter_some, he, ht, hch, hts, chargesParent]
    · simp [Option.filter_some, he, chargesParent]

theorem feeRow_txTs {f : TransactionFee} {t : Transaction} {ch : Charge}
    (h : (feeRow f).2 t = some ch) : ch.txTs = t.timestamp := by
  obtain ⟨amt, -, rfl⟩ := Option.map_eq_some_iff.mp h
  rfl

theorem taxRow_txTs {x : TransactionTax} {t : Transaction} {ch : Charge}
    (h : (taxRow x).2 t = some ch) : ch.txTs = t.timestamp := by
  obtain ⟨amt, -, rfl⟩ := Option.map_eq_some_iff.mp h
  rfl

/-- The charges the loops meet, fees first. -/
theorem chargesUpTo_eq (timestamp : Timestamp) :
    s.chargesUpTo entity_id timestamp =
      (s.fees.rows.filterMap fun f =>
        (s.parentOf entity_id timestamp none (feeRow f.2).1).bind (feeRow f.2).2) ++
      s.taxCharges entity_id timestamp none := by
  unfold chargesUpTo chargesIn chargesOf
  rw [List.filter_append, List.filterMap_map, List.filterMap_map, List.filter_filterMap,
    List.filter_filterMap]
  congr 1
  · exact List.filterMap_congr fun f _ => filter_charge (fun _ _ => feeRow_txTs) timestamp
  · exact List.filterMap_congr fun x _ => filter_charge (fun _ _ => taxRow_txTs) timestamp

theorem computeFeeCashOutAt_eq (he : s.getEntity entity_id = some entity)
    (hmain : entity.mainCurrency = some main) {timestamp : Timestamp} {y : ℚ} :
    s.computeFeeCashOutAt entity_id main timestamp = some y ↔
      s.FeesReadable entity_id main none timestamp ∧
        ((s.chargesUpTo entity_id timestamp).map
          (s.loopValue main (s.chargesUpTo entity_id timestamp))).sum = y := by
  have hval : s.computeFeeCashOutAt entity_id main timestamp =
      ((s.feeRows entity_id timestamp none).mapM feeCharge).map fun fees =>
        ((fees ++ s.taxCharges entity_id timestamp none).foldl
          (s.chargeStep (some main) main) (0, [])).1 := by
    simp only [computeFeeCashOutAt, he, hmain, Option.any_some, ne_eq, not_true, decide_false,
      Bool.false_eq_true, if_false, Option.getD_some]
    cases (s.feeRows entity_id timestamp none).mapM feeCharge <;> rfl
  unfold FeesReadable
  rw [hval]
  cases hl : (s.feeRows entity_id timestamp none).mapM feeCharge with
  | none => simp
  | some l =>
    rw [Option.map_some, Option.some_inj, sum_chargeStep, mapM_feeCharge hl, ← chargesUpTo_eq]
    simp

/-! ## At their own rates -/

/-- The fees of the main pocket are the sum of the charges so far, each at its own rate, and between two
instants they grow by the charges between these. -/
structure ChargedAtOwnRates (s : Ledger) (entity_id : ℕ) (main : Currency) : Prop where
  total : ∀ t, s.computeFeeCashOutAt entity_id main t =
    some ((s.chargesUpTo entity_id t).map (s.convertedAt main)).sum
  growth : ∀ t₁ t₂ x₁ x₂, t₁ ≤ t₂ → s.computeFeeCashOutAt entity_id main t₁ = some x₁ →
    s.computeFeeCashOutAt entity_id main t₂ = some x₂ →
    x₂ - x₁ = ((s.chargesIn entity_id fun u => decide (t₁ < u) && decide (u ≤ t₂)).map
      (s.convertedAt main)).sum

/-- No fee of the entity takes a percentage of a missing total. -/
def FeesHaveAmounts (s : Ledger) (entity_id : ℕ) : Prop :=
  ∀ f ∈ s.fees.rows, ∀ t, s.getTransaction f.2.transactionId = some t → t.entityId = entity_id →
    (feeAmount f.2 t.totalValue).isSome

theorem feesReadable_forall_iff (he : s.getEntity entity_id = some entity)
    (hmain : entity.mainCurrency = some main) :
    (∀ t, s.FeesReadable entity_id main none t) ↔ s.FeesHaveAmounts entity_id := by
  simp only [feesReadable_iff, he, Option.some_inj]
  constructor
  · intro h f hf t hg ht
    have := h t.timestamp entity rfl (by simp [hmain]) f hf t (parentOf_of_le hg ht le_rfl)
    rwa [feeCharge, Option.isSome_map] at this
  · intro h timestamp _ _ _ f hf t ht
    obtain ⟨hg, hent, -⟩ := parentOf_eq_some ht
    rw [feeCharge, Option.isSome_map]
    exact h f hf t hg hent

theorem sum_chargesIn (p q r : Timestamp → Bool) (hr : ∀ u, r u = (p u || q u))
    (hd : ∀ u, p u = true → q u = false) (v : Charge → ℚ) :
    ((s.chargesIn entity_id r).map v).sum =
      ((s.chargesIn entity_id p).map v).sum + ((s.chargesIn entity_id q).map v).sum := by
  unfold chargesIn
  induction s.chargesOf entity_id with
  | nil => simp
  | cons ch l ih =>
    have hdisjoint := hd ch.txTs
    rw [List.filter_cons, List.filter_cons, List.filter_cons, hr ch.txTs]
    cases hp : p ch.txTs with
    | true =>
      simp only [hdisjoint hp, Bool.or_false, if_true, Bool.false_eq_true, if_false, List.map_cons,
        List.sum_cons, ih]
      ring
    | false =>
      cases hq : q ch.txTs with
      | true =>
        simp only [Bool.or_true, if_true, Bool.false_eq_true, if_false, List.map_cons,
          List.sum_cons, ih]
        ring
      | false => simpa using ih

theorem ChargedAtOwnRates.of_total (h : ∀ t, s.computeFeeCashOutAt entity_id main t =
    some ((s.chargesUpTo entity_id t).map (s.convertedAt main)).sum) :
    s.ChargedAtOwnRates entity_id main := by
  refine ⟨h, fun t₁ t₂ x₁ x₂ hle h₁ h₂ => ?_⟩
  have hsplit : ((s.chargesUpTo entity_id t₂).map (s.convertedAt main)).sum =
      ((s.chargesUpTo entity_id t₁).map (s.convertedAt main)).sum +
        ((s.chargesIn entity_id fun u => decide (t₁ < u) && decide (u ≤ t₂)).map
          (s.convertedAt main)).sum := by
    refine sum_chargesIn _ _ _ (fun u => ?_) (fun u hu => ?_) _
    · by_cases hu : u ≤ t₁
      · simp [hu, hu.trans hle]
      · simp [hu, not_le.mp hu]
    · have : u ≤ t₁ := by simpa using hu
      simp [not_lt.mpr this]
  rw [← Option.some_inj.mp ((h t₁).symm.trans h₁), ← Option.some_inj.mp ((h t₂).symm.trans h₂)]
  exact sub_eq_iff_eq_add'.mpr hsplit

/-- A fee of every nature is converted at its own rate exactly where it has an amount and what the one
kept rate of each currency adds cancels at every instant. -/
theorem chargedAtOwnRates_iff (he : s.getEntity entity_id = some entity)
    (hmain : entity.mainCurrency = some main) :
    s.ChargedAtOwnRates entity_id main ↔ s.FeesHaveAmounts entity_id ∧
      ∀ t, ((s.chargesUpTo entity_id t).map
        (s.cacheGap main (s.chargesUpTo entity_id t))).sum = 0 := by
  have hsum : ∀ t, ((s.chargesUpTo entity_id t).map
      (s.loopValue main (s.chargesUpTo entity_id t))).sum =
      ((s.chargesUpTo entity_id t).map (s.convertedAt main)).sum +
        ((s.chargesUpTo entity_id t).map (s.cacheGap main (s.chargesUpTo entity_id t))).sum := by
    intro t
    rw [← List.sum_map_add]
    exact congrArg List.sum (List.map_congr_left fun ch _ => loopValue_eq _ ch)
  rw [← feesReadable_forall_iff he hmain]
  constructor
  · intro h
    refine ⟨fun t => ?_, fun t => ?_⟩
    · exact ((computeFeeCashOutAt_eq he hmain).mp (h.total t)).1
    · have := ((computeFeeCashOutAt_eq he hmain).mp (h.total t)).2
      rw [hsum] at this
      exact add_eq_left.mp this
  · intro ⟨hread, hgap⟩
    refine .of_total fun t => ?_
    rw [computeFeeCashOutAt_eq he hmain, hsum, hgap, add_zero]
    exact ⟨hread t, rfl⟩

/-- Where each currency has one rate, stored against the main currency, the loop is exact. -/
theorem chargedAtOwnRates_of_steady (he : s.getEntity entity_id = some entity)
    (hmain : entity.mainCurrency = some main) (hread : s.FeesHaveAmounts entity_id)
    (hsteady : s.SteadyRates entity_id)
    (hdirect : ∀ ch ∈ s.chargesOf entity_id, ch.currency ≠ main →
      s.pairExists ch.currency main = true ∨ s.pairExists main ch.currency = false) :
    s.ChargedAtOwnRates entity_id main := by
  refine (chargedAtOwnRates_iff he hmain).mpr ⟨hread, fun t => List.sum_eq_zero fun x hx => ?_⟩
  obtain ⟨ch, hch, rfl⟩ := List.mem_map.mp hx
  unfold cacheGap
  split_ifs with hcur
  · rfl
  have hmem : ∀ a ∈ s.chargesUpTo entity_id t, a ∈ s.chargesOf entity_id := fun a ha =>
    List.mem_of_mem_filter ha
  -- The first charge of the currency has the rate of this one.
  have hfirst : s.rateOf main (firstOf (s.chargesUpTo entity_id t) ch) = s.rateOf main ch := by
    unfold firstOf
    cases hfind : (s.chargesUpTo entity_id t).find? fun a => decide (a.currency = ch.currency) with
    | none => rfl
    | some a =>
      have hac : a.currency = ch.currency := by simpa using List.find?_some hfind
      exact hsteady main (by rw [he]; exact hmain) a (hmem a (List.mem_of_find?_eq_some hfind)) ch
        (hmem ch hch) hac (hac ▸ hcur)
  have hservice : s.getRate ch.currency main (some ch.txTs) = s.rateOf main ch := by
    rcases hdirect ch (hmem ch hch) hcur with hex | hno
    · simp only [getRate, resolveDirection, hex, if_true, Option.bind_eq_bind, Option.bind_some,
        Bool.false_eq_true, if_false, rateOf]
      cases s.getRateAt ch.currency main ch.txTs <;> rfl
    · cases hex : s.pairExists ch.currency main with
      | true =>
        simp only [getRate, resolveDirection, hex, if_true, Option.bind_eq_bind, Option.bind_some,
          Bool.false_eq_true, if_false, rateOf]
        cases s.getRateAt ch.currency main ch.txTs <;> rfl
      | false =>
        have hrows : s.getRateAt ch.currency main ch.txTs = none := by
          unfold getRateAt
          rw [List.argmax_eq_none, List.filter_eq_nil_iff]
          intro r hr
          have := List.any_eq_false.mp hex r hr
          simp only [Bool.not_eq_true] at this
          simp [this]
        simp [getRate, resolveDirection, hex, hno, rateOf, hrows]
  rw [hfirst, hservice, sub_self, mul_zero]

end Ledger

namespace Sample

def incomeOfBroker (day : ℤ) : TransactionCreate :=
  { timestamp := at_ day 9, type := .income, entityId := 1, currency := usd, totalValue := some 100 }

def feeInEuros (transactionId : ℕ) : TransactionFee :=
  { transactionId, nature := .fixed, currency := eur, fixedAmount := 10 }

/-- Two fees of ten euros on incomes of the broker, before and after the euro went from 1.1 to 1.2
dollars. -/
def feesOverTwoRates : Ledger where
  __ := after [.createTransaction (incomeOfBroker 10), .createTransaction (incomeOfBroker 20),
    .createFee (feeInEuros 0), .createFee (feeInEuros 1)]
  currencies := [⟨eur, usd, 11 / 10, ⟨Time.startOfDay 1, none⟩⟩,
    ⟨eur, usd, 6 / 5, ⟨Time.startOfDay 15, none⟩⟩]

/-- The loop takes 22 dollars, at their own rates the fees are 23. -/
theorem feesOverTwoRates_oneRate : ¬ ∀ (s : Ledger) (entity_id : ℕ) (entity : Entity) (main : Currency),
    s.getEntity entity_id = some entity → entity.mainCurrency = some main →
      s.ChargedAtOwnRates entity_id main := by
  intro hall
  have htotal := (hall feesOverTwoRates 1 { name := "Broker", mainCurrency := some usd } usd
    (by decide +kernel) rfl).total (at_ 30 9)
  exact absurd htotal (by decide +kernel)

/-- The same fees with the first rate only. -/
def feesAtOneRate : Ledger where
  __ := feesOverTwoRates
  currencies := [⟨eur, usd, 11 / 10, ⟨Time.startOfDay 1, none⟩⟩]

theorem feesAtOneRate_exact : feesAtOneRate.ChargedAtOwnRates 1 usd ↔
    feesAtOneRate.FeesHaveAmounts 1 ∧ ∀ t, ((feesAtOneRate.chargesUpTo 1 t).map
      (feesAtOneRate.cacheGap usd (feesAtOneRate.chargesUpTo 1 t))).sum = 0 := by
  have he : feesAtOneRate.getEntity 1 = some { name := "Broker", mainCurrency := some usd } := by
    decide +kernel
  exact Ledger.chargedAtOwnRates_iff he rfl

end Sample

end FinHub
