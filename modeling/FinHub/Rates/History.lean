import FinHub.Rates.CurrencySvc

/-!
# FinHub.Rates.History

The latest rate of a pair, its rate at an instant and its history.

The latest rate and the history take the timestamps in the order of their texts, the rate at an
instant in the order of the instants.

* `IsoStamp.InOrder`: two stamps whose texts stand in the order of their instants, said of their wall
  clocks and offsets.
* `lookups_agree_iff`: when the lookups of a pair agree, from what is stored and over runs of the
  writers.
-/

namespace FinHub

/-! ## Texts and instants -/

namespace IsoStamp

/-- An earlier wall clock is not a later instant, and of stamps on one wall clock those not behind UTC
have one offset. -/
structure InOrder (a b : IsoStamp) : Prop where
  walls : a.wall < b.wall → a.instant ≤ b.instant
  offsets : a.wall = b.wall → 0 ≤ a.offset.getD 0 → 0 ≤ b.offset.getD 0 →
    a.offset.getD 0 = b.offset.getD 0

instance (a b : IsoStamp) : Decidable (InOrder a b) :=
  decidable_of_iff ((a.wall < b.wall → a.instant ≤ b.instant) ∧
      (a.wall = b.wall → 0 ≤ a.offset.getD 0 → 0 ≤ b.offset.getD 0 →
        a.offset.getD 0 = b.offset.getD 0))
    ⟨fun h => ⟨h.1, h.2⟩, fun h => ⟨h.1, h.2⟩⟩

variable {a b : IsoStamp}

/-- The order of the suffixes of texts with one wall clock. -/
def suffixKey (offset : Option ℤ) : ℤ ×ₗ ℤ :=
  match offset with
  | none => toLex (0, 0)
  | some o => if 0 ≤ o then toLex (1, o) else toLex (2, -o)

theorem textKey_lt : a.textKey < b.textKey ↔
    a.wall < b.wall ∨ a.wall = b.wall ∧ suffixKey a.offset < suffixKey b.offset := by
  show toLex (a.wall, suffixKey a.offset) < toLex (b.wall, suffixKey b.offset) ↔ _
  rw [Prod.Lex.toLex_lt_toLex]

theorem suffixKey_injective : Function.Injective suffixKey := by
  intro o o' h
  unfold suffixKey at h
  cases o with
  | none =>
    cases o' with
    | none => rfl
    | some x => simp only at h; split_ifs at h <;> simp at h
  | some y =>
    cases o' with
    | none => simp only at h; split_ifs at h <;> simp at h
    | some x =>
      simp only at h
      split_ifs at h <;> simp at h <;> simp [h]

theorem textKey_injective : Function.Injective textKey := by
  intro a b h
  obtain ⟨wall, offset⟩ := a
  obtain ⟨wall', offset'⟩ := b
  have hpair : (wall, suffixKey offset) = (wall', suffixKey offset') := h
  obtain ⟨rfl, hsuffix⟩ := Prod.mk.inj hpair
  rw [suffixKey_injective hsuffix]

/-- On one wall clock only two suffixes ahead of UTC stand against their instants. -/
theorem le_of_suffixKey_lt {o o' : Option ℤ} (h : suffixKey o < suffixKey o')
    (heq : 0 ≤ o.getD 0 → 0 ≤ o'.getD 0 → o.getD 0 = o'.getD 0) : o'.getD 0 ≤ o.getD 0 := by
  unfold suffixKey at h
  cases o with
  | none =>
    cases o' with
    | none => exact le_refl _
    | some x =>
      simp only [Option.getD_none, Option.getD_some] at heq ⊢
      omega
  | some y =>
    cases o' with
    | none =>
      simp only at h
      split_ifs at h <;> simp [Prod.Lex.toLex_lt_toLex] at h
    | some x =>
      simp only [Option.getD_some] at heq ⊢
      simp only at h
      split_ifs at h <;> simp [Prod.Lex.toLex_lt_toLex] at h <;> omega

theorem suffixKey_lt_of_lt {o o' : Option ℤ} (ho : 0 ≤ o.getD 0) (h : o.getD 0 < o'.getD 0) :
    suffixKey o < suffixKey o' := by
  cases o' with
  | none =>
    simp only [Option.getD_none] at h
    omega
  | some x =>
    have hx : 0 ≤ x := by simp only [Option.getD_some] at h; omega
    cases o with
    | none => simp [suffixKey, hx, Prod.Lex.toLex_lt_toLex]
    | some y =>
      simp only [Option.getD_some] at ho h
      simp [suffixKey, hx, ho, h, Prod.Lex.toLex_lt_toLex]

theorem InOrder.instant_le (h : InOrder a b) (hlt : a.textKey < b.textKey) :
    a.instant ≤ b.instant := by
  rcases textKey_lt.mp hlt with hwall | ⟨hwall, hsuffix⟩
  · exact h.walls hwall
  · have := le_of_suffixKey_lt hsuffix (h.offsets hwall)
    simp only [instant, hwall]
    linarith

theorem inOrder_of_instants (hab : a.textKey < b.textKey → a.instant ≤ b.instant)
    (hba : b.textKey < a.textKey → b.instant ≤ a.instant) : InOrder a b := by
  refine ⟨fun hwall => hab (textKey_lt.mpr (.inl hwall)), ?_⟩
  intro hwall ha hb
  rcases lt_trichotomy (a.offset.getD 0) (b.offset.getD 0) with hlt | heq | hgt
  · have := hab (textKey_lt.mpr (.inr ⟨hwall, suffixKey_lt_of_lt ha hlt⟩))
    simp only [instant, hwall] at this
    linarith
  · exact heq
  · have := hba (textKey_lt.mpr (.inr ⟨hwall.symm, suffixKey_lt_of_lt hb hgt⟩))
    simp only [instant, hwall] at this
    linarith

end IsoStamp

/-- What `get_history` answers for a row. -/
structure RateResponse where
  code : Currency
  baseCode : Currency
  rate : ℚ
  timestamp : IsoStamp
  inverted : Bool

namespace Ledger

variable (s : Ledger)

def pairRates (code base_code : Currency) : List CurrencyRate :=
  s.currencies.filter fun r => decide (r.code = code) && decide (r.baseCode = base_code)

/-- `get_rate_history`, in the order of the texts. -/
def getRateHistory (code base_code : Currency) : List CurrencyRate :=
  (s.pairRates code base_code).insertionSort fun a b => a.timestamp.textKey ≤ b.timestamp.textKey

/-- A stored rate as it is answered; `1.0 / rate` raises on zero. -/
def quoted (invert : Bool) (rate : ℚ) : Option ℚ :=
  if invert then (if rate = 0 then none else some (1 / rate)) else some rate

/-- `currency_svc.get_history`; `none` where it raises. -/
def getHistory (code base_code : Currency) : Option (List RateResponse) := do
  let (stored_code, stored_base_code, invert) ← s.resolveDirection code base_code
  let rows := s.getRateHistory stored_code stored_base_code
  if rows = [] then none
  else rows.mapM fun row => (quoted invert row.rate).map fun rate =>
    ⟨code, base_code, rate, row.timestamp, invert⟩

/-- The pair is stored the other way round only. -/
def inverted (code base_code : Currency) : Bool := !s.pairExists code base_code

/-- The rows of a pair, in the direction they are stored in. -/
def storedRates (code base_code : Currency) : List CurrencyRate :=
  if s.inverted code base_code then s.pairRates base_code code else s.pairRates code base_code

/-! ## What agrees -/

/-- The latest rate is the rate at every instant past the stored ones, and the history is listed in the
order of the instants. -/
structure LookupsAgree (code base_code : Currency) : Prop where
  rate : ∃ rate, s.getRate code base_code none = some rate ∧
    ∀ t, (∀ r ∈ s.storedRates code base_code, r.timestamp.instant ≤ t) →
      s.getRate code base_code (some t) = some rate
  history : ∃ history, s.getHistory code base_code = some history ∧
    history.Pairwise fun a b => a.timestamp.instant ≤ b.timestamp.instant

/-- The texts of a pair's rows stand in the order of their instants; of rows at the last instant the one
with the last text has the rate of the one stored first; and no rate to be inverted is zero. -/
structure InStep (rates : List CurrencyRate) (invert : Bool) : Prop where
  ordered : ∀ a ∈ rates, ∀ b ∈ rates, a.timestamp.InOrder b.timestamp
  last : ∀ a ∈ rates, ∀ b ∈ rates, a.timestamp.instant = b.timestamp.instant →
    (∀ x ∈ rates, x.timestamp.textKey ≤ a.timestamp.textKey) →
    (∀ x ∈ rates, x.timestamp.instant ≤ b.timestamp.instant) →
    (∀ x ∈ rates, x.timestamp.instant = b.timestamp.instant → rates.idxOf b ≤ rates.idxOf x) →
    a.rate = b.rate
  nonzero : invert = true → ∀ a ∈ rates, a.rate ≠ 0

/-- `PRIMARY KEY (code, base_code, timestamp)`. -/
def UniqueRates : Prop := s.currencies.Pairwise fun r r' => sameKey r r' = false

/-! ## The lookups of a stored pair -/

variable {s} {code base_code : Currency}

theorem pairRates_eq_nil_iff :
    s.pairRates code base_code = [] ↔ s.pairExists code base_code = false := by
  simp [pairRates, pairExists]

theorem resolveDirection_of_stored (h : s.storedRates code base_code ≠ []) :
    ∃ a b, s.resolveDirection code base_code = some (a, b, s.inverted code base_code) ∧
      s.storedRates code base_code = s.pairRates a b := by
  unfold storedRates inverted at *
  cases hex : s.pairExists code base_code with
  | true => exact ⟨code, base_code, by simp [resolveDirection, hex], by simp⟩
  | false =>
    simp only [hex, Bool.not_false, if_true, ne_eq, pairRates_eq_nil_iff, Bool.not_eq_false] at h
    exact ⟨base_code, code, by simp [resolveDirection, hex, h], by simp⟩

theorem getRate_latest (h : s.storedRates code base_code ≠ []) :
    s.getRate code base_code none =
      ((s.storedRates code base_code).argmax fun r => r.timestamp.textKey).bind fun r =>
        quoted (s.inverted code base_code) r.rate := by
  obtain ⟨a, b, hdir, hrows⟩ := resolveDirection_of_stored h
  simp only [getRate, hdir, hrows]
  rfl

theorem getRate_after (h : s.storedRates code base_code ≠ []) {t : Timestamp}
    (ht : ∀ r ∈ s.storedRates code base_code, r.timestamp.instant ≤ t) :
    s.getRate code base_code (some t) =
      ((s.storedRates code base_code).argmax fun r => r.timestamp.instant).bind fun r =>
        quoted (s.inverted code base_code) r.rate := by
  obtain ⟨a, b, hdir, hrows⟩ := resolveDirection_of_stored h
  have hall : s.getRateAt a b t = (s.pairRates a b).argmax fun r => r.timestamp.instant := by
    unfold getRateAt
    congr 1
    refine List.filter_congr fun r hr => ?_
    by_cases hp : r.code = a ∧ r.baseCode = b
    · have := ht r (hrows ▸ List.mem_filter.mpr ⟨hr, by simp [hp]⟩)
      simp [this]
    · have : (decide (r.code = a) && decide (r.baseCode = b)) = false := by simpa using hp
      simp only [this, Bool.false_and]
  simp only [getRate, hdir, hrows]
  rw [← hall]
  rfl

theorem getHistory_eq (h : s.storedRates code base_code ≠ []) :
    s.getHistory code base_code =
      ((s.storedRates code base_code).insertionSort
        fun a b => a.timestamp.textKey ≤ b.timestamp.textKey).mapM fun row =>
          (quoted (s.inverted code base_code) row.rate).map fun rate =>
            (⟨code, base_code, rate, row.timestamp, s.inverted code base_code⟩ : RateResponse) := by
  obtain ⟨a, b, hdir, hrows⟩ := resolveDirection_of_stored h
  have hne : s.getRateHistory a b ≠ [] := by
    intro hnil
    exact h (hrows.trans (List.perm_nil.mp (hnil ▸ (List.perm_insertionSort _ _).symm)))
  simp only [getHistory, hdir, Option.bind_eq_bind, Option.bind_some, hne, if_false, hrows]
  rfl

/-! ## One list of rows -/

theorem quoted_eq_some_iff {invert : Bool} {x : ℚ} :
    (∃ rate, quoted invert x = some rate) ↔ (invert = true → x ≠ 0) := by
  cases invert with
  | false => simp [quoted]
  | true => by_cases hx : x = 0 <;> simp [quoted, hx]

theorem quoted_inj {invert : Bool} {x y rate : ℚ} (hx : quoted invert x = some rate)
    (hy : quoted invert y = some rate) : x = y := by
  unfold quoted at hx hy
  cases invert with
  | false => exact Option.some_inj.mp (hx.trans hy.symm)
  | true =>
    simp only [if_true] at hx hy
    split_ifs at hx hy
    have := Option.some_inj.mp (hx.trans hy.symm)
    exact inv_injective (by simpa using this)

variable {rates : List CurrencyRate} {invert : Bool}

/-- Sorted by text, the rows are in the order of their instants exactly if every two of them are. -/
theorem sorted_iff :
    ((rates.insertionSort fun a b => a.timestamp.textKey ≤ b.timestamp.textKey).Pairwise
        fun a b => a.timestamp.instant ≤ b.timestamp.instant) ↔
      ∀ a ∈ rates, ∀ b ∈ rates, a.timestamp.InOrder b.timestamp := by
  let byText : CurrencyRate → CurrencyRate → Prop := fun a b =>
    a.timestamp.textKey ≤ b.timestamp.textKey
  have : Std.Total byText := ⟨fun a b => le_total _ _⟩
  have : IsTrans _ byText := ⟨fun a b c => le_trans⟩
  have htext : (rates.insertionSort byText).Pairwise byText := List.pairwise_insertionSort _ _
  have hmem : ∀ a, a ∈ rates.insertionSort byText ↔ a ∈ rates := fun a => List.mem_insertionSort _
  constructor
  · intro hinst
    -- What holds of a row and a later one, said so that it holds of them in either order.
    let apart : CurrencyRate → CurrencyRate → Prop := fun a b =>
      (a.timestamp.textKey < b.timestamp.textKey → a.timestamp.instant ≤ b.timestamp.instant) ∧
      (b.timestamp.textKey < a.timestamp.textKey → b.timestamp.instant ≤ a.timestamp.instant)
    have : Std.Symm apart := ⟨fun a b h => ⟨h.2, h.1⟩⟩
    have hapart : (rates.insertionSort byText).Pairwise apart :=
      htext.imp₂ (fun a b hle hab => ⟨fun _ => hab, fun hlt => absurd hle (not_le.mpr hlt)⟩) hinst
    have hall := hapart.forall_of_forall fun a _ => ⟨fun _ => le_refl _, fun _ => le_refl _⟩
    intro a ha b hb
    obtain ⟨hab, hba⟩ := hall ((hmem a).mpr ha) ((hmem b).mpr hb)
    exact IsoStamp.inOrder_of_instants hab hba
  · intro horder
    refine htext.imp_of_mem fun {a b} ha hb hle => ?_
    rcases hle.lt_or_eq with hlt | heq
    · exact (horder a ((hmem a).mp ha) b ((hmem b).mp hb)).instant_le hlt
    · rw [IsoStamp.textKey_injective heq]

/-- The row with the last text lies at the last instant, where the texts are in order. -/
theorem last_instant (horder : ∀ a ∈ rates, ∀ b ∈ rates, a.timestamp.InOrder b.timestamp)
    {a b : CurrencyRate} (ha : a ∈ rates) (hb : b ∈ rates)
    (htext : b.timestamp.textKey ≤ a.timestamp.textKey)
    (hinst : a.timestamp.instant ≤ b.timestamp.instant) :
    a.timestamp.instant = b.timestamp.instant := by
  rcases htext.lt_or_eq with hlt | heq
  · exact le_antisymm hinst ((horder b hb a ha).instant_le hlt)
  · rw [IsoStamp.textKey_injective heq]

/-- Two picks from a list give one rate. -/
theorem last_rate_iff (hunique : ∀ a ∈ rates, ∀ b ∈ rates, a.timestamp = b.timestamp → a = b)
    (horder : ∀ a ∈ rates, ∀ b ∈ rates, a.timestamp.InOrder b.timestamp) {a b : CurrencyRate}
    (ha : rates.argmax (fun r => r.timestamp.textKey) = some a)
    (hb : rates.argmax (fun r => r.timestamp.instant) = some b) :
    a.rate = b.rate ↔ ∀ a ∈ rates, ∀ b ∈ rates, a.timestamp.instant = b.timestamp.instant →
      (∀ x ∈ rates, x.timestamp.textKey ≤ a.timestamp.textKey) →
      (∀ x ∈ rates, x.timestamp.instant ≤ b.timestamp.instant) →
      (∀ x ∈ rates, x.timestamp.instant = b.timestamp.instant → rates.idxOf b ≤ rates.idxOf x) →
      a.rate = b.rate := by
  obtain ⟨ham, hatext, -⟩ := List.argmax_eq_some_iff.mp ha
  obtain ⟨hbm, hbinst, hbfirst⟩ := List.argmax_eq_some_iff.mp hb
  constructor
  · intro hrate a' ha' b' hb' _ htext hinst hfirst
    have hsame : a = a' := hunique a ham a' ha' <|
      IsoStamp.textKey_injective (le_antisymm (htext a ham) (hatext a' ha'))
    have hinsts := le_antisymm (hinst b hbm) (hbinst b' hb')
    have hidx : rates.idxOf b = rates.idxOf b' :=
      le_antisymm (hbfirst b' hb' hinsts.le) (hfirst b hbm hinsts)
    rw [← hsame, ← (List.idxOf_inj hbm).mp hidx]
    exact hrate
  · intro hlast
    exact hlast a ham b hbm (last_instant horder ham hbm (hatext b hbm) (hbinst a ham)) hatext hbinst
      fun x hx heq => hbfirst x hx heq.ge

/-! ## A stored pair -/

theorem UniqueRates.eq_of_timestamp (h : s.UniqueRates) :
    ∀ a ∈ s.storedRates code base_code, ∀ b ∈ s.storedRates code base_code,
      a.timestamp = b.timestamp → a = b := by
  have hpair : ∀ c d, ∀ a ∈ s.pairRates c d, ∀ b ∈ s.pairRates c d,
      a.timestamp = b.timestamp → a = b := by
    intro c d a ha b hb hts
    by_contra hne
    obtain ⟨ham, ha⟩ := List.mem_filter.mp ha
    obtain ⟨hbm, hb⟩ := List.mem_filter.mp hb
    simp only [Bool.and_eq_true, decide_eq_true_eq] at ha hb
    have : Std.Symm fun r r' : CurrencyRate => sameKey r r' = false :=
      ⟨fun r r' h => by
        simp only [sameKey, Bool.and_eq_false_iff, decide_eq_false_iff_not] at h ⊢
        tauto⟩
    have hkey := List.Pairwise.forall h ham hbm hne
    simp [sameKey, ha, hb, hts] at hkey
  unfold storedRates
  split_ifs
  · exact hpair base_code code
  · exact hpair code base_code

/-- The timestamps of a history are those of its rows. -/
theorem timestamp_of_mapM {code base_code : Currency} {history : List RateResponse}
    (h : (rates.mapM fun row => (quoted invert row.rate).map fun rate =>
      (⟨code, base_code, rate, row.timestamp, invert⟩ : RateResponse)) = some history) :
    history.map RateResponse.timestamp = rates.map CurrencyRate.timestamp := by
  induction rates generalizing history with
  | nil => cases h; rfl
  | cons row rates ih =>
    rw [List.mapM_cons] at h
    obtain ⟨response, hrow, h⟩ := Option.bind_eq_some_iff.mp h
    obtain ⟨rest, hrest, h⟩ := Option.bind_eq_some_iff.mp h
    obtain ⟨rate, -, rfl⟩ := Option.map_eq_some_iff.mp hrow
    cases h
    rw [List.map_cons, List.map_cons, ih hrest]

theorem history_iff (h : s.storedRates code base_code ≠ []) :
    (∃ history, s.getHistory code base_code = some history ∧
        history.Pairwise fun a b => a.timestamp.instant ≤ b.timestamp.instant) ↔
      (∀ a ∈ s.storedRates code base_code, ∀ b ∈ s.storedRates code base_code,
        a.timestamp.InOrder b.timestamp) ∧
      (s.inverted code base_code = true → ∀ a ∈ s.storedRates code base_code, a.rate ≠ 0) := by
  rw [getHistory_eq h, ← sorted_iff]
  have hmoved : ∀ {history : List RateResponse} {rows : List CurrencyRate},
      history.map RateResponse.timestamp = rows.map CurrencyRate.timestamp →
      (history.Pairwise (fun a b => a.timestamp.instant ≤ b.timestamp.instant) ↔
        rows.Pairwise fun a b => a.timestamp.instant ≤ b.timestamp.instant) := by
    intro history rows hts
    have hleft := List.pairwise_map (f := RateResponse.timestamp) (l := history)
      (R := fun a b => a.instant ≤ b.instant)
    rw [← hleft, hts, List.pairwise_map]
  constructor
  · intro ⟨history, hok, hsorted⟩
    refine ⟨(hmoved (timestamp_of_mapM hok)).mp hsorted, fun hinv a ha => ?_⟩
    have hsome := Runs.isSome_mapM.mp (Option.isSome_of_eq_some hok) a
      ((List.mem_insertionSort _).mpr ha)
    rw [Option.isSome_map] at hsome
    exact quoted_eq_some_iff.mp (Option.isSome_iff_exists.mp hsome) hinv
  · intro ⟨hsorted, hnonzero⟩
    have hsome : ((s.storedRates code base_code).insertionSort
        (fun a b => a.timestamp.textKey ≤ b.timestamp.textKey) |>.mapM fun row =>
          (quoted (s.inverted code base_code) row.rate).map fun rate =>
            (⟨code, base_code, rate, row.timestamp, s.inverted code base_code⟩ :
              RateResponse)).isSome := by
      refine Runs.isSome_mapM.mpr fun row hrow => ?_
      rw [Option.isSome_map]
      exact Option.isSome_iff_exists.mpr (quoted_eq_some_iff.mpr fun hinv =>
        hnonzero hinv row ((List.mem_insertionSort _).mp hrow))
    obtain ⟨history, hok⟩ := Option.isSome_iff_exists.mp hsome
    exact ⟨history, hok, (hmoved (timestamp_of_mapM hok)).mpr hsorted⟩

theorem lookupsAgree_iff (hs : s.UniqueRates) (h : s.storedRates code base_code ≠ []) :
    s.LookupsAgree code base_code ↔
      InStep (s.storedRates code base_code) (s.inverted code base_code) := by
  have hunique : ∀ a ∈ s.storedRates code base_code, ∀ b ∈ s.storedRates code base_code,
      a.timestamp = b.timestamp → a = b := hs.eq_of_timestamp
  have hmax : ∀ {T : Type} [LinearOrder T] (key : CurrencyRate → T),
      ∃ r, (s.storedRates code base_code).argmax key = some r := by
    intro T _ key
    exact Option.ne_none_iff_exists'.mp fun hnone => h (List.argmax_eq_none.mp hnone)
  obtain ⟨a, ha⟩ := hmax fun r => r.timestamp.textKey
  obtain ⟨b, hb⟩ := hmax fun r => r.timestamp.instant
  have hlatest : s.getRate code base_code none = quoted (s.inverted code base_code) a.rate := by
    rw [getRate_latest h, ha, Option.bind_some]
  have hafter : ∀ t, (∀ r ∈ s.storedRates code base_code, r.timestamp.instant ≤ t) →
      s.getRate code base_code (some t) = quoted (s.inverted code base_code) b.rate := by
    intro t ht
    rw [getRate_after h ht, hb, Option.bind_some]
  constructor
  · intro hagree
    obtain ⟨horder, hnonzero⟩ := (history_iff h).mp hagree.history
    obtain ⟨rate, hrate, hdated⟩ := hagree.rate
    have hbinst := (List.argmax_eq_some_iff.mp hb).2.1
    have hat := hdated _ hbinst
    rw [hlatest] at hrate
    rw [hafter _ hbinst] at hat
    exact ⟨horder, (last_rate_iff hunique horder ha hb).mp (quoted_inj hrate hat), hnonzero⟩
  · intro hstep
    have hsame := (last_rate_iff hunique hstep.ordered ha hb).mpr hstep.last
    have ham := (List.argmax_eq_some_iff.mp ha).1
    obtain ⟨rate, hrate⟩ := quoted_eq_some_iff.mpr fun hinv => hstep.nonzero hinv a ham
    refine ⟨⟨rate, hlatest.trans hrate, fun t ht => ?_⟩,
      (history_iff h).mpr ⟨hstep.ordered, hstep.nonzero⟩⟩
    rw [hafter t ht, ← hsame]
    exact hrate

/-! ## Runs of the writers -/

/-- The rows a call stores. -/
def written (s : Ledger) : RateCall → List CurrencyRate
  | .createRate code base_code rate timestamp => [⟨code, base_code, rate, timestamp⟩]
  | .updateRates code base_code timestamps rates =>
    (timestamps.zip rates).map fun e => ⟨code, base_code, e.2, e.1⟩
  | .syncRates api => (fxPairs s.distinctCodes).flatMap fun p =>
    (api.closes p.1 p.2).map fun e => ⟨p.1, p.2, e.2, e.1⟩

/-- Rows of one pair have texts in the order of their instants, and one text for one instant. -/
structure RowsInStep (rows : List CurrencyRate) : Prop where
  nonzero : ∀ a ∈ rows, a.rate ≠ 0
  ordered : ∀ a ∈ rows, ∀ b ∈ rows, a.code = b.code → a.baseCode = b.baseCode →
    a.timestamp.InOrder b.timestamp
  alone : ∀ a ∈ rows, ∀ b ∈ rows, a.code = b.code → a.baseCode = b.baseCode →
    a.timestamp.instant = b.timestamp.instant → a.timestamp = b.timestamp

/-- What a call stores is in step with itself and with what is stored. -/
def WritesInStep (s : Ledger) (c : RateCall) : Prop := RowsInStep (s.currencies ++ s.written c)

theorem RowsInStep.mono {rows rows' : List CurrencyRate} (h : RowsInStep rows)
    (hsub : ∀ a ∈ rows', a ∈ rows) : RowsInStep rows' where
  nonzero a ha := h.nonzero a (hsub a ha)
  ordered a ha b hb := h.ordered a (hsub a ha) b (hsub b hb)
  alone a ha b hb := h.alone a (hsub a ha) b (hsub b hb)

theorem UniqueRates.upsertRate (h : s.UniqueRates) (row : CurrencyRate) :
    (s.upsertRate row).UniqueRates := by
  refine List.pairwise_append.mpr ⟨h.filter _, List.pairwise_singleton _ _, ?_⟩
  intro r hr r' hr'
  obtain rfl := List.mem_singleton.mp hr'
  have hkey : sameKey r' r = false := by simpa using (List.mem_filter.mp hr).2
  simp only [sameKey, Bool.and_eq_false_iff, decide_eq_false_iff_not] at hkey ⊢
  tauto

theorem mem_upsertRate {row r : CurrencyRate} (h : r ∈ (s.upsertRate row).currencies) :
    r ∈ s.currencies ∨ r = row := by
  rcases List.mem_append.mp h with h | h
  · exact .inl (List.mem_of_mem_filter h)
  · exact .inr (List.mem_singleton.mp h)

/-- Rows upserted one after another. -/
theorem upsert_all (rows : List CurrencyRate) (h : s.UniqueRates) :
    (rows.foldl Ledger.upsertRate s).UniqueRates ∧
      ∀ r ∈ (rows.foldl Ledger.upsertRate s).currencies, r ∈ s.currencies ∨ r ∈ rows := by
  induction rows generalizing s with
  | nil => exact ⟨h, fun r hr => .inl hr⟩
  | cons row rows ih =>
    obtain ⟨hunique, hmem⟩ := ih (h.upsertRate row)
    refine ⟨hunique, fun r hr => ?_⟩
    rcases hmem r hr with hold | hnew
    · rcases mem_upsertRate hold with hold | rfl
      · exact .inl hold
      · exact .inr List.mem_cons_self
    · exact .inr (List.mem_cons_of_mem _ hnew)

theorem upsertRates_eq_foldl (entries : List (IsoStamp × ℚ)) :
    s.upsertRates code base_code entries =
      (entries.map fun e => (⟨code, base_code, e.2, e.1⟩ : CurrencyRate)).foldl Ledger.upsertRate s := by
  rw [List.foldl_map]
  rfl

theorem sync_eq_foldl (api : MarketApi) (pairs : List (Currency × Currency)) :
    pairs.foldl (fun s p => s.upsertRates p.1 p.2 (api.closes p.1 p.2)) s =
      (pairs.flatMap fun p => (api.closes p.1 p.2).map fun e =>
        (⟨p.1, p.2, e.2, e.1⟩ : CurrencyRate)).foldl Ledger.upsertRate s := by
  rw [List.foldl_flatMap]
  simp only [upsertRates_eq_foldl]

/-- One call: the key stays unique and every row was stored before or is written. -/
theorem rateCall_rows {s' : Ledger} {c : RateCall} (h : s.UniqueRates) (hok : s.rateCall c = .ok s') :
    s'.UniqueRates ∧ ∀ r ∈ s'.currencies, r ∈ s.currencies ++ s.written c := by
  simp only [List.mem_append]
  cases c with
  | createRate code base_code rate timestamp =>
    simp only [rateCall, createRate, insertRate] at hok
    split_ifs at hok with hrev hkey
    cases hok
    refine ⟨List.pairwise_append.mpr ⟨h, List.pairwise_singleton _ _, ?_⟩, fun r hr => ?_⟩
    · intro r hr r' hr'
      obtain rfl := List.mem_singleton.mp hr'
      have hno := List.any_eq_false.mp (Bool.eq_false_iff.mpr hkey) r hr
      simp only [sameKey, Bool.and_eq_true, decide_eq_true_eq] at hno
      simp only [sameKey, Bool.and_eq_false_iff, decide_eq_false_iff_not]
      tauto
    · exact List.mem_append.mp hr
  | updateRates code base_code timestamps rates =>
    simp only [rateCall, updateRates] at hok
    split_ifs at hok with hrev
    cases hok
    rw [upsertRates_eq_foldl]
    exact upsert_all _ h
  | syncRates api =>
    simp only [rateCall, syncRates] at hok
    split_ifs at hok with hcodes hproceed
    · cases hok
      rw [sync_eq_foldl]
      exact upsert_all _ h
    · cases hok
      exact ⟨h, fun r hr => .inl hr⟩

theorem UniqueRates.of_reaches {allowed : Ledger → RateCall → Prop} {s₀ : Ledger}
    (h₀ : s₀.UniqueRates) (h : Runs.Reaches Ledger.rateCall allowed s₀ s) : s.UniqueRates :=
  h.invariant h₀ fun _ _ _ hs _ hok => (rateCall_rows hs hok).1

theorem RowsInStep.of_reaches {s₀ : Ledger} (h₀ : s₀.UniqueRates) (hrows : RowsInStep s₀.currencies)
    (h : Runs.Reaches Ledger.rateCall WritesInStep s₀ s) : RowsInStep s.currencies :=
  (h.invariant (P := fun s => s.UniqueRates ∧ RowsInStep s.currencies) ⟨h₀, hrows⟩
    fun _ _ _ hs hc hok => ⟨(rateCall_rows hs.1 hok).1, hc.mono (rateCall_rows hs.1 hok).2⟩).2

theorem RowsInStep.inStep (hs : s.UniqueRates) (h : RowsInStep s.currencies) :
    InStep (s.storedRates code base_code) (s.inverted code base_code) := by
  -- The rows of a pair agree in both codes.
  have hstored : ∀ a ∈ s.storedRates code base_code, a ∈ s.currencies ∧
      ∀ b ∈ s.storedRates code base_code, a.code = b.code ∧ a.baseCode = b.baseCode := by
    have hpair : ∀ c d, ∀ a ∈ s.pairRates c d, a ∈ s.currencies ∧
        ∀ b ∈ s.pairRates c d, a.code = b.code ∧ a.baseCode = b.baseCode := by
      intro c d a ha
      obtain ⟨ham, ha⟩ := List.mem_filter.mp ha
      refine ⟨ham, fun b hb => ?_⟩
      have hb := (List.mem_filter.mp hb).2
      simp only [Bool.and_eq_true, decide_eq_true_eq] at ha hb
      rw [ha.1, ha.2, hb.1, hb.2]
      exact ⟨rfl, rfl⟩
    unfold storedRates
    split_ifs
    · exact hpair base_code code
    · exact hpair code base_code
  refine ⟨fun a ha b hb => ?_, fun a ha b hb hinst _ _ _ => ?_,
    fun _ a ha => h.nonzero a (hstored a ha).1⟩
  · obtain ⟨ham, hcodes⟩ := hstored a ha
    exact h.ordered a ham b (hstored b hb).1 (hcodes b hb).1 (hcodes b hb).2
  · obtain ⟨ham, hcodes⟩ := hstored a ha
    have hts := h.alone a ham b (hstored b hb).1 (hcodes b hb).1 (hcodes b hb).2 hinst
    rw [hs.eq_of_timestamp a ha b hb hts]

end Ledger

namespace Sample

/-- A euro at 1.1 dollars at 00:30 of the second day, two hours ahead of UTC, then at 1.2 dollars at
23:00 of the first day in UTC, half an hour later. -/
def ratesAcrossMidnight : List RateCall :=
  [.createRate eur usd (11 / 10) ⟨Time.startOfDay 1 + 1800 * Time.ticksPerSecond,
      some (7200 * Time.ticksPerSecond)⟩,
    .createRate eur usd (6 / 5) ⟨Time.startOfDay 0 + 82800 * Time.ticksPerSecond, none⟩]

def acrossMidnight : Ledger where
  __ := Ledger.empty .utc
  currencies := [⟨eur, usd, 11 / 10, ⟨Time.startOfDay 1 + 1800 * Time.ticksPerSecond,
      some (7200 * Time.ticksPerSecond)⟩⟩,
    ⟨eur, usd, 6 / 5, ⟨Time.startOfDay 0 + 82800 * Time.ticksPerSecond, none⟩⟩]

/-- One rate in dollars for each of two days. -/
def twoDays : Ledger where
  __ := Ledger.empty .utc
  currencies := [⟨eur, usd, 11 / 10, ⟨Time.startOfDay 0, none⟩⟩,
    ⟨eur, usd, 6 / 5, ⟨Time.startOfDay 1, none⟩⟩]

end Sample

end FinHub
