import FinHub.Analytics.ProjectedDates
import FinHub.Lib.Groups

/-!
# FinHub.Analytics.ProjectedAmounts

The totals of a projection, beside the amounts of its occurrences converted one by one.

The answer adds up what an entity is paid in a period and converts the sum at one rate, the latest one of the
currency of the entity's first schedule. `converts_own_iff` says for which schedules and rates this comes to the
conversion of every occurrence from its own currency at its own date, whatever the amounts are.
-/

namespace FinHub.Projection

open Calendar Decimal Groups Worth

/-- A schedule with another amount. -/
def repriced (x : ℕ → ℚ) (s : ℕ × ScheduleRow) : ℕ × ScheduleRow := (s.1, { s.2 with totalValue := some (x s.1) })

/-- The occurrence of a schedule, once that has another amount. -/
def repricedOccurrence (x : ℕ → ℚ) (o : ProjectedOccurrence) : ProjectedOccurrence :=
  { o with schedule := { o.schedule with row := { o.schedule.row with totalValue := some (x o.schedule.id) } } }

/-! ## Other amounts, the same occurrences -/

section

variable {l : Ledger} {call : ProjectionCall} {schedules : List (ℕ × ScheduleRow)} {entities : List EntityRow}
  (x : ℕ → ℚ)

theorem incomeSchedules_repriced : incomeSchedules (schedules.map (repriced x)) =
    (incomeSchedules schedules).map fun s => { s with row := { s.row with totalValue := some (x s.id) } } := by
  unfold incomeSchedules
  rw [List.filterMap_map, List.map_filterMap]
  refine List.filterMap_congr fun s _ => ?_
  by_cases h : s.2.type = some .income
  · rw [if_pos h, Option.map_map]
    exact if_pos h
  · rw [if_neg h]
    exact if_neg h

theorem projectedOccurrences_repriced : projectedOccurrences l call (schedules.map (repriced x)) =
    (projectedOccurrences l call schedules).map (List.map (repricedOccurrence x)) := by
  unfold projectedOccurrences
  rw [incomeSchedules_repriced, List.mapM_map]
  have hone : ∀ s : IncomeSchedule,
      ((projectSchedule l.timezone call { s.row with totalValue := some (x s.id) }).map fun dates => dates.map fun d =>
        (⟨{ s with row := { s.row with totalValue := some (x s.id) } }, d⟩ : ProjectedOccurrence)) =
      (((projectSchedule l.timezone call s.row).map fun dates => dates.map fun d => ⟨s, d⟩).map
        (List.map (repricedOccurrence x))) := by
    intro s
    have hsame : projectSchedule l.timezone call { s.row with totalValue := some (x s.id) } =
        projectSchedule l.timezone call s.row := rfl
    rw [hsame]
    cases projectSchedule l.timezone call s.row with
    | error e => rfl
    | ok dates =>
      simp only [Except.map, List.map_map]
      rfl
  simp only [Function.comp_def, hone]
  rw [Runs.mapM_map_result]
  cases (incomeSchedules schedules).mapM fun s =>
      (projectSchedule l.timezone call s.row).map fun dates => dates.map fun d => ProjectedOccurrence.mk s d with
  | error e => rfl
  | ok lists => exact congrArg Except.ok List.map_flatten.symm

theorem entityCurrency_repriced (entity_id : ℕ) :
    entityCurrency (incomeSchedules (schedules.map (repriced x))) entity_id =
      entityCurrency (incomeSchedules schedules) entity_id := by
  unfold entityCurrency
  rw [incomeSchedules_repriced, List.find?_map]
  cases h : (incomeSchedules schedules).find? fun s => decide (s.entityId = entity_id) with
  | none => simp [Function.comp_def, h]
  | some s =>
    simp only [Function.comp_def, h, Option.map_some]
    rfl

end

/-! ## The lines of an answer -/

/-- The rates an answer is converted at, and what it tells about them. -/
def ratesOf (l : Ledger) (call : ProjectionCall) (currencies : List Currency) :
    Except ProjectionError (List FoundRate × Option RateMetadata) :=
  match call.displayCurrency with
  | none => .ok ([], none)
  | some display => do
    let found ← (l.foundRates display currencies).mapError .rate
    let rate_info ← (l.getRateMetadata display call.now currencies).mapError .rate
    .ok (found, rate_info)

section

variable {l : Ledger} {call : ProjectionCall} {schedules : List (ℕ × ScheduleRow)} {entities : List EntityRow}

theorem getProjectedIncome_eq_ok {answer : IncomeBySourceWithRates} :
    getProjectedIncome l call schedules entities = .ok answer ↔
      ∃ occurrences, projectedOccurrences l call schedules = .ok occurrences ∧
        ∃ rates, ratesOf l call (occurrences.map fun o => currencyOf o.schedule) = .ok rates ∧
          answer = ⟨projectedLines call schedules entities rates.1 occurrences, rates.2⟩ := by
  unfold getProjectedIncome ratesOf
  rw [Runs.bind_eq_ok]
  refine exists_congr fun occurrences => and_congr_right fun _ => ?_
  cases call.displayCurrency with
  | none => simp [eq_comm]
  | some display =>
    constructor
    · intro h
      obtain ⟨found, hfound, h⟩ := Runs.bind_eq_ok.mp h
      obtain ⟨info, hinfo, h⟩ := Runs.bind_eq_ok.mp h
      cases h
      exact ⟨(found, info), Runs.bind_eq_ok.mpr ⟨found, hfound, Runs.bind_eq_ok.mpr ⟨info, hinfo, rfl⟩⟩, rfl⟩
    · rintro ⟨rates, h, rfl⟩
      obtain ⟨found, hfound, h⟩ := Runs.bind_eq_ok.mp h
      obtain ⟨info, hinfo, h⟩ := Runs.bind_eq_ok.mp h
      cases h
      exact Runs.bind_eq_ok.mpr ⟨found, hfound, Runs.bind_eq_ok.mpr ⟨info, hinfo, rfl⟩⟩

/-- The rate that the lines of an entity are converted at. -/
def usedRate (l : Ledger) (call : ProjectionCall) (schedules : List (ℕ × ScheduleRow))
    (occurrences : List ProjectedOccurrence) (entity_id : ℕ) : ℚ :=
  let currency := entityCurrency (incomeSchedules schedules) entity_id
  if occurrences.any fun o => decide (currencyOf o.schedule = currency) then
    l.conversionRate call.displayCurrency currency none
  else 1

/-- The rate of the currency of a schedule as of an occurrence. -/
def ownRate (l : Ledger) (call : ProjectionCall) (o : ProjectedOccurrence) : ℚ :=
  l.conversionRate call.displayCurrency (currencyOf o.schedule) (some (midnight o.date))

theorem convertAt_ratesOf {occurrences : List ProjectedOccurrence} {rates : List FoundRate × Option RateMetadata}
    (h : ratesOf l call (occurrences.map fun o => currencyOf o.schedule) = .ok rates) (value : ℚ) (entity_id : ℕ) :
    convertAt rates.1 call.displayCurrency value (entityCurrency (incomeSchedules schedules) entity_id) =
      value * usedRate l call schedules occurrences entity_id := by
  have hcounted : ∀ currency, currency ∈ (occurrences.map fun o => currencyOf o.schedule) ↔
      (occurrences.any fun o => decide (currencyOf o.schedule = currency)) = true := by
    intro currency
    simp [List.any_eq_true]
  unfold ratesOf at h
  unfold usedRate
  simp only [← hcounted]
  cases hdisp : call.displayCurrency with
  | none => simp [convertAt, Ledger.conversionRate]
  | some display =>
    rw [hdisp] at h
    obtain ⟨found, hfound, h⟩ := Runs.bind_eq_ok.mp h
    obtain ⟨info, _, h⟩ := Runs.bind_eq_ok.mp h
    cases h
    refine convertAt_of_foundRates ?_ _ _
    cases hok : l.foundRates display (occurrences.map fun o => currencyOf o.schedule) with
    | ok found' =>
      rw [hok] at hfound
      cases hfound
      rfl
    | error e =>
      rw [hok] at hfound
      cases hfound

end

theorem mem_sortKeys {keys : List ProjectedKey} {k : ProjectedKey} : k ∈ sortKeys keys ↔ k ∈ keys := by
  simp only [sortKeys, List.mem_flatMap, List.mem_insertionSort, List.mem_eraseDups, List.mem_map, List.mem_filter,
    decide_eq_true_eq]
  constructor
  · rintro ⟨_, _, _, _, ⟨hk, _⟩, _⟩
    exact hk
  · intro hk
    exact ⟨k.period, ⟨k, hk, rfl⟩, k.entityId, ⟨k, ⟨hk, rfl⟩, rfl⟩, ⟨hk, rfl⟩, rfl⟩

theorem nodup_sortKeys (keys : List ProjectedKey) : (sortKeys keys).Nodup := by
  refine nodup_flatMap_of_key ?_ (fun period => ?_) ProjectedKey.period fun period k hk => ?_
  · exact (List.perm_insertionSort _ _).nodup_iff.mpr (nodup_eraseDups _)
  · refine nodup_flatMap_of_key (nodup_eraseDups _) (fun entity_id => ?_) ProjectedKey.entityId fun entity_id k hk => ?_
    · exact (List.perm_insertionSort _ _).nodup_iff.mpr (nodup_eraseDups _)
    · rw [List.mem_insertionSort, List.mem_eraseDups, List.mem_filter] at hk
      exact of_decide_eq_true hk.2
  · obtain ⟨entity_id, _, hk⟩ := List.mem_flatMap.mp hk
    rw [List.mem_insertionSort, List.mem_eraseDups, List.mem_filter, List.mem_filter] at hk
    exact of_decide_eq_true hk.1.2

/-! ## The law of conversion -/

/-- The lines of a period and an entity. -/
def linesOf (answer : IncomeBySourceWithRates) (period : String) (entity_id : ℕ) : List IncomeBySourceLine :=
  answer.data.filter fun line => decide (line.period = period ∧ line.entityId = entity_id)

/-- Whatever the amounts are, the lines of a period and an entity come to its occurrences, each converted from its
own currency at its own date, up to the rounding of the lines. -/
def ConvertsOwn (l : Ledger) (call : ProjectionCall) (schedules : List (ℕ × ScheduleRow))
    (entities : List EntityRow) : Prop :=
  ∀ x answer occurrences, getProjectedIncome l call (schedules.map (repriced x)) entities = .ok answer →
    projectedOccurrences l call (schedules.map (repriced x)) = .ok occurrences → ∀ period entity_id,
      |((linesOf answer period entity_id).map IncomeBySourceLine.totalValue).sum -
          ((cell occurrences period entity_id).map fun o => o.schedule.row.totalValue.getD 0 * ownRate l call o).sum| ≤
        (linesOf answer period entity_id).length * (1 / 2 / 10 ^ 4)

section

variable {l : Ledger} {call : ProjectionCall} {schedules : List (ℕ × ScheduleRow)} {entities : List EntityRow}
  {occurrences : List ProjectedOccurrence} {rates : List FoundRate × Option RateMetadata}

/-- The keys of the lines of a period and an entity. -/
def keysOf (entities : List EntityRow) (occurrences : List ProjectedOccurrence) (period : String) (entity_id : ℕ) :
    List ProjectedKey :=
  (sortKeys (occurrences.map (keyOf entities))).filter fun k =>
    decide (k.period = period ∧ k.entityId = entity_id)

theorem cell_eq_filter (entities : List EntityRow) (occurrences : List ProjectedOccurrence) (period : String)
    (entity_id : ℕ) : (occurrences.filter fun o =>
      decide (keyOf entities o ∈ keysOf entities occurrences period entity_id)) =
        cell occurrences period entity_id := by
  refine List.filter_congr fun o ho => decide_eq_decide.mpr ?_
  rw [keysOf, List.mem_filter, mem_sortKeys, decide_eq_true_eq]
  exact and_iff_right (List.mem_map_of_mem ho)

/-- The amounts of a cell at the rate of its lines, less the same at the rates of the occurrences. -/
def rateDifferences (l : Ledger) (call : ProjectionCall) (schedules : List (ℕ × ScheduleRow))
    (occurrences : List ProjectedOccurrence) (period : String) (entity_id : ℕ) : List (ℕ × ℚ) :=
  (cell occurrences period entity_id).map fun o =>
    (o.schedule.id, usedRate l call schedules occurrences entity_id - ownRate l call o)

theorem linesOf_repriced (x : ℕ → ℚ) (info : Option RateMetadata) (period : String) (entity_id : ℕ) :
    linesOf ⟨projectedLines call (schedules.map (repriced x)) entities rates.1
        (occurrences.map (repricedOccurrence x)), info⟩ period entity_id =
      (keysOf entities occurrences period entity_id).map
        (projectedLine call (schedules.map (repriced x)) entities rates.1 (occurrences.map (repricedOccurrence x))) := by
  have hkeys : (occurrences.map (repricedOccurrence x)).map (keyOf entities) = occurrences.map (keyOf entities) := by
    rw [List.map_map]
    rfl
  unfold linesOf projectedLines keysOf
  rw [hkeys, List.filter_map]
  rfl

theorem length_linesOf_repriced (x : ℕ → ℚ) (info : Option RateMetadata) (period : String) (entity_id : ℕ) :
    (linesOf ⟨projectedLines call (schedules.map (repriced x)) entities rates.1
        (occurrences.map (repricedOccurrence x)), info⟩ period entity_id).length =
      (keysOf entities occurrences period entity_id).length := by
  rw [linesOf_repriced, List.length_map]

theorem totalValue_repriced (h : ratesOf l call (occurrences.map fun o => currencyOf o.schedule) = .ok rates)
    (x : ℕ → ℚ) (k : ProjectedKey) :
    (projectedLine call (schedules.map (repriced x)) entities rates.1 (occurrences.map (repricedOccurrence x))
        k).totalValue =
      roundTo 4 (((occurrences.filter fun o => decide (keyOf entities o = k)).map fun o =>
        x o.schedule.id * usedRate l call schedules occurrences k.entityId).sum) := by
  simp only [projectedLine, entityCurrency_repriced, convertAt_ratesOf h, List.filter_map, List.map_map,
    List.sum_map_mul_right]
  rfl

/-- What the lines and the occurrences differ by, before the lines are rounded. -/
theorem worth_rateDifferences (x : ℕ → ℚ) (period : String) (entity_id : ℕ) :
    worth x (rateDifferences l call schedules occurrences period entity_id) =
      ((cell occurrences period entity_id).map fun o =>
        x o.schedule.id * usedRate l call schedules occurrences entity_id).sum -
      ((cell occurrences period entity_id).map fun o => x o.schedule.id * ownRate l call o).sum := by
  unfold rateDifferences
  induction cell occurrences period entity_id with
  | nil => simp
  | cons o rest ih =>
    simp only [List.map_cons, worth_cons, List.sum_cons, ih]
    ring

theorem abs_lines_sub_le (h : ratesOf l call (occurrences.map fun o => currencyOf o.schedule) = .ok rates)
    (x : ℕ → ℚ) (info : Option RateMetadata) (period : String) (entity_id : ℕ) :
    |((linesOf ⟨projectedLines call (schedules.map (repriced x)) entities rates.1
          (occurrences.map (repricedOccurrence x)), info⟩ period entity_id).map IncomeBySourceLine.totalValue).sum -
        ((cell (occurrences.map (repricedOccurrence x)) period entity_id).map fun o =>
          o.schedule.row.totalValue.getD 0 * ownRate l call o).sum -
        worth x (rateDifferences l call schedules occurrences period entity_id)| ≤
      (keysOf entities occurrences period entity_id).length * (1 / 2 / 10 ^ 4) := by
  let paid := fun o : ProjectedOccurrence => x o.schedule.id * usedRate l call schedules occurrences entity_id
  let ofKey := fun k => ((occurrences.filter fun o => decide (keyOf entities o = k)).map paid).sum
  have hlines : (linesOf ⟨projectedLines call (schedules.map (repriced x)) entities rates.1
      (occurrences.map (repricedOccurrence x)), info⟩ period entity_id).map IncomeBySourceLine.totalValue =
        (keysOf entities occurrences period entity_id).map fun k => roundTo 4 (ofKey k) := by
    rw [linesOf_repriced, List.map_map]
    refine List.map_congr_left fun k hk => ?_
    have hentity : k.entityId = entity_id := (of_decide_eq_true (List.mem_filter.mp hk).2).2
    rw [Function.comp_apply, totalValue_repriced h, hentity]
  have hgroups : ((keysOf entities occurrences period entity_id).map ofKey).sum =
      ((cell occurrences period entity_id).map paid).sum := by
    rw [← cell_eq_filter entities]
    exact sum_groups (keyOf entities) ((nodup_sortKeys _).filter _) occurrences paid
  have hown : ((cell (occurrences.map (repricedOccurrence x)) period entity_id).map fun o =>
      o.schedule.row.totalValue.getD 0 * ownRate l call o) =
        (cell occurrences period entity_id).map fun o => x o.schedule.id * ownRate l call o := by
    unfold cell
    rw [List.filter_map, List.map_map]
    rfl
  have hround := abs_sum_roundTo_sub_le 4 (keysOf entities occurrences period entity_id) ofKey
  rw [hgroups] at hround
  rw [hlines, hown, worth_rateDifferences]
  refine le_of_eq_of_le (congrArg abs ?_) hround
  ring

theorem converts_own_iff (l : Ledger) (call : ProjectionCall) (schedules : List (ℕ × ScheduleRow))
    (entities : List EntityRow) :
    ConvertsOwn l call schedules entities ↔
      ∀ answer occurrences, getProjectedIncome l call schedules entities = .ok answer →
        projectedOccurrences l call schedules = .ok occurrences → ∀ period entity_id schedule_id,
          (((cell occurrences period entity_id).filter fun o => decide (o.schedule.id = schedule_id)).map fun o =>
            usedRate l call schedules occurrences entity_id - ownRate l call o).sum = 0 := by
  have hlaw : ∀ {occurrences rates}, ratesOf l call (occurrences.map fun o => currencyOf o.schedule) = .ok rates →
      ∀ period entity_id, (∀ x, |((linesOf ⟨projectedLines call (schedules.map (repriced x)) entities rates.1
          (occurrences.map (repricedOccurrence x)), rates.2⟩ period entity_id).map IncomeBySourceLine.totalValue).sum -
        ((cell (occurrences.map (repricedOccurrence x)) period entity_id).map fun o =>
          o.schedule.row.totalValue.getD 0 * ownRate l call o).sum| ≤
            (keysOf entities occurrences period entity_id).length * (1 / 2 / 10 ^ 4)) ↔
        ∀ schedule_id, amountOf schedule_id (rateDifferences l call schedules occurrences period entity_id) = 0 := by
    intro occurrences rates hrates period entity_id
    exact forall_abs_le_iff (fun x => abs_lines_sub_le hrates x rates.2 period entity_id) le_rfl
  have hcurrencies : ∀ x (occurrences : List ProjectedOccurrence),
      ((occurrences.map (repricedOccurrence x)).map fun o => currencyOf o.schedule) =
        occurrences.map fun o => currencyOf o.schedule := by
    intro x occurrences
    rw [List.map_map]
    rfl
  simp only [rateDifferences, amountOf_map] at hlaw
  constructor
  · intro h answer occurrences hanswer hok period entity_id
    obtain ⟨occurrences', hok', rates, hrates, rfl⟩ := getProjectedIncome_eq_ok.mp hanswer
    obtain rfl : occurrences = occurrences' := Except.ok.inj (hok.symm.trans hok')
    refine (hlaw hrates period entity_id).mp fun x => ?_
    have hrepriced : projectedOccurrences l call (schedules.map (repriced x)) =
        .ok (occurrences.map (repricedOccurrence x)) := by
      rw [projectedOccurrences_repriced, hok]
      rfl
    have hlines := h x _ _ (getProjectedIncome_eq_ok.mpr ⟨_, hrepriced, rates, by rw [hcurrencies, hrates], rfl⟩)
      hrepriced period entity_id
    rwa [length_linesOf_repriced] at hlines
  · intro h x answer repricedOnes hanswer hok period entity_id
    obtain ⟨occurrences', hok', rates, hrates, rfl⟩ := getProjectedIncome_eq_ok.mp hanswer
    obtain rfl : repricedOnes = occurrences' := Except.ok.inj (hok.symm.trans hok')
    rw [projectedOccurrences_repriced] at hok
    obtain ⟨occurrences, hfirst, rfl⟩ := Runs.map_eq_ok.mp hok
    rw [hcurrencies] at hrates
    have hall := (hlaw hrates period entity_id).mpr
      (h _ occurrences (getProjectedIncome_eq_ok.mpr ⟨_, hfirst, rates, hrates, rfl⟩) hfirst period entity_id) x
    rwa [length_linesOf_repriced]

end

end FinHub.Projection

namespace FinHub.Sample

open Projection

def salaryIn (currency : Currency) : ScheduleRow where
  description := "salary"
  startDate := date 2026 1 15 (by decide)
  periodicityType := .monthly
  entityId := some 1
  currency := some currency
  type := some .income
  totalValue := some 1000

/-- A dollar is half a euro, as of the last day of 2025. -/
def halfRate : Ledger := { Ledger.empty .utc with currencies := [⟨usd, eur, 1 / 2, ⟨Time.startOfDay 20453, none⟩⟩] }

/-- January 2026 in euros, seen from its first midnight. -/
def january2026 : ProjectionCall where
  startDate := some 20454
  endDate := some 20484
  displayCurrency := some eur
  now := Time.startOfDay 20454

/-- 1000 euros and 1000 dollars come to 2000 euros, because the first schedule is in euros. -/
theorem dollars_taken_for_euros :
    ¬ ConvertsOwn halfRate january2026 [(1, salaryIn eur), (2, salaryIn usd)] [] := by
  intro h
  have hanswer : getProjectedIncome halfRate january2026
      ([(1, salaryIn eur), (2, salaryIn usd)].map (repriced fun _ => 1000)) [] =
        .ok ⟨[⟨"2026-01", 1, "Entity #1", .income, .other, eur, 2000, 1⟩],
          some ⟨[(usd, 1 / 2)], ⟨Time.startOfDay 20453, none⟩, false⟩⟩ := by
    decide +kernel
  have hok : projectedOccurrences halfRate january2026
      ([(1, salaryIn eur), (2, salaryIn usd)].map (repriced fun _ => 1000)) =
        .ok [⟨⟨1, 1, salaryIn eur⟩, date 2026 1 15 (by decide)⟩, ⟨⟨2, 1, salaryIn usd⟩, date 2026 1 15 (by decide)⟩] := by
    decide +kernel
  have hbad := h _ _ _ hanswer hok "2026-01" 1
  revert hbad
  decide +kernel

end FinHub.Sample
