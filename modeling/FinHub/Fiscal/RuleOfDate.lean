import FinHub.Fiscal.Periods
import FinHub.Tax.TaxablePnl

/-!
# FinHub.Fiscal.RuleOfDate

The rule the fiscal periods of a profile give a date.

* `KeyOf`: the key of the period that contains the date, or the empty key. Between periods that share no
  date it is unique, and it is what the ledger's lookup finds (`keyOf_ruleOn`).
* `PeriodRequest.Keeps`: the requests after which the date has the key it had (`exists_keyOf_call`).
-/

namespace FinHub

open Tabular

/-! ## The rule of a date -/

namespace Ledger

/-- The period that contains a date. -/
def periodOn (s : Ledger) (d : ℤ) : Option FiscalPeriod :=
  (s.fiscalPeriods.filter fun p =>
    decide (p.startDate ≤ d) && p.endDate.all fun e => decide (d ≤ e)).argmax FiscalPeriod.startDate

/-- The key of that period; an empty one counts as none. -/
def ruleOn (s : Ledger) (d : ℤ) : Option String :=
  ((s.periodOn d).map FiscalPeriod.ruleKey).filter fun k => decide (k ≠ "")

/-- The rule the write-time snapshot prescribes for an operation of this date. -/
def prescribedRule (s : Ledger) (d : ℤ) : Option String := (s.ruleOn d).or s.defaultFiscalRule

variable {s : Ledger}

theorem resolveFiscalRule_filter (ts : Timestamp) :
    (s.resolveFiscalRule ts).filter (fun k => decide (k ≠ "")) =
      s.ruleOn (s.timezone.utcInstantToProfileDate ts) := rfl

theorem fiscalRuleFor_sell (ts : Timestamp) : s.fiscalRuleFor .investmentSell ts =
    s.prescribedRule (s.timezone.utcInstantToProfileDate ts) := rfl

end Ledger

theorem textOr_filter (value : Option String) (default_ : String) :
    textOr (value.filter fun k => decide (k ≠ "")) default_ = textOr value default_ := by
  cases value with
  | none => rfl
  | some v => by_cases hv : v = "" <;> simp [textOr, Option.filter, hv]

namespace FiscalPeriodRow

/-- The window of `get_fiscal_period_at`, on any day. -/
def Covers (r : FiscalPeriodRow) (d : ℤ) : Prop := r.startDate.1 ≤ d ∧ ∀ e ∈ r.endDate, d ≤ e.1

instance (r : FiscalPeriodRow) (d : ℤ) : Decidable (r.Covers d) := inferInstanceAs (Decidable (_ ∧ _))

/-- The key a period gives a date. -/
def keyOn (r : FiscalPeriodRow) (d : ℤ) : String := if r.Covers d then r.ruleKey else ""

variable {r r' : FiscalPeriodRow} {d : ℤ}

theorem covers_iff : r.Covers d ↔
    (decide (r.toPeriod.startDate ≤ d) && r.toPeriod.endDate.all fun e => decide (d ≤ e)) = true := by
  cases hend : r.endDate <;> simp [Covers, toPeriod, hend]

theorem le_toDate (h : r.Covers d) {x : DateValue} (hx : x.1 ≤ d) : x ≤ toDate r.endDate := by
  cases hend : r.endDate with
  | none => exact x.le_max
  | some e => exact Subtype.coe_le_coe.mp (le_trans hx (h.2 e hend))

theorem ordered_of_covers (h : r.Covers d) : r.span.Ordered := le_toDate h h.1

theorem crosses_of_covers (h : r.Covers d) (h' : r'.Covers d) : r.span.Crosses r'.span :=
  ⟨le_toDate h' h.1, le_toDate h h'.1⟩

end FiscalPeriodRow

/-- `k` is the key of the period of the profile that contains the date, or empty where there is none. -/
inductive KeyOf (t : FiscalPeriods) (profile_id : ℕ) (d : ℤ) : String → Prop where
  | period (id : ℕ) (r : FiscalPeriodRow) (hr : (id, r) ∈ t.rows) (hp : r.profileId = profile_id)
      (hc : r.Covers d) : KeyOf t profile_id d r.ruleKey
  | none (h : ∀ id r, (id, r) ∈ t.rows → r.profileId = profile_id → ¬ r.Covers d) :
      KeyOf t profile_id d ""

section Key

variable {t : FiscalPeriods} {profile_id : ℕ} {d : ℤ}

theorem NoShared.eq_of_covers (h : NoShared t) {i j : ℕ} {a b : FiscalPeriodRow} (ha : (i, a) ∈ t.rows)
    (hb : (j, b) ∈ t.rows) (hp : a.profileId = b.profileId) (hca : a.Covers d) (hcb : b.Covers d) :
    i = j := by
  by_contra hij
  refine h (i, a) ha (j, b) hb hp hij ?_
  exact Range.meets_of_crosses (FiscalPeriodRow.ordered_of_covers hca)
    (FiscalPeriodRow.ordered_of_covers hcb) (FiscalPeriodRow.crosses_of_covers hca hcb)

theorem KeyOf.unique (h : NoShared t) {k k' : String} (hk : KeyOf t profile_id d k)
    (hk' : KeyOf t profile_id d k') : k = k' := by
  cases hk with
  | period i a ha hpa hca =>
    cases hk' with
    | period j b hb hpb hcb =>
      have hij := h.eq_of_covers ha hb (hpa.trans hpb.symm) hca hcb
      subst hij
      rw [t.unique ha hb]
    | none hnone => exact absurd hca (hnone i a ha hpa)
  | none hnone =>
    cases hk' with
    | period j b hb hpb hcb => exact absurd hcb (hnone j b hb hpb)
    | none => rfl

/-- The lookup of the ledger finds the key. -/
theorem keyOf_ruleOn {l : Ledger} (hl : l.fiscalPeriods = periodsOf t profile_id) (d : ℤ) :
    KeyOf t profile_id d ((l.ruleOn d).getD "") := by
  have hmem : ∀ p, p ∈ l.fiscalPeriods.filter (fun p => decide (p.startDate ≤ d) &&
      p.endDate.all fun e => decide (d ≤ e)) ↔
        ∃ id r, (id, r) ∈ t.rows ∧ r.profileId = profile_id ∧ r.Covers d ∧ r.toPeriod = p := by
    intro p
    rw [hl]
    simp only [periodsOf, FiscalPeriodSvc.getAllFiscalPeriods, List.mem_filter, List.mem_map,
      decide_eq_true_eq]
    constructor
    · rintro ⟨⟨r, ⟨hr, hp⟩, hrp⟩, hwindow⟩
      subst hrp
      exact ⟨r.1, r.2, hr, hp, FiscalPeriodRow.covers_iff.mpr hwindow, rfl⟩
    · rintro ⟨id, r, hr, hp, hc, hrp⟩
      subst hrp
      exact ⟨⟨(id, r), ⟨hr, hp⟩, rfl⟩, FiscalPeriodRow.covers_iff.mp hc⟩
  cases hperiod : l.periodOn d with
  | none =>
    have hnil := List.argmax_eq_none.mp hperiod
    have hkey : (l.ruleOn d).getD "" = "" := by simp [Ledger.ruleOn, hperiod]
    rw [hkey]
    refine .none fun id r hr hp hc => ?_
    have := (hmem r.toPeriod).mpr ⟨id, r, hr, hp, hc, rfl⟩
    rw [hnil] at this
    cases this
  | some p =>
    obtain ⟨id, r, hr, hp, hc, hrp⟩ := (hmem p).mp (List.argmax_mem hperiod)
    have hkey : (l.ruleOn d).getD "" = r.ruleKey := by
      subst hrp
      by_cases hempty : r.ruleKey = "" <;>
        simp [Ledger.ruleOn, hperiod, FiscalPeriodRow.toPeriod, Option.filter, hempty]
    rw [hkey]
    exact .period id r hr hp hc

theorem Ledger.ruleOn_eq_iff {l l' : Ledger} :
    l.ruleOn d = l'.ruleOn d ↔ (l.ruleOn d).getD "" = (l'.ruleOn d).getD "" := by
  refine ⟨fun h => by rw [h], fun h => ?_⟩
  have hne : ∀ (s : Ledger) k, s.ruleOn d = some k → k ≠ "" := fun s k hk =>
    of_decide_eq_true (Option.filter_eq_some_iff.mp hk).2
  cases hl : l.ruleOn d with
  | none =>
    cases hl' : l'.ruleOn d with
    | none => rfl
    | some k =>
      rw [hl, hl'] at h
      exact absurd h.symm (hne l' k hl')
  | some k =>
    cases hl' : l'.ruleOn d with
    | none =>
      rw [hl, hl'] at h
      exact absurd h (hne l k hl)
    | some k' =>
      rw [hl, hl'] at h
      exact congrArg some h

end Key

/-! ## Requests that keep the rule of a date -/

/-- An accepted request of the profile that gives the date the key it had. -/
def PeriodRequest.Keeps (t : FiscalPeriods) (profile_id : ℕ) (d : ℤ) : PeriodRequest → Prop
  | .create p body => p = profile_id → FiscalPeriodSvc.overlapsExisting t p body none = false →
      (body.toRow p).keyOn d = ""
  | .update p period_id body => p = profile_id →
      ∀ old ∈ FiscalPeriodSvc.getFiscalPeriod t p period_id,
        FiscalPeriodSvc.overlapsExisting t p body (some period_id) = false →
          (body.toRow p).keyOn d = old.keyOn d
  | .delete p period_id => p = profile_id →
      ∀ old ∈ FiscalPeriodSvc.getFiscalPeriod t p period_id, old.keyOn d = ""

/-- The profile a request is made under. -/
def PeriodRequest.profileId : PeriodRequest → ℕ
  | .create p _ | .update p _ _ | .delete p _ => p

section Requests

variable {t t' : FiscalPeriods} {profile_id : ℕ} {d : ℤ} {k : String}

/-- The key of a row that may be missing. -/
def keyOn? (r : Option FiscalPeriodRow) (d : ℤ) : String := (r.map fun r => r.keyOn d).getD ""

theorem keyOn?_of_covers {r : Option FiscalPeriodRow} {a : FiscalPeriodRow} (hr : r = some a)
    (hc : a.Covers d) : keyOn? r d = a.ruleKey := by
  simp [keyOn?, hr, FiscalPeriodRow.keyOn, hc]

theorem keyOn?_of_not_covers {r : Option FiscalPeriodRow} (h : ∀ a, r = some a → ¬ a.Covers d) :
    keyOn? r d = "" := by
  cases r with
  | none => rfl
  | some a => simp [keyOn?, FiscalPeriodRow.keyOn, h a rfl]

/-- The row `id` of the profile is replaced, put in or taken out; no other period of the profile has a
date of the old row or of the new one. -/
structure Replaces (t t' : FiscalPeriods) (profile_id id : ℕ) (old new : Option FiscalPeriodRow) : Prop where
  other : ∀ j r, j ≠ id → ((j, r) ∈ t'.rows ↔ (j, r) ∈ t.rows)
  mem_old : ∀ r, (id, r) ∈ t.rows ↔ old = some r
  mem_new : ∀ r, (id, r) ∈ t'.rows ↔ new = some r
  profile : ∀ r, old = some r ∨ new = some r → r.profileId = profile_id
  free : ∀ d r, old = some r ∨ new = some r → r.Covers d → ∀ j a, j ≠ id → (j, a) ∈ t.rows →
    a.profileId = profile_id → ¬ a.Covers d

/-- The key of the date stays exactly if the row gives the date the key it gave before. -/
theorem Replaces.exists_keyOf {id : ℕ} {old new : Option FiscalPeriodRow}
    (h : Replaces t t' profile_id id old new) (hdisjoint : NoShared t) (hk : KeyOf t profile_id d k) :
    ∃ k', KeyOf t' profile_id d k' ∧ (k' = k ↔ keyOn? new d = keyOn? old d) := by
  by_cases hrest : ∃ j a, j ≠ id ∧ (j, a) ∈ t.rows ∧ a.profileId = profile_id ∧ a.Covers d
  · -- another period has the date, before and after
    obtain ⟨j, a, hj, ha, hp, hc⟩ := hrest
    have hkey : k = a.ruleKey := hk.unique hdisjoint (.period j a ha hp hc)
    have hnewKey : keyOn? new d = "" :=
      keyOn?_of_not_covers fun r hr hcr => h.free d r (.inr hr) hcr j a hj ha hp hc
    have holdKey : keyOn? old d = "" :=
      keyOn?_of_not_covers fun r hr hcr => h.free d r (.inl hr) hcr j a hj ha hp hc
    refine ⟨a.ruleKey, .period j a ((h.other j a hj).mpr ha) hp hc, ?_⟩
    rw [hnewKey, holdKey, hkey]
    simp
  · have hkey : k = keyOn? old d := by
      cases hk with
      | period j r hr hp hc =>
        by_cases hj : j = id
        · subst hj
          rw [keyOn?_of_covers ((h.mem_old r).mp hr) hc]
        · exact absurd ⟨j, r, hj, hr, hp, hc⟩ hrest
      | none hnone =>
        rw [keyOn?_of_not_covers]
        intro r hr hc
        exact hnone id r ((h.mem_old r).mpr hr) (h.profile r (.inl hr)) hc
    have hrest' : ∀ j a, j ≠ id → (j, a) ∈ t'.rows → a.profileId = profile_id → ¬ a.Covers d := by
      intro j a hj ha hp hc
      exact hrest ⟨j, a, hj, (h.other j a hj).mp ha, hp, hc⟩
    refine ⟨keyOn? new d, ?_, by rw [hkey]⟩
    by_cases hcover : ∃ r, new = some r ∧ r.Covers d
    · obtain ⟨r, hr, hc⟩ := hcover
      rw [keyOn?_of_covers hr hc]
      exact .period id r ((h.mem_new r).mpr hr) (h.profile r (.inr hr)) hc
    · rw [keyOn?_of_not_covers fun r hr hc => hcover ⟨r, hr, hc⟩]
      refine .none fun j r hr hp hc => ?_
      by_cases hj : j = id
      · subst hj
        exact hcover ⟨r, (h.mem_new r).mp hr, hc⟩
      · exact hrest' j r hj hr hp hc

/-- Rows of other profiles do not matter. -/
theorem KeyOf.congr (hk : KeyOf t profile_id d k)
    (hrows : ∀ j r, r.profileId = profile_id → ((j, r) ∈ t'.rows ↔ (j, r) ∈ t.rows)) :
    KeyOf t' profile_id d k := by
  cases hk with
  | period id r hr hp hc => exact .period id r ((hrows id r hp).mpr hr) hp hc
  | none hnone => exact .none fun id r hr hp hc => hnone id r ((hrows id r hp).mp hr) hp hc

theorem not_covers_of_accepted {body : FiscalPeriodCreate} {exclude_id : Option ℕ}
    (h : FiscalPeriodSvc.overlapsExisting t profile_id body exclude_id = false)
    (hc : (body.toRow profile_id).Covers d) {j : ℕ} {a : FiscalPeriodRow} (ha : (j, a) ∈ t.rows)
    (hp : a.profileId = profile_id) (hj : exclude_id ≠ some j) : ¬ a.Covers d := by
  intro hca
  have hover : FiscalPeriodSvc.overlapsExisting t profile_id body exclude_id = true :=
    FiscalPeriodSvc.overlapsExisting_eq_true_iff.mpr
      ⟨(j, a), ha, hp, hj, FiscalPeriodRow.crosses_of_covers hc hca⟩
  rw [h] at hover
  cases hover

theorem replaces_insert {body : FiscalPeriodCreate}
    (h : FiscalPeriodSvc.overlapsExisting t profile_id body none = false) :
    Replaces t (t.insert (body.toRow profile_id)) profile_id t.next none (some (body.toRow profile_id)) := by
  have hfresh : ∀ r, (t.next, r) ∉ t.rows := fun r hr => lt_irrefl _ (t.bounded _ hr)
  constructor
  · intro j r hj
    simp [Table.mem_insert, hj]
  · intro r
    simp [hfresh]
  · intro r
    simp [Table.mem_insert, hfresh, eq_comm]
  · intro r hr
    rcases hr with hr | hr <;> cases hr
    rfl
  · intro d r hr hc j a _ ha hp
    rcases hr with hr | hr <;> cases hr
    exact not_covers_of_accepted h hc ha hp (by simp)

theorem replaces_modify (hdisjoint : NoShared t) {id : ℕ} {old : FiscalPeriodRow}
    (hold : FiscalPeriodSvc.getFiscalPeriod t profile_id id = some old) {body : FiscalPeriodCreate}
    (h : FiscalPeriodSvc.overlapsExisting t profile_id body (some id) = false) :
    Replaces t (t.modify id fun _ => body.toRow profile_id) profile_id id (some old)
      (some (body.toRow profile_id)) := by
  obtain ⟨hmem, hprofile⟩ := FiscalPeriodSvc.getFiscalPeriod_eq_some_iff.mp hold
  constructor
  · intro j r hj
    simp [Table.mem_modify, hj]
  · intro r
    refine ⟨fun hr => congrArg some (t.unique hmem hr), fun hr => ?_⟩
    cases hr
    exact hmem
  · intro r
    simp only [Table.mem_modify, ne_eq, not_true_eq_false, false_and, true_and, false_or,
      Option.some.injEq]
    constructor
    · rintro ⟨_, _, hr⟩
      exact hr
    · exact fun hr => ⟨old, hmem, hr⟩
  · intro r hr
    rcases hr with hr | hr <;> cases hr
    · exact hprofile
    · rfl
  · intro d r hr hc j a hj ha hp
    rcases hr with hr | hr <;> cases hr
    · exact fun hca => hj (hdisjoint.eq_of_covers ha hmem (hp.trans hprofile.symm) hca hc)
    · exact not_covers_of_accepted h hc ha hp (by simpa using Ne.symm hj)

theorem replaces_erase (hdisjoint : NoShared t) {id : ℕ} {old : FiscalPeriodRow}
    (hold : FiscalPeriodSvc.getFiscalPeriod t profile_id id = some old) :
    Replaces t (t.erase id) profile_id id (some old) none := by
  obtain ⟨hmem, hprofile⟩ := FiscalPeriodSvc.getFiscalPeriod_eq_some_iff.mp hold
  constructor
  · intro j r hj
    simp [Table.mem_erase, hj]
  · intro r
    refine ⟨fun hr => congrArg some (t.unique hmem hr), fun hr => ?_⟩
    cases hr
    exact hmem
  · intro r
    simp [Table.mem_erase]
  · intro r hr
    rcases hr with hr | hr <;> cases hr
    exact hprofile
  · intro d r hr hc j a hj ha hp
    rcases hr with hr | hr <;> cases hr
    exact fun hca => hj (hdisjoint.eq_of_covers ha hmem (hp.trans hprofile.symm) hca hc)

/-- A request of another profile keeps the key. -/
theorem KeyOf.call_of_ne {req : PeriodRequest} (hk : KeyOf t profile_id d k)
    (hp : req.profileId ≠ profile_id) : KeyOf (req.call t).1 profile_id d k := by
  refine hk.congr fun j r hr => ?_
  cases req with
  | create p body =>
    simp only [PeriodRequest.call, FiscalPeriodSvc.create]
    split_ifs
    · rfl
    · refine Table.mem_insert.trans ⟨fun hmem => ?_, .inl⟩
      rcases hmem with hmem | hmem
      · exact hmem
      · cases hmem
        exact absurd hr hp
  | update p id body =>
    simp only [PeriodRequest.call, FiscalPeriodSvc.update]
    cases hold : FiscalPeriodSvc.getFiscalPeriod t p id with
    | none => rfl
    | some old =>
      obtain ⟨hmem, hprofile⟩ := FiscalPeriodSvc.getFiscalPeriod_eq_some_iff.mp hold
      dsimp only
      split_ifs
      · rfl
      · rw [Table.mem_modify]
        constructor
        · intro hmem'
          rcases hmem' with ⟨_, hmem'⟩ | ⟨_, _, _, rfl⟩
          · exact hmem'
          · exact absurd hr hp
        · intro hmem'
          refine .inl ⟨fun hj => ?_, hmem'⟩
          subst hj
          rw [t.unique hmem' hmem, hprofile] at hr
          exact hp hr
  | delete p id =>
    simp only [PeriodRequest.call, FiscalPeriodSvc.delete]
    cases hold : FiscalPeriodSvc.getFiscalPeriod t p id with
    | none => rfl
    | some old =>
      obtain ⟨hmem, hprofile⟩ := FiscalPeriodSvc.getFiscalPeriod_eq_some_iff.mp hold
      rw [Table.mem_erase]
      refine ⟨fun hmem' => hmem'.1, fun hmem' => ⟨hmem', fun hj => ?_⟩⟩
      simp only at hj
      subst hj
      rw [t.unique hmem' hmem, hprofile] at hr
      exact hp hr

theorem PeriodRequest.keeps_of_ne {req : PeriodRequest} (hp : req.profileId ≠ profile_id) :
    req.Keeps t profile_id d := by
  cases req <;> exact fun he => absurd he hp

/-- A request leaves the key of the date exactly if it is one that keeps it. -/
theorem exists_keyOf_call (hdisjoint : NoShared t) (req : PeriodRequest) (hk : KeyOf t profile_id d k) :
    ∃ k', KeyOf (req.call t).1 profile_id d k' ∧ (k' = k ↔ req.Keeps t profile_id d) := by
  by_cases hp : req.profileId = profile_id
  swap
  · exact ⟨k, hk.call_of_ne hp, iff_of_true rfl (PeriodRequest.keeps_of_ne hp)⟩
  subst hp
  cases req with
  | create p body =>
    simp only [PeriodRequest.call, FiscalPeriodSvc.create, PeriodRequest.Keeps, PeriodRequest.profileId]
      at hk ⊢
    cases hover : FiscalPeriodSvc.overlapsExisting t p body none with
    | true => exact ⟨k, hk, by simp⟩
    | false =>
      obtain ⟨k', hk', hiff⟩ := (replaces_insert hover).exists_keyOf hdisjoint hk
      exact ⟨k', hk', hiff.trans (by simp [keyOn?])⟩
  | update p id body =>
    simp only [PeriodRequest.call, FiscalPeriodSvc.update, PeriodRequest.Keeps, PeriodRequest.profileId]
      at hk ⊢
    cases hold : FiscalPeriodSvc.getFiscalPeriod t p id with
    | none => exact ⟨k, hk, by simp⟩
    | some old =>
      cases hover : FiscalPeriodSvc.overlapsExisting t p body (some id) with
      | true => exact ⟨k, hk, by simp⟩
      | false =>
        obtain ⟨k', hk', hiff⟩ := (replaces_modify hdisjoint hold hover).exists_keyOf hdisjoint hk
        exact ⟨k', hk', hiff.trans (by simp [keyOn?])⟩
  | delete p id =>
    simp only [PeriodRequest.call, FiscalPeriodSvc.delete, PeriodRequest.Keeps, PeriodRequest.profileId]
      at hk ⊢
    cases hold : FiscalPeriodSvc.getFiscalPeriod t p id with
    | none => exact ⟨k, hk, by simp⟩
    | some old =>
      obtain ⟨k', hk', hiff⟩ := (replaces_erase hdisjoint hold).exists_keyOf hdisjoint hk
      exact ⟨k', hk', hiff.trans (by simp [keyOn?])⟩

end Requests

end FinHub
