import FinHub.Lib.Past

/-!
# FinHub.Lib.AsOf

Dated states looked up by a pointer that only moves forward.

* `trail`: the states of a run, each with the instant of its item.
* `advance`, `join`: one pass over queries in order, with a pointer into the trail.
* `join_trail`: the pass finds for each query the state that the items up to it lead to.
-/

namespace FinHub.AsOf

open Past StepSeries

variable {ι κ σ T : Type}

/-- The states after each item, with the instants of the items. -/
def trail (time : ι → T) (step : σ → ι → σ) : σ → List ι → List (T × σ)
  | _, [] => []
  | s, i :: items => (time i, step s i) :: trail time step (step s i) items

theorem map_fst_trail {time : ι → T} {step : σ → ι → σ} {s : σ} {items : List ι} :
    (trail time step s items).map Prod.fst = items.map time := by
  induction items generalizing s with
  | nil => rfl
  | cons i items ih => exact congrArg _ ih

variable [LinearOrder T]

/-- The pointer moves to the last entry up to an instant, unless it starts after it. -/
def advance (t : T) : T × σ → List (T × σ) → (T × σ) × List (T × σ)
  | e, next :: rest => if next.1 ≤ t then advance t next rest else (e, next :: rest)
  | e, [] => (e, [])

/-- Each query with the state that the pointer finds, `none` before the first entry. -/
def joinFrom (query : κ → T) : T × σ → List (T × σ) → List κ → List (κ × Option σ)
  | _, _, [] => []
  | e, rest, q :: queries =>
    let found := advance (query q) e rest
    (q, if found.1.1 ≤ query q then some found.1.2 else none) :: joinFrom query found.1 found.2 queries

def join (query : κ → T) (entries : List (T × σ)) (queries : List κ) : List (κ × Option σ) :=
  match entries with
  | [] => queries.map (·, none)
  | e :: rest => joinFrom query e rest queries

/-- The last entry up to an instant. -/
def lookup (entries : List (T × σ)) (t : T) : Option σ := ((upTo Prod.fst t entries).getLast?).map Prod.snd

variable {time : ι → T} {step : σ → ι → σ} {s : σ} {query : κ → T} {e : T × σ} {rest : List (T × σ)}
  {entries : List (T × σ)} {t u : T}

theorem lookup_cons : lookup (e :: rest) t = (lookup rest t).or (if e.1 ≤ t then some e.2 else none) := by
  unfold lookup
  rcases le_or_gt e.1 t with hle | hlt
  · rw [upTo_cons_of_le hle, List.getLast?_cons, if_pos hle]
    cases (upTo Prod.fst t rest).getLast? <;> rfl
  · rw [upTo_cons_of_lt hlt, if_neg (not_le.mpr hlt), Option.or_none]

/-- An entry before another one that is up to the instant is not read. -/
theorem lookup_cons_cons {next : T × σ} (h : next.1 ≤ t) : lookup (e :: next :: rest) t = lookup (next :: rest) t := by
  rw [lookup_cons, lookup_cons (e := next), if_pos h]
  cases lookup rest t <;> rfl

theorem lookup_of_later (h : ∀ x ∈ entries, t < x.1) : lookup entries t = none := by
  unfold lookup
  rw [upTo_eq_nil h]
  rfl

/-- Where the pointer stands, the look-ups from now on are those of the whole list. -/
theorem lookup_advance (h : t ≤ u) :
    lookup ((advance t e rest).1 :: (advance t e rest).2) u = lookup (e :: rest) u := by
  induction rest generalizing e with
  | nil => rfl
  | cons next rest ih =>
    unfold advance
    split_ifs with hnext
    · rw [ih, lookup_cons_cons (hnext.trans h)]
    · rfl

/-- What the pointer leaves is later. -/
theorem lt_of_mem_advance (hordered : Ordered Prod.fst (e :: rest)) : ∀ x ∈ (advance t e rest).2, t < x.1 := by
  induction rest generalizing e with
  | nil => exact fun x hx => absurd hx List.not_mem_nil
  | cons next rest ih =>
    unfold advance
    split_ifs with hnext
    · exact ih (List.pairwise_cons.mp hordered).2
    · intro x hx
      have hhead := (List.pairwise_cons.mp (List.pairwise_cons.mp hordered).2).1
      rcases List.mem_cons.mp hx with rfl | hx
      · exact not_le.mp hnext
      · exact (not_le.mp hnext).trans_le (hhead x hx)

/-- The pointer stands on what a look-up finds. -/
theorem advance_eq_lookup (hordered : Ordered Prod.fst (e :: rest)) :
    (if (advance t e rest).1.1 ≤ t then some (advance t e rest).1.2 else none) = lookup (e :: rest) t := by
  rw [← lookup_advance le_rfl]
  have hlater := lt_of_mem_advance (t := t) hordered
  rw [lookup_cons, lookup_of_later hlater, Option.none_or]

theorem ordered_advance (hordered : Ordered Prod.fst (e :: rest)) :
    Ordered Prod.fst ((advance t e rest).1 :: (advance t e rest).2) := by
  induction rest generalizing e with
  | nil => exact hordered
  | cons next rest ih =>
    unfold advance
    split_ifs
    · exact ih (List.pairwise_cons.mp hordered).2
    · exact hordered

theorem joinFrom_eq {queries : List κ} (hordered : Ordered Prod.fst (e :: rest)) (hqueries : Ordered query queries) :
    joinFrom query e rest queries = queries.map fun q => (q, lookup (e :: rest) (query q)) := by
  induction queries generalizing e rest with
  | nil => rfl
  | cons q queries ih =>
    obtain ⟨hfirst, hqueries⟩ := List.pairwise_cons.mp hqueries
    unfold joinFrom
    dsimp only
    rw [List.map_cons, advance_eq_lookup hordered, ih (ordered_advance hordered) hqueries]
    refine congrArg _ (List.map_congr_left fun q' hq' => ?_)
    rw [lookup_advance (hfirst q' hq')]

/-- One pass finds what each look-up would. -/
theorem join_eq {queries : List κ} (hordered : Ordered Prod.fst entries) (hqueries : Ordered query queries) :
    join query entries queries = queries.map fun q => (q, lookup entries (query q)) := by
  cases entries with
  | nil => rfl
  | cons e rest => exact joinFrom_eq hordered hqueries

variable {items : List ι}

theorem ordered_trail (h : Ordered time items) : Ordered Prod.fst (trail time step s items) := by
  have hmap : (items.map time).Pairwise (· ≤ ·) := List.pairwise_map.mpr h
  have hfst : (trail time step s items).map Prod.fst = items.map time := map_fst_trail
  rw [← hfst] at hmap
  exact List.pairwise_map.mp hmap

/-- A look-up in the trail is the state that the items up to the instant lead to. -/
theorem lookup_trail (h : Ordered time items) : lookup (trail time step s items) t =
    if upTo time t items = [] then none else some ((upTo time t items).foldl step s) := by
  induction items generalizing s with
  | nil => rfl
  | cons i items ih =>
    obtain ⟨hfirst, hordered⟩ := List.pairwise_cons.mp h
    unfold trail
    rw [lookup_cons, ih hordered]
    rcases le_or_gt (time i) t with hle | hlt
    · rw [upTo_cons_of_le hle, if_pos hle, if_neg (List.cons_ne_nil _ _), List.foldl_cons]
      cases upTo time t items <;> rfl
    · rw [upTo_cons_of_lt hlt, if_neg (not_le.mpr hlt), upTo_eq_nil fun j hj => hlt.trans_le (hfirst j hj)]
      rfl

/-- One pass finds the state at each query. -/
theorem join_trail {queries : List κ} (h : Ordered time items) (hqueries : Ordered query queries) :
    join query (trail time step s items) queries = queries.map fun q => (q,
      if upTo time (query q) items = [] then none else some ((upTo time (query q) items).foldl step s)) := by
  rw [join_eq (ordered_trail h) hqueries]
  exact List.map_congr_left fun q _ => by rw [lookup_trail h]

end FinHub.AsOf
