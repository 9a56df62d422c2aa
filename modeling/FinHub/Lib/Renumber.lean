import FinHub.Lib.Table
import Mathlib.Logic.Equiv.Basic

/-!
# FinHub.Lib.Renumber

Tables that differ in the keys of their rows only.

* `Renumbered σ t t'`: `t'` has the rows of `t` under the keys that `σ` gives them, in some order.
* `exists_renumbered_reinsert`: rows that are taken out and inserted again come under new keys.
-/

namespace Tabular

namespace Table

variable {α : Type*} {t t' t'' : Table α} {σ τ : Equiv.Perm ℕ}

def renumber (σ : Equiv.Perm ℕ) (r : ℕ × α) : ℕ × α := (σ r.1, r.2)

def Renumbered (σ : Equiv.Perm ℕ) (t t' : Table α) : Prop := t'.rows.Perm (t.rows.map (renumber σ))

namespace Renumbered

theorem refl (t : Table α) : Renumbered (Equiv.refl ℕ) t t := by
  have hsame : t.rows.map (renumber (Equiv.refl ℕ)) = t.rows := List.map_id _
  rw [Renumbered, hsame]

theorem trans (h : Renumbered σ t t') (h' : Renumbered τ t' t'') : Renumbered (σ.trans τ) t t'' := by
  have hmap := List.Perm.trans h' (List.Perm.map (renumber τ) h)
  rw [List.map_map] at hmap
  exact hmap

/-- Rows that are picked out without their keys. -/
theorem filter (h : Renumbered σ t t') (p : α → Bool) :
    (t'.rows.filter fun r => p r.2).Perm ((t.rows.filter fun r => p r.2).map (renumber σ)) := by
  refine (List.Perm.filter (fun r => p r.2) h).trans (List.Perm.of_eq ?_)
  rw [List.filter_map]
  rfl

end Renumbered

/-! ## New keys -/

/-- Keys can be exchanged for new ones. -/
theorem exists_exchange {ks ls : List ℕ} (hlen : ks.length = ls.length) (hks : ks.Nodup) (hls : ls.Nodup)
    (hne : ∀ k ∈ ks, k ∉ ls) :
    ∃ σ : Equiv.Perm ℕ, ks.map σ = ls ∧ ∀ k, k ∉ ks → k ∉ ls → σ k = k := by
  induction ks generalizing ls with
  | nil =>
    obtain rfl := List.length_eq_zero_iff.mp hlen.symm
    exact ⟨Equiv.refl ℕ, rfl, fun _ _ _ => rfl⟩
  | cons k ks ih =>
    cases ls with
    | nil => cases hlen
    | cons l ls =>
      obtain ⟨hk, hks⟩ := List.nodup_cons.mp hks
      obtain ⟨hl, hls⟩ := List.nodup_cons.mp hls
      have hne' : ∀ k' ∈ ks, k' ∉ ls := fun k' hk' hmem =>
        hne k' (List.mem_cons_of_mem _ hk') (List.mem_cons_of_mem _ hmem)
      obtain ⟨σ, hσ, hfix⟩ := ih (Nat.succ_inj.mp hlen) hks hls hne'
      have hkl : k ∉ ls := fun hmem => hne k List.mem_cons_self (List.mem_cons_of_mem _ hmem)
      refine ⟨σ.trans (Equiv.swap k l), ?_, ?_⟩
      · rw [List.map_cons, Equiv.trans_apply, hfix k hk hkl, Equiv.swap_apply_left]
        refine congrArg (l :: ·) ?_
        rw [← hσ]
        refine List.map_congr_left fun k' hk' => ?_
        have hmem : σ k' ∈ ls := hσ ▸ List.mem_map_of_mem hk'
        exact Equiv.swap_apply_of_ne_of_ne (fun he => hkl (he ▸ hmem)) fun he => hl (he ▸ hmem)
      · intro k' hk' hl'
        obtain ⟨hnek, hks'⟩ := not_or.mp (mt List.mem_cons.mpr hk')
        obtain ⟨hnel, hls'⟩ := not_or.mp (mt List.mem_cons.mpr hl')
        rw [Equiv.trans_apply, hfix k' hks' hls', Equiv.swap_apply_of_ne_of_ne hnek hnel]

/-- Inserted rows come last, under keys that were free. -/
theorem exists_inserted (as : List α) (t : Table α) : ∃ fresh : List (ℕ × α),
    (as.foldl insert t).rows = t.rows ++ fresh ∧ fresh.map Prod.snd = as ∧ ∀ r ∈ fresh, t.next ≤ r.1 := by
  induction as generalizing t with
  | nil => exact ⟨[], (List.append_nil _).symm, rfl, fun r hr => absurd hr List.not_mem_nil⟩
  | cons a as ih =>
    obtain ⟨fresh, hrows, hsnd, hnext⟩ := ih (t.insert a)
    refine ⟨(t.next, a) :: fresh, ?_, by rw [List.map_cons, hsnd], ?_⟩
    · rw [List.foldl_cons, hrows]
      exact List.append_assoc _ _ _
    · intro r hr
      rcases List.mem_cons.mp hr with rfl | hr
      · exact le_rfl
      · exact (Nat.le_succ _).trans (hnext r hr)

theorem next_foldl_insert (as : List α) (t : Table α) : t.next ≤ (as.foldl insert t).next := by
  induction as generalizing t with
  | nil => exact le_rfl
  | cons a as ih => exact (Nat.le_succ _).trans (ih (t.insert a))

/-- Rows that are taken out and inserted again. -/
theorem exists_renumbered_reinsert (t : Table α) (p : ℕ × α → Bool) :
    ∃ σ : Equiv.Perm ℕ,
      Renumbered σ t (((t.rows.filter p).map Prod.snd).foldl insert (t.removeWhere p)) ∧
      ∀ k < t.next, (∀ r ∈ t.rows, p r = true → r.1 ≠ k) → σ k = k := by
  obtain ⟨fresh, hrows, hsnd, hnext⟩ := exists_inserted ((t.rows.filter p).map Prod.snd) (t.removeWhere p)
  have hlen : ((t.rows.filter p).map Prod.fst).length = (fresh.map Prod.fst).length := by
    have := congrArg List.length hsnd
    simpa only [List.length_map] using this.symm
  have hold : ((t.rows.filter p).map Prod.fst).Nodup :=
    t.nodup_keys.sublist (List.filter_sublist.map Prod.fst)
  have hnew : (fresh.map Prod.fst).Nodup := by
    have hkeys := nodup_keys (((t.rows.filter p).map Prod.snd).foldl insert (t.removeWhere p))
    rw [hrows, List.map_append] at hkeys
    exact (List.nodup_append.mp hkeys).2.1
  have hbelow : ∀ k < t.next, k ∉ fresh.map Prod.fst := by
    intro k hk hmem
    obtain ⟨r, hr, rfl⟩ := List.mem_map.mp hmem
    exact absurd (hnext r hr) (not_le.mpr hk)
  have hne : ∀ k ∈ (t.rows.filter p).map Prod.fst, k ∉ fresh.map Prod.fst := by
    intro k hk
    obtain ⟨r, hr, rfl⟩ := List.mem_map.mp hk
    exact hbelow _ (t.bounded r (List.mem_of_mem_filter hr))
  obtain ⟨σ, hσ, hfix⟩ := exists_exchange hlen hold hnew hne
  have hfixed : ∀ k < t.next, (∀ r ∈ t.rows, p r = true → r.1 ≠ k) → σ k = k := by
    intro k hk hfree
    refine hfix k (fun hmem => ?_) (hbelow k hk)
    obtain ⟨r, hr, rfl⟩ := List.mem_map.mp hmem
    obtain ⟨hr, hp⟩ := List.mem_filter.mp hr
    exact hfree r hr hp rfl
  refine ⟨σ, ?_, hfixed⟩
  -- The rows that were taken out are the fresh ones, the others keep their keys.
  have hmoved : (t.rows.filter p).map (renumber σ) = fresh := by
    have hfst : ((t.rows.filter p).map (renumber σ)).map Prod.fst = fresh.map Prod.fst := by
      rw [← hσ, List.map_map, List.map_map]
      rfl
    have hsnd' : ((t.rows.filter p).map (renumber σ)).map Prod.snd = fresh.map Prod.snd := by
      rw [hsnd, List.map_map]
      rfl
    rw [List.zip_of_prod hfst hsnd', ← List.zip_of_prod rfl rfl]
  have hstay : (t.removeWhere p).rows.map (renumber σ) = (t.removeWhere p).rows := by
    refine (List.map_congr_left fun r hr => ?_).trans (List.map_id _)
    obtain ⟨hmem, hp⟩ := mem_removeWhere.mp hr
    refine Prod.ext (hfixed r.1 (t.bounded r hmem) fun r' hr' hp' he => ?_) rfl
    have hsame : r' = r := Prod.ext he (t.unique (he ▸ hr') hmem)
    rw [hsame, hp] at hp'
    cases hp'
  rw [Renumbered, hrows]
  have hsplit := (List.filter_append_perm p t.rows).map (renumber σ)
  rw [List.map_append, hmoved] at hsplit
  refine List.Perm.trans ?_ hsplit
  refine List.perm_append_comm.trans (List.Perm.of_eq ?_)
  exact congrArg (fresh ++ ·) hstay.symm

end Table

end Tabular
