import Interledger.Table

/-! Tables seen through their keys: what is present, and what a key leads to. -/

namespace Interledger.Table

variable {κ α : Type} [DecidableEq κ]

theorem contains_iff_mem_keys {t : Table κ α} {k : κ} : t.contains k ↔ k ∈ t.keys := by
  obtain ⟨es⟩ := t
  simp only [contains, get?, keys, Option.isSome_map, List.find?_isSome, List.mem_map,
    decide_eq_true_eq]

theorem get?_eq_none_iff {t : Table κ α} {k : κ} : t.get? k = none ↔ t.contains k = false := by
  rw [contains, Option.isSome_eq_false_iff, Option.isNone_iff_eq_none]

theorem contains_iff_exists {t : Table κ α} {k : κ} : t.contains k ↔ ∃ a, t.get? k = some a :=
  Option.isSome_iff_exists

@[simp] theorem contains_insert (t : Table κ α) (k j : κ) (a : α) :
    (t.insert k a).contains j = (decide (j = k) || t.contains j) := by
  by_cases h : j = k <;> simp [contains, get?_insert, h]

@[simp] theorem contains_modify (t : Table κ α) (k j : κ) (f : α → α) :
    (t.modify k f).contains j = t.contains j := by
  by_cases h : j = k <;> simp [contains, get?_modify, h]

theorem keys_insert (t : Table κ α) (k : κ) (a : α) :
    (t.insert k a).keys = if t.contains k then t.keys else t.keys ++ [k] := by
  unfold insert
  split
  · exact keys_modify t k _
  · simp [keys]

theorem nodup_keys_insert {t : Table κ α} (h : t.keys.Nodup) (k : κ) (a : α) :
    (t.insert k a).keys.Nodup := by
  rw [keys_insert]
  split
  · exact h
  next hk =>
    have hk : k ∉ t.keys := fun hm => hk (contains_iff_mem_keys.2 hm)
    refine List.nodup_append.2 ⟨h, by simp, ?_⟩
    rintro j hj _ hk' rfl
    exact hk (List.mem_singleton.1 hk' ▸ hj)

theorem modify_of_get?_eq_none {t : Table κ α} {k : κ} (h : t.get? k = none) (f : α → α) :
    t.modify k f = t := by
  have hk : ∀ e ∈ t.entries, e.1 ≠ k := by
    rintro e he rfl
    have hc := contains_iff_mem_keys.2 (List.mem_map_of_mem he : e.1 ∈ t.keys)
    rw [get?_eq_none_iff.1 h] at hc
    cases hc
  obtain ⟨es⟩ := t
  exact congrArg mk ((List.map_congr_left fun e he => if_neg (hk e he)).trans (List.map_id' es))

theorem keys_erase (t : Table κ α) (k : κ) : (t.erase k).keys = t.keys.filter (· ≠ k) := by
  rw [keys, keys, List.filter_map]
  rfl

/-- With unique keys, a key leads to the one entry that it stands in. -/
theorem get?_eq_some_iff {t : Table κ α} (h : t.keys.Nodup) {k : κ} {a : α} :
    t.get? k = some a ↔ (k, a) ∈ t.entries := by
  obtain ⟨es⟩ := t
  simp only [get?, keys] at h ⊢
  induction es with
  | nil => simp
  | cons e es ih =>
    obtain ⟨j, b⟩ := e
    simp only [List.map_cons, List.nodup_cons, List.mem_map, Prod.exists, exists_and_right,
      exists_eq_right] at h
    obtain ⟨hj, hes⟩ := h
    rw [List.find?_cons, List.mem_cons]
    by_cases hk : j = k
    · subst hk
      have hn : (j, a) ∉ es := fun hm => hj ⟨a, hm⟩
      simp [hn, eq_comm]
    · simpa [hk, Ne.symm hk] using ih hes

theorem get?_cons (e : κ × α) (es : List (κ × α)) (k : κ) :
    (⟨e :: es⟩ : Table κ α).get? k = if e.1 = k then some e.2 else (⟨es⟩ : Table κ α).get? k := by
  simp only [get?, List.find?_cons]
  by_cases hk : e.1 = k <;> simp [hk]

/-- With unique keys, what is left of the values is left under their keys. -/
theorem get?_filter {t : Table κ α} (h : t.keys.Nodup) (p : α → Bool) (k : κ) :
    (⟨t.entries.filter (p ·.2)⟩ : Table κ α).get? k = (t.get? k).filter p := by
  have hkeys : (⟨t.entries.filter (p ·.2)⟩ : Table κ α).keys.Nodup :=
    h.sublist (List.filter_sublist.map _)
  ext a
  rw [get?_eq_some_iff hkeys, Option.filter_eq_some_iff, get?_eq_some_iff h, List.mem_filter]

/-- A change of the values alone, seen through a key. -/
theorem get?_mapValues (t : Table κ α) (f : α → α) (k : κ) :
    (⟨t.entries.map fun e => (e.1, f e.2)⟩ : Table κ α).get? k = (t.get? k).map f := by
  obtain ⟨es⟩ := t
  simp only [get?, List.find?_map, Option.map_map, Function.comp_def]

end Interledger.Table
