import BlockSeal.Proofs.Recency.History

/-! # What a bounded map drops

Using a key can cost another entry its place: the one that was used longest ago, when the key is new
and the map is full. Nothing else is ever given up.

* `dropped?`: the key that loses its place when a key is used.
* `exists_entries_touch`: all entries after that, in their order.
* `peek_touch`: all values after that, in terms of the values before.
* `contains_touch_eq_false_iff`: exactly when a key that was there is gone.
-/

set_option autoImplicit false

namespace BlockSeal.Recency

variable {κ α : Type} [DecidableEq κ] {c : Recency κ α}

/-- The key that loses its place when `key` is used, if one does. -/
def dropped? (c : Recency κ α) (key : κ) : Option κ :=
  if c.contains key = false ∧ c.size = c.capacity then c.keys.getLast? else none

theorem absent_of_contains_eq_false {key : κ} (h : c.contains key = false) :
    ∀ e ∈ c.entries, e.1 ≠ key := by
  rintro ⟨_, _⟩ he rfl
  rw [contains_iff_mem_keys.2 (List.mem_map.2 ⟨_, he, rfl⟩)] at h
  cases h

theorem entries_touch_of_contains (hc : c.Proper) {key : κ} (h : c.contains key = true)
    (value : α) :
    (c.touch key value).entries = (key, value) :: c.entries.filter fun e => e.1 ≠ key := by
  obtain ⟨⟨k, old⟩, hmem, rfl⟩ := List.mem_map.1 (contains_iff_mem_keys.1 h)
  exact entries_touch_of_mem hc hmem value

theorem entries_touch_of_full {key : κ} (h : c.contains key = false) (hfull : c.size = c.capacity)
    (hpos : 0 < c.capacity) (value : α) :
    (c.touch key value).entries = (key, value) :: c.entries.dropLast := by
  obtain ⟨n, hn⟩ : ∃ n, c.capacity = n + 1 := ⟨c.capacity - 1, by omega⟩
  rw [size] at hfull
  rw [touch, filter_of_absent (absent_of_contains_eq_false h), hn, List.take_succ_cons,
    List.dropLast_eq_take, hfull, hn, Nat.add_sub_cancel]

/-- **One use of a key, by the entries.** The others stay behind it in their order, but for the last one
when the key is new and the map is full. -/
theorem exists_entries_touch (hc : c.Proper) (hpos : 0 < c.capacity) (key : κ) (value : α) :
    ∃ (kept : List (κ × α)) (lost : Option (κ × α)),
      c.touch key value = { c with entries := (key, value) :: kept } ∧
      (c.entries.filter fun e => e.1 ≠ key) = kept ++ lost.toList ∧
      (lost.isSome = true ↔ c.contains key = false ∧ c.size = c.capacity) ∧
      ∀ e, lost = some e → c.entries.getLast? = some e := by
  have htouch : ∀ {entries}, (c.touch key value).entries = entries →
      c.touch key value = { c with entries := entries } := by
    rintro _ rfl
    rfl
  cases hcontains : c.contains key with
  | true =>
    refine ⟨c.entries.filter fun e => e.1 ≠ key, none,
      htouch (entries_touch_of_contains hc hcontains value), by simp, by simp, nofun⟩
  | false =>
    have habsent := absent_of_contains_eq_false hcontains
    by_cases hfull : c.size = c.capacity
    · have hne : c.entries ≠ [] := List.length_pos_iff.1 (show 0 < c.size by omega)
      obtain ⟨last, hlast⟩ : ∃ last, c.entries.getLast? = some last :=
        ⟨_, List.getLast?_eq_some_getLast hne⟩
      refine ⟨c.entries.dropLast, some last, htouch (entries_touch_of_full hcontains hfull hpos value),
        ?_, by simp [hfull], fun e he => he ▸ hlast⟩
      rw [filter_of_absent habsent, Option.toList_some, List.dropLast_append_getLast? last hlast]
    · have hroom : c.size < c.capacity := Nat.lt_of_le_of_ne hc.size_le hfull
      refine ⟨c.entries, none, htouch (entries_touch_of_absent habsent hroom value), ?_,
        by simp [hfull], nofun⟩
      rw [filter_of_absent habsent, Option.toList_none, List.append_nil]

omit [DecidableEq κ] in
/-- Without the last entry a map has the same values under all keys but the last one. -/
theorem mem_dropLast_iff (hc : c.Proper) {key : κ} {value : α} :
    (key, value) ∈ c.entries.dropLast ↔ (key, value) ∈ c.entries ∧ c.keys.getLast? ≠ some key := by
  rcases List.eq_nil_or_concat c.entries with hnil | ⟨front, ⟨last, v⟩, hentries⟩
  · simp [hnil]
  have hlast : c.keys.getLast? = some last := by simp [keys, hentries]
  have hnodup := hc.nodup_keys
  rw [keys, hentries, List.concat_eq_append, List.map_append, List.nodup_append] at hnodup
  rw [hlast, hentries, List.concat_eq_append, List.dropLast_concat, List.mem_append,
    List.mem_singleton, ne_eq, Option.some.injEq]
  constructor
  · intro hmem
    refine ⟨.inl hmem, fun heq => ?_⟩
    exact hnodup.2.2 key (List.mem_map.2 ⟨_, hmem, rfl⟩) last (by simp) heq.symm
  · rintro ⟨hmem | heq, hne⟩
    · exact hmem
    · cases heq
      exact absurd rfl hne

/-- **One use of a key.** Its value is the one given, the key that loses its place has none, and all
others have the values that they had. -/
theorem peek_touch (hc : c.Proper) (hpos : 0 < c.capacity) (key : κ) (value : α) (k : κ) :
    (c.touch key value).peek k =
      if k = key then some value else if c.dropped? key = some k then none else c.peek k := by
  split
  · rename_i hk
    rw [hk, peek_touch_self c key value hpos]
  rename_i hk
  have ht := proper_touch hc.nodup_keys key value
  apply Option.ext
  intro v
  rw [peek_eq_some_iff ht]
  cases hcontains : c.contains key with
  | true =>
    have hkept : c.dropped? key = none := if_neg (by simp [hcontains])
    rw [hkept, if_neg (Option.some_ne_none k).symm, entries_touch_of_contains hc hcontains,
      peek_eq_some_iff hc]
    simp [hk]
  | false =>
    by_cases hfull : c.size = c.capacity
    · have hdropped : c.dropped? key = c.keys.getLast? := if_pos ⟨hcontains, hfull⟩
      rw [hdropped, entries_touch_of_full hcontains hfull hpos, List.mem_cons,
        mem_dropLast_iff hc, ← peek_eq_some_iff hc]
      by_cases hlast : c.keys.getLast? = some k
      · simp [hlast, hk]
      · simp [hlast, hk]
    · have hkept : c.dropped? key = none := if_neg (by simp [hfull])
      have hroom : c.size < c.capacity := Nat.lt_of_le_of_ne hc.size_le hfull
      rw [hkept, if_neg (Option.some_ne_none k).symm,
        entries_touch_of_absent (absent_of_contains_eq_false hcontains) hroom, peek_eq_some_iff hc]
      simp [hk]

theorem ne_of_dropped? {key k : κ} (h : c.dropped? key = some k) : k ≠ key := by
  unfold dropped? at h
  split at h
  · rename_i hfull
    rintro rfl
    have hmem : k ∈ c.keys := List.mem_of_getLast? h
    rw [contains_iff_mem_keys.2 hmem] at hfull
    cases hfull.1
  · cases h

theorem contains_touch_eq_false_iff (hc : c.Proper) (hpos : 0 < c.capacity) {key k : κ} (value : α)
    (hk : c.contains k = true) :
    (c.touch key value).contains k = false ↔ c.dropped? key = some k := by
  rw [contains_eq_isSome_peek] at hk
  rw [contains_eq_isSome_peek, peek_touch hc hpos]
  by_cases hsame : k = key
  · rw [if_pos hsame]
    exact iff_of_false nofun fun h => ne_of_dropped? h hsame
  · rw [if_neg hsame]
    by_cases hdropped : c.dropped? key = some k
    · simp [hdropped]
    · simp [hdropped, hk]

end BlockSeal.Recency
