import BlockSeal.Recency
import Mathlib.Data.List.Nodup

/-! # Bounded maps that are in order

* `Recency.Proper`: a map with no more entries than its capacity, under keys of their own.
* `proper_touch`: using an entry keeps a map proper, or makes it so.
* `peek_eq_some_iff`: in a proper map the values under the keys are just the entries.
* `entries_touch_of_peek`, `peek_touch_of_peek`: using an entry that is there only moves it to the
  front. `entries_touch_of_absent`: a new one comes in front of the others while there is room.
* `touch_eq_self_iff`: it changes nothing exactly when the entry is in front already.
-/

set_option autoImplicit false

namespace BlockSeal.Recency

variable {κ α : Type}

def keys (c : Recency κ α) : List κ := c.entries.map (·.1)

/-- No more entries than may be, and no key twice. -/
structure Proper (c : Recency κ α) : Prop where
  size_le : c.size ≤ c.capacity
  nodup_keys : c.keys.Nodup

theorem Proper.eq_of_mem {c : Recency κ α} (hc : c.Proper) {key : κ} {a b : α}
    (ha : (key, a) ∈ c.entries) (hb : (key, b) ∈ c.entries) : a = b := by
  have h := List.inj_on_of_nodup_map hc.nodup_keys ha hb rfl
  exact (Prod.mk.inj h).2

variable [DecidableEq κ]

/-! ## Looking -/

theorem peek_eq_some_iff {c : Recency κ α} (hc : c.Proper) {key : κ} {value : α} :
    c.peek key = some value ↔ (key, value) ∈ c.entries := by
  constructor
  · intro h
    obtain ⟨⟨k, v⟩, hfind, hv⟩ := Option.map_eq_some_iff.1 h
    have hk : k = key := by simpa using List.find?_some hfind
    subst hk hv
    exact List.mem_of_find?_eq_some hfind
  · intro h
    cases hfind : c.entries.find? fun e => e.1 = key with
    | none =>
      have := List.find?_eq_none.1 hfind _ h
      simp at this
    | some e =>
      obtain ⟨k, v⟩ := e
      have hk : k = key := by simpa using List.find?_some hfind
      subst hk
      rw [peek, hfind, hc.eq_of_mem h (List.mem_of_find?_eq_some hfind)]
      rfl

/-- What a search finds is an entry, and it can be looked up under its key. -/
theorem peek_of_find? {c : Recency κ α} (hc : c.Proper) {p : κ → α → Bool} {key : κ} {value : α}
    (h : c.find? p = some (key, value)) : c.peek key = some value ∧ p key value = true := by
  unfold find? at h
  exact ⟨(peek_eq_some_iff hc).2 (List.mem_of_find?_eq_some h), by simpa using List.find?_some h⟩

/-! ## Using -/

theorem mem_entries_touch {c : Recency κ α} {key : κ} {value : α} {e : κ × α}
    (h : e ∈ (c.touch key value).entries) : e = (key, value) ∨ e ∈ c.entries := by
  rcases List.mem_cons.1 (List.mem_of_mem_take h) with he | he
  · exact .inl he
  · exact .inr (List.mem_of_mem_filter he)

theorem proper_touch {c : Recency κ α} (hc : c.keys.Nodup) (key : κ) (value : α) :
    (c.touch key value).Proper := by
  refine ⟨size_touch_le c key value, ?_⟩
  have hsub : (c.touch key value).keys.Sublist
      (key :: (c.entries.filter fun e => e.1 ≠ key).map (·.1)) := by
    have h : (c.touch key value).entries.Sublist
        ((key, value) :: c.entries.filter fun e => e.1 ≠ key) := List.take_sublist _ _
    exact h.map (·.1)
  refine hsub.nodup (List.nodup_cons.2 ⟨?_, ?_⟩)
  · intro h
    obtain ⟨e, he, hk⟩ := List.mem_map.1 h
    have := (List.mem_filter.1 he).2
    simp [hk] at this
  · have h : (c.entries.filter fun e => e.1 ≠ key).Sublist c.entries := List.filter_sublist
    exact (h.map Prod.fst).nodup hc

/-- Without the entries under its key the map has room for one more. -/
theorem length_filter_lt {c : Recency κ α} {key : κ} {value : α} (h : (key, value) ∈ c.entries) :
    (c.entries.filter fun e => e.1 ≠ key).length < c.size :=
  List.length_filter_lt_length_iff_exists.2 ⟨(key, value), h, by simp⟩

/-- An entry of the key that is used, whatever its value is, makes room for the new one. -/
theorem entries_touch_of_mem {c : Recency κ α} (hc : c.Proper) {key : κ} {old : α}
    (h : (key, old) ∈ c.entries) (value : α) :
    (c.touch key value).entries = (key, value) :: c.entries.filter fun e => e.1 ≠ key := by
  have hlt := length_filter_lt h
  have hle := hc.size_le
  exact List.take_of_length_le (by rw [List.length_cons]; omega)

/-- An entry that is used goes to the front, and nothing is dropped for it. -/
theorem entries_touch_of_peek {c : Recency κ α} (hc : c.Proper) {key : κ} {value : α}
    (h : c.peek key = some value) :
    (c.touch key value).entries = (key, value) :: c.entries.filter fun e => e.1 ≠ key :=
  entries_touch_of_mem hc ((peek_eq_some_iff hc).1 h) value

theorem filter_of_absent {c : Recency κ α} {key : κ} (h : ∀ e ∈ c.entries, e.1 ≠ key) :
    (c.entries.filter fun e => e.1 ≠ key) = c.entries :=
  List.filter_eq_self.2 fun e he => by simpa using h e he

/-- A new entry comes in front of the others when there is room for it. -/
theorem entries_touch_of_absent {c : Recency κ α} {key : κ} (h : ∀ e ∈ c.entries, e.1 ≠ key)
    (hroom : c.size < c.capacity) (value : α) :
    (c.touch key value).entries = (key, value) :: c.entries := by
  rw [touch, filter_of_absent h]
  exact List.take_of_length_le hroom

theorem peek_touch_of_peek {c : Recency κ α} (hc : c.Proper) {key : κ} {value : α}
    (h : c.peek key = some value) (k : κ) : (c.touch key value).peek k = c.peek k := by
  have hmem := (peek_eq_some_iff hc).1 h
  have ht := proper_touch hc.nodup_keys key value
  apply Option.ext
  intro v
  rw [peek_eq_some_iff ht, peek_eq_some_iff hc, entries_touch_of_peek hc h, List.mem_cons,
    List.mem_filter]
  by_cases hk : k = key
  · subst hk
    simp only [Prod.mk.injEq, true_and, ne_eq, not_true_eq_false, decide_false, Bool.false_eq_true,
      and_false, or_false]
    exact ⟨fun hv => hv ▸ hmem, fun hv => hc.eq_of_mem hv hmem⟩
  · simp [hk]

/-- Using an entry changes nothing exactly when the entry is the most recent one. -/
theorem touch_eq_self_iff {c : Recency κ α} (hc : c.Proper) {key : κ} {value : α}
    (h : c.peek key = some value) :
    c.touch key value = c ↔ c.entries.head? = some (key, value) := by
  have htouch := entries_touch_of_peek hc h
  constructor
  · intro heq
    rw [heq] at htouch
    rw [htouch]
    rfl
  · intro hhead
    obtain ⟨rest, hrest⟩ : ∃ rest, c.entries = (key, value) :: rest := by
      cases he : c.entries with
      | nil =>
        rw [he] at hhead
        cases hhead
      | cons e rest =>
        rw [he, List.head?_cons, Option.some.injEq] at hhead
        exact ⟨rest, by rw [hhead]⟩
    have hnot : ∀ e ∈ rest, e.1 ≠ key := by
      have hnd := hc.nodup_keys
      rw [keys, hrest, List.map_cons, List.nodup_cons] at hnd
      exact fun e he hk => hnd.1 (List.mem_map.2 ⟨e, he, hk⟩)
    have hfilter : (c.entries.filter fun e => e.1 ≠ key) = rest := by
      rw [hrest, List.filter_cons_of_neg (by simp), List.filter_eq_self]
      intro e he
      simpa using hnot e he
    rw [hfilter, ← hrest] at htouch
    cases c
    simp only [touch, mk.injEq, true_and]
    exact htouch

end BlockSeal.Recency
