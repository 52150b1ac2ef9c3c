import BlockSeal.Proofs.Recency
import Mathlib.Data.List.Dedup

/-! # What a bounded map recalls

The entries of a map are decided by what was done with it, and of that only the latest counts: a map
of any capacity holds the keys that were touched last, as one without a bound would list them.

* `latest`: the distinct keys that were touched last, most recent first.
* `Call`, `perform`: one call on a map.
* `History`, `record`, `watch`: what can be seen of calls in turn.
* `Recalls`: a map that holds what was touched last, with the values given last. One touch keeps this
  (`Recalls.write`, `Recalls.touch`), so one call does (`Recalls.perform`), and so do many.
* `Lawful`: the answers that a map must give, and when it must stay as it is.
* `watch_recalls`: every map is lawful and holds what its history says.
-/

set_option autoImplicit false

namespace BlockSeal.Recency

variable {κ α σ β : Type} [DecidableEq κ]

/-! ## The keys touched last -/

/-- Of the keys that were touched one after another, the `n` distinct ones that were touched last,
most recent first. -/
def latest (n : ℕ) (touched : List κ) : List κ := touched.dedup.reverse.take n

theorem nodup_latest (n : ℕ) (touched : List κ) : (latest n touched).Nodup :=
  (List.take_sublist _ _).nodup (List.nodup_reverse.2 touched.nodup_dedup)

theorem length_latest (n : ℕ) (touched : List κ) :
    (latest n touched).length = min n touched.dedup.length := by
  rw [latest, List.length_take, List.length_reverse]

theorem dedup_concat (touched : List κ) (key : κ) :
    (touched ++ [key]).dedup = (touched.dedup.filter fun k => k ≠ key) ++ [key] := by
  induction touched with
  | nil => rfl
  | cons first touched ih =>
    rw [List.cons_append]
    by_cases hmem : first ∈ touched
    · rw [List.dedup_cons_of_mem (List.mem_append_left _ hmem), List.dedup_cons_of_mem hmem, ih]
    by_cases hkey : first = key
    · subst hkey
      rw [List.dedup_cons_of_mem (by simp), List.dedup_cons_of_notMem hmem, ih]
      simp
    · rw [List.dedup_cons_of_notMem (by simp [hmem, hkey]), List.dedup_cons_of_notMem hmem, ih]
      simp [hkey]

theorem take_filter_take {keys : List κ} (h : keys.Nodup) (n : ℕ) (key : κ) :
    ((keys.take (n + 1)).filter fun k => k ≠ key).take n =
      (keys.filter fun k => k ≠ key).take n := by
  have hsplit : (keys.filter fun k => k ≠ key) =
      ((keys.take (n + 1)).filter fun k => k ≠ key) ++
        (keys.drop (n + 1)).filter fun k => k ≠ key := by
    rw [← List.filter_append, List.take_append_drop]
  by_cases hlen : keys.length ≤ n + 1
  · rw [List.take_of_length_le hlen]
  · -- At most one of the first `n + 1` keys is the one that is left out.
    have hnodup : (keys.take (n + 1)).Nodup := (List.take_sublist _ _).nodup h
    have herase : ((keys.take (n + 1)).filter fun k => k ≠ key) = (keys.take (n + 1)).erase key := by
      rw [hnodup.erase_eq_filter]
      exact List.filter_congr fun k _ => by simp [bne, beq_eq_decide]
    have hroom : n ≤ ((keys.take (n + 1)).filter fun k => k ≠ key).length := by
      have hle := List.le_length_erase (a := key) (l := keys.take (n + 1))
      rw [List.length_take] at hle
      rw [herase]
      omega
    rw [hsplit, List.take_append_of_le_length hroom]

theorem latest_concat (n : ℕ) (touched : List κ) (key : κ) :
    latest n (touched ++ [key]) = (key :: (latest n touched).filter fun k => k ≠ key).take n := by
  cases n with
  | zero => rfl
  | succ n =>
    have hnodup : touched.dedup.reverse.Nodup := List.nodup_reverse.2 touched.nodup_dedup
    rw [latest, latest, dedup_concat, List.reverse_append, List.reverse_singleton,
      List.singleton_append, ← List.filter_reverse, List.take_succ_cons, List.take_succ_cons,
      take_filter_take hnodup]

theorem keys_touch (c : Recency κ α) (key : κ) (value : α) :
    (c.touch key value).keys = (key :: c.keys.filter fun k => k ≠ key).take c.capacity := by
  rw [keys, touch, List.map_take, List.map_cons, keys, List.filter_map]
  rfl

theorem keys_touch_of_keys {c : Recency κ α} {touched : List κ}
    (h : c.keys = latest c.capacity touched) (key : κ) (value : α) :
    (c.touch key value).keys = latest c.capacity (touched ++ [key]) := by
  rw [keys_touch, h, latest_concat]

theorem proper_of_keys {c : Recency κ α} {touched : List κ}
    (h : c.keys = latest c.capacity touched) : c.Proper := by
  refine ⟨?_, by rw [h]; exact nodup_latest _ _⟩
  have hlen := congrArg List.length h
  rw [keys, List.length_map, length_latest] at hlen
  rw [size]
  omega

/-! ## Calls and what is seen of them -/

/-- A call on a map, by the type of its answer. Values are made by working on something of type
`σ`. -/
inductive Call (κ α σ : Type) : Type → Type 1
  | put (key : κ) (value : α) : Call κ α σ Bool
  | putIf {ε : Type} (key : κ) (value : α) (check : List (κ × α) → Except ε Bool) :
      Call κ α σ (Except ε Bool)
  | get (key : κ) : Call κ α σ (Option α)
  | peek (key : κ) : Call κ α σ (Option α)
  | contains (key : κ) : Call κ α σ Bool
  | find? (p : κ → α → Bool) : Call κ α σ (Option (κ × α))
  | getOrMake (key : κ) (make : κ → σ → Option α × σ) : Call κ α σ (Option α)

/-- The answer to a call, the map after it, and what becomes of `w`, on which values are made. -/
def perform (c : Recency κ α) (w : σ) : Call κ α σ β → β × Recency κ α × σ
  | .put key value => ((c.put key value).1, (c.put key value).2, w)
  | .putIf key value check => ((c.putIf key value check).1, (c.putIf key value check).2, w)
  | .get key => ((c.get key).1, (c.get key).2, w)
  | .peek key => (c.peek key, c, w)
  | .contains key => (c.contains key, c, w)
  | .find? p => (c.find? p, c, w)
  | .getOrMake key make => c.getOrMakeWith key make w

/-- The key that a call touches, by the answer: the key that is written, the one that a search found,
or the one whose value is answered, be it made or not. -/
def Call.touched? : Call κ α σ β → β → Option κ
  | .put key _, _ => some key
  | .putIf key _ _, .ok true => some key
  | .get key, some _ => some key
  | .getOrMake key _, some _ => some key
  | _, _ => none

/-- The value that a call gives to a key: one that is written, or one that is made because the key
was absent. -/
def Call.given? (c : Recency κ α) : Call κ α σ β → β → Option (κ × α)
  | .put key value, _ => some (key, value)
  | .putIf key value _, .ok true => some (key, value)
  | .getOrMake key _, some value => if c.contains key then none else some (key, value)
  | _, _ => none

/-- The keys that were touched, and the values that were given, each in order. -/
structure History (κ α : Type) where
  touched : List κ := []
  given : List (κ × α) := []

namespace History

def value? (h : History κ α) (key : κ) : Option α :=
  (h.given.reverse.find? fun e => e.1 = key).map (·.2)

def record (h : History κ α) (c : Recency κ α) (call : Call κ α σ β) (answer : β) :
    History κ α where
  touched := h.touched ++ (call.touched? answer).toList
  given := h.given ++ (call.given? c answer).toList

def touch (h : History κ α) (key : κ) : History κ α := { h with touched := h.touched ++ [key] }

def give (h : History κ α) (key : κ) (value : α) : History κ α where
  touched := h.touched ++ [key]
  given := h.given ++ [(key, value)]

theorem value?_give (h : History κ α) (key : κ) (value : α) (k : κ) :
    (h.give key value).value? k = if k = key then some value else h.value? k := by
  simp only [value?, give, List.reverse_append, List.reverse_singleton, List.singleton_append,
    List.find?_cons]
  by_cases hk : k = key
  · simp [hk]
  · simp [hk, Ne.symm hk]

theorem record_of_none {h : History κ α} {c : Recency κ α} {call : Call κ α σ β} {answer : β}
    (htouched : call.touched? answer = none) (hgiven : call.given? c answer = none) :
    h.record c call answer = h := by
  simp [record, htouched, hgiven]

theorem record_of_touched {h : History κ α} {c : Recency κ α} {call : Call κ α σ β} {answer : β}
    {key : κ} (htouched : call.touched? answer = some key) (hgiven : call.given? c answer = none) :
    h.record c call answer = h.touch key := by
  simp [record, touch, htouched, hgiven]

theorem record_of_given {h : History κ α} {c : Recency κ α} {call : Call κ α σ β} {answer : β}
    {key : κ} {value : α} (htouched : call.touched? answer = some key)
    (hgiven : call.given? c answer = some (key, value)) :
    h.record c call answer = h.give key value := by
  simp [record, give, htouched, hgiven]

end History

/-- What is seen of calls in turn, the map after them, and what becomes of what values are made
on. -/
def watch (calls : List (Σ β : Type, Call κ α σ β)) (start : History κ α × Recency κ α × σ) :
    History κ α × Recency κ α × σ :=
  calls.foldl (fun now call =>
    (now.1.record now.2.1 call.2 (now.2.1.perform now.2.2 call.2).1,
      (now.2.1.perform now.2.2 call.2).2)) start

/-! ## Looking a key up -/

theorem contains_eq_isSome_peek (c : Recency κ α) (key : κ) :
    c.contains key = (c.peek key).isSome := by
  rw [contains, peek, Option.isSome_map, List.isSome_find?]

theorem contains_iff_mem_keys {c : Recency κ α} {key : κ} :
    c.contains key = true ↔ key ∈ c.keys := by
  simp [contains, keys]

theorem peek_eq_none_iff {c : Recency κ α} {key : κ} : c.peek key = none ↔ key ∉ c.keys := by
  rw [← contains_iff_mem_keys, contains_eq_isSome_peek, Option.not_isSome_iff_eq_none]

/-! ## One call -/

/-- A call touches nothing and leaves the map as it is, or it touches a key: with the value that is
there, or with the value that it gives. -/
theorem perform_cases (c : Recency κ α) (w : σ) (call : Call κ α σ β) :
    (call.touched? (c.perform w call).1 = none ∧ call.given? c (c.perform w call).1 = none ∧
      (c.perform w call).2.1 = c) ∨
    ∃ key value, call.touched? (c.perform w call).1 = some key ∧
      (c.perform w call).2.1 = c.touch key value ∧
      ((call.given? c (c.perform w call).1 = none ∧ c.peek key = some value) ∨
        call.given? c (c.perform w call).1 = some (key, value)) := by
  cases call with
  | put key value => exact .inr ⟨key, value, rfl, rfl, .inr rfl⟩
  | putIf key value check =>
    simp only [perform, putIf]
    cases check c.entries with
    | error e => exact .inl ⟨rfl, rfl, rfl⟩
    | ok admitted =>
      cases admitted with
      | false => exact .inl ⟨rfl, rfl, rfl⟩
      | true => exact .inr ⟨key, value, rfl, rfl, .inr rfl⟩
  | get key =>
    simp only [perform, get]
    cases hpeek : c.peek key with
    | none => exact .inl ⟨rfl, rfl, rfl⟩
    | some value => exact .inr ⟨key, value, rfl, rfl, .inl ⟨rfl, hpeek⟩⟩
  | peek key => exact .inl ⟨rfl, rfl, rfl⟩
  | contains key => exact .inl ⟨rfl, rfl, rfl⟩
  | find? p => exact .inl ⟨rfl, rfl, rfl⟩
  | getOrMake key make =>
    simp only [perform, getOrMakeWith]
    have hcontains := c.contains_eq_isSome_peek key
    cases hpeek : c.peek key with
    | some value =>
      rw [hpeek] at hcontains
      exact .inr ⟨key, value, rfl, rfl, .inl ⟨if_pos hcontains, hpeek⟩⟩
    | none =>
      rw [hpeek] at hcontains
      cases make key w with
      | mk result w =>
        cases result with
        | none => exact .inl ⟨rfl, rfl, rfl⟩
        | some value =>
          exact .inr ⟨key, value, rfl, rfl, .inr (if_neg (by simp [hcontains]))⟩

theorem capacity_perform (c : Recency κ α) (w : σ) (call : Call κ α σ β) :
    (c.perform w call).2.1.capacity = c.capacity := by
  rcases c.perform_cases w call with ⟨_, _, hafter⟩ | ⟨key, value, _, hafter, _⟩
  · rw [hafter]
  · rw [hafter, capacity_touch]

/-! ## A map and its history -/

/-- A map that holds the keys that were touched last, each with the value that was given last. -/
structure Recalls (c : Recency κ α) (h : History κ α) : Prop where
  keys : c.keys = latest c.capacity h.touched
  values : ∀ key value, (key, value) ∈ c.entries → h.value? key = some value

variable {c : Recency κ α} {h : History κ α}

namespace Recalls

theorem empty (capacity : ℕ) : Recalls { capacity := capacity } ({} : History κ α) where
  keys := List.take_nil.symm
  values := fun _ _ hmem => absurd hmem List.not_mem_nil

theorem proper (hc : c.Recalls h) : c.Proper := proper_of_keys hc.keys

theorem give (hc : c.Recalls h) (key : κ) (value : α) :
    (c.touch key value).Recalls (h.give key value) where
  keys := keys_touch_of_keys hc.keys key value
  values := by
    intro k v hmem
    rw [History.value?_give]
    rcases List.mem_cons.1 (List.mem_of_mem_take hmem) with he | he
    · cases he
      rw [if_pos rfl]
    · obtain ⟨hold, hne⟩ := List.mem_filter.1 he
      rw [if_neg (by simpa using hne)]
      exact hc.values k v hold

theorem touch (hc : c.Recalls h) {key : κ} {value : α} (hpeek : c.peek key = some value) :
    (c.touch key value).Recalls (h.touch key) where
  keys := keys_touch_of_keys hc.keys key value
  values := by
    intro k v hmem
    rcases mem_entries_touch hmem with he | hold
    · cases he
      exact hc.values key value ((peek_eq_some_iff hc.proper).1 hpeek)
    · exact hc.values k v hold

theorem perform (hc : c.Recalls h) (w : σ) (call : Call κ α σ β) :
    (c.perform w call).2.1.Recalls (h.record c call (c.perform w call).1) := by
  -- A call does nothing, uses an entry that is there, or writes one.
  rcases c.perform_cases w call with
    ⟨htouched, hgiven, hafter⟩ | ⟨key, value, htouched, hafter, ⟨hgiven, hpeek⟩ | hgiven⟩
  · rw [hafter, History.record_of_none htouched hgiven]
    exact hc
  · rw [hafter, History.record_of_touched htouched hgiven]
    exact hc.touch hpeek
  · rw [hafter, History.record_of_given htouched hgiven]
    exact hc.give key value

theorem watch {w : σ} (hc : c.Recalls h) (calls : List (Σ β : Type, Call κ α σ β)) :
    (Recency.watch calls (h, c, w)).2.1.Recalls (Recency.watch calls (h, c, w)).1 := by
  induction calls generalizing h c w with
  | nil => exact hc
  | cons call calls ih => exact ih (hc.perform w call.2)

end Recalls

theorem capacity_watch {w : σ} (calls : List (Σ β : Type, Call κ α σ β)) :
    (watch calls (h, c, w)).2.1.capacity = c.capacity := by
  induction calls generalizing h c w with
  | nil => rfl
  | cons call calls ih => exact ih.trans (c.capacity_perform w call.2)

/-! ## What a map answers -/

/-- A map that answers from its entries, most recent first, and that changes only where it is
touched. -/
structure Lawful (c : Recency κ α) : Prop where
  idle : ∀ {σ β : Type} (w : σ) (call : Call κ α σ β),
    call.touched? (c.perform w call).1 = none → (c.perform w call).2.1 = c
  put : ∀ key value, (c.put key value).1 = true ↔ key ∉ c.keys ∧ c.size = c.capacity
  putIf : ∀ {ε : Type} key value (check : List (κ × α) → Except ε Bool),
    (c.putIf key value check).1 = check c.entries
  get : ∀ key, (c.get key).1 = c.peek key
  peek : ∀ key value, c.peek key = some value ↔ (key, value) ∈ c.entries
  contains : ∀ key, c.contains key = true ↔ key ∈ c.keys
  /-- A search goes from the newest entry to the oldest, up to the first that satisfies it. -/
  find?_some : ∀ (p : κ → α → Bool) key value, c.find? p = some (key, value) ↔
    p key value = true ∧ ∃ newer older, c.entries = newer ++ (key, value) :: older ∧
      ∀ e ∈ newer, p e.1 e.2 = false
  find?_none : ∀ p : κ → α → Bool, c.find? p = none ↔ ∀ e ∈ c.entries, p e.1 e.2 = false
  getOrMake_present : ∀ {σ : Type} key value (make : κ → σ → Option α × σ) (w : σ),
    (key, value) ∈ c.entries →
      ∃ after, c.getOrMakeWith key make w = (some value, after, w)
  getOrMake_absent : ∀ {σ : Type} key (make : κ → σ → Option α × σ) (w : σ), key ∉ c.keys →
    ∃ after, c.getOrMakeWith key make w = ((make key w).1, after, (make key w).2)

theorem Proper.lawful (hc : c.Proper) : c.Lawful where
  idle := by
    intro σ β w call hidle
    rcases c.perform_cases w call with ⟨_, _, hafter⟩ | ⟨key, value, htouched, _⟩
    · exact hafter
    · rw [htouched] at hidle
      cases hidle
  put := by
    intro key value
    have hle := hc.size_le
    have hfull : c.capacity ≤ c.size ↔ c.size = c.capacity := by omega
    simp [Recency.put, ← contains_iff_mem_keys, hfull]
  putIf := by
    intro ε key value check
    unfold Recency.putIf
    cases check c.entries with
    | error e => rfl
    | ok admitted => cases admitted <;> rfl
  get := by
    intro key
    unfold Recency.get
    cases c.peek key <;> rfl
  peek := fun key value => peek_eq_some_iff hc
  contains := fun key => contains_iff_mem_keys
  find?_some := by
    intro p key value
    simp [find?, List.find?_eq_some_iff_append]
  find?_none := by
    intro p
    simp [find?]
  getOrMake_present := by
    intro σ key value make w hmem
    simp only [getOrMakeWith, (peek_eq_some_iff hc).2 hmem]
    exact ⟨_, rfl⟩
  getOrMake_absent := by
    intro σ key make w habsent
    simp only [getOrMakeWith, peek_eq_none_iff.2 habsent]
    cases make key w with
    | mk result w => cases result <;> exact ⟨_, rfl⟩

/-! ## Every run of a new map -/

omit [DecidableEq κ] in
theorem create_eq_ok_iff {cache : String} {capacity : UInt64} :
    create cache capacity = .ok c ↔ capacity ≠ 0 ∧ c = { capacity := capacity.toNat } := by
  unfold create
  by_cases hcapacity : capacity = 0
  · simp [hcapacity]
  · simp [hcapacity, eq_comm]

/-- **A map and the calls on it.** A map for at least one entry can be made. After any calls on it,
the keys that it holds are the distinct ones that were touched last, most recent first, as many as
there are or as it can hold; no key is there twice, and each has the value that was last written
under it or made for it. All answers are given from these entries, values are made for absent keys
only, and a call that touches no key leaves the map as it is. -/
theorem watch_recalls (cache : String) {capacity : UInt64} (hcapacity : capacity ≠ 0) :
    ∃ start : Recency κ α, create cache capacity = .ok start ∧
      ∀ (calls : List (Σ β : Type, Call κ α σ β)) (w w' : σ) (seen : History κ α)
        (c : Recency κ α), watch calls ({}, start, w) = (seen, c, w') →
        c.capacity = capacity.toNat ∧
        c.keys = latest capacity.toNat seen.touched ∧
        c.size = min capacity.toNat seen.touched.dedup.length ∧
        c.keys.Nodup ∧
        (∀ key value, (key, value) ∈ c.entries → seen.value? key = some value) ∧
        c.Lawful := by
  refine ⟨{ capacity := capacity.toNat }, create_eq_ok_iff.2 ⟨hcapacity, rfl⟩, ?_⟩
  intro calls w w' seen c hwatch
  have hrecalls := (Recalls.empty capacity.toNat).watch (w := w) calls
  have hcap := capacity_watch (w := w) (h := {}) (c := { capacity := capacity.toNat }) calls
  rw [hwatch] at hrecalls hcap
  have hkeys := hrecalls.keys
  rw [show c.capacity = capacity.toNat from hcap] at hkeys
  have hsize := congrArg List.length hkeys
  rw [keys, List.length_map, length_latest] at hsize
  exact ⟨hcap, hkeys, hsize, hrecalls.proper.nodup_keys, hrecalls.values, hrecalls.proper.lawful⟩

end BlockSeal.Recency

/-! ## A map for two entries -/

namespace BlockSeal

namespace Sample

/-- Makes a value for every key but one, and counts how often it was asked to. -/
def making (key : UInt64) (count : ℕ) : Option String × ℕ :=
  (if key = 9 then none else some "made", count + 1)

/-- The third key takes the place of the second, because the first was looked up in between. -/
def uses : List (Σ β : Type, Recency.Call UInt64 String ℕ β) := [
  ⟨_, .put 1 "one"⟩, ⟨_, .put 2 "two"⟩, ⟨_, .get 1⟩, ⟨_, .getOrMake 3 making⟩,
  ⟨_, .getOrMake 3 making⟩, ⟨_, .getOrMake 9 making⟩]

end Sample

namespace Recency

/-- Two values were asked for: the one that could be made is there, with the key looked up last. -/
theorem uses_recalled : (2 : UInt64) ≠ 0 ∧ ∃ start : Recency UInt64 String,
    create "sample" 2 = .ok start ∧ (watch Sample.uses ({}, start, 0)).2.1.keys = [3, 1] ∧
    (watch Sample.uses ({}, start, 0)).2.1.Lawful ∧
    (watch Sample.uses ({}, start, 0)).2.2 = 2 := by
  have htwo : (2 : UInt64) ≠ 0 := by decide
  obtain ⟨start, hstart, hruns⟩ := watch_recalls (κ := UInt64) (α := String) (σ := ℕ) "sample" htwo
  obtain ⟨-, hkeys, -, -, -, hlawful⟩ := hruns Sample.uses 0 _ _ _ rfl
  obtain ⟨-, rfl⟩ := create_eq_ok_iff.1 hstart
  refine ⟨htwo, _, hstart, hkeys.trans ?_, hlawful, ?_⟩
  · decide
  · decide

end Recency

end BlockSeal
