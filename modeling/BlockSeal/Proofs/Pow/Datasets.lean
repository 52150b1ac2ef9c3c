import BlockSeal.Pow.MemoryWalk
import BlockSeal.Pow.Verifier
import BlockSeal.Proofs.Recency.History

/-! # Cached datasets and fresh ones

A verifier keeps the datasets that it used last. Nobody can tell from its answers: they are those of
the proof-of-work function on datasets that are made anew each time.

* `PowFunction.material`, `outcome`, `verdict`: what the function itself gives, without a cache.
* `Call`, `perform`, `run`: calls on a verifier.
* `Call.fresh`, `Call.needs?`: the answer without a cache, and the dataset that it takes.
* `Serves`: a verifier whose cache holds the datasets that were used last, each with its own
  material. One call keeps this and makes a dataset only if it is not there (`Serves.perform`).
* `run_transparent`: so it is after any calls.
-/

set_option autoImplicit false

namespace BlockSeal

/-! ## Answers without a cache -/

namespace PowFunction

/-- The material of a dataset, made anew. -/
def material (f : PowFunction) (epoch : UInt64) : Option Bytes := f.generate epoch (seedHash epoch)

/-- The mix digest and the result for a header and a nonce, when `length` blocks share a dataset. -/
def outcome (f : PowFunction) (length : UInt64) (header : Header) (nonce : UInt64) :
    Option (Hash × Hash) :=
  (f.material (header.number / length)).bind fun material =>
    f.compute material header.sealHash nonce

def verdict (f : PowFunction) (length : UInt64) (header : Header) : Except Failure Unit :=
  match targetFor header.difficulty with
  | .error e => .error (.refused e)
  | .ok target =>
    match f.outcome length header (PowVerifier.nonceWord header.nonce) with
    | none => .error .crashed
    | some outcome => PowVerifier.judge header target outcome

end PowFunction

namespace PowVerifier

variable {β : Type}

/-! ## Calls -/

inductive Call : Type → Type
  | dataset (number : UInt64) : Call (Option Bytes)
  | seedHashFor (number : UInt64) : Call Hash
  | compute (header : Header) (nonce : UInt64) : Call (Option (Hash × Hash))
  | verify (header : Header) : Call (Except Failure Unit)

def perform (v : PowVerifier) : Call β → β × PowVerifier
  | .dataset number => v.dataset number
  | .seedHashFor number => (v.seedHashFor number, v)
  | .compute header nonce => v.compute header nonce
  | .verify header => v.verify header

def run (v : PowVerifier) (calls : List (Σ β : Type, Call β)) : PowVerifier :=
  calls.foldl (fun v call => (v.perform call.2).2) v

def Call.fresh (f : PowFunction) (length : UInt64) : Call β → β
  | .dataset number => f.material (number / length)
  | .seedHashFor number => seedHash (number / length)
  | .compute header nonce => f.outcome length header nonce
  | .verify header => f.verdict length header

/-- The dataset without which there is no answer. -/
def Call.needs? (length : UInt64) : Call β → Option UInt64
  | .dataset number => some (number / length)
  | .seedHashFor _ => none
  | .compute header _ => some (header.number / length)
  | .verify header => if header.difficulty = 0 then none else some (header.number / length)

/-- The datasets that calls use, in order: those that they need and that can be made. -/
def used (f : PowFunction) (length : UInt64) (calls : List (Σ β : Type, Call β)) : List UInt64 :=
  (calls.filterMap fun call => call.2.needs? length).filter fun epoch => (f.material epoch).isSome

theorem used_append (f : PowFunction) (length : UInt64) (before after : List (Σ β : Type, Call β)) :
    used f length (before ++ after) = used f length before ++ used f length after := by
  rw [used, List.filterMap_append, List.filter_append]
  rfl

variable {start v : PowVerifier} {epochs : List UInt64}

/-! ## One dataset -/

theorem dataset_of_peek {number : UInt64} {material : Bytes}
    (h : v.datasets.peek (v.epochOf number) = some material) :
    v.dataset number =
      (some material, { v with datasets := v.datasets.touch (v.epochOf number) material }) := by
  simp only [dataset, Recency.getOrMakeWith, h]

theorem dataset_of_made {number : UInt64} {material : Bytes}
    (h : v.datasets.peek (v.epochOf number) = none)
    (hmade : v.pow.material (v.epochOf number) = some material) :
    v.dataset number = (some material, { v with
      datasets := v.datasets.touch (v.epochOf number) material
      generated := v.generated ++ [(v.epochOf number, seedHash (v.epochOf number))] }) := by
  rw [PowFunction.material] at hmade
  simp only [dataset, Recency.getOrMakeWith, h, askFor, hmade]

theorem dataset_of_failed {number : UInt64} (h : v.datasets.peek (v.epochOf number) = none)
    (hfailed : v.pow.material (v.epochOf number) = none) :
    v.dataset number = (none, { v with
      generated := v.generated ++ [(v.epochOf number, seedHash (v.epochOf number))] }) := by
  rw [PowFunction.material] at hfailed
  simp only [dataset, Recency.getOrMakeWith, h, askFor, hfailed]

/-- The cache of a verifier that started as `start` holds the datasets that were used last, each
with its own material. -/
structure Serves (start : PowVerifier) (epochs : List UInt64) (v : PowVerifier) : Prop where
  pow : v.pow = start.pow
  epochLength : v.epochLength = start.epochLength
  capacity : v.datasets.capacity = start.datasets.capacity
  keys : v.datasets.keys = Recency.latest v.datasets.capacity epochs
  material : ∀ epoch material, (epoch, material) ∈ v.datasets.entries →
    start.pow.material epoch = some material

namespace Serves

theorem of_eq {u : PowVerifier} (hv : Serves start epochs v) (hpow : u.pow = v.pow)
    (hlength : u.epochLength = v.epochLength) (hdatasets : u.datasets = v.datasets) :
    Serves start epochs u where
  pow := hpow.trans hv.pow
  epochLength := hlength.trans hv.epochLength
  capacity := by rw [hdatasets, hv.capacity]
  keys := by rw [hdatasets, hv.keys]
  material := by
    rw [hdatasets]
    exact hv.material

theorem touch {u : PowVerifier} (hv : Serves start epochs v) {epoch : UInt64} {material : Bytes}
    (hmaterial : start.pow.material epoch = some material)
    (hpow : u.pow = v.pow) (hlength : u.epochLength = v.epochLength)
    (hdatasets : u.datasets = v.datasets.touch epoch material) :
    Serves start (epochs ++ [epoch]) u where
  pow := hpow.trans hv.pow
  epochLength := hlength.trans hv.epochLength
  capacity := by rw [hdatasets, Recency.capacity_touch, hv.capacity]
  keys := by
    rw [hdatasets]
    exact Recency.keys_touch_of_keys hv.keys epoch material
  material := by
    intro e m hmem
    rw [hdatasets] at hmem
    rcases Recency.mem_entries_touch hmem with he | hold
    · cases he
      exact hmaterial
    · exact hv.material e m hold

/-- **One dataset.** Its material is answered, from the cache or made anew. -/
theorem dataset (hv : Serves start epochs v) {number epoch : UInt64}
    (hepoch : v.epochOf number = epoch) :
    (v.dataset number).1 = start.pow.material epoch ∧
    Serves start (epochs ++ [epoch].filter fun epoch => (start.pow.material epoch).isSome)
      (v.dataset number).2 ∧
    (v.dataset number).2.generated = v.generated ++
      (if epoch ∈ Recency.latest start.datasets.capacity epochs then []
        else [(epoch, seedHash epoch)]) ∧
    (start.pow.material epoch = none → (v.dataset number).2.datasets = v.datasets) := by
  subst hepoch
  rw [← hv.capacity, ← hv.keys]
  cases hpeek : v.datasets.peek (v.epochOf number) with
  | some material =>
    have hmem := (Recency.peek_eq_some_iff (Recency.proper_of_keys hv.keys)).1 hpeek
    have hmaterial := hv.material _ _ hmem
    have hkey : v.epochOf number ∈ v.datasets.keys := List.mem_map.2 ⟨_, hmem, rfl⟩
    have hused := hv.touch (u := (v.dataset number).2) hmaterial (by rw [dataset_of_peek hpeek])
      (by rw [dataset_of_peek hpeek]) (by rw [dataset_of_peek hpeek])
    rw [dataset_of_peek hpeek] at hused ⊢
    simp [hmaterial, hkey, hused]
  | none =>
    have hkey := Recency.peek_eq_none_iff.1 hpeek
    have hsame : v.pow.material (v.epochOf number) = start.pow.material (v.epochOf number) := by
      rw [hv.pow]
    cases hmaterial : start.pow.material (v.epochOf number) with
    | some material =>
      have hmade := dataset_of_made hpeek (hsame.trans hmaterial)
      have hused := hv.touch (u := (v.dataset number).2) hmaterial (by rw [hmade]) (by rw [hmade])
        (by rw [hmade])
      rw [hmade] at hused ⊢
      simp [hmaterial, hkey, hused]
    | none =>
      have hfailed := dataset_of_failed hpeek (hsame.trans hmaterial)
      have hserves := hv.of_eq (u := (v.dataset number).2) (by rw [hfailed]) (by rw [hfailed])
        (by rw [hfailed])
      rw [hfailed] at hserves ⊢
      simp [hmaterial, hkey, hserves]

end Serves

/-! ## One call -/

theorem epochOf_eq (h : v.epochLength ≠ 0) (number : UInt64) :
    v.epochOf number = number / v.epochLength := by
  have hmax : max v.epochLength 1 = v.epochLength := by
    show (if v.epochLength ≤ 1 then 1 else v.epochLength) = v.epochLength
    split
    · rename_i hle
      have hpos : v.epochLength.toNat ≠ 0 := fun hzero => h (UInt64.toNat_inj.1 hzero)
      have hone : (1 : UInt64).toNat = 1 := rfl
      rw [UInt64.le_iff_toNat_le] at hle
      apply UInt64.toNat_inj.1
      omega
    · rfl
  rw [epochOf, datasetEpoch, hmax]

theorem compute_eq (v : PowVerifier) (header : Header) (nonce : UInt64) :
    v.compute header nonce =
      ((v.dataset header.number).1.bind fun material =>
        (v.dataset header.number).2.pow.compute material header.sealHash nonce,
      (v.dataset header.number).2) := by
  unfold compute
  cases v.dataset header.number with
  | mk material after => cases material <;> rfl

theorem verify_of_zero {header : Header} (h : header.difficulty = 0) :
    v.verify header = (.error (.refused .invalidDifficulty), v) := by
  simp only [verify, targetFor, h, if_true]

theorem verify_state {header : Header} (h : header.difficulty ≠ 0) :
    (v.verify header).2 = (v.dataset header.number).2 := by
  simp only [verify, targetFor, h, if_false]
  have hcompute := v.compute_eq header (nonceWord header.nonce)
  cases hc : v.compute header (nonceWord header.nonce) with
  | mk outcome after =>
    rw [hc] at hcompute
    cases outcome <;> exact congrArg Prod.snd hcompute

theorem verify_answer {header : Header} :
    (v.verify header).1 =
      match targetFor header.difficulty with
      | .error e => .error (.refused e)
      | .ok target =>
        match (v.compute header (nonceWord header.nonce)).1 with
        | none => .error .crashed
        | some outcome => judge header target outcome := by
  unfold verify
  cases targetFor header.difficulty with
  | error e => rfl
  | ok target =>
    cases v.compute header (nonceWord header.nonce) with
    | mk outcome after => cases outcome <;> rfl

theorem perform_of_needs_none {call : Call β} (h : call.needs? v.epochLength = none) :
    (v.perform call).2 = v := by
  cases call with
  | dataset number => cases h
  | seedHashFor number => rfl
  | compute header nonce => cases h
  | verify header =>
    by_cases hzero : header.difficulty = 0
    · simp only [perform, verify_of_zero hzero]
    · simp [Call.needs?, hzero] at h

/-- Any other call asks for one dataset, and does nothing else. -/
theorem perform_of_needs (hlength : v.epochLength ≠ 0) {call : Call β} {epoch : UInt64}
    (h : call.needs? v.epochLength = some epoch) :
    ∃ number, v.epochOf number = epoch ∧ (v.perform call).2 = (v.dataset number).2 := by
  have hepoch : ∀ number, some (number / v.epochLength) = some epoch → v.epochOf number = epoch := by
    intro number hsome
    rw [epochOf_eq hlength]
    exact Option.some.inj hsome
  cases call with
  | dataset number => exact ⟨number, hepoch number h, rfl⟩
  | seedHashFor number => cases h
  | compute header nonce =>
    exact ⟨header.number, hepoch _ h, congrArg Prod.snd (v.compute_eq header nonce)⟩
  | verify header =>
    by_cases hzero : header.difficulty = 0
    · simp [Call.needs?, hzero] at h
    · simp only [Call.needs?, hzero, if_false] at h
      exact ⟨header.number, hepoch _ h, verify_state hzero⟩

namespace Serves

theorem compute_answer (hv : Serves start epochs v) (hlength : start.epochLength ≠ 0)
    (header : Header) (nonce : UInt64) :
    (v.compute header nonce).1 = start.pow.outcome start.epochLength header nonce := by
  rw [← hv.epochLength] at hlength ⊢
  obtain ⟨hanswer, hserves, _⟩ := hv.dataset (epochOf_eq hlength header.number)
  rw [compute_eq, hanswer, hserves.pow]
  rfl

theorem verify_answer (hv : Serves start epochs v) (hlength : start.epochLength ≠ 0)
    (header : Header) : (v.verify header).1 = start.pow.verdict start.epochLength header := by
  rw [PowVerifier.verify_answer, hv.compute_answer hlength]
  rfl

theorem answer (hv : Serves start epochs v) (hlength : start.epochLength ≠ 0) (call : Call β) :
    (v.perform call).1 = call.fresh start.pow start.epochLength := by
  cases call with
  | dataset number =>
    rw [← hv.epochLength] at hlength ⊢
    exact (hv.dataset (epochOf_eq hlength number)).1
  | seedHashFor number =>
    rw [← hv.epochLength] at hlength ⊢
    exact congrArg seedHash (epochOf_eq hlength number)
  | compute header nonce => exact hv.compute_answer hlength header nonce
  | verify header => exact hv.verify_answer hlength header

theorem needs (hv : Serves start epochs v) (hlength : start.epochLength ≠ 0) {call : Call β}
    {epoch : UInt64} (h : call.needs? start.epochLength = some epoch) :
    Serves start (epochs ++ [epoch].filter fun epoch => (start.pow.material epoch).isSome)
      (v.perform call).2 ∧
    (v.perform call).2.generated = v.generated ++
      (if epoch ∈ Recency.latest start.datasets.capacity epochs then []
        else [(epoch, seedHash epoch)]) ∧
    (start.pow.material epoch = none → (v.perform call).2.datasets = v.datasets) := by
  rw [← hv.epochLength] at hlength h
  obtain ⟨number, hepoch, hstate⟩ := perform_of_needs hlength h
  rw [hstate]
  exact (hv.dataset hepoch).2

theorem perform (hv : Serves start epochs v) (hlength : start.epochLength ≠ 0) (call : Call β) :
    Serves start (epochs ++ used start.pow start.epochLength [⟨β, call⟩]) (v.perform call).2 := by
  cases h : call.needs? start.epochLength with
  | none =>
    have hidle : call.needs? v.epochLength = none := by rw [hv.epochLength, h]
    simpa [used, h, perform_of_needs_none hidle] using hv
  | some epoch => simpa [used, h] using (hv.needs hlength h).1

theorem run (hv : Serves start epochs v) (hlength : start.epochLength ≠ 0)
    (calls : List (Σ β : Type, Call β)) :
    Serves start (epochs ++ used start.pow start.epochLength calls) (v.run calls) := by
  induction calls generalizing v epochs with
  | nil =>
    rw [used, List.filterMap_nil, List.filter_nil, List.append_nil]
    exact hv
  | cons call calls ih =>
    have h := ih (hv.perform hlength call.2)
    rwa [List.append_assoc, ← used_append] at h

end Serves

/-! ## Every run of a new verifier -/

theorem create_eq_ok_iff {f : PowFunction} {capacity length : UInt64} :
    create f capacity length = .ok v ↔ capacity ≠ 0 ∧ length ≠ 0 ∧
      v = { pow := f, datasets := { capacity := capacity.toNat }, epochLength := length } := by
  unfold create Recency.create
  by_cases hlength : length = 0
  · simp [hlength]
  by_cases hcapacity : capacity = 0
  · simp [hlength, hcapacity, Except.map]
  · simp [hlength, hcapacity, Except.map, eq_comm]

theorem serves_create {f : PowFunction} {capacity length : UInt64}
    (h : create f capacity length = .ok start) : Serves start [] start := by
  obtain ⟨_, _, rfl⟩ := create_eq_ok_iff.1 h
  exact ⟨rfl, rfl, rfl, List.take_nil.symm, fun _ _ hmem => absurd hmem List.not_mem_nil⟩

/-- A verifier can be made for any function, with room for at least one dataset. After any calls on
it, every answer is that of the function on material made anew. The function is asked for a dataset,
with its seed and just once, exactly when a call needs one that is not among those used last, as many
as there is room for. A call that needs none changes nothing, and a dataset that cannot be made leaves
the cache as it is. -/
theorem run_transparent (f : PowFunction) {capacity length : UInt64} (hcapacity : capacity ≠ 0)
    (hlength : length ≠ 0) :
    ∃ start, create f capacity length = .ok start ∧
      ∀ (calls : List (Σ β : Type, Call β)) {β : Type} (call : Call β),
        ((start.run calls).perform call).1 = call.fresh f length ∧
        (call.needs? length = none →
          ((start.run calls).perform call).2 = start.run calls) ∧
        ∀ epoch, call.needs? length = some epoch →
          ((start.run calls).perform call).2.generated = (start.run calls).generated ++
            (if epoch ∈ Recency.latest capacity.toNat (used f length calls) then []
              else [(epoch, seedHash epoch)]) ∧
          (f.material epoch = none →
            ((start.run calls).perform call).2.datasets = (start.run calls).datasets) := by
  have hcreate := (create_eq_ok_iff (f := f)).2 ⟨hcapacity, hlength, rfl⟩
  refine ⟨_, hcreate, ?_⟩
  intro calls β call
  have hserves := (serves_create hcreate).run hlength calls
  refine ⟨hserves.answer hlength call, ?_, ?_⟩
  · intro hnone
    apply perform_of_needs_none
    rw [hserves.epochLength, hnone]
  · intro epoch hneeds
    exact (hserves.needs hlength hneeds).2

end PowVerifier

/-! ## Room for two datasets -/

namespace Sample

def walk : PowFunction := (MemoryWalk.ofSizes 1024 8).toPowFunction

def visits : List (Σ β : Type, PowVerifier.Call β) :=
  [⟨_, .dataset 3⟩, ⟨_, .dataset 9⟩, ⟨_, .dataset 10⟩, ⟨_, .dataset 25⟩]

end Sample

namespace PowVerifier

/-- The first dataset was forgotten for the third, the second was not. -/
theorem forgotten_made_again : (2 : UInt64) ≠ 0 ∧ (10 : UInt64) ≠ 0 ∧
    ∃ start, create Sample.walk 2 10 = .ok start ∧
      ((start.run Sample.visits).perform (.dataset 5)).1 = Sample.walk.material 0 ∧
      ((start.run Sample.visits).perform (.dataset 5)).2.generated =
        (start.run Sample.visits).generated ++ [(0, seedHash 0)] ∧
      ((start.run Sample.visits).perform (.dataset 12)).2.generated =
        (start.run Sample.visits).generated := by
  have htwo : (2 : UInt64) ≠ 0 := by decide
  have hten : (10 : UInt64) ≠ 0 := by decide
  obtain ⟨start, hstart, hruns⟩ := run_transparent Sample.walk htwo hten
  obtain ⟨hanswer, -, hneeds⟩ := hruns Sample.visits (.dataset 5)
  obtain ⟨-, -, hneeds'⟩ := hruns Sample.visits (.dataset 12)
  have hforgotten : (0 : UInt64) ∉
      Recency.latest (2 : UInt64).toNat (used Sample.walk 10 Sample.visits) := by
    decide
  have hkept : (1 : UInt64) ∈
      Recency.latest (2 : UInt64).toNat (used Sample.walk 10 Sample.visits) := by
    decide
  have hfirst := (hneeds 0 (by decide)).1
  have hsecond := (hneeds' 1 (by decide)).1
  rw [if_neg hforgotten] at hfirst
  rw [if_pos hkept, List.append_nil] at hsecond
  exact ⟨htwo, hten, start, hstart, hanswer, hfirst, hsecond⟩

end PowVerifier

end BlockSeal
