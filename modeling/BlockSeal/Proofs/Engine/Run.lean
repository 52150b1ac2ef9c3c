import BlockSeal.Endpoint
import BlockSeal.Proofs.Epoch.Run
import BlockSeal.Proofs.Sealer.Requests

/-! # Runs of calls on the engine

* `SealVerifier.Follows`: what calls can make of a verifier: in slot mode only its store changes,
  and as a run of calls on the store would change it.
* `Sealer.Keeps`, `Engine.Keeps`: the same candidate with the same sink, and nothing delivered to
  any sink.
* `Engine.Call`, `Engine.perform`, `Engine.run`: one call on an engine, and a list of them.
* `Engine.Quiet`: a run in which no block is pushed and no solution is accepted.
* `perform_keeps`, `Quiet.keeps`: one quiet call, and so a quiet run, keeps what `Keeps` says.
-/

set_option autoImplicit false

namespace BlockSeal

/-! ## Verifiers -/

theorem SlotVerifier.verify_tolerance (v : SlotVerifier) (header : Header) :
    (v.verify header).2.tolerance = v.tolerance := by
  unfold verify
  split
  · rfl
  · split <;> rfl

namespace SealVerifier

/-- In slot mode `b` is `a` after a run of calls on its store. -/
def Follows (a b : SealVerifier) : Prop :=
  ∀ v, a = slot v → ∃ calls, b = slot { v with store := v.store.run calls }

theorem Follows.refl (a : SealVerifier) : a.Follows a := by
  rintro v rfl
  exact ⟨[], rfl⟩

theorem Follows.trans {a b c : SealVerifier} (hab : a.Follows b) (hbc : b.Follows c) :
    a.Follows c := by
  rintro v rfl
  obtain ⟨before, rfl⟩ := hab v rfl
  obtain ⟨after, rfl⟩ := hbc _ rfl
  exact ⟨before ++ after, by rw [EpochStore.run_append]⟩

theorem verify_follows (a : SealVerifier) (header : Header) : a.Follows (a.verify header).2 := by
  rintro v rfl
  refine ⟨[⟨_, .verify v.tolerance header⟩], ?_⟩
  have htolerance := v.verify_tolerance header
  change slot (v.verify header).2 = slot { v with store := (v.verify header).2.store }
  rw [← htolerance]

end SealVerifier

/-! ## The sealer -/

/-- Whether a request is one that can change the candidate or deliver a block. -/
def Request.isEffective {α : Type} : Request α → Bool
  | pushWork _ _ => true
  | submitWork _ => true
  | _ => false

namespace Sealer

/-- The same candidate, with its sink, and the same queues of sealed blocks. -/
structure Keeps (a b : Sealer) : Prop where
  verifier : a.verifier.Follows b.verifier
  current : b.current = a.current
  results : b.results = a.results
  sinks : b.sinks = a.sinks

theorem Keeps.refl (a : Sealer) : a.Keeps a := ⟨.refl _, rfl, rfl, rfl⟩

theorem Keeps.trans {a b c : Sealer} (hab : a.Keeps b) (hbc : b.Keeps c) : a.Keeps c where
  verifier := hab.verifier.trans hbc.verifier
  current := hbc.current.trans hab.current
  results := hbc.results.trans hab.results
  sinks := hbc.sinks.trans hab.sinks

theorem submit_keeps {s : Sealer} {submission : Submission}
    (h : (s.submit submission).1 ≠ .ok ()) : s.Keeps (s.submit submission).2 := by
  rcases submit_of_error h with hs | ⟨header, hs⟩
  · rw [hs]
    exact .refl s
  · rw [hs]
    exact ⟨s.verifier.verify_follows header, rfl, rfl, rfl⟩

/-- **One request.** Only a push or a solution that succeeds does more. -/
theorem handle_keeps {α : Type} {s : Sealer} {request : Request α}
    (h : request.isEffective = true → ∀ a, (s.handle request).1 ≠ .ok a) :
    s.Keeps (s.handle request).2 := by
  cases request with
  | pushWork block sink =>
    have hrefused : (s.pushWork block sink).2 = s := by
      refine pushWork_of_error fun work hok => h rfl work ?_
      simp only [handle, hok]
      rfl
    simp only [handle]
    rw [hrefused]
    exact .refl s
  | fetchWork => exact .refl s
  | submitWork submission => exact submit_keeps fun hok => h rfl () hok
  | reportRate worker rate => exact ⟨.refl _, rfl, rfl, rfl⟩

end Sealer

/-! ## The coordinator -/

namespace Coordinator

theorem request_keeps {α : Type} {c : Coordinator} {request : Request α}
    (h : request.isEffective = true → ∀ a, (c.request request).1 ≠ .ok a) :
    c.sealer.Keeps (c.request request).2.sealer := by
  unfold Coordinator.request at h ⊢
  split
  · exact .refl _
  rename_i hopen
  simp only [hopen, Bool.false_eq_true, if_false] at h
  have hhandle : c.sealer.Keeps (c.sealer.handle request).2 := by
    refine Sealer.handle_keeps fun heffective a hok => h heffective a ?_
    cases hs : c.sealer.handle request with
    | mk result s =>
      rw [hs] at hok
      change result = .ok a at hok
      rw [hok]
  split
  all_goals
    rename_i hs
    rw [hs] at hhandle
    exact hhandle

theorem submitSeal_keeps {c : Coordinator} {submission : Submission}
    (h : (c.submitSeal submission).1 ≠ .accepted) :
    c.sealer.Keeps (c.submitSeal submission).2.sealer := by
  have hrequest : c.sealer.Keeps (c.request (.submitWork submission)).2.sealer := by
    refine request_keeps fun _ _ hok => h ?_
    unfold submitSeal
    cases hs : c.request (.submitWork submission) with
    | mk result c' =>
      rw [hs] at hok
      change result = .ok () at hok
      rw [hok]
  unfold submitSeal
  split
  all_goals
    rename_i hs
    rw [hs] at hrequest
    exact hrequest

end Coordinator

/-! ## The engine -/

namespace Engine

inductive Call : Type → Type
  | prepare (chain : Chain) (header : Header) : Call (Except Error Header)
  | pushBlock (block : Block) (sink : SinkName) : Call (Except Error WorkPackage)
  | getWork : Call (Except Error (List String))
  | getShardingWork (parent : Hash) (number : UInt64) : Call (Except Error (List String))
  | submitSolution (submission : Submission) : Call Verdict
  | submitSignature (nonce : Nonce) (sealHash : Hash) (text : String) : Call Verdict
  | submitHashRate (worker : Hash) (rate : UInt64) : Call Bool
  | verifySeal (header : Header) : Call (Except Failure Unit)
  | insertEpoch (epoch : UInt64) (info : EpochInfo) : Call (Except Error Unit)
  | epochFor (time : UInt64) : Call (Except Error EpochInfo)
  | waitForEpoch (time : UInt64) (attempts : Nat) : Call (Except Error EpochInfo)
  | setLocalHashRate (rate : UInt64) : Call Unit
  | setClock (now : UInt64) : Call Unit
  | close : Call Unit

def perform {α : Type} (e : Engine) : Call α → α × Engine
  | .prepare chain header => e.prepare chain header
  | .pushBlock block sink => e.pushBlock block sink
  | .getWork => (e.getWork, e)
  | .getShardingWork parent number => (e.getShardingWork parent number, e)
  | .submitSolution submission => e.submitSolution submission
  | .submitSignature nonce sealHash text => e.submitSignature nonce sealHash text
  | .submitHashRate worker rate => e.submitHashRate worker rate
  | .verifySeal header => e.verifySeal header
  | .insertEpoch epoch info => e.insertEpoch epoch info
  | .epochFor time => e.epochFor time
  | .waitForEpoch time attempts => e.waitForEpoch time attempts
  | .setLocalHashRate rate => ((), e.setLocalHashRate rate)
  | .setClock now => ((), e.withClock now)
  | .close => ((), e.close)

def run (calls : List (Σ α : Type, Call α)) (e : Engine) : Engine :=
  calls.foldl (fun e call => (e.perform call.2).2) e

/-- Whether the answer to a call tells that no block was pushed and no solution accepted. -/
def Call.IsQuiet {α : Type} : Call α → α → Prop
  | .pushBlock _ _, answer => ∀ work, answer ≠ .ok work
  | .submitSolution _, verdict => verdict ≠ .accepted
  | .submitSignature _ _ _, verdict => verdict ≠ .accepted
  | _, _ => True

/-- Calls in turn that push no block, and no solution among them is accepted. -/
def Quiet : List (Σ α : Type, Call α) → Engine → Prop
  | [], _ => True
  | call :: calls, e =>
    call.2.IsQuiet (e.perform call.2).1 ∧ Quiet calls (e.perform call.2).2

/-- The same configuration, and a sealer that keeps its candidate and its sinks. -/
structure Keeps (a b : Engine) : Prop where
  config : b.config = a.config
  sealer : a.coordinator.sealer.Keeps b.coordinator.sealer

theorem Keeps.refl (a : Engine) : a.Keeps a := ⟨rfl, .refl _⟩

theorem Keeps.trans {a b c : Engine} (hab : a.Keeps b) (hbc : b.Keeps c) : a.Keeps c where
  config := hbc.config.trans hab.config
  sealer := hab.sealer.trans hbc.sealer

theorem remote_eq_ok_iff {e : Engine} {c : Coordinator} :
    e.remote = .ok c ↔ e.config.remoteEnabled = true ∧ c = e.coordinator := by
  unfold remote
  split
  · rename_i h
    simp [h, eq_comm]
  · rename_i h
    simp [h]

theorem withVerifier_keeps {e : Engine} {v : SealVerifier} (h : e.verifier.Follows v) :
    e.Keeps (e.withVerifier v) :=
  ⟨rfl, h, rfl, rfl, rfl⟩

/-- An operation that a run of calls on the store can do. -/
theorem withStore_keeps {α : Type} (e : Engine) {f : EpochStore → Except Error α × EpochStore}
    (hf : ∀ s, ∃ calls, (f s).2 = s.run calls) : e.Keeps (e.withStore f).2 := by
  unfold withStore
  split
  · exact .refl e
  rename_i s hstore
  refine withVerifier_keeps ?_
  intro v hv
  obtain ⟨calls, hcalls⟩ := hf s
  have hs : s = v.store := by
    simp only [store, hv, SealVerifier.store?, Except.ok.injEq] at hstore
    exact hstore.symm
  refine ⟨calls, ?_⟩
  rw [hv, ← hs, ← hcalls]
  rfl

theorem resolveRetrying_run (time : UInt64) (more : Nat) (s : EpochStore) :
    ∃ calls, (resolveRetrying time more s).2 = s.run calls := by
  induction more generalizing s with
  | zero => exact ⟨[⟨_, .resolve time⟩], rfl⟩
  | succ more ih =>
    unfold resolveRetrying
    have hone : (s.resolve time).2 = s.run [⟨_, .resolve time⟩] := rfl
    split
    · rename_i info s' hs
      rw [hs] at hone
      exact ⟨_, hone⟩
    · rename_i e s' hs
      rw [hs] at hone
      change s' = _ at hone
      obtain ⟨calls, hcalls⟩ := ih s'
      rw [hcalls, hone, ← EpochStore.run_append]
      exact ⟨_, rfl⟩

theorem prepare_keeps (e : Engine) (chain : Chain) (header : Header) :
    e.Keeps (e.prepare chain header).2 := by
  unfold prepare
  split
  · exact .refl e
  split
  · rename_i v hv
    have hfollows : e.verifier.Follows (.slot (v.prepare header).2) := by
      intro v' hv'
      rw [hv] at hv'
      cases hv'
      exact ⟨[⟨_, .resolve header.time⟩], by rw [SlotVerifier.prepare_store]; rfl⟩
    split
    all_goals
      rename_i hs
      rw [hs] at hfollows
      exact withVerifier_keeps hfollows
  · exact .refl e

theorem withRemote_of_enabled {α : Type} {e : Engine} (h : e.config.remoteEnabled = true)
    (f : Coordinator → Except Error α × Coordinator) :
    e.withRemote f = ((f e.coordinator).1, { e with coordinator := (f e.coordinator).2 }) := by
  unfold withRemote
  rw [remote_eq_ok_iff.2 ⟨h, rfl⟩]

/-- An operation of the coordinator that keeps the sealer's candidate when it is run. -/
theorem withRemote_keeps {α : Type} {e : Engine} {f : Coordinator → Except Error α × Coordinator}
    (h : (e.withRemote f).1 = (f e.coordinator).1 →
      e.coordinator.sealer.Keeps (f e.coordinator).2.sealer) : e.Keeps (e.withRemote f).2 := by
  by_cases henabled : e.config.remoteEnabled = true
  · rw [withRemote_of_enabled henabled] at h ⊢
    exact ⟨rfl, h rfl⟩
  · unfold withRemote remote
    rw [if_neg henabled]
    exact .refl e

theorem pushBlock_keeps {e : Engine} {block : Block} {sink : SinkName}
    (h : ∀ work, (e.pushBlock block sink).1 ≠ .ok work) :
    e.Keeps (e.pushBlock block sink).2 := by
  refine withRemote_keeps fun hresult => Coordinator.request_keeps fun _ work hok => h work ?_
  exact hresult.trans hok

theorem submitHashRate_keeps (e : Engine) (worker : Hash) (rate : UInt64) :
    e.Keeps (e.submitHashRate worker rate).2 :=
  withRemote_keeps (f := fun c => c.submitHashRate worker rate) fun _ =>
    Coordinator.request_keeps fun h => absurd h Bool.false_ne_true

theorem submitSolution_keeps {e : Engine} {submission : Submission}
    (h : (e.submitSolution submission).1 ≠ .accepted) :
    e.Keeps (e.submitSolution submission).2 := by
  unfold submitSolution at h ⊢
  split
  · exact .refl e
  rename_i c hremote
  simp only [hremote] at h
  obtain ⟨_, rfl⟩ := remote_eq_ok_iff.1 hremote
  exact ⟨rfl, Coordinator.submitSeal_keeps h⟩

theorem submitSignature_keeps {e : Engine} {nonce : Nonce} {sealHash : Hash} {text : String}
    (h : (e.submitSignature nonce sealHash text).1 ≠ .accepted) :
    e.Keeps (e.submitSignature nonce sealHash text).2 := by
  unfold submitSignature at h ⊢
  split
  · exact .refl e
  rename_i c hremote
  simp only [hremote] at h
  split
  · exact .refl e
  rename_i signature hsignature
  simp only [hsignature] at h
  exact submitSolution_keeps h

/-- **One call.** A call that pushes no block, and is no accepted solution, keeps the candidate and
delivers nothing. -/
theorem perform_keeps {α : Type} {e : Engine} {call : Call α} (h : call.IsQuiet (e.perform call).1) :
    e.Keeps (e.perform call).2 := by
  cases call with
  | prepare chain header => exact e.prepare_keeps chain header
  | pushBlock block sink => exact pushBlock_keeps h
  | getWork => exact .refl e
  | getShardingWork parent number => exact .refl e
  | submitSolution submission => exact submitSolution_keeps h
  | submitSignature nonce sealHash text => exact submitSignature_keeps h
  | submitHashRate worker rate => exact e.submitHashRate_keeps worker rate
  | verifySeal header => exact withVerifier_keeps (e.verifier.verify_follows header)
  | insertEpoch epoch info => exact e.withStore_keeps fun s => ⟨[⟨_, .insert epoch info⟩], rfl⟩
  | epochFor time => exact e.withStore_keeps fun s => ⟨[⟨_, .resolve time⟩], rfl⟩
  | waitForEpoch time attempts => exact e.withStore_keeps (resolveRetrying_run time _)
  | setLocalHashRate rate => exact ⟨rfl, .refl _, rfl, rfl, rfl⟩
  | setClock now => exact ⟨rfl, .refl _, rfl, rfl, rfl⟩
  | close =>
    simp only [perform, close]
    split
    · exact ⟨rfl, .refl _⟩
    · exact .refl e

/-- **Every quiet run.** The candidate is kept, and nothing is delivered. -/
theorem Quiet.keeps {calls : List (Σ α : Type, Call α)} {e : Engine} (h : Quiet calls e) :
    e.Keeps (run calls e) := by
  induction calls generalizing e with
  | nil => exact .refl e
  | cons call calls ih =>
    obtain ⟨hcall, hcalls⟩ := h
    exact (perform_keeps hcall).trans (ih hcalls)

end Engine

end BlockSeal
