import BlockSeal.Proofs.Refusals
import BlockSeal.Proofs.Sealer.Delivery

/-! # The works that a sealer remembers

A sealer keeps its candidate, the work for it, the sink and the blocks of the issued works side by
side, and each request changes some of them.

* `SealVerifier.Agrees`: verifiers that issue the same works. Verifying a header and new epochs keep
  to that (`agrees_verify`, `agrees_withStore`).
* `issued?`: the block under a seal hash.
* `pushed?`: the push that an event is, if it succeeds. `KeepsWorks`: the same candidate and the same
  issued works, which every other event keeps (`react_keepsWorks`).
* `InStep`: the issued works are those that the latest push left in memory, and that of the push
  itself. One event keeps this (`InStep.react`), and so do many.
* `invalidState_of_handle`: the one way in which a request fails for the sealer's own state.
* `watch_in_step`: the candidate, its work, its sink and the issued works, after any events.
-/

set_option autoImplicit false

namespace BlockSeal

/-! ## Verifiers that issue the same works -/

theorem PowVerifier.epochLength_verify (v : PowVerifier) (header : Header) :
    (v.verify header).2.epochLength = v.epochLength := by
  by_cases hzero : header.difficulty = 0
  · rw [verify_of_zero hzero]
  · rw [verify_state hzero]
    rfl

namespace SealVerifier

structure Agrees (u v : SealVerifier) : Prop where
  sealHash : ∀ header, u.sealHash header = v.sealHash header
  workPackage : ∀ header, u.workPackage header = v.workPackage header

theorem Agrees.refl (v : SealVerifier) : v.Agrees v := ⟨fun _ => rfl, fun _ => rfl⟩

theorem Agrees.trans {u v w : SealVerifier} (huv : u.Agrees v) (hvw : v.Agrees w) :
    u.Agrees w where
  sealHash := fun header => (huv.sealHash header).trans (hvw.sealHash header)
  workPackage := fun header => (huv.workPackage header).trans (hvw.workPackage header)

theorem agrees_pow {u v : PowVerifier} (h : u.epochLength = v.epochLength) :
    (pow u).Agrees (pow v) where
  sealHash := fun _ => rfl
  workPackage := by
    intro header
    have hseed : u.seedHashFor header.number = v.seedHashFor header.number := by
      rw [PowVerifier.seedHashFor, PowVerifier.seedHashFor, PowVerifier.epochOf,
        PowVerifier.epochOf, h]
    simp only [SealVerifier.workPackage, workContents, hseed]
    rfl

theorem agrees_slot (u v : SlotVerifier) : (slot u).Agrees (slot v) :=
  ⟨fun _ => rfl, fun _ => rfl⟩

theorem agrees_verify (v : SealVerifier) (header : Header) : (v.verify header).2.Agrees v := by
  cases v with
  | pow v => exact agrees_pow (v.epochLength_verify header)
  | slot v => exact agrees_slot _ v
  | fake fail => exact Agrees.refl (fake fail)
  | fullFake => exact Agrees.refl fullFake

theorem agrees_withStore (v : SealVerifier) (store : EpochStore) : (v.withStore store).Agrees v := by
  cases v with
  | slot v => exact agrees_slot _ v
  | pow v => exact Agrees.refl (pow v)
  | fake fail => exact Agrees.refl (fake fail)
  | fullFake => exact Agrees.refl fullFake

end SealVerifier

namespace Sealer

variable {s₀ s s' : Sealer} {seen : History} {latest : Option Push}

/-! ## The issued works -/

/-- The block that was issued under a seal hash and is still remembered. -/
def issued? (s : Sealer) (sealHash : Hash) : Option Block :=
  (s.works.find? fun e => e.1 = sealHash).map (·.2)

theorem issued?_eq_some_iff (h : (s.works.map Prod.fst).Nodup) {sealHash : Hash} {block : Block} :
    s.issued? sealHash = some block ↔ (sealHash, block) ∈ s.works :=
  Recency.peek_eq_some_iff (c := { capacity := s.works.length, entries := s.works }) ⟨le_rfl, h⟩

theorem works_pushWork {block : Block} {sink : SinkName} {work : WorkPackage}
    (h : (s.pushWork block sink).1 = .ok work) :
    s.verifier.workPackage block.header = .ok work ∧
      (s.pushWork block sink).2.staleThreshold = s.staleThreshold ∧
      (s.pushWork block sink).2.works = (work.sealHash, block) ::
        (remembered s.staleThreshold block.number s.works).filter fun e => e.1 ≠ work.sealHash := by
  unfold pushWork at h ⊢
  split at h
  · cases h
  · rename_i issued hissued
    cases h
    exact ⟨hissued, rfl, rfl⟩

/-! ## What an event does -/

def Push.event (p : Push) : Event := .request ⟨_, .pushWork p.block p.sink⟩

/-- The push that an event is, if it is one and succeeds. -/
def pushed? (s : Sealer) : Event → Option Push
  | .request ⟨_, .pushWork block sink⟩ =>
    (s.handle (.pushWork block sink)).1.toOption.map fun work =>
      { block := block, sink := sink, work := work }
  | _ => none

variable {event : Event} {p : Push}

theorem pushed?_pushWork (s : Sealer) (block : Block) (sink : SinkName) :
    s.pushed? (.request ⟨_, .pushWork block sink⟩) =
      (s.pushWork block sink).1.toOption.map fun work =>
        { block := block, sink := sink, work := work } := by
  change (Failure.lift (s.pushWork block sink).1).toOption.map _ = _
  cases (s.pushWork block sink).1 <;> rfl

theorem pushWork_of_pushed?_eq_none {block : Block} {sink : SinkName}
    (h : s.pushed? (.request ⟨_, .pushWork block sink⟩) = none) : (s.pushWork block sink).2 = s := by
  refine pushWork_of_error fun work hok => ?_
  rw [pushed?_pushWork, hok] at h
  cases h

theorem pushed?_eq_some (h : s.pushed? event = some p) :
    event = p.event ∧ (s.pushWork p.block p.sink).1 = .ok p.work := by
  cases event with
  | request request =>
    obtain ⟨α, request⟩ := request
    cases request with
    | pushWork block sink =>
      rw [pushed?_pushWork] at h
      cases hanswer : (s.pushWork block sink).1 with
      | error e =>
        rw [hanswer] at h
        cases h
      | ok work =>
        rw [hanswer] at h
        cases h
        exact ⟨rfl, hanswer⟩
    | _ => cases h
  | _ => cases h

/-- A push that succeeds is the latest one from then on. -/
theorem latest_record (seen : History) (s : Sealer) (event : Event) :
    (seen.record s event).latest = (s.pushed? event).or seen.latest := by
  cases event with
  | request request =>
    obtain ⟨α, request⟩ := request
    cases request with
    | pushWork block sink =>
      change (seen.push block sink (Failure.lift (s.pushWork block sink).1)).latest = _
      rw [pushed?_pushWork]
      cases (s.pushWork block sink).1 <;> rfl
    | submitWork submission =>
      change (seen.submit submission s.verifier (s.submit submission).1).latest = _
      cases (s.submit submission).1 <;> rfl
    | _ => rfl
  | _ => rfl

/-- The same candidate, the same issued works, and a verifier that issues the same works. -/
structure KeepsWorks (a b : Sealer) : Prop where
  staleThreshold : b.staleThreshold = a.staleThreshold
  verifier : b.verifier.Agrees a.verifier
  current : b.current = a.current
  works : b.works = a.works

theorem KeepsWorks.refl (s : Sealer) : s.KeepsWorks s := ⟨rfl, .refl _, rfl, rfl⟩

theorem submit_keepsWorks (s : Sealer) (submission : Submission) :
    s.KeepsWorks (s.submit submission).2 := by
  obtain ⟨verifier, sinks, hafter, hverifier⟩ := s.submit_frame submission
  rw [hafter]
  refine ⟨rfl, ?_, rfl, rfl⟩
  rcases hverifier with rfl | ⟨header, rfl⟩
  · exact .refl _
  · exact s.verifier.agrees_verify header

theorem updateSink_keepsWorks (s : Sealer) (name : SinkName) (f : Queue Block → Queue Block) :
    s.KeepsWorks (s.updateSink name f) := by
  obtain ⟨sinks, hafter⟩ := s.updateSink_eq name f
  rw [hafter]
  exact ⟨rfl, .refl _, rfl, rfl⟩

/-- **One event.** Only a push that succeeds changes the candidate and the issued works. -/
theorem react_keepsWorks (h : s.pushed? event = none) : s.KeepsWorks (s.react event) := by
  cases event with
  | request request =>
    obtain ⟨α, request⟩ := request
    cases request with
    | pushWork block sink =>
      change s.KeepsWorks (s.pushWork block sink).2
      rw [pushWork_of_pushed?_eq_none h]
      exact .refl s
    | fetchWork => exact .refl s
    | submitWork submission => exact s.submit_keepsWorks submission
    | reportRate worker rate => exact ⟨rfl, .refl _, rfl, rfl⟩
  | drain name => exact s.updateSink_keepsWorks name _
  | abandon name => exact s.updateSink_keepsWorks name _
  | notices queue => exact ⟨rfl, .refl _, rfl, rfl⟩
  | clock now => exact ⟨rfl, .refl _, rfl, rfl⟩
  | localRate rate => exact ⟨rfl, .refl _, rfl, rfl⟩
  | epochs store => exact ⟨rfl, s.verifier.agrees_withStore store, rfl, rfl⟩
  | verify header => exact ⟨rfl, s.verifier.agrees_verify header, rfl, rfl⟩

/-! ## In step with the latest push -/

/-- The issued works after a run in which `latest` was the latest push, with the stale threshold
`threshold`. -/
structure InStep (threshold : UInt64) (latest : Option Push) (s : Sealer) : Prop where
  staleThreshold : s.staleThreshold = threshold
  keys : (s.works.map Prod.fst).Nodup
  sealHash : ∀ e ∈ s.works, e.1 = s.verifier.sealHash e.2.header
  unissued : latest = none → s.works = []
  work : ∀ p, latest = some p → s.verifier.workPackage p.block.header = .ok p.work
  issued : ∀ p, latest = some p → (p.work.sealHash, p.block) ∈ s.works
  recent : ∀ p, latest = some p → ∀ e ∈ s.works, e.1 ≠ p.work.sealHash →
    p.block.number < e.2.number.addCapped threshold

variable {threshold : UInt64}

theorem IsFresh.inStep (h : s₀.IsFresh) : InStep s₀.staleThreshold ({} : History).latest s₀ where
  staleThreshold := rfl
  keys := by
    rw [h.works]
    exact List.nodup_nil
  sealHash := by
    intro e he
    rw [h.works] at he
    cases he
  unissued := fun _ => h.works
  work := fun _ hsome => absurd hsome nofun
  issued := fun _ hsome => absurd hsome nofun
  recent := fun _ hsome => absurd hsome nofun

namespace InStep

theorem of_keepsWorks (h : InStep threshold latest s) (hkeeps : s.KeepsWorks s') :
    InStep threshold latest s' where
  staleThreshold := hkeeps.staleThreshold.trans h.staleThreshold
  keys := by
    rw [hkeeps.works]
    exact h.keys
  sealHash := by
    intro e he
    rw [hkeeps.works] at he
    rw [hkeeps.verifier.sealHash]
    exact h.sealHash e he
  unissued := fun hnone => hkeeps.works.trans (h.unissued hnone)
  work := by
    intro p hp
    rw [hkeeps.verifier.workPackage]
    exact h.work p hp
  issued := by
    intro p hp
    rw [hkeeps.works]
    exact h.issued p hp
  recent := by
    intro p hp e he
    rw [hkeeps.works] at he
    exact h.recent p hp e he

theorem push (h : InStep threshold latest s) {block : Block} {sink : SinkName} {work : WorkPackage}
    (hok : (s.pushWork block sink).1 = .ok work) :
    InStep threshold (some { block := block, sink := sink, work := work })
      (s.pushWork block sink).2 := by
  obtain ⟨hwork, hthreshold, hworks⟩ := works_pushWork hok
  obtain ⟨hverifier, -, -, -⟩ := pushWork_of_ok hok
  -- What is kept of the earlier works has other seal hashes, and is not too far behind.
  have hkept : ∀ e ∈ (remembered s.staleThreshold block.number s.works).filter
      (fun e => e.1 ≠ work.sealHash),
      e ∈ s.works ∧ e.1 ≠ work.sealHash ∧ block.number < e.2.number.addCapped threshold := by
    intro e he
    obtain ⟨hremembered, hother⟩ := List.mem_filter.1 he
    obtain ⟨hold, hrecent⟩ := List.mem_filter.1 hremembered
    rw [h.staleThreshold] at hrecent
    exact ⟨hold, by simpa using hother, by simpa using hrecent⟩
  constructor
  case staleThreshold => exact hthreshold.trans h.staleThreshold
  case keys =>
    rw [hworks, List.map_cons, List.nodup_cons]
    constructor
    · intro hmem
      obtain ⟨e, he, hsame⟩ := List.mem_map.1 hmem
      exact (hkept e he).2.1 hsame
    · have hsub : ((remembered s.staleThreshold block.number s.works).filter
          fun e => e.1 ≠ work.sealHash).Sublist s.works :=
        List.filter_sublist.trans List.filter_sublist
      exact (hsub.map Prod.fst).nodup h.keys
  case sealHash =>
    intro e he
    rw [hworks] at he
    rw [hverifier]
    rcases List.mem_cons.1 he with rfl | hold
    · exact SealVerifier.sealHash_of_workPackage hwork
    · exact h.sealHash e (hkept e hold).1
  case unissued => exact nofun
  case work =>
    rintro p ⟨⟩
    rw [hverifier]
    exact hwork
  case issued =>
    rintro p ⟨⟩
    rw [hworks]
    exact List.mem_cons_self
  case recent =>
    rintro p ⟨⟩ e he hother
    rw [hworks] at he
    rcases List.mem_cons.1 he with rfl | hold
    · exact absurd rfl hother
    · exact (hkept e hold).2.2

/-- **One event.** -/
theorem react (h : InStep threshold seen.latest s) (event : Event) :
    InStep threshold (seen.record s event).latest (s.react event) := by
  rw [latest_record]
  cases hpushed : s.pushed? event with
  | none => exact h.of_keepsWorks (react_keepsWorks hpushed)
  | some p =>
    obtain ⟨rfl, hok⟩ := pushed?_eq_some hpushed
    exact h.push hok

/-- **Every run.** -/
theorem watch (h : InStep threshold seen.latest s) (events : List Event) :
    InStep threshold (Sealer.watch events (seen, s)).1.latest
      (Sealer.watch events (seen, s)).2 := by
  induction events generalizing seen s with
  | nil => exact h
  | cons event events ih => exact ih (h.react event)

end InStep

/-! ## Requests that fail for the sealer's state -/

theorem invalidState_of_deliver {block : Block} {fault : StateFault}
    (h : (s.deliver block).1 = .error (.invalidState fault)) :
    fault = .unreadResult ∨ s.results = none := by
  unfold deliver at h
  split at h
  · rename_i hresults
    exact .inr hresults
  · split at h
    · cases h
      exact .inl rfl
    · cases h

/-- A solution that fails for the sealer's state has passed all checks of its own. -/
theorem verified_of_invalidState {submission : Submission} {fault : StateFault}
    (h : (s.submit submission).1 = .error (.refused (.invalidState fault))) :
    ∃ c header, s.current = some c ∧ submission.sealHash = c.work.sealHash ∧
      s.verifier.applySubmission c.block.header submission = .ok header ∧
      (s.verifier.verify header).1 = .ok () ∧
      (deliver { s with verifier := (s.verifier.verify header).2 }
        (c.block.withSeal header)).1 = .error (.invalidState fault) := by
  unfold submit at h
  split at h
  · cases h
  rename_i c hcurrent
  split at h
  · exfalso
    split at h <;> cases h
  rename_i hissued
  split at h
  · rename_i e happlied
    cases h
    cases SealVerifier.isInvalidState_of_applySubmission happlied
  rename_i header happlied
  split at h
  · rename_i e verifier hverify
    cases h
    cases SealVerifier.isInvalidState_of_verify (congrArg Prod.fst hverify)
  · rename_i verifier hverify
    refine ⟨c, header, hcurrent, Decidable.not_not.1 hissued, happlied,
      congrArg Prod.fst hverify, ?_⟩
    rw [hverify]
    exact Failure.lift_eq_refused_iff.1 h

theorem invalidState_of_submit {submission : Submission} {fault : StateFault}
    (h : (s.submit submission).1 = .error (.refused (.invalidState fault))) :
    fault = .unreadResult ∨ ∃ c, s.current = some c ∧ s.results = none := by
  obtain ⟨c, header, hcurrent, -, -, -, hdeliver⟩ := verified_of_invalidState h
  exact (invalidState_of_deliver hdeliver).imp_right fun hresults => ⟨c, hcurrent, hresults⟩

/-- A request fails for the sealer's state when a sink does not take a block, or when there is no
sink for a candidate. -/
theorem invalidState_of_handle {α : Type} {request : Request α} {fault : StateFault}
    (h : (s.handle request).1 = .error (.refused (.invalidState fault))) :
    fault = .unreadResult ∨ ∃ c, s.current = some c ∧ s.results = none := by
  cases request with
  | submitWork submission => exact invalidState_of_submit h
  | reportRate worker rate => cases h
  | fetchWork =>
    simp only [handle, offer] at h
    split at h <;> cases h
  | pushWork block sink =>
    have hpush : (s.pushWork block sink).1 = .error (.invalidState fault) :=
      Failure.lift_eq_refused_iff.1 h
    unfold pushWork at hpush
    split at hpush
    · rename_i e hrefused
      cases hpush
      cases SealVerifier.isInvalidState_of_workPackage hrefused
    · cases hpush

/-! ## Every run -/

/-- **In step.** A sealer starts afresh, and requests and what others do follow in any order. Then the
issued works are a map from the seal hashes of its blocks' headers. Without a candidate it is empty,
and there is no sink. With a candidate, its work is the one that the verifier issues for it, the map
leads from the work's seal hash to its block, the sink is the one that it was pushed with, and any
other block in the map is less than the stale threshold behind it. So no request fails for lack of a
sink. -/
theorem watch_in_step {events : List Event} (hfresh : s₀.IsFresh)
    (hwatch : watch events ({}, s₀) = (seen, s)) :
    (s.works.map Prod.fst).Nodup ∧
    (∀ e ∈ s.works, e.1 = s.verifier.sealHash e.2.header) ∧
    (s.current = none → s.works = [] ∧ s.results = none) ∧
    (∀ c, s.current = some c →
      s.verifier.workPackage c.block.header = .ok c.work ∧
      s.issued? c.work.sealHash = some c.block ∧
      (∃ p, seen.latest = some p ∧ p.candidate = c ∧ s.results = some p.sink) ∧
      ∀ e ∈ s.works, e.1 ≠ c.work.sealHash →
        c.block.number < e.2.number.addCapped s₀.staleThreshold) ∧
    ∀ {α : Type} (request : Request α),
      (s.handle request).1 ≠ .error (.refused (.invalidState .noResultSink)) := by
  have haccounts := hfresh.accounts.watch events
  have hstep := hfresh.inStep.watch events
  rw [hwatch] at haccounts hstep
  simp only at haccounts hstep
  have hcandidate : ∀ c, s.current = some c →
      ∃ p, seen.latest = some p ∧ p.candidate = c ∧ s.results = some p.sink := by
    intro c hc
    rw [haccounts.current] at hc
    obtain ⟨p, hlatest, hp⟩ := Option.map_eq_some_iff.1 hc
    refine ⟨p, hlatest, hp, ?_⟩
    rw [haccounts.results, hlatest]
    rfl
  refine ⟨hstep.keys, hstep.sealHash, ?_, ?_, ?_⟩
  · intro hnone
    rw [haccounts.current, Option.map_eq_none_iff] at hnone
    refine ⟨hstep.unissued hnone, ?_⟩
    rw [haccounts.results, hnone]
    rfl
  · intro c hc
    obtain ⟨p, hlatest, rfl, hsink⟩ := hcandidate c hc
    exact ⟨hstep.work p hlatest, (issued?_eq_some_iff hstep.keys).2 (hstep.issued p hlatest),
      ⟨p, hlatest, rfl, hsink⟩, hstep.recent p hlatest⟩
  · intro α request hfailed
    rcases invalidState_of_handle hfailed with hfault | ⟨c, hc, hresults⟩
    · cases hfault
    · obtain ⟨p, -, -, hsink⟩ := hcandidate c hc
      rw [hresults] at hsink
      cases hsink

end Sealer

/-! ## A lower push after a higher one -/

namespace Sample

def pushAt (number : UInt64) : Sealer.Event := .request ⟨_, .pushWork (blockAt number) "later"⟩

/-- The second push leaves the first seven behind and more, and the third goes back to a lower
height. -/
def pushes : List Sealer.Event := [pushAt 1, pushAt 9, pushAt 4]

def pushed : Sealer.History × Sealer := Sealer.watch pushes ({}, sealer)

end Sample

namespace Sealer

/-- The third push is the candidate, and beside its work that of the second is remembered. -/
theorem lower_push_in_step : Sample.sealer.IsFresh ∧ ∃ c, Sample.pushed.2.current = some c ∧
    c.block.number = 4 ∧ Sample.pushed.2.verifier.workPackage c.block.header = .ok c.work ∧
    Sample.pushed.2.issued? c.work.sealHash = some c.block ∧
    Sample.pushed.2.works.map (fun e => e.2.number) = [4, 9] := by
  have hfresh : Sample.sealer.IsFresh := ⟨rfl, rfl, rfl⟩
  obtain ⟨-, -, -, hcandidate, -⟩ :=
    watch_in_step hfresh (Prod.mk.eta (p := Sample.pushed)).symm
  obtain ⟨hnumber, hworks⟩ :
      Sample.pushed.2.current.map (fun c => c.block.number) = some 4 ∧
        Sample.pushed.2.works.map (fun e => e.2.number) = [4, 9] := by
    decide +kernel
  obtain ⟨c, hc, hfour⟩ := Option.map_eq_some_iff.1 hnumber
  obtain ⟨hwork, hissued, -, -⟩ := hcandidate c hc
  exact ⟨hfresh, c, hc, hfour, hwork, hissued, hworks⟩

end Sealer

end BlockSeal
