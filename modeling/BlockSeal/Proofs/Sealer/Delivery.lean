import BlockSeal.Engine
import BlockSeal.Proofs.SealHash
import BlockSeal.Proofs.Sealer.Requests

/-! # What the sealer delivers

A sealer handles requests while others empty its sinks, use its verifier and change its epochs. From
outside, the requests can be seen with their answers, and the blocks that come out of the sinks.

* `Event`, `react`: what can happen to a sealer, and what becomes of it. `IsFresh`: how it starts, in
  an engine of any mode (`isFresh_create`).
* `History`, `record`, `watch`: what can be seen of events in turn.
* `Delivery`: a sealed block, and the push, the solution and the verifier that account for it;
  `Settles`: how one solution must end.
* `Accounts`: the candidate and its sink are those of the latest push, and for each accepted
  solution there is one delivery. One event keeps this (`Accounts.react`), and so do many.
* `watch_delivers`: how each solution is settled, and where the blocks of all of them are.
-/

set_option autoImplicit false

namespace BlockSeal

/-! ## Modes -/

namespace SealVerifier

def mode : SealVerifier → Mode
  | pow _ => .pow
  | slot _ => .slot
  | fake _ => .fake
  | fullFake => .fullFake

theorem mode_of_map {α : Type} {r : Except Error α} {f : α → SealVerifier} {v : SealVerifier}
    {m : Mode} (hf : ∀ a, (f a).mode = m) (h : r.map f = .ok v) : v.mode = m := by
  cases r with
  | error e => cases h
  | ok a =>
    cases h
    exact hf a

theorem mode_ofConfig {c : Config} {function : PowFunction} {v : SealVerifier}
    (h : ofConfig c function = .ok v) : v.mode = c.mode := by
  unfold ofConfig at h
  cases hmode : c.mode with
  | pow =>
    rw [hmode] at h
    exact mode_of_map (fun _ => rfl) h
  | slot =>
    rw [hmode] at h
    exact mode_of_map (fun _ => rfl) h
  | fake =>
    rw [hmode] at h
    cases h
    rfl
  | fullFake =>
    rw [hmode] at h
    cases h
    rfl

theorem mode_verify (v : SealVerifier) (header : Header) : (v.verify header).2.mode = v.mode := by
  cases v <;> rfl

theorem mode_withStore (v : SealVerifier) (store : EpochStore) :
    (v.withStore store).mode = v.mode := by
  cases v <;> rfl

theorem applySubmission_frame {v : SealVerifier} {header sealed : Header} {submission : Submission}
    (h : v.applySubmission header submission = .ok sealed) :
    sealed = { header with
      extra := sealed.extra, mixDigest := sealed.mixDigest, nonce := submission.nonce } ∧
    (v.mode ≠ .slot → sealed.extra = header.extra) := by
  by_cases hv : ∀ w, v ≠ slot w
  · rw [applySubmission_of_ne_slot hv, Except.ok.injEq] at h
    subst h
    exact ⟨rfl, fun _ => rfl⟩
  · simp only [not_forall, ne_eq, not_not] at hv
    obtain ⟨w, rfl⟩ := hv
    obtain ⟨signature, s, _, _, rfl⟩ := applySubmission_slot_eq_ok_iff.1 h
    exact ⟨rfl, fun hmode => absurd rfl hmode⟩

end SealVerifier

namespace Sealer

/-! ## Events -/

/-- What can happen to a sealer: a request, or what others do in between. -/
inductive Event : Type 1
  | request (request : Σ α : Type, Request α)
  /-- The waiting blocks are taken out of a sink. -/
  | drain (name : SinkName)
  /-- The reader of a sink goes away, with the blocks that wait there. -/
  | abandon (name : SinkName)
  | notices (queue : Option (Queue WorkPackage))
  | clock (now : UInt64)
  | localRate (rate : UInt64)
  | epochs (store : EpochStore)
  | verify (header : Header)

def updateSink (s : Sealer) (name : SinkName) (f : Queue Block → Queue Block) : Sealer :=
  match s.sink? name with
  | some queue => s.setSink name (f queue)
  | none => s

def react (s : Sealer) : Event → Sealer
  | .request request => (s.handle request.2).2
  | .drain name => s.updateSink name fun queue => queue.drain.2
  | .abandon name => s.updateSink name Queue.abandon
  | .notices queue => { s with notices := queue }
  | .clock now => { s with now := now }
  | .localRate rate => { s with hashRate := s.hashRate.setLocal rate }
  | .epochs store => { s with verifier := s.verifier.withStore store }
  | .verify header => { s with verifier := (s.verifier.verify header).2 }

def waiting (s : Sealer) (name : SinkName) : List Block :=
  ((s.sink? name).map fun queue => queue.waiting).getD []

theorem waiting_of_sinks {s s' : Sealer} (h : s'.sinks = s.sinks) (name : SinkName) :
    s'.waiting name = s.waiting name := by
  rw [waiting, waiting, sink?, sink?, h]

theorem waiting_setSink {s : Sealer} {name : SinkName} {old : Queue Block}
    (h : s.sink? name = some old) (queue : Queue Block) (other : SinkName) :
    (s.setSink name queue).waiting other =
      if other = name then queue.waiting else s.waiting other := by
  unfold waiting
  by_cases hother : other = name
  · rw [if_pos hother, hother, sink?_setSink_self h]
    rfl
  · rw [if_neg hother, sink?_setSink_ne hother]

theorem waiting_updateSink (s : Sealer) (name other : SinkName) {f : Queue Block → Queue Block}
    (hf : ∀ queue, (f queue).waiting = []) :
    (s.updateSink name f).waiting other = if other = name then [] else s.waiting other := by
  unfold updateSink
  cases hsink : s.sink? name with
  | some queue =>
    simp only
    rw [waiting_setSink hsink, hf]
  | none =>
    have hnone : s.waiting name = [] := by
      rw [waiting, hsink]
      rfl
    simp only
    by_cases hother : other = name
    · rw [if_pos hother, hother, hnone]
    · rw [if_neg hother]

theorem updateSink_eq (s : Sealer) (name : SinkName) (f : Queue Block → Queue Block) :
    ∃ sinks, s.updateSink name f = { s with sinks := sinks } := by
  unfold updateSink
  split
  · exact ⟨_, rfl⟩
  · exact ⟨_, rfl⟩

theorem updateSink_frame (s : Sealer) (name : SinkName) (f : Queue Block → Queue Block) :
    (s.updateSink name f).verifier = s.verifier ∧ (s.updateSink name f).current = s.current ∧
      (s.updateSink name f).results = s.results := by
  obtain ⟨sinks, hafter⟩ := s.updateSink_eq name f
  rw [hafter]
  exact ⟨rfl, rfl, rfl⟩

/-- A sealer as it starts: there is no candidate, and no work was issued. -/
structure IsFresh (s : Sealer) : Prop where
  current : s.current = none
  works : s.works = []
  results : s.results = none

theorem isFresh_create {config : Config} {function : PowFunction}
    {notices : Option (Queue WorkPackage)} {sinks : List (SinkName × Queue Block)} {now : UInt64}
    {e : Engine} (h : Engine.create config function notices sinks now = .ok e) :
    e.coordinator.sealer.IsFresh ∧ e.coordinator.sealer.verifier.mode = config.mode := by
  obtain ⟨-, verifier, hverifier, rfl⟩ := Engine.create_eq_ok_iff.1 h
  exact ⟨⟨rfl, rfl, rfl⟩, SealVerifier.mode_ofConfig hverifier⟩

/-! ## What can be seen -/

/-- A push that succeeded: the block and the sink that were given, and the work in the answer. -/
structure Push where
  block : Block
  sink : SinkName
  work : WorkPackage

def Push.candidate (p : Push) : Candidate := { block := p.block, work := p.work }

/-- A solution that was accepted, with the latest push and the verifier of that moment. -/
structure Acceptance where
  submission : Submission
  latest : Option Push
  verifier : SealVerifier

/-- What was seen so far, starting with nothing. -/
structure History where
  latest : Option Push := none
  accepted : List Acceptance := []
  /-- The blocks that left each sink, in order. -/
  taken : SinkName → List Block := fun _ => []

namespace History

def push (h : History) (block : Block) (sink : SinkName) : Except Failure WorkPackage → History
  | .ok work => { h with latest := some { block := block, sink := sink, work := work } }
  | .error _ => h

def submit (h : History) (submission : Submission) (verifier : SealVerifier) :
    Except Failure Unit → History
  | .ok () => { h with accepted := h.accepted ++
      [{ submission := submission, latest := h.latest, verifier := verifier }] }
  | .error _ => h

def take (h : History) (name : SinkName) (blocks : List Block) : History :=
  { h with taken := fun other => if other = name then h.taken other ++ blocks else h.taken other }

/-- What is seen after one event more, which happens to the sealer `s`. -/
def record (h : History) (s : Sealer) : Event → History
  | .request ⟨_, .pushWork block sink⟩ => h.push block sink (s.handle (.pushWork block sink)).1
  | .request ⟨_, .submitWork submission⟩ =>
    h.submit submission s.verifier (s.handle (.submitWork submission)).1
  | .drain name => h.take name (s.waiting name)
  | .abandon name => h.take name (s.waiting name)
  | _ => h

end History

/-- What is seen of events in turn, and what becomes of the sealer. -/
def watch (events : List Event) (start : History × Sealer) : History × Sealer :=
  events.foldl (fun now event => (now.1.record now.2 event, now.2.react event)) start

/-! ## Deliveries -/

/-- A sealed block, and what it comes from: it is the pushed block but for the seal in the header,
the solution is one of that block's work, and the verifier accepts the header. -/
structure Delivery where
  push : Push
  submission : Submission
  verifier : SealVerifier
  block : Block
  work : submission.sealHash = push.work.sealHash
  transactions : block.transactions = push.block.transactions
  header : block.header = { push.block.header with
    extra := block.header.extra, mixDigest := block.header.mixDigest, nonce := submission.nonce }
  extra : verifier.mode ≠ .slot → block.header.extra = push.block.header.extra
  verified : (verifier.verify block.header).1 = .ok ()

def Delivery.acceptance (d : Delivery) : Acceptance where
  submission := d.submission
  latest := some d.push
  verifier := d.verifier

def sentTo (name : SinkName) (sent : List Delivery) : List Block :=
  (sent.filter fun d => d.push.sink = name).map Delivery.block

theorem sentTo_concat (name : SinkName) (sent : List Delivery) (d : Delivery) :
    sentTo name (sent ++ [d]) =
      if name = d.push.sink then sentTo name sent ++ [d.block] else sentTo name sent := by
  unfold sentTo
  rw [List.filter_append, List.map_append]
  by_cases hname : name = d.push.sink
  · simp [hname]
  · simp [hname, Ne.symm hname]

/-- How a sealer must settle a solution, when `latest` is the latest push. -/
structure Settles (s : Sealer) (latest : Option Push) (submission : Submission) : Prop where
  /-- One block is sent, and to the sink of the latest push. -/
  accepted : (s.handle (.submitWork submission)).1 = .ok () →
    ∃ (d : Delivery) (queue : Queue Block),
      d.acceptance = { submission := submission, latest := latest, verifier := s.verifier } ∧
      s.sink? d.push.sink = some queue ∧
      (s.handle (.submitWork submission)).2.sink? d.push.sink =
        some { queue with waiting := queue.waiting ++ [d.block] } ∧
      ∀ other, other ≠ d.push.sink →
        (s.handle (.submitWork submission)).2.sink? other = s.sink? other
  refused : (s.handle (.submitWork submission)).1 ≠ .ok () →
    (s.handle (.submitWork submission)).2.sinks = s.sinks
  unready : latest = none →
    (s.handle (.submitWork submission)).1 = .error (.refused .noWork)

/-- What is seen accounts for the sealer, which started as `s₀`. -/
structure Accounts (s₀ : Sealer) (seen : History) (s : Sealer) : Prop where
  mode : s.verifier.mode = s₀.verifier.mode
  current : s.current = seen.latest.map Push.candidate
  results : s.results = seen.latest.map Push.sink
  sent : ∃ sent : List Delivery, sent.map Delivery.acceptance = seen.accepted ∧
    ∀ name, seen.taken name ++ s.waiting name = s₀.waiting name ++ sentTo name sent

variable {s₀ s s' : Sealer} {seen : History} {submission : Submission}

theorem IsFresh.accounts (h : s₀.IsFresh) : Accounts s₀ {} s₀ where
  mode := rfl
  current := h.current
  results := h.results
  sent := ⟨[], rfl, fun _ => (List.append_nil _).symm⟩

namespace Accounts

theorem of_eq (h : Accounts s₀ seen s) (hmode : s'.verifier.mode = s.verifier.mode)
    (hcurrent : s'.current = s.current) (hresults : s'.results = s.results)
    (hsinks : s'.sinks = s.sinks) : Accounts s₀ seen s' where
  mode := hmode.trans h.mode
  current := hcurrent.trans h.current
  results := hresults.trans h.results
  sent := by simpa only [waiting_of_sinks hsinks] using h.sent

theorem of_pushWork (h : Accounts s₀ seen s) (block : Block) (sink : SinkName) :
    Accounts s₀ (seen.push block sink (s.handle (.pushWork block sink)).1)
      (s.handle (.pushWork block sink)).2 := by
  change Accounts s₀ (seen.push block sink (Failure.lift (s.pushWork block sink).1))
    (s.pushWork block sink).2
  cases hanswer : (s.pushWork block sink).1 with
  | error e =>
    rw [pushWork_of_error (by simp [hanswer])]
    exact h
  | ok work =>
    obtain ⟨hverifier, hcurrent, hresults, hsinks⟩ := pushWork_of_ok hanswer
    obtain ⟨sent, haccepted, hblocks⟩ := h.sent
    refine ⟨?_, hcurrent, hresults, sent, haccepted, ?_⟩
    · rw [hverifier]
      exact h.mode
    · intro name
      rw [waiting_of_sinks hsinks]
      exact hblocks name

/-- An accepted solution makes one delivery, which goes to the sink of the latest push. -/
theorem delivery_of_ok (h : Accounts s₀ seen s) (hok : (s.submit submission).1 = .ok ()) :
    ∃ (d : Delivery) (queue : Queue Block) (v : SealVerifier),
      d.acceptance =
        { submission := submission, latest := seen.latest, verifier := s.verifier } ∧
      s.sink? d.push.sink = some queue ∧ v.mode = s.verifier.mode ∧
      (s.submit submission).2 = setSink { s with verifier := v } d.push.sink
        { queue with waiting := queue.waiting ++ [d.block] } := by
  obtain ⟨c, header, name, queue, hcurrent, hresults, hsink, hhash, happlied, hverified, hafter⟩ :=
    submit_of_ok hok
  -- The candidate and the sink are those of one push, the latest.
  rw [h.current] at hcurrent
  obtain ⟨p, hlatest, rfl⟩ := Option.map_eq_some_iff.1 hcurrent
  rw [h.results, hlatest] at hresults
  cases hresults
  obtain ⟨hheader, hextra⟩ := SealVerifier.applySubmission_frame happlied
  let d : Delivery := {
    push := p
    submission := submission
    verifier := s.verifier
    block := p.block.withSeal header
    work := hhash
    transactions := rfl
    header := hheader
    extra := hextra
    verified := hverified }
  refine ⟨d, queue, _, ?_, hsink, SealVerifier.mode_verify _ header, hafter⟩
  rw [hlatest]
  rfl

theorem of_submitWork (h : Accounts s₀ seen s) (submission : Submission) :
    Accounts s₀ (seen.submit submission s.verifier (s.handle (.submitWork submission)).1)
      (s.handle (.submitWork submission)).2 := by
  rw [handle_submitWork]
  cases hanswer : (s.submit submission).1 with
  | error e =>
    have hrefused : (s.submit submission).1 ≠ .ok () := by simp [hanswer]
    rcases submit_of_error hrefused with hafter | ⟨header, hafter⟩
    · rw [hafter]
      exact h
    · rw [hafter]
      exact h.of_eq (SealVerifier.mode_verify _ header) rfl rfl rfl
  | ok u =>
    obtain ⟨d, queue, v, hd, hsink, hmode, hafter⟩ := h.delivery_of_ok hanswer
    obtain ⟨sent, haccepted, hblocks⟩ := h.sent
    -- The new delivery comes last, in the list of all as in its sink.
    rw [hafter]
    refine ⟨hmode.trans h.mode, h.current, h.results, sent ++ [d], ?_, ?_⟩
    · rw [List.map_append, haccepted, List.map_singleton, hd]
      rfl
    · intro name
      rw [waiting_setSink (s := { s with verifier := v }) hsink, sentTo_concat]
      by_cases hsame : name = d.push.sink
      · have hwaiting : s.waiting name = queue.waiting := by
          rw [hsame, waiting, hsink]
          rfl
        rw [if_pos hsame, if_pos hsame]
        calc seen.taken name ++ (queue.waiting ++ [d.block])
            = seen.taken name ++ s.waiting name ++ [d.block] := by
              rw [hwaiting, List.append_assoc]
          _ = s₀.waiting name ++ (sentTo name sent ++ [d.block]) := by
              rw [hblocks name, List.append_assoc]
      · rw [if_neg hsame, if_neg hsame]
        exact hblocks name

theorem of_updateSink (h : Accounts s₀ seen s) (name : SinkName) {f : Queue Block → Queue Block}
    (hf : ∀ queue, (f queue).waiting = []) :
    Accounts s₀ (seen.take name (s.waiting name)) (s.updateSink name f) := by
  obtain ⟨hverifier, hcurrent, hresults⟩ := s.updateSink_frame name f
  obtain ⟨sent, haccepted, hblocks⟩ := h.sent
  refine ⟨?_, hcurrent.trans h.current, hresults.trans h.results, sent, haccepted, ?_⟩
  · rw [hverifier]
    exact h.mode
  · intro other
    rw [waiting_updateSink s name other hf, ← hblocks other]
    simp only [History.take]
    by_cases hother : other = name
    · rw [if_pos hother, if_pos hother, hother, List.append_nil]
    · rw [if_neg hother, if_neg hother]

/-- **One event.** -/
theorem react (h : Accounts s₀ seen s) (event : Event) :
    Accounts s₀ (seen.record s event) (s.react event) := by
  cases event with
  | request request =>
    obtain ⟨α, request⟩ := request
    cases request with
    | pushWork block sink => exact h.of_pushWork block sink
    | fetchWork => exact h
    | submitWork submission => exact h.of_submitWork submission
    | reportRate worker rate => exact h.of_eq rfl rfl rfl rfl
  | drain name => exact h.of_updateSink name fun _ => rfl
  | abandon name => exact h.of_updateSink name fun _ => rfl
  | notices queue => exact h.of_eq rfl rfl rfl rfl
  | clock now => exact h.of_eq rfl rfl rfl rfl
  | localRate rate => exact h.of_eq rfl rfl rfl rfl
  | epochs store => exact h.of_eq (SealVerifier.mode_withStore _ store) rfl rfl rfl
  | verify header => exact h.of_eq (SealVerifier.mode_verify _ header) rfl rfl rfl

theorem watch (h : Accounts s₀ seen s) (events : List Event) :
    Accounts s₀ (Sealer.watch events (seen, s)).1 (Sealer.watch events (seen, s)).2 := by
  induction events generalizing seen s with
  | nil => exact h
  | cons event events ih => exact ih (h.react event)

theorem fetchWork (h : Accounts s₀ seen s) {p : Push} (hlatest : seen.latest = some p) :
    (s.handle .fetchWork).1 = .ok (p.work,
      { parentHash := p.block.header.parentHash, number := p.block.number }) := by
  have hcurrent : s.current = some p.candidate := by
    rw [h.current, hlatest]
    rfl
  simp only [handle, offer, hcurrent]
  rfl

theorem settles (h : Accounts s₀ seen s) (submission : Submission) :
    s.Settles seen.latest submission where
  accepted := by
    intro hok
    obtain ⟨d, queue, v, hd, hsink, _, hafter⟩ := h.delivery_of_ok hok
    refine ⟨d, queue, hd, hsink, ?_, ?_⟩
    · rw [handle_submitWork, hafter]
      exact sink?_setSink_self (s := { s with verifier := v }) hsink
    · intro other hother
      rw [handle_submitWork, hafter, sink?_setSink_ne hother]
      rfl
  refused := by
    intro hrefused
    rw [handle_submitWork] at hrefused ⊢
    rcases submit_of_error hrefused with hafter | ⟨header, hafter⟩
    · rw [hafter]
    · rw [hafter]
  unready := by
    intro hlatest
    have hcurrent : s.current = none := by
      rw [h.current, hlatest]
      rfl
    rw [handle_submitWork, submit, hcurrent]

end Accounts

/-- **What is delivered.** A sealer starts afresh, and requests and what others do follow in any
order. Then its mode is the same, it hands out the work of the latest push, and it settles any
solution as it must: an accepted one sends one block, which accounts for itself, to the sink of the
latest push; a refused one sends nothing; and without a push every one is refused. All in all there
is one delivery for each accepted solution, in order, and what left each sink and waits there is what
waited at first and what was sent there. -/
theorem watch_delivers {events : List Event} (hfresh : s₀.IsFresh)
    (hwatch : watch events ({}, s₀) = (seen, s)) :
    s.verifier.mode = s₀.verifier.mode ∧
    (∀ p, seen.latest = some p → (s.handle .fetchWork).1 = .ok (p.work,
      { parentHash := p.block.header.parentHash, number := p.block.number })) ∧
    (∀ submission, s.Settles seen.latest submission) ∧
    ∃ sent : List Delivery, sent.map Delivery.acceptance = seen.accepted ∧
      ∀ name, seen.taken name ++ s.waiting name = s₀.waiting name ++ sentTo name sent := by
  have haccounts := hfresh.accounts.watch events
  rw [hwatch] at haccounts
  exact ⟨haccounts.mode, fun p => haccounts.fetchWork, haccounts.settles, haccounts.sent⟩

end Sealer

/-! ## Two pushes -/

namespace Sample

def sealer : Sealer where
  verifier := .fullFake
  hashRate := { maxWorkers := 8, window := 10 }
  staleThreshold := 7
  sinks := [("earlier", { capacity := 1 }), ("later", { capacity := 1 })]

def blockAt (number : UInt64) : Block := { header := { number := number } }

def solutionOf (block : Block) : Submission where
  nonce := Octets.zero
  mixDigest := Octets.zero
  sealHash := SealVerifier.fullFake.sealHash block.header
  signature := none

/-- Solutions of both blocks come after the second push. -/
def events : List Sealer.Event := [
  .request ⟨_, .pushWork (blockAt 1) "earlier"⟩,
  .request ⟨_, .pushWork (blockAt 2) "later"⟩,
  .request ⟨_, .submitWork (solutionOf (blockAt 1))⟩,
  .request ⟨_, .submitWork (solutionOf (blockAt 2))⟩,
  .drain "later"]

def watched : Sealer.History × Sealer := Sealer.watch events ({}, sealer)

end Sample

namespace Sealer

/-- One of the two solutions is accepted, and the block of the second push leaves its sink. -/
theorem second_push_delivers : Sample.sealer.IsFresh ∧ ∃ d : Delivery,
    Sample.watched.1.accepted = [d.acceptance] ∧ d.push.block.header.number = 2 ∧
    Sample.watched.1.taken "later" = [d.block] := by
  have hfresh : Sample.sealer.IsFresh := ⟨rfl, rfl, rfl⟩
  obtain ⟨-, -, -, sent, haccepted, hblocks⟩ :=
    watch_delivers hfresh (Prod.mk.eta (p := Sample.watched)).symm
  obtain ⟨hpushes, hleft⟩ : Sample.watched.1.accepted.map (fun a =>
        a.latest.map fun p => (p.sink, p.block.header.number)) = [some ("later", 2)] ∧
      (Sample.watched.2.waiting "later").length = 0 := by
    decide +kernel
  rw [← haccepted, List.map_map] at hpushes
  obtain ⟨d, rfl⟩ : ∃ d, sent = [d] := by
    have hlength := congrArg List.length hpushes
    rw [List.length_map] at hlength
    exact List.length_eq_one_iff.1 hlength
  obtain ⟨hsink, hnumber⟩ : d.push.sink = "later" ∧ d.push.block.header.number = 2 := by
    simpa [Delivery.acceptance] using hpushes
  have hlater := hblocks "later"
  rw [List.length_eq_zero_iff.1 hleft, List.append_nil] at hlater
  have hsent : sentTo "later" [d] = [d.block] := by simp [sentTo, hsink]
  refine ⟨hfresh, d, haccepted.symm, hnumber, ?_⟩
  rw [hlater, hsent]
  rfl

end Sealer

end BlockSeal
