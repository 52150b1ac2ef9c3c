import BlockSeal.Proofs.Engine.Verdicts
import BlockSeal.Proofs.Sealer.Staleness

/-! # Requests that fail, and trying again

A request that fails leaves the sealer as it was, but for what its verifier keeps, and that decides
nothing later. So a solution that was refused only because the sink did not take the block can be sent
in again.

* `Regular`: events that change the epochs only as calls on the store do. `Reachable`: the sealers
  that such events can lead to. Their verifiers are faithful (`Reachable.faithful`).
* `handle_of_error`: all that a failed request can change.
* `announced?`, `notices_handle`: what a request announces.
* `keeps_of_watchPushes_nil`: what stays as long as no push succeeds. `submit_of_unread`: a solution
  that only the sink stood in the way of is accepted where it does not.
* `handle_all_or_nothing`: failed requests, announcements, and solutions that are sent in again.
-/

set_option autoImplicit false

namespace BlockSeal

namespace Sealer

variable {α : Type} {s s' : Sealer} {event : Event} {events : List Event} {submission : Submission}

/-! ## The sealers that can be reached -/

/-- Whether the epochs, if the event changes them, become what calls on the store make of them. -/
def Event.IsRegular (s : Sealer) : Event → Prop
  | .epochs store => s.verifier.Follows (s.verifier.withStore store)
  | _ => True

def Regular : List Event → Sealer → Prop
  | [], _ => True
  | event :: events, s => event.IsRegular s ∧ Regular events (s.react event)

/-- A sealer as regular events can leave that of a new engine. -/
def Reachable (s : Sealer) : Prop :=
  ∃ config function notices sinks now engine events,
    Engine.create config function notices sinks now = .ok engine ∧
    Regular events engine.coordinator.sealer ∧
    (watchPushes events ([], engine.coordinator.sealer)).2 = s

theorem faithful_create {config : Config} {function : PowFunction}
    {notices : Option (Queue WorkPackage)} {sinks : List (SinkName × Queue Block)} {now : UInt64}
    {e : Engine} (h : Engine.create config function notices sinks now = .ok e) :
    e.coordinator.sealer.verifier.Faithful := by
  obtain ⟨-, verifier, hverifier, rfl⟩ := Engine.create_eq_ok_iff.1 h
  exact SealVerifier.faithful_ofConfig hverifier

/-! ## What requests do to the verifier -/

theorem verifier_submit (s : Sealer) (submission : Submission) :
    (s.submit submission).2.verifier = s.verifier ∨
      ∃ header, (s.submit submission).2.verifier = (s.verifier.verify header).2 := by
  obtain ⟨verifier, sinks, hafter, hverifier⟩ := s.submit_frame submission
  rw [hafter]
  exact hverifier

theorem verifier_pushWork (s : Sealer) (block : Block) (sink : SinkName) :
    (s.pushWork block sink).2.verifier = s.verifier := by
  cases hanswer : (s.pushWork block sink).1 with
  | error e => rw [pushWork_of_error (by simp [hanswer])]
  | ok work => exact (pushWork_of_ok hanswer).1

/-- A verifier that stays or verifies a header is faithful as before, with the same settings and the
same epochs. -/
theorem faithful_of_verified {u v : SealVerifier} (hv : v.Faithful)
    (h : u = v ∨ ∃ header, u = (v.verify header).2) :
    u.Faithful ∧ u.bare = v.bare ∧ ∀ epoch, u.epoch? epoch = v.epoch? epoch := by
  rcases h with rfl | ⟨header, rfl⟩
  · exact ⟨hv, rfl, fun _ => rfl⟩
  · exact hv.verify header

/-- An event verifies one header at most, or it brings other epochs. -/
theorem verifier_react (s : Sealer) (event : Event) :
    ((s.react event).verifier = s.verifier ∨
      ∃ header, (s.react event).verifier = (s.verifier.verify header).2) ∨
    ∃ store, event = .epochs store ∧ (s.react event).verifier = s.verifier.withStore store := by
  cases event with
  | request request =>
    obtain ⟨β, request⟩ := request
    cases request with
    | pushWork block sink => exact .inl (.inl (s.verifier_pushWork block sink))
    | fetchWork => exact .inl (.inl rfl)
    | submitWork submission => exact .inl (s.verifier_submit submission)
    | reportRate worker rate => exact .inl (.inl rfl)
  | drain name => exact .inl (.inl (s.updateSink_frame name _).1)
  | abandon name => exact .inl (.inl (s.updateSink_frame name _).1)
  | notices queue => exact .inl (.inl rfl)
  | clock now => exact .inl (.inl rfl)
  | localRate rate => exact .inl (.inl rfl)
  | epochs store => exact .inr ⟨store, rfl, rfl⟩
  | verify header => exact .inl (.inr ⟨header, rfl⟩)

/-- **One event.** The verifier stays faithful and keeps its settings. -/
theorem faithful_react (hs : s.verifier.Faithful) (hevent : event.IsRegular s) :
    (s.react event).verifier.Faithful ∧ (s.react event).verifier.bare = s.verifier.bare := by
  rcases s.verifier_react event with hverified | ⟨store, rfl, hafter⟩
  · obtain ⟨hfaithful, hbare, -⟩ := faithful_of_verified hs hverified
    exact ⟨hfaithful, hbare⟩
  · rw [hafter]
    exact hs.withStore hevent

/-- **Every run.** -/
theorem faithful_watchPushes (pushes : List Push) (hs : s.verifier.Faithful)
    (hregular : Regular events s) :
    (watchPushes events (pushes, s)).2.verifier.Faithful ∧
      (watchPushes events (pushes, s)).2.verifier.bare = s.verifier.bare := by
  induction events generalizing pushes s with
  | nil => exact ⟨hs, rfl⟩
  | cons event events ih =>
    obtain ⟨hevent, hevents⟩ := hregular
    obtain ⟨hafter, hbare⟩ := faithful_react hs hevent
    obtain ⟨hfaithful, hsettings⟩ := ih (pushes ++ (s.pushed? event).toList) hafter hevents
    exact ⟨hfaithful, hsettings.trans hbare⟩

theorem Reachable.faithful (hs : s.Reachable) : s.verifier.Faithful := by
  obtain ⟨config, function, notices, sinks, now, engine, events, hcreate, hregular, rfl⟩ := hs
  exact (faithful_watchPushes [] (faithful_create hcreate) hregular).1

/-! ## Requests that fail -/

/-- Nothing changes but the verifier, and that at most by a verification. -/
theorem handle_of_error {request : Request α} {e : Failure}
    (h : (s.handle request).1 = .error e) :
    (s.handle request).2 = { s with verifier := (s.handle request).2.verifier } ∧
      ((s.handle request).2.verifier = s.verifier ∨
        ∃ header, (s.handle request).2.verifier = (s.verifier.verify header).2) := by
  cases request with
  | pushWork block sink =>
    have hrefused : (s.pushWork block sink).2 = s := by
      refine pushWork_of_error fun work hok => ?_
      simp only [handle, hok] at h
      cases h
    have hafter : (s.handle (.pushWork block sink)).2 = s := hrefused
    rw [hafter]
    exact ⟨rfl, .inl rfl⟩
  | fetchWork => exact ⟨rfl, .inl rfl⟩
  | submitWork submission =>
    rw [handle_submitWork] at h ⊢
    have hrefused : (s.submit submission).1 ≠ .ok () := by
      intro hok
      rw [h] at hok
      cases hok
    refine ⟨?_, s.verifier_submit submission⟩
    rcases submit_of_error hrefused with hafter | ⟨header, hafter⟩
    · rw [hafter]
    · rw [hafter]
  | reportRate worker rate => cases h

/-! ## Announcements -/

/-- The work that a request announces, by the answer to it. -/
def announced? : Request α → Except Failure α → Option WorkPackage
  | .pushWork _ _, .ok work => some work
  | _, _ => none

/-- The announced work is offered once, and nothing else is. -/
theorem notices_handle (s : Sealer) (request : Request α) :
    (s.handle request).2.notices = match announced? request (s.handle request).1 with
      | some work => s.notices.map fun queue => (queue.offer? work).getD queue
      | none => s.notices := by
  cases request with
  | pushWork block sink =>
    simp only [handle, pushWork]
    cases s.verifier.workPackage block.header <;> rfl
  | fetchWork => rfl
  | submitWork submission =>
    obtain ⟨verifier, sinks, hafter, -⟩ := s.submit_frame submission
    change (s.submit submission).2.notices = s.notices
    rw [hafter]
  | reportRate worker rate => rfl

/-! ## Solutions that are sent in again -/

theorem results_react (h : s.pushed? event = none) : (s.react event).results = s.results := by
  cases event with
  | request request =>
    obtain ⟨β, request⟩ := request
    cases request with
    | pushWork block sink => exact congrArg results (pushWork_of_pushed?_eq_none h)
    | fetchWork => rfl
    | submitWork submission =>
      obtain ⟨verifier, sinks, hafter, -⟩ := s.submit_frame submission
      change (s.submit submission).2.results = s.results
      rw [hafter]
    | reportRate worker rate => rfl
  | drain name => exact (s.updateSink_frame name _).2.2
  | abandon name => exact (s.updateSink_frame name _).2.2
  | _ => rfl

theorem watchPushes_fst (events : List Event) (pushes : List Push) (s : Sealer) :
    (watchPushes events (pushes, s)).1 = pushes ++ (watchPushes events ([], s)).1 := by
  induction events generalizing pushes s with
  | nil => exact (List.append_nil pushes).symm
  | cons event events ih =>
    change (watchPushes events (pushes ++ (s.pushed? event).toList, s.react event)).1 =
      pushes ++ (watchPushes events ([] ++ (s.pushed? event).toList, s.react event)).1
    rw [ih (pushes ++ _), ih ([] ++ _), List.nil_append, List.append_assoc]

/-- **Events without a push.** The candidate, the issued works and the sink stay. -/
theorem keeps_of_watchPushes_nil (h : (watchPushes events ([], s)).1 = []) :
    s.KeepsWorks (watchPushes events ([], s)).2 ∧
      (watchPushes events ([], s)).2.results = s.results := by
  induction events generalizing s with
  | nil => exact ⟨.refl s, rfl⟩
  | cons event events ih =>
    change (watchPushes events ([] ++ (s.pushed? event).toList, s.react event)).1 = [] at h
    rw [watchPushes_fst, List.nil_append, List.append_eq_nil_iff] at h
    have hnone : s.pushed? event = none := by
      cases hpushed : s.pushed? event with
      | none => rfl
      | some p =>
        rw [hpushed] at h
        cases h.1
    have hstep : watchPushes (event :: events) ([], s) =
        watchPushes events ([], s.react event) := by
      rw [watchPushes, List.foldl_cons, hnone]
      rfl
    obtain ⟨hkeeps, hresults⟩ := ih h.2
    have hone := react_keepsWorks hnone
    rw [hstep]
    exact ⟨⟨hkeeps.staleThreshold.trans hone.staleThreshold, hkeeps.verifier.trans hone.verifier,
      hkeeps.current.trans hone.current, hkeeps.works.trans hone.works⟩,
      hresults.trans (results_react hnone)⟩

/-- When a sealer refuses a solution because its sink does not take the block, then one with the same
candidate, settings and epochs and with a sink that does takes the solution. -/
theorem submit_of_unread {name : SinkName} {queue : Queue Block} (hs : s.verifier.Faithful)
    (hs' : s'.verifier.Faithful) (hcurrent : s'.current = s.current)
    (hsettings : s'.verifier.bare = s.verifier.bare)
    (hepochs : ∀ epoch, s'.verifier.epoch? epoch = s.verifier.epoch? epoch)
    (hunread : (s.submit submission).1 = .error (.refused (.invalidState .unreadResult)))
    (hresults : s'.results = some name) (hsink : s'.sink? name = some queue)
    (hread : queue.isRead = true) (hroom : queue.waiting.length < queue.capacity) :
    ∃ c header, s.current = some c ∧
      s.verifier.applySubmission c.block.header submission = .ok header ∧
      s'.submit submission =
        (.ok (), setSink { s' with verifier := (s'.verifier.verify header).2 } name
          { queue with waiting := queue.waiting ++ [c.block.withSeal header] }) := by
  obtain ⟨c, header, hc, hissued, happlied, hverified, -⟩ := verified_of_invalidState hunread
  have happlied' : s'.verifier.applySubmission c.block.header submission = .ok header := by
    rw [← SealVerifier.applySubmission_bare, hsettings, SealVerifier.applySubmission_bare]
    exact happlied
  have hverified' : (s'.verifier.verify header).1 = .ok () := by
    rw [hs'.verify_congr hs hsettings hepochs]
    exact hverified
  exact ⟨c, header, hc, happlied, submit_of_verified (hcurrent.trans hc) hissued happlied' hverified'
    hresults hsink hread hroom⟩

/-- **All or nothing.** In a sealer that can be reached, a request that fails changes nothing but what
the verifier keeps, and its verdicts are what they were. A push that succeeds announces the work in
its answer, once, and delivers nothing; no other request announces anything. When a solution is
refused because the sink does not take the block, and regular events follow among which no push
succeeds, and in the end the epochs are the same and the sink takes blocks again, then the solution is
accepted, and the block that the candidate makes with it waits last in the sink. -/
theorem handle_all_or_nothing (hs : s.Reachable) :
    (∀ (α : Type) (request : Request α) (e : Failure), (s.handle request).1 = .error e →
      (s.handle request).2 = { s with verifier := (s.handle request).2.verifier } ∧
      (∀ epoch, (s.handle request).2.verifier.epoch? epoch = s.verifier.epoch? epoch) ∧
      ∀ header, ((s.handle request).2.verifier.verify header).1 = (s.verifier.verify header).1) ∧
    (∀ block sink work, (s.handle (.pushWork block sink)).1 = .ok work →
      (s.handle (.pushWork block sink)).2.sinks = s.sinks ∧
      (s.handle (.pushWork block sink)).2.notices =
        s.notices.map fun queue => (queue.offer? work).getD queue) ∧
    (∀ (α : Type) (request : Request α), announced? request (s.handle request).1 = none →
      (s.handle request).2.notices = s.notices) ∧
    ∀ submission events s',
      (s.handle (.submitWork submission)).1 = .error (.refused (.invalidState .unreadResult)) →
      Regular events (s.handle (.submitWork submission)).2 →
      watchPushes events ([], (s.handle (.submitWork submission)).2) = ([], s') →
      (∀ epoch, s'.verifier.epoch? epoch = s.verifier.epoch? epoch) →
      ∀ name queue, s.results = some name → s'.sink? name = some queue → queue.isRead = true →
        queue.waiting.length < queue.capacity →
        ∃ c header, s.current = some c ∧
          s.verifier.applySubmission c.block.header submission = .ok header ∧
          (s'.handle (.submitWork submission)).1 = .ok () ∧
          (s'.handle (.submitWork submission)).2.sink? name =
            some { queue with waiting := queue.waiting ++ [c.block.withSeal header] } := by
  have hfaithful := hs.faithful
  refine ⟨?_, ?_, ?_, ?_⟩
  · intro α request e herror
    obtain ⟨hframe, hverifier⟩ := handle_of_error herror
    obtain ⟨hafter, hbare, hepochs⟩ := faithful_of_verified hfaithful hverifier
    exact ⟨hframe, hepochs, hafter.verify_congr hfaithful hbare hepochs⟩
  · intro block sink work hok
    have hpush : (s.pushWork block sink).1 = .ok work := Failure.lift_eq_ok_iff.1 hok
    have hnotices := s.notices_handle (.pushWork block sink)
    rw [hok] at hnotices
    exact ⟨(pushWork_of_ok hpush).2.2.2, hnotices⟩
  · intro α request hnone
    rw [notices_handle, hnone]
  · intro submission events s' hunread hregular hwatch hepochs name queue hresults hsink hread hroom
    obtain ⟨hframe, hverifier⟩ := handle_of_error hunread
    obtain ⟨hafter, hbare, -⟩ := faithful_of_verified hfaithful hverifier
    obtain ⟨hfaithful', hbare'⟩ := faithful_watchPushes [] hafter hregular
    obtain ⟨hkeeps, hkept⟩ := keeps_of_watchPushes_nil (congrArg Prod.fst hwatch)
    rw [hwatch] at hfaithful' hbare' hkeeps hkept
    have hcurrent' : s'.current = s.current := by rw [hkeeps.current, hframe]
    have hresults' : s'.results = some name := by rw [hkept, hframe, hresults]
    obtain ⟨c, header, hcurrent, happlied, hsubmit⟩ := submit_of_unread hfaithful hfaithful' hcurrent'
      (hbare'.trans hbare) hepochs hunread hresults' hsink hread hroom
    refine ⟨c, header, hcurrent, happlied, ?_, ?_⟩
    · rw [handle_submitWork, hsubmit]
    · rw [handle_submitWork, hsubmit]
      exact sink?_setSink_self hsink

end Sealer

/-! ## A sink with room for one block -/

namespace Sample

def newSealer : Sealer where
  verifier := .fullFake
  hashRate := { maxWorkers := 1024, window := 10 }
  staleThreshold := 7
  sinks := [("later", { capacity := 1 })]

/-- The solution of the block takes the room for its seal. -/
def sealing : List Sealer.Event :=
  [pushAt 1, .request ⟨_, .submitWork (solutionOf (blockAt 1))⟩]

def crowded : Sealer := (Sealer.watchPushes sealing ([], newSealer)).2

theorem crowded_reachable : crowded.Reachable :=
  ⟨{ mode := .fullFake }, walk, none, newSealer.sinks, 0,
    { config := { mode := .fullFake }, coordinator := { sealer := newSealer } }, sealing, rfl,
    ⟨trivial, trivial, trivial⟩, rfl⟩

end Sample

namespace Sealer

/-- While the sink is full the solution is refused; once it is read the same solution is accepted. -/
theorem refused_then_accepted : Sample.crowded.Reachable ∧
    (Sample.crowded.handle (.submitWork (Sample.solutionOf (Sample.blockAt 1)))).1 =
      .error (.refused (.invalidState .unreadResult)) ∧
    (((Sample.crowded.handle (.submitWork (Sample.solutionOf (Sample.blockAt 1)))).2.react
      (.drain "later")).handle (.submitWork (Sample.solutionOf (Sample.blockAt 1)))).1 = .ok () := by
  have hrefused : (Sample.crowded.handle (.submitWork
      (Sample.solutionOf (Sample.blockAt 1)))).1 =
        .error (.refused (.invalidState .unreadResult)) := by
    decide +kernel
  have hroom : (((Sample.crowded.handle (.submitWork
      (Sample.solutionOf (Sample.blockAt 1)))).2.react (.drain "later")).sink? "later").map
        (fun queue => (queue.isRead, queue.waiting.length, queue.capacity)) = some (true, 0, 1) := by
    decide +kernel
  have hresults : Sample.crowded.results = some "later" := by decide +kernel
  have hverifier : ∀ s : Sealer, (s.react (.drain "later")).verifier = s.verifier :=
    fun s => (s.updateSink_frame "later" _).1
  have hwatch : ∀ s : Sealer,
      watchPushes [.drain "later"] ([], s) = ([], s.react (.drain "later")) := fun _ => rfl
  obtain ⟨queue, hsink, hqueue⟩ := Option.map_eq_some_iff.1 hroom
  simp only [Prod.mk.injEq] at hqueue
  obtain ⟨hkept, -, -, hretry⟩ := handle_all_or_nothing Sample.crowded_reachable
  obtain ⟨-, hepochs, -⟩ := hkept _ _ _ hrefused
  rw [← hverifier] at hepochs
  obtain ⟨c, header, -, -, haccepted, -⟩ := hretry _ [.drain "later"] _ hrefused
    ⟨trivial, trivial⟩ (hwatch _) hepochs "later" queue hresults hsink hqueue.1 (by omega)
  exact ⟨Sample.crowded_reachable, hrefused, haccepted⟩

end Sealer

end BlockSeal
